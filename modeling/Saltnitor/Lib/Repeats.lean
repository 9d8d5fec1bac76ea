import Mathlib.Data.List.Destutter
import Mathlib.Data.List.Induction
import Saltnitor.Lib.Recent

/-!
# The most recent elements, repeats left out

`news` leaves out an element that equals the one before it. A buffer that takes
elements this way and drops its oldest one when it is longer than `n` keeps the
most recent ones, but not `n` of them if it was longer to begin with (`foldl_push`).
`rtake_news_iff` says when that is the end of the whole sequence without repeats.
-/

namespace Repeats

open Recent

variable {α : Type*} [DecidableEq α]

/-- The elements that differ from the one before, the first one from `last`. -/
def news : Option α → List α → List α
  | _, [] => []
  | last, a :: as => (if last = some a then [] else [a]) ++ news (some a) as

variable {a : α} {as bs : List α} {last : Option α} {n : ℕ}

theorem destutter'_eq_news : as.destutter' (· ≠ ·) a = a :: news (some a) as := by
  induction as generalizing a with
  | nil => rfl
  | cons b as ih =>
    rw [List.destutter'_cons, news]
    by_cases h : a = b
    · rw [if_neg (not_not.mpr h), if_pos (congrArg some h), h, ih]
      rfl
    · rw [if_pos h, if_neg fun he => h (Option.some.inj he), ih]
      rfl

theorem destutter_eq_news : as.destutter (· ≠ ·) = news none as := by
  cases as with
  | nil => rfl
  | cons a as => exact destutter'_eq_news

theorem news_append : news last (as ++ bs) = news last as ++ news (as.getLast?.or last) bs := by
  induction as generalizing last with
  | nil => rfl
  | cons a as ih =>
    rw [List.cons_append, news, ih, news, List.append_assoc]
    congr 3
    cases as with
    | nil => rfl
    | cons b as => simp [List.getLast?_cons_cons, List.getLast?_eq_some_getLast (List.cons_ne_nil b as)]

theorem news_sublist : (news last as).Sublist as := by
  induction as generalizing last with
  | nil => exact .slnil
  | cons a as ih =>
    rw [news]
    split
    · exact ih.cons a
    · exact ih.cons_cons a

theorem destutter_append :
    (as ++ bs).destutter (· ≠ ·) = as.destutter (· ≠ ·) ++ news as.getLast? bs := by
  rw [destutter_eq_news, destutter_eq_news, news_append, Option.or_none]

theorem news_of_isChain (h : (a :: as).IsChain (· ≠ ·)) : news (some a) as = as := by
  have hd := List.destutter'_of_isChain_cons (R := (· ≠ ·)) as h
  rw [destutter'_eq_news] at hd
  exact (List.cons.inj hd).2

theorem destutter_concat : ∃ ds, (as ++ [a]).destutter (· ≠ ·) = ds ++ [a] := by
  induction as using List.reverseRecOn generalizing a with
  | nil => exact ⟨[], rfl⟩
  | append_singleton as b ih =>
    rw [destutter_append, List.getLast?_concat, news]
    by_cases h : b = a
    · obtain ⟨ds, hds⟩ := ih (a := b)
      rw [if_pos (congrArg some h), hds, h]
      exact ⟨ds, List.append_nil _⟩
    · rw [if_neg fun he => h (Option.some.inj he)]
      exact ⟨_, rfl⟩

theorem suffix_destutter (h : bs.IsChain (· ≠ ·)) : bs <:+ (as ++ bs).destutter (· ≠ ·) := by
  cases bs with
  | nil => exact List.nil_suffix
  | cons b bs =>
    obtain ⟨ds, hds⟩ : ∃ ds, (as ++ [b]).destutter (· ≠ ·) = ds ++ [b] := destutter_concat
    rw [List.append_cons, destutter_append, hds, List.getLast?_concat, news_of_isChain h]
    exact ⟨ds, by rw [List.append_assoc]; rfl⟩

/-! ## The last `n` -/

/-- The end of a sequence is the end of the one without repeats just when it has none itself. -/
theorem rtake_destutter_iff :
    as.rtake n = (as.destutter (· ≠ ·)).rtake n ↔ (as.rtake n).IsChain (· ≠ ·) := by
  constructor
  · intro h
    rw [h]
    exact (List.isChain_destutter _ as).suffix rtake_suffix
  · intro h
    by_cases hn : as.length ≤ n
    · rw [rtake_of_le hn] at h
      rw [List.destutter_of_isChain _ as h]
    · obtain ⟨cs, hcs⟩ : as.rtake n <:+ as := rtake_suffix
      have hsuffix : as.rtake n <:+ (cs ++ as.rtake n).destutter (· ≠ ·) := suffix_destutter h
      rw [hcs] at hsuffix
      obtain ⟨ds, hds⟩ := hsuffix
      rw [← hds, rtake_append, length_rtake, Nat.min_eq_left (by omega), Nat.sub_self, List.rtake_zero,
        List.nil_append]
      exact (rtake_of_le (by rw [length_rtake]; omega)).symm

theorem rtake_news_iff :
    (as ++ news as.getLast? bs).rtake n = ((as ++ bs).destutter (· ≠ ·)).rtake n ↔
      (as.rtake (n - (news as.getLast? bs).length)).IsChain (· ≠ ·) := by
  rw [destutter_append, rtake_append, rtake_append, List.append_left_inj, rtake_destutter_iff]

/-! ## The buffer -/

/-- Add an element that differs from the last one, and drop the oldest if there are more than `n`. -/
def push (n : ℕ) (as : List α) (a : α) : List α :=
  if as.getLast? ≠ some a then
    let bs := as ++ [a]
    if bs.length > n then bs.tail else bs
  else as

theorem push_eq : push n as a = (as ++ news as.getLast? [a]).rtake (max n as.length) := by
  rw [push, news, news, List.append_nil]
  by_cases h : as.getLast? = some a
  · rw [if_neg (not_not.mpr h), if_pos h, List.append_nil, rtake_of_le (le_max_right ..)]
  · rw [if_pos h, if_neg h, List.rtake]
    dsimp only
    rw [List.length_append, List.length_singleton]
    split
    · rw [show as.length + 1 - max n as.length = 1 by omega, List.drop_one]
    · rw [show as.length + 1 - max n as.length = 0 by omega, List.drop_zero]

theorem getLast_push (hn : 0 < n) : (push n as a).getLast? = some a := by
  rw [push]
  split
  · dsimp only
    split
    · rename_i hl
      have hne : as ≠ [] := by
        rintro rfl
        simp at hl
        omega
      rw [List.tail_append_of_ne_nil hne, List.getLast?_concat]
    · exact List.getLast?_concat ..
  · rename_i h
    exact not_not.mp h

/-- **What the buffer holds.** -/
theorem foldl_push (hn : 0 < n) :
    bs.foldl (push n) as = (as ++ news as.getLast? bs).rtake (max n as.length) := by
  induction bs generalizing as with
  | nil => rw [List.foldl_nil, news, List.append_nil, rtake_of_le (le_max_right ..)]
  | cons b bs ih =>
    have hlen : max n (push n as b).length = max n as.length := by
      rw [push_eq, length_rtake, List.length_append]
      omega
    have hcons : news as.getLast? (b :: bs) = news as.getLast? [b] ++ news (some b) bs := by
      rw [news, news, news, List.append_nil]
    rw [List.foldl_cons, ih, getLast_push hn, hlen, push_eq, rtake_append_rtake, List.append_assoc,
      hcons]

end Repeats
