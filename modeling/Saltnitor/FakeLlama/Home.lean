import Saltnitor.Lib.Rewrite
import Saltnitor.Rust.JsonSpelling

/-!
# Home paths

`sanitize_home` goes through a text with a resume position: behind a home path it replaced, or
behind a `/home/` that begins none. `withoutHome` replaces home paths from the left. They are the
same (`sanitizeHome_eq`): the characters the loop skips begin no home path. A home path holds
no quote, so on a JSON text the pass works on each string by itself (`keepsOutside_withoutHome`).
-/

namespace Saltnitor.FakeLlama

open Rust Rewrite

/-! ## The loop -/

def homeDir : Str := "/home/"

def placeholder : Str := "$\x7bHOME\x7d/"

/-- What is before the first `pat`, which is not empty, and what is behind it. -/
def splitAtStr (pat : Str) : Str → Option (Str × Str)
  | [] => none
  | c :: s =>
    match List.isPrefixOf? pat (c :: s) with
    | some after => some ([], after)
    | none => (splitAtStr pat s).map fun p => (c :: p.1, p.2)

/-- The loop on the `rest` of the text, with fuel for every home directory in it. -/
def sanitizeFrom : Nat → Str → Str
  | 0, rest => rest
  | fuel + 1, rest =>
    match splitAtStr homeDir rest with
    | none => rest
    | some (before, after) =>
      match splitOnce '/' after with
      | some (user, tail) =>
        if user ≠ [] ∧ ¬ user.any (fun c => c == '"' || isWhitespace c) = true then
          before ++ (placeholder ++ sanitizeFrom fuel tail)
        else before ++ (homeDir ++ sanitizeFrom fuel after)
      | none => before ++ (homeDir ++ sanitizeFrom fuel after)

def sanitizeHome (s : Str) : Str := sanitizeFrom s.length s

example : sanitizeHome "a /home/al/x, /home/ b and \"/home/bob/q\" /home/home/home/c/" =
    "a $\x7bHOME\x7d/x, /home/ b and \"$\x7bHOME\x7d/q\" $\x7bHOME\x7d/home/c/" := by decide +kernel

/-! ## What it should do -/

/-- A name a home directory may have. -/
def IsUser (user : Str) : Prop :=
  user ≠ [] ∧ ∀ c ∈ user, c ≠ '/' ∧ c ≠ '"' ∧ isWhitespace c = false

instance (user : Str) : Decidable (IsUser user) := inferInstanceAs (Decidable (_ ∧ ∀ c ∈ user, _))

def homePath (user : Str) : Str := homeDir ++ (user ++ ['/'])

/-- What is behind the home path a text begins with. -/
def homeRest (s : Str) : Option Str :=
  (List.isPrefixOf? homeDir s).bind fun after =>
    (splitOnce '/' after).bind fun p => if IsUser p.1 then some p.2 else none

variable {s r p user : Str} {c : Char}

theorem homeRest_eq_some : homeRest s = some r ↔ ∃ user, IsUser user ∧ s = homePath user ++ r := by
  simp only [homeRest, Option.bind_eq_some_iff, isPrefixOf?_eq_some, Option.ite_none_right_eq_some,
    Option.some.injEq, Prod.exists, splitOnce_eq_some]
  constructor
  · rintro ⟨_, rfl, user, _, ⟨rfl, -⟩, hu, rfl⟩
    exact ⟨user, hu, by rw [homePath, List.append_assoc, List.append_assoc]; rfl⟩
  · rintro ⟨user, hu, rfl⟩
    refine ⟨user ++ '/' :: r, ?_, user, r, ⟨rfl, fun hm => (hu.2 _ hm).1 rfl⟩, hu, rfl⟩
    rw [homePath, List.append_assoc, List.append_assoc]
    rfl

/-- Home paths, as something to be replaced. -/
def homePaths : Finder Char where
  find s := (homeRest s).map fun r => (0, s.length - r.length)
  pos h := by
    obtain ⟨r, hr, he⟩ := Option.map_eq_some_iff.mp h
    obtain ⟨user, -, rfl⟩ := homeRest_eq_some.mp hr
    cases he
    rw [List.length_append, Nat.add_sub_cancel]
    exact Nat.succ_pos _
  le h := by
    obtain ⟨r, -, he⟩ := Option.map_eq_some_iff.mp h
    cases he
    omega

/-- The text with every home path replaced, from the left. -/
def withoutHome (s : Str) : Str := homePaths.rewrite placeholder s

theorem homeRest_of_ne (h : c ≠ '/') : homeRest (c :: s) = none := by
  rw [Option.eq_none_iff_forall_ne_some]
  intro r hr
  obtain ⟨user, -, he⟩ := homeRest_eq_some.mp hr
  exact h (List.cons.inj he).1

theorem prefix_of_homeRest (h : homeRest s ≠ none) : homeDir <+: s := by
  obtain ⟨r, hr⟩ := Option.ne_none_iff_exists'.mp h
  obtain ⟨user, -, rfl⟩ := homeRest_eq_some.mp hr
  exact (List.prefix_append ..).trans (List.prefix_append ..)

theorem withoutHome_cons (h : homeRest (c :: s) = none) : withoutHome (c :: s) = c :: withoutHome s :=
  rewrite_cons (Option.map_eq_none_iff.mpr h)

theorem withoutHome_append (h : ∀ u, u <:+ p → u ≠ [] → homeRest (u ++ s) = none) :
    withoutHome (p ++ s) = p ++ withoutHome s :=
  rewrite_append fun u hu hne => Option.map_eq_none_iff.mpr (h u hu hne)

theorem find_homePaths (h : homeRest s = some r) :
    ∃ n, homePaths.find s = some (0, n) ∧ s.drop (0 + n) = r := by
  obtain ⟨user, -, rfl⟩ := homeRest_eq_some.mp h
  refine ⟨(homePath user).length, ?_, by rw [Nat.zero_add, List.drop_left]⟩
  refine (Option.map_eq_some_iff.mpr ⟨r, h, ?_⟩)
  rw [List.length_append, Nat.add_sub_cancel]

theorem withoutHome_home (h : homeRest s = some r) : withoutHome s = placeholder ++ withoutHome r := by
  obtain ⟨n, hn, rfl⟩ := find_homePaths h
  rw [withoutHome, rewrite_match hn]
  rfl

/-- Induction along the places of a text where a home path begins or none does. -/
theorem home_induction {P : Str → Prop} (nil : P [])
    (step : ∀ c s, homeRest (c :: s) = none → P s → P (c :: s))
    (home : ∀ s r, homeRest s = some r → P r → P s) (s : Str) : P s := by
  induction s using scan_induction homePaths with
  | nil => exact nil
  | step c s hf ih => exact step c s (Option.map_eq_none_iff.mp hf) ih
  | found s k d hf ih =>
    obtain ⟨r, hr, -⟩ := Option.map_eq_some_iff.mp hf
    obtain ⟨n, hn, rfl⟩ := find_homePaths hr
    obtain ⟨rfl, rfl⟩ := Prod.mk.inj (Option.some.inj (hf.symm.trans hn))
    exact home s _ hr ih

/-! ## The loop does it -/

theorem splitAtStr_none (h : splitAtStr p s = none) : ∀ t, t <:+ s → t ≠ [] → ¬ p <+: t := by
  induction s with
  | nil => exact fun t ht hne => absurd (List.suffix_nil.mp ht) hne
  | cons c s ih =>
    rw [splitAtStr] at h
    split at h
    · cases h
    · rename_i hno
      intro t ht hne hpt
      rcases List.suffix_cons_iff.mp ht with rfl | ht
      · exact isPrefixOf?_eq_none.mp hno hpt
      · exact ih (Option.map_eq_none_iff.mp h) t ht hne hpt

theorem splitAtStr_some {before after : Str} (h : splitAtStr p s = some (before, after)) :
    s = before ++ (p ++ after) ∧ ∀ u, u <:+ before → u ≠ [] → ¬ p <+: u ++ (p ++ after) := by
  induction s generalizing before with
  | nil => cases h
  | cons c s ih =>
    rw [splitAtStr] at h
    split at h
    · rename_i r hr
      cases h
      exact ⟨(isPrefixOf?_eq_some.mp hr).trans (List.nil_append _).symm,
        fun u hu hne => absurd (List.suffix_nil.mp hu) hne⟩
    · rename_i hno
      obtain ⟨⟨a, b⟩, hab, he⟩ := Option.map_eq_some_iff.mp h
      cases he
      obtain ⟨rfl, ha⟩ := ih hab
      refine ⟨rfl, fun u hu hne hpu => ?_⟩
      rcases List.suffix_cons_iff.mp hu with rfl | hu
      · exact isPrefixOf?_eq_none.mp hno hpu
      · exact ha u hu hne hpu

/-- Where the loop skips a home directory, no home path begins in it: at its last slash one could
begin only with `home` as the name before. -/
theorem withoutHome_skip (h : homeRest (homeDir ++ s) = none) :
    withoutHome (homeDir ++ s) = homeDir ++ withoutHome s := by
  have hparts : ∀ u ∈ homeDir.tails, u ≠ [] → u = homeDir ∨ u = ['/'] ∨ u.head? ≠ some '/' := by
    decide
  refine withoutHome_append fun u hu hne => ?_
  rcases hparts u ((List.mem_tails _ _).mpr hu) hne with rfl | rfl | hhead
  · exact h
  · rw [Option.eq_none_iff_forall_ne_some]
    intro r hr
    obtain ⟨user, -, he⟩ := homeRest_eq_some.mp hr
    have hhome : homeRest (homeDir ++ s) = some (user ++ '/' :: r) := by
      have hs : s = ("home/" : Str) ++ ((user ++ ['/']) ++ r) := (List.cons.inj he).2
      refine homeRest_eq_some.mpr ⟨"home", by decide, ?_⟩
      rw [hs, List.append_assoc]
      rfl
    rw [h] at hhome
    cases hhome
  · cases u with
    | nil => exact absurd rfl hne
    | cons c u => exact homeRest_of_ne fun hc => hhead (congrArg some hc)

theorem homeRest_split : homeRest (homeDir ++ s) =
    (splitOnce '/' s).bind fun p => if IsUser p.1 then some p.2 else none := by
  rw [homeRest, isPrefixOf?_eq_some.mpr rfl, Option.bind_some]

theorem isUser_iff {tail : Str} (h : splitOnce '/' s = some (user, tail)) :
    IsUser user ↔ user ≠ [] ∧ ¬ user.any (fun c => c == '"' || isWhitespace c) = true := by
  obtain ⟨-, hslash⟩ := splitOnce_eq_some.mp h
  simp only [IsUser, List.any_eq_true, Bool.or_eq_true, beq_iff_eq, not_exists, not_and, not_or,
    Bool.not_eq_true]
  exact and_congr_right' (forall₂_congr fun c hc => and_iff_right fun he => hslash (he ▸ hc))

theorem sanitizeFrom_eq (fuel : Nat) (h : s.length ≤ fuel) : sanitizeFrom fuel s = withoutHome s := by
  induction fuel generalizing s with
  | zero =>
    rw [List.length_eq_zero_iff.mp (Nat.le_zero.mp h)]
    rfl
  | succ fuel ih =>
    rw [sanitizeFrom]
    split
    · rename_i hnone
      refine (rewrite_of_none fun t ht => Option.map_eq_none_iff.mpr ?_).symm
      cases t with
      | nil => rfl
      | cons c t =>
        by_contra hr
        exact splitAtStr_none hnone _ ht (List.cons_ne_nil c t) (prefix_of_homeRest hr)
    · rename_i before after hsome
      obtain ⟨rfl, hfirst⟩ := splitAtStr_some hsome
      have hbefore : withoutHome (before ++ (homeDir ++ after)) =
          before ++ withoutHome (homeDir ++ after) := by
        refine withoutHome_append fun u hu hne => ?_
        by_contra hr
        exact hfirst u hu hne (prefix_of_homeRest hr)
      have hlen : after.length ≤ fuel := by
        have hdir : homeDir.length = 6 := rfl
        simp only [List.length_append] at h
        omega
      rw [hbefore]
      split
      · rename_i user tail hsplit
        obtain ⟨rfl, -⟩ := splitOnce_eq_some.mp hsplit
        simp only [List.length_append, List.length_cons] at hlen
        split
        · rename_i hu
          have hr : homeRest (homeDir ++ (user ++ '/' :: tail)) = some tail := by
            rw [homeRest_split, hsplit, Option.bind_some, if_pos ((isUser_iff hsplit).mpr hu)]
          rw [withoutHome_home hr, ih (by omega)]
        · rename_i hu
          have hr : homeRest (homeDir ++ (user ++ '/' :: tail)) = none := by
            rw [homeRest_split, hsplit, Option.bind_some, if_neg (mt (isUser_iff hsplit).mp hu)]
          rw [withoutHome_skip hr, ih (by simp only [List.length_append, List.length_cons]; omega)]
      · rename_i hsplit
        have hr : homeRest (homeDir ++ after) = none := by
          rw [homeRest_split, hsplit, Option.bind_none]
        rw [withoutHome_skip hr, ih hlen]

/-- **The loop replaces the home paths, from the left.** -/
theorem sanitizeHome_eq (s : Str) : sanitizeHome s = withoutHome s := sanitizeFrom_eq _ (Nat.le_refl _)

/-! ## On a JSON text -/

theorem quote_not_mem (h : IsUser user) : '"' ∉ homePath user := by
  rw [homePath, List.mem_append, List.mem_append, List.mem_singleton, not_or, not_or]
  exact ⟨by decide, fun hm => (h.2 _ hm).2.1 rfl, by decide⟩

theorem homeRest_quote (b s : Str) : homeRest (b ++ '"' :: s) = (homeRest b).map (· ++ '"' :: s) := by
  cases hb : homeRest b with
  | some r =>
    obtain ⟨user, hu, rfl⟩ := homeRest_eq_some.mp hb
    exact homeRest_eq_some.mpr ⟨user, hu, List.append_assoc ..⟩
  | none =>
    rw [Option.map_none, Option.eq_none_iff_forall_ne_some]
    intro r hr
    obtain ⟨user, hu, he⟩ := homeRest_eq_some.mp hr
    obtain ⟨q, rfl⟩ := prefix_append_cons (quote_not_mem hu) (⟨r, he.symm⟩ : _ <+: b ++ '"' :: s)
    rw [homeRest_eq_some.mpr ⟨user, hu, rfl⟩] at hb
    cases hb

theorem withoutHome_quote (b s : Str) :
    withoutHome (b ++ '"' :: s) = withoutHome b ++ '"' :: withoutHome s := by
  induction b using home_induction with
  | nil => exact withoutHome_cons (homeRest_of_ne (by decide))
  | step c b hc ih =>
    have hc' : homeRest (c :: (b ++ '"' :: s)) = none := by
      rw [← List.cons_append, homeRest_quote, hc, Option.map_none]
    rw [List.cons_append, withoutHome_cons hc', withoutHome_cons hc, ih, List.cons_append]
  | home b r hr ih =>
    have hr' : homeRest (b ++ '"' :: s) = some (r ++ '"' :: s) := by
      rw [homeRest_quote, hr, Option.map_some]
    rw [withoutHome_home hr', withoutHome_home hr, ih, List.append_assoc]

theorem keepsOutside_withoutHome : KeepsOutside withoutHome where
  nil := rfl
  pass c s hc := withoutHome_cons (homeRest_of_ne (by rintro rfl; exact absurd hc (by decide)))
  quote := withoutHome_quote
  number s hs := by
    cases s with
    | nil => exact hs
    | cons c s =>
      cases h : homeRest (c :: s) with
      | none =>
        rw [withoutHome_cons h]
        exact hs
      | some r =>
        rw [withoutHome_home h]
        rintro d ⟨⟩
        decide

end Saltnitor.FakeLlama
