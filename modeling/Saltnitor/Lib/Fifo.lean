import Mathlib.Data.Finset.Card
import Mathlib.Data.List.Nodup
import Mathlib.Logic.Function.Basic
import Saltnitor.Lib.Recent

/-!
# A queue that holds each thing once

`step` puts a thing behind the others, unless it is there, and drops the oldest ones past
`cap`. What the queue is for is `Stamped`: of each thing, the time it came in; a command keeps the
newest `cap` things, whatever order they are stored in. `Rep` joins the two, and every run of
commands keeps it (`rep_run`), so nothing is dropped while something older stays.
-/

namespace Fifo

open Recent

variable {α : Type*}

inductive Cmd (α : Type*) where
  | load (x : α)
  | unload (x : α)
  deriving DecidableEq

/-! ## The queue -/

/-- At most the newest `cap`, if that is a number. -/
def trim (cap : Option ℕ) (q : List α) : List α :=
  match cap with
  | some c => q.rtake c
  | none => q

theorem length_trim_le {cap : Option ℕ} {c : ℕ} (hc : cap = some c) (q : List α) :
    (trim cap q).length ≤ c := by
  subst hc
  rw [trim, length_rtake]
  omega

theorem getLast?_trim {cap : Option ℕ} (hcap : cap ≠ some 0) (q : List α) (x : α) :
    (trim cap (q ++ [x])).getLast? = some x := by
  cases cap with
  | none => exact List.getLast?_concat ..
  | some c =>
    have hpos : 1 ≤ c := Nat.one_le_iff_ne_zero.mpr fun h => hcap (h ▸ rfl)
    have hlast : [x].rtake c = [x] := rtake_of_le hpos
    rw [trim, rtake_append, hlast, List.getLast?_concat]

section Queue

variable [DecidableEq α]

def step (cap : Option ℕ) (q : List α) : Cmd α → List α
  | .load x => if x ∈ q then q else trim cap (q ++ [x])
  | .unload x => q.filter (· ≠ x)

def run (cap : Option ℕ) (q : List α) (cmds : List (Cmd α)) : List α := cmds.foldl (step cap) q

theorem length_run_le {cap : Option ℕ} {c : ℕ} (hc : cap = some c) (q : List α)
    (cmds : List (Cmd α)) : (run cap q cmds).length ≤ max c q.length := by
  induction cmds generalizing q with
  | nil => exact Nat.le_max_right ..
  | cons cmd cmds ih =>
    have hstep : (step cap q cmd).length ≤ max c q.length := by
      cases cmd with
      | load x =>
        have htrim := length_trim_le hc (q ++ [x])
        rw [step]
        split
        · exact Nat.le_max_right ..
        · exact htrim.trans (Nat.le_max_left ..)
      | unload x => exact (List.length_filter_le ..).trans (Nat.le_max_right ..)
    have hrun : (run cap q (cmd :: cmds)).length ≤ max c (step cap q cmd).length := ih _
    omega

end Queue

/-! ## What it stands for -/

/-- What is there, each thing with the time it came in. -/
structure Stamped (α : Type*) where
  now : ℕ
  since : α → Option ℕ

namespace Stamped

variable {s : Stamped α} {x y z : α} {c : ℕ} {cap : Option ℕ}

/-- `x` came in before `y`. -/
def Older (s : Stamped α) (x y : α) : Prop :=
  ∃ t u, s.since x = some t ∧ s.since y = some u ∧ t < u

/-- Fewer than `c` things came in after `x`. -/
def Newest (s : Stamped α) (c : ℕ) (x : α) : Prop :=
  ∀ F : Finset α, (∀ y ∈ F, s.Older x y) → F.card < c

theorem Older.irrefl : ¬ s.Older x x := by
  rintro ⟨t, u, ht, hu, hlt⟩
  cases ht.symm.trans hu
  exact Nat.lt_irrefl t hlt

theorem Older.asymm (h : s.Older x y) : ¬ s.Older y x := by
  obtain ⟨t, u, ht, hu, hlt⟩ := h
  rintro ⟨u', t', hu', ht', hlt'⟩
  cases ht.symm.trans ht'
  cases hu.symm.trans hu'
  omega

theorem Older.isSome (h : s.Older x y) : (s.since y).isSome = true := by
  obtain ⟨_, _, -, hu, -⟩ := h
  rw [hu, Option.isSome_some]

/-- Only the newest `cap` things stay. -/
noncomputable def keep (s : Stamped α) (cap : Option ℕ) : Stamped α :=
  open Classical in
  { s with since := fun x => if ∀ c ∈ cap, s.Newest c x then s.since x else none }

section

variable [DecidableEq α]

noncomputable def step (cap : Option ℕ) (s : Stamped α) : Cmd α → Stamped α
  | .load x =>
    if (s.since x).isSome then s
    else keep { now := s.now + 1, since := Function.update s.since x (some s.now) } cap
  | .unload x => { s with since := Function.update s.since x none }

noncomputable def run (cap : Option ℕ) (s : Stamped α) (cmds : List (Cmd α)) : Stamped α :=
  cmds.foldl (step cap) s

/-- The things of a list, as if they had come in one after the other. -/
def ofList (q : List α) : Stamped α where
  now := q.length
  since x := if x ∈ q then some (q.idxOf x) else none

end

end Stamped

open Stamped

/-- The queue holds what is there, the oldest first. -/
structure Rep (q : List α) (s : Stamped α) : Prop where
  sorted : q.Pairwise s.Older
  mem : ∀ x, x ∈ q ↔ (s.since x).isSome = true
  past : ∀ x t, s.since x = some t → t < s.now

variable {q : List α} {s s' : Stamped α} {x y : α}

theorem Rep.nodup (h : Rep q s) : q.Nodup :=
  h.sorted.imp fun {a b} hab (he : a = b) => Older.irrefl (he ▸ hab)

/-- The last `c` of an ordered list are those with fewer than `c` behind them. -/
theorem mem_rtake_iff {R : α → α → Prop} {l : List α} (hirrefl : ∀ x, ¬ R x x)
    (hasymm : ∀ x y, R x y → ¬ R y x) (hl : l.Pairwise R) (c : ℕ) (x : α) :
    x ∈ l.rtake c ↔
      x ∈ l ∧ ∀ F : Finset α, (∀ y ∈ F, y ∈ l ∧ R x y) → F.card < c := by
  classical
  induction l with
  | nil => simp [List.rtake]
  | cons a l ih =>
    obtain ⟨ha, hl'⟩ := List.pairwise_cons.mp hl
    have hnodup : l.Nodup := hl'.imp fun {y z} (hyz : R y z) (he : y = z) => hirrefl z (he ▸ hyz)
    have hnot : a ∉ l := fun hmem => hirrefl a (ha a hmem)
    by_cases hlen : l.length < c
    · -- the whole list is short enough
      rw [rtake_of_le (by rw [List.length_cons]; omega)]
      refine ⟨fun hx => ⟨hx, fun F hF => ?_⟩, And.left⟩
      have hsub : F ⊆ (a :: l).toFinset.erase x := by
        intro y hy
        obtain ⟨hmem, hR⟩ := hF y hy
        exact Finset.mem_erase.mpr ⟨fun he => hirrefl x (he ▸ hR), List.mem_toFinset.mpr hmem⟩
      have hcard := Finset.card_le_card hsub
      rw [Finset.card_erase_of_mem (List.mem_toFinset.mpr hx)] at hcard
      have hle := List.toFinset_card_le (a :: l)
      rw [List.length_cons] at hle
      omega
    · have hdrop : (a :: l).rtake c = l.rtake c := by
        simp only [List.rtake, List.length_cons]
        rw [Nat.succ_sub (by omega), List.drop_succ_cons]
      rw [hdrop, ih hl']
      constructor
      · rintro ⟨hx, hF⟩
        refine ⟨List.mem_cons_of_mem a hx, fun F hFl => hF F fun y hy => ?_⟩
        obtain ⟨hmem, hR⟩ := hFl y hy
        rcases List.mem_cons.mp hmem with rfl | hmem
        · exact absurd hR (hasymm _ _ (ha x hx))
        · exact ⟨hmem, hR⟩
      · rintro ⟨hx, hF⟩
        rcases List.mem_cons.mp hx with rfl | hx
        · -- everything else came after the first one
          have hall := hF l.toFinset fun y hy =>
            ⟨List.mem_cons_of_mem x (List.mem_toFinset.mp hy), ha y (List.mem_toFinset.mp hy)⟩
          rw [List.toFinset_card_of_nodup hnodup] at hall
          omega
        · exact ⟨hx, fun F hFl => hF F fun y hy => ⟨List.mem_cons_of_mem a (hFl y hy).1, (hFl y hy).2⟩⟩

/-- In a queue, the newest are the last ones. -/
theorem Rep.newest_iff (h : Rep q s) (c : ℕ) : x ∈ q.rtake c ↔ x ∈ q ∧ s.Newest c x := by
  rw [mem_rtake_iff (fun _ => Older.irrefl) (fun _ _ => Older.asymm) h.sorted]
  refine and_congr_right fun _ => forall_congr' fun F => imp_congr_left ?_
  exact forall₂_congr fun y _ => ⟨And.right, fun hy => ⟨(h.mem y).mpr hy.isSome, hy⟩⟩

theorem older_keep {cap : Option ℕ} (hx : ∀ c ∈ cap, s.Newest c x) (hy : ∀ c ∈ cap, s.Newest c y)
    (h : s.Older x y) : (s.keep cap).Older x y := by
  obtain ⟨t, u, ht, hu, hlt⟩ := h
  exact ⟨t, u, (if_pos hx).trans ht, (if_pos hy).trans hu, hlt⟩

theorem since_keep {cap : Option ℕ} {t : ℕ} :
    (s.keep cap).since x = some t ↔ (∀ c ∈ cap, s.Newest c x) ∧ s.since x = some t := by
  simp only [keep]
  split
  · rename_i hx
    exact ⟨fun h => ⟨hx, h⟩, And.right⟩
  · rename_i hx
    exact ⟨fun h => (nomatch h), fun h => absurd h.1 hx⟩

theorem Rep.mem_trim (h : Rep q s) (cap : Option ℕ) :
    x ∈ trim cap q ↔ x ∈ q ∧ ∀ c ∈ cap, s.Newest c x := by
  cases cap with
  | none => simp [trim]
  | some c =>
    rw [trim, h.newest_iff]
    simp

theorem Rep.keep (h : Rep q s) (cap : Option ℕ) : Rep (trim cap q) (s.keep cap) where
  sorted := by
    have hsub : (trim cap q).Sublist q := by
      cases cap with
      | none => exact .refl _
      | some c => exact List.drop_sublist ..
    refine (h.sorted.sublist hsub).imp_of_mem fun hx hy hxy => ?_
    exact older_keep ((h.mem_trim cap).mp hx).2 ((h.mem_trim cap).mp hy).2 hxy
  mem x := by
    simp only [h.mem_trim, h.mem, Option.isSome_iff_exists, since_keep, exists_and_left]
    exact And.comm
  past x t ht := h.past x t (since_keep.mp ht).2

section

variable [DecidableEq α]

theorem Rep.push (h : Rep q s) (hx : x ∉ q) :
    Rep (q ++ [x]) { now := s.now + 1, since := Function.update s.since x (some s.now) } := by
  have hne {y : α} (hy : y ∈ q) : y ≠ x := fun he => hx (he ▸ hy)
  have hold {y : α} (hy : y ∈ q) : Function.update s.since x (some s.now) y = s.since y :=
    Function.update_of_ne (hne hy) ..
  refine ⟨List.pairwise_append.mpr ⟨?_, List.pairwise_singleton .., ?_⟩, fun y => ?_, fun y t ht => ?_⟩
  · refine h.sorted.imp_of_mem fun ha hb hab => ?_
    obtain ⟨t, u, ht, hu, hlt⟩ := hab
    exact ⟨t, u, (hold ha).trans ht, (hold hb).trans hu, hlt⟩
  · intro y hy z hz
    rw [List.mem_singleton.mp hz]
    obtain ⟨t, ht⟩ := Option.isSome_iff_exists.mp ((h.mem y).mp hy)
    exact ⟨t, s.now, (hold hy).trans ht, Function.update_self .., h.past y t ht⟩
  · by_cases hy : y = x
    · subst hy
      simp
    · simp [hy, h.mem]
  · by_cases hy : y = x
    · subst hy
      have hnow : s.now = t := by simpa using ht
      exact hnow ▸ Nat.lt_succ_self _
    · exact Nat.lt_succ_of_lt (h.past y t (by simpa [hy] using ht))

theorem Rep.drop (h : Rep q s) (x : α) :
    Rep (q.filter (· ≠ x)) { s with since := Function.update s.since x none } where
  sorted := by
    refine (h.sorted.sublist List.filter_sublist).imp_of_mem fun {a b} ha hb hab => ?_
    have ha : a ≠ x := by simpa using (List.mem_filter.mp ha).2
    have hb : b ≠ x := by simpa using (List.mem_filter.mp hb).2
    obtain ⟨t, u, ht, hu, hlt⟩ := hab
    exact ⟨t, u, (Function.update_of_ne ha ..).trans ht, (Function.update_of_ne hb ..).trans hu, hlt⟩
  mem y := by
    by_cases hy : y = x
    · subst hy
      simp
    · simp [hy, h.mem]
  past y t ht := by
    by_cases hy : y = x
    · subst hy
      simp at ht
    · exact h.past y t (by simpa [hy] using ht)

/-- **A command does to the queue what it does to what is there.** -/
theorem rep_step (cap : Option ℕ) (h : Rep q s) (cmd : Cmd α) :
    Rep (step cap q cmd) (s.step cap cmd) := by
  cases cmd with
  | load x =>
    simp only [step, Stamped.step]
    by_cases hx : x ∈ q
    · rw [if_pos hx, if_pos ((h.mem x).mp hx)]
      exact h
    · rw [if_neg hx, if_neg (mt (h.mem x).mpr hx)]
      exact (h.push hx).keep cap
  | unload x => exact h.drop x

theorem rep_run (cap : Option ℕ) (h : Rep q s) (cmds : List (Cmd α)) :
    Rep (run cap q cmds) (s.run cap cmds) := by
  induction cmds generalizing q s with
  | nil => exact h
  | cons cmd cmds ih => exact ih (rep_step cap h cmd)

theorem rep_ofList (h : q.Nodup) : Rep q (.ofList q) where
  sorted := by
    rw [List.pairwise_iff_getElem]
    intro i j hi hj hij
    refine ⟨i, j, ?_, ?_, hij⟩
    · simp only [ofList, List.getElem_mem, if_true, h.idxOf_getElem]
    · simp only [ofList, List.getElem_mem, if_true, h.idxOf_getElem]
  mem x := by
    by_cases hx : x ∈ q <;> simp [ofList, hx]
  past x t ht := by
    simp only [ofList, Option.ite_none_right_eq_some, Option.some.injEq] at ht
    obtain ⟨hx, rfl⟩ := ht
    exact List.idxOf_lt_length_of_mem hx

end

end Fifo
