import Mathlib.Data.Option.Basic
import Mathlib.Data.List.Induction
import Mathlib.Order.Basic
import Mathlib.Data.Nat.Find

/-!
# Runs of a partial machine

`step : σ → α → Option σ` takes one labelled step; `none` says the label cannot
happen in that state. `run` folds a list of labels. `Along C` says a condition
on (state, label) holds at every step of a run. The rules here turn facts about
one step into facts about every run: `run_inv` for an invariant, `run_inv_along`
when the step needs a condition, `along_of_inv` for what every step of a run
satisfies. A machine that answers every input is `σ → α → σ × β`; `stateAt` and
`outAt` follow it along an endless input sequence.
-/

namespace Machine

variable {σ α : Type*} {step : σ → α → Option σ} {s s' : σ} {as bs : List α}

/-- Run a list of labels; `none` as soon as one of them cannot happen. -/
def run (step : σ → α → Option σ) : σ → List α → Option σ
  | s, [] => some s
  | s, a :: as => (step s a).bind fun t => run step t as

/-- `C` holds of the state and the label at every step of the run. -/
def Along (step : σ → α → Option σ) (C : σ → α → Prop) : σ → List α → Prop
  | _, [] => True
  | s, a :: as => C s a ∧ ∀ t, step s a = some t → Along step C t as

@[simp] theorem run_nil : run step s [] = some s := rfl

theorem run_cons {a : α} : run step s (a :: as) = (step s a).bind fun t => run step t as := rfl

theorem run_cons_eq_some {a : α} :
    run step s (a :: as) = some s' ↔ ∃ t, step s a = some t ∧ run step t as = some s' := by
  simp [run_cons, Option.bind_eq_some_iff]

theorem run_append : run step s (as ++ bs) = (run step s as).bind fun t => run step t bs := by
  induction as generalizing s with
  | nil => rfl
  | cons a as ih =>
    simp only [List.cons_append, run_cons, Option.bind_assoc]
    congr 1
    funext t
    exact ih

theorem run_append_eq_some :
    run step s (as ++ bs) = some s' ↔ ∃ t, run step s as = some t ∧ run step t bs = some s' := by
  simp [run_append, Option.bind_eq_some_iff]

theorem run_inv {P : σ → Prop} (hstep : ∀ s a t, P s → step s a = some t → P t)
    (h : run step s as = some s') (hs : P s) : P s' := by
  induction as generalizing s with
  | nil => cases h; exact hs
  | cons a as ih =>
    obtain ⟨t, ht, hr⟩ := run_cons_eq_some.mp h
    exact ih hr (hstep s a t hs ht)

/-- An invariant that may speak of the labels so far. -/
theorem run_history {P : List α → σ → Prop} (h0 : P [] s)
    (hstep : ∀ as t a u, run step s as = some t → P as t → step t a = some u → P (as ++ [a]) u)
    (h : run step s as = some s') : P as s' := by
  induction as using List.reverseRecOn generalizing s' with
  | nil =>
    cases h
    exact h0
  | append_singleton as a ih =>
    obtain ⟨t, ht, hr⟩ := run_append_eq_some.mp h
    obtain ⟨u, hu, hnil⟩ := run_cons_eq_some.mp hr
    cases hnil
    exact hstep as t a _ ht (ih ht) hu

theorem rank_run {rank : σ → ℕ} (hstep : ∀ s a t, step s a = some t → rank t < rank s)
    (h : run step s as = some s') : as.length + rank s' ≤ rank s := by
  induction as generalizing s with
  | nil =>
    cases h
    rw [List.length_nil, Nat.zero_add]
  | cons a as ih =>
    obtain ⟨t, ht, hr⟩ := run_cons_eq_some.mp h
    have hlt := hstep s a t ht
    have hle := ih hr
    rw [List.length_cons]
    omega

theorem run_inv_along {P : σ → Prop} {C : σ → α → Prop}
    (hstep : ∀ s a t, P s → C s a → step s a = some t → P t)
    (h : run step s as = some s') (hc : Along step C s as) (hs : P s) : P s' := by
  induction as generalizing s with
  | nil => cases h; exact hs
  | cons a as ih =>
    obtain ⟨t, ht, hr⟩ := run_cons_eq_some.mp h
    exact ih hr (hc.2 t ht) (hstep s a t hs hc.1 ht)

/-- Under an invariant kept where `C` holds, what `Q` says of one step holds along the run. -/
theorem along_of_inv {P : σ → Prop} {C Q : σ → α → Prop}
    (hstep : ∀ s a t, P s → C s a → step s a = some t → P t)
    (hq : ∀ s a, P s → C s a → Q s a) (hc : Along step C s as) (hs : P s) :
    Along step Q s as := by
  induction as generalizing s with
  | nil => trivial
  | cons a as ih =>
    exact ⟨hq s a hs hc.1, fun t ht => ih (hc.2 t ht) (hstep s a t hs hc.1 ht)⟩

theorem along_of_forall {C : σ → α → Prop} (h : ∀ a ∈ as, ∀ s, C s a) (s : σ) :
    Along step C s as := by
  induction as generalizing s with
  | nil => trivial
  | cons a as ih =>
    obtain ⟨ha, has⟩ := List.forall_mem_cons.mp h
    exact ⟨ha s, fun t _ => ih has t⟩

/-- Where steps under `C` lower a rank, and one is possible until the goal, the goal is reached. -/
theorem exists_run_of_rank {P goal : σ → Prop} {C : σ → α → Prop} {rank : σ → ℕ}
    (hstep : ∀ s a t, P s → C s a → step s a = some t → P t ∧ rank t < rank s)
    (halive : ∀ s, P s → ¬ goal s → ∃ a, C s a ∧ (step s a).isSome = true) (hs : P s) :
    ∃ as t, as.length ≤ rank s ∧ Along step C s as ∧ run step s as = some t ∧ goal t := by
  induction hn : rank s using Nat.strongRecOn generalizing s with
  | ind n ih =>
    by_cases hg : goal s
    · exact ⟨[], s, Nat.zero_le n, trivial, rfl, hg⟩
    · obtain ⟨a, ha, hsome⟩ := halive s hs hg
      obtain ⟨t, ht⟩ := Option.isSome_iff_exists.mp hsome
      obtain ⟨hp, hlt⟩ := hstep s a t hs ha ht
      obtain ⟨as, u, hlen, halong, hrun, hgoal⟩ := ih (rank t) (hn ▸ hlt) hp rfl
      refine ⟨a :: as, u, ?_, ⟨ha, fun t' ht' => ?_⟩, run_cons_eq_some.mpr ⟨t, ht, hrun⟩, hgoal⟩
      · rw [List.length_cons]
        omega
      · obtain rfl := Option.some.inj (ht.symm.trans ht')
        exact halong

theorem Along.at {Q : σ → α → Prop} {a : α} (h : Along step Q s (as ++ a :: bs))
    (hr : run step s as = some s') : Q s' a := by
  induction as generalizing s with
  | nil => cases hr; exact h.1
  | cons b as ih =>
    obtain ⟨t, ht, hr⟩ := run_cons_eq_some.mp hr
    exact ih (h.2 t ht) hr

theorem Along.append_left {C : σ → α → Prop} (h : Along step C s (as ++ bs)) : Along step C s as := by
  induction as generalizing s with
  | nil => trivial
  | cons a as ih => exact ⟨h.1, fun t ht => ih (h.2 t ht)⟩

theorem along_concat {C : σ → α → Prop} {a : α} (h : run step s as = some s') :
    Along step C s (as ++ [a]) ↔ Along step C s as ∧ C s' a := by
  refine ⟨fun hc => ⟨hc.append_left, hc.at h⟩, ?_⟩
  rintro ⟨hc, ha⟩
  induction as generalizing s with
  | nil =>
    cases h
    exact ⟨ha, fun _ _ => trivial⟩
  | cons b as ih =>
    obtain ⟨t, ht, hr⟩ := run_cons_eq_some.mp h
    refine ⟨hc.1, fun u hu => ?_⟩
    cases ht.symm.trans hu
    exact ih hr (hc.2 t ht)

theorem along_append {C : σ → α → Prop} (h : run step s as = some s') (ha : Along step C s as)
    (hb : Along step C s' bs) : Along step C s (as ++ bs) := by
  induction as generalizing s with
  | nil =>
    cases h
    exact hb
  | cons a as ih =>
    obtain ⟨t, ht, hr⟩ := run_cons_eq_some.mp h
    refine ⟨ha.1, fun u hu => ?_⟩
    cases ht.symm.trans hu
    exact ih hr (ha.2 t ht)

theorem Along.append_right {C : σ → α → Prop} (h : Along step C s (as ++ bs))
    (hr : run step s as = some s') : Along step C s' bs := by
  induction as generalizing s with
  | nil =>
    cases hr
    exact h
  | cons a as ih =>
    obtain ⟨t, ht, hr⟩ := run_cons_eq_some.mp hr
    exact ih (h.2 t ht) hr

theorem run_history_along {P : List α → σ → Prop} {C : σ → α → Prop} (h0 : P [] s)
    (hstep : ∀ as t a u, run step s as = some t → P as t → C t a → step t a = some u →
      P (as ++ [a]) u)
    (h : run step s as = some s') (hc : Along step C s as) : P as s' := by
  refine run_history (P := fun as t => Along step C s as → P as t) (fun _ => h0) ?_ h hc
  intro as t a u hr ht hu hal
  exact hstep as t a u hr (ht hal.append_left) (hal.at hr) hu

/-- Conditions that can be decided can be decided along a run. -/
instance Along.decidable {C : σ → α → Prop} [∀ s a, Decidable (C s a)] (s : σ) :
    (as : List α) → Decidable (Along step C s as)
  | [] => isTrue trivial
  | a :: as =>
    have : Decidable (∀ t, step s a = some t → Along step C t as) :=
      match h : step s a with
      | none => isTrue fun t ht => by cases ht
      | some u =>
        have : Decidable (Along step C u as) := Along.decidable u as
        decidable_of_iff (Along step C u as)
          ⟨fun hu t ht => Option.some.inj ht ▸ hu, fun hall => hall u rfl⟩
    inferInstanceAs (Decidable (_ ∧ _))

/-! ## Machines that answer every input -/

section Answer

variable {β : Type*} {answer : σ → α → σ × β} {input : ℕ → α} {n : ℕ}

/-- The state before the `n`th input of an endless input sequence. -/
def stateAt (answer : σ → α → σ × β) (s : σ) (input : ℕ → α) : ℕ → σ
  | 0 => s
  | n + 1 => (answer (stateAt answer s input n) (input n)).1

/-- The answer to the `n`th input. -/
def outAt (answer : σ → α → σ × β) (s : σ) (input : ℕ → α) (n : ℕ) : β :=
  (answer (stateAt answer s input n) (input n)).2

theorem stateAt_succ :
    stateAt answer s input (n + 1) = (answer (stateAt answer s input n) (input n)).1 := rfl

theorem stateAt_inv {P : σ → Prop} (hstep : ∀ s a, P s → P (answer s a).1) {m : ℕ}
    (hm : P (stateAt answer s input m)) (h : m ≤ n) : P (stateAt answer s input n) := by
  induction h with
  | refl => exact hm
  | step _ ih => exact hstep _ _ ih

end Answer

/-! ## What an endless sequence yields -/

section Collect

variable {β : Type*} {f g : ℕ → Option β} {k n : ℕ}

/-- The values among the first `n`, in order. -/
def collect (f : ℕ → Option β) : ℕ → List β
  | 0 => []
  | n + 1 => collect f n ++ (f n).toList

theorem collect_congr (h : ∀ j < n, f j = g j) : collect f n = collect g n := by
  induction n with
  | zero => rfl
  | succ n ih =>
    rw [collect, collect, h n (Nat.lt_succ_self n), ih fun j hj => h j (Nat.lt_succ_of_lt hj)]

theorem collect_of_none (hk : k ≤ n) (h : ∀ j, k ≤ j → j < n → f j = none) :
    collect f n = collect f k := by
  induction hk with
  | refl => rfl
  | @step m hm ih =>
    rw [collect, h m hm (Nat.lt_succ_self m), ih fun j hj hlt => h j hj (Nat.lt_succ_of_lt hlt)]
    simp

end Collect

/-! ## Endless runs -/

/-- The states of an endless run with these labels. -/
def Follows (step : σ → α → Option σ) (st : ℕ → σ) (ls : ℕ → α) : Prop :=
  ∀ n, step (st n) (ls n) = some (st (n + 1))

theorem Follows.inv {P : σ → Prop} {st : ℕ → σ} {ls : ℕ → α} (h : Follows step st ls)
    (hstep : ∀ s a t, P s → step s a = some t → P t) (hs : P (st 0)) (n : ℕ) : P (st n) := by
  induction n with
  | zero => exact hs
  | succ n ih => exact hstep _ _ _ ih (h n)

/-- Where the machine's own labels lower a rank, the others do not raise it, and the own ones keep
coming as long as the goal is not reached, it is reached. -/
theorem eventually_of_rank {st : ℕ → σ} {ls : ℕ → α} {m : ℕ} (goal : σ → Prop) (own : α → Prop)
    (rank : σ → ℕ)
    (hown : ∀ n ≥ m, ¬ goal (st n) → own (ls n) → rank (st (n + 1)) < rank (st n))
    (hother : ∀ n ≥ m, ¬ own (ls n) → rank (st (n + 1)) ≤ rank (st n))
    (hfair : ∀ n ≥ m, ¬ goal (st n) → ∃ i ≥ n, own (ls i)) : ∃ n ≥ m, goal (st n) := by
  by_contra hno
  have hnot : ∀ n ≥ m, ¬ goal (st n) := fun n hn hg => hno ⟨n, hn, hg⟩
  have hstep : ∀ n ≥ m, rank (st (n + 1)) ≤ rank (st n) := by
    intro n hn
    by_cases ho : own (ls n)
    · exact (hown n hn (hnot n hn) ho).le
    · exact hother n hn ho
  have hanti : ∀ n ≥ m, ∀ i ≥ n, rank (st i) ≤ rank (st n) := by
    intro n hn i hi
    induction hi with
    | refl => exact Nat.le_refl _
    | @step i hi ih => exact (hstep i (Nat.le_trans hn hi)).trans ih
  -- no rank is the rank of a state from `m` on: from each there is a smaller one later
  have hnone : ∀ r, ∀ n ≥ m, rank (st n) ≠ r := by
    intro r
    induction r using Nat.strongRecOn with
    | ind r ih =>
      rintro n hn rfl
      obtain ⟨i, hi, ho⟩ := hfair n hn (hnot n hn)
      have him : i ≥ m := Nat.le_trans hn hi
      have hlt := (hown i him (hnot i him) ho).trans_le (hanti n hn i hi)
      exact ih _ hlt (i + 1) (Nat.le_succ_of_le him) rfl
  exact hnone _ m (Nat.le_refl m) rfl

theorem exists_first {P : ℕ → Prop} {n : ℕ} (h : ∃ j < n, P j) :
    ∃ i < n, P i ∧ ∀ j < i, ¬ P j := by
  classical
  obtain ⟨j, hj, hp⟩ := h
  have hex : ∃ i, P i := ⟨j, hp⟩
  exact ⟨Nat.find hex, (Nat.find_min' hex hp).trans_lt hj, Nat.find_spec hex,
    fun i hi => Nat.find_min hex hi⟩

end Machine
