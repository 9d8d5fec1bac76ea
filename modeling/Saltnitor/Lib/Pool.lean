import Mathlib.Algebra.GroupWithZero.Nat
import Mathlib.Data.List.Basic
import Mathlib.Data.List.Perm.Basic

/-!
# Tasks around a lock

A pool is a list of tasks, each known by its place; a task moves by being
replaced there, a new one is appended. `Guarded` says one lock guards the
critical tasks: it is held by the task that is critical and by no other. The
lemmas are the four ways a pool moves, and what a move does to a `filterMap`.
-/

namespace Pool

variable {τ β : Type*} {tasks : List τ} {lock : Option Nat} {i j : Nat} {a b c : τ}

/-! ## Places -/

theorem getElem?_set_self (h : tasks[i]? = some b) : (tasks.set i a)[i]? = some a := by
  rw [List.getElem?_set_self (List.getElem?_eq_some_iff.mp h).1]

theorem getElem?_set_cases (h : (tasks.set i a)[j]? = some c) :
    j = i ∧ c = a ∨ j ≠ i ∧ tasks[j]? = some c := by
  by_cases hij : i = j
  · subst hij
    rw [List.getElem?_set] at h
    simp only [if_true] at h
    split at h
    · exact .inl ⟨rfl, (Option.some.inj h).symm⟩
    · cases h
  · rw [List.getElem?_set_ne hij] at h
    exact .inr ⟨Ne.symm hij, h⟩

theorem getElem?_concat_cases (h : (tasks ++ [a])[j]? = some c) :
    tasks[j]? = some c ∨ j = tasks.length ∧ c = a := by
  rcases Nat.lt_trichotomy j tasks.length with hlt | rfl | hgt
  · rw [List.getElem?_append_left hlt] at h
    exact .inl h
  · rw [List.getElem?_concat_length] at h
    exact .inr ⟨rfl, (Option.some.inj h).symm⟩
  · rw [List.getElem?_eq_none (by rw [List.length_append, List.length_singleton]; omega)] at h
    cases h

section Predicate

variable {P : τ → Prop}

theorem forall_set (h : ∀ c ∈ tasks, P c) (ha : P a) : ∀ c ∈ tasks.set i a, P c := by
  intro c hc
  rcases List.mem_or_eq_of_mem_set hc with hc | rfl
  · exact h c hc
  · exact ha

theorem forall_concat (h : ∀ c ∈ tasks, P c) (ha : P a) : ∀ c ∈ tasks ++ [a], P c := by
  intro c hc
  rcases List.mem_append.mp hc with hc | hc
  · exact h c hc
  · rw [List.mem_singleton.mp hc]
    exact ha

theorem exists_set (h : ∃ c ∈ tasks, P c) (hi : tasks[i]? = some b) (hb : ¬ P b) :
    ∃ c ∈ tasks.set i a, P c := by
  obtain ⟨c, hc, hp⟩ := h
  obtain ⟨j, hj⟩ := List.mem_iff_getElem?.mp hc
  have hij : i ≠ j := by
    rintro rfl
    rw [hi] at hj
    cases hj
    exact hb hp
  exact ⟨c, List.mem_of_getElem? (by rw [List.getElem?_set_ne hij, hj]), hp⟩

theorem forall₂_set {β : Type*} {R : τ → β → Prop} {bs : List β} (h : List.Forall₂ R tasks bs)
    (hi : tasks[i]? = some b) (ha : ∀ c, R b c → R a c) : List.Forall₂ R (tasks.set i a) bs := by
  induction h generalizing i with
  | nil => exact .nil
  | cons hd htail ih =>
    cases i with
    | zero =>
      cases hi
      exact .cons (ha _ hd) htail
    | succ i => exact .cons hd (ih hi)

theorem exists_concat (h : ∃ c ∈ tasks, P c) : ∃ c ∈ tasks ++ [a], P c := by
  obtain ⟨c, hc, hp⟩ := h
  exact ⟨c, List.mem_append_left _ hc, hp⟩

theorem getElem?_concat_of_some (h : tasks[i]? = some b) : (tasks ++ [a])[i]? = some b := by
  rw [List.getElem?_append_left (List.getElem?_eq_some_iff.mp h).1, h]

end Predicate

/-! ## The lock -/

/-- The lock is held by the critical task, if there is one. -/
structure Guarded (critical : τ → Bool) (tasks : List τ) (lock : Option Nat) : Prop where
  holds : ∀ i c, tasks[i]? = some c → critical c = true → lock = some i
  held : ∀ i, lock = some i → ∃ c, tasks[i]? = some c ∧ critical c = true

variable {critical : τ → Bool}

theorem Guarded.nil : Guarded critical [] none where
  holds i c h := by simp at h
  held i h := by cases h

theorem Guarded.unique (h : Guarded critical tasks lock) (hi : tasks[i]? = some a)
    (hj : tasks[j]? = some b) (ha : critical a = true) (hb : critical b = true) : i = j :=
  Option.some.inj ((h.holds i a hi ha).symm.trans (h.holds j b hj hb))

theorem Guarded.concat (h : Guarded critical tasks lock) (ha : critical a = false) :
    Guarded critical (tasks ++ [a]) lock where
  holds j c hj hc := by
    rcases getElem?_concat_cases hj with hj | ⟨rfl, rfl⟩
    · exact h.holds j c hj hc
    · rw [ha] at hc
      cases hc
  held j hj := by
    obtain ⟨c, hc, hcrit⟩ := h.held j hj
    exact ⟨c, getElem?_concat_of_some hc, hcrit⟩

/-- A move that stays on its side of the lock. -/
theorem Guarded.keep (h : Guarded critical tasks lock) (hi : tasks[i]? = some b)
    (hab : critical a = critical b) : Guarded critical (tasks.set i a) lock where
  holds j c hj hc := by
    rcases getElem?_set_cases hj with ⟨rfl, rfl⟩ | ⟨-, hj⟩
    · exact h.holds _ b hi (hab ▸ hc)
    · exact h.holds j c hj hc
  held j hj := by
    obtain ⟨c, hc, hcrit⟩ := h.held j hj
    by_cases hij : i = j
    · subst hij
      rw [hi] at hc
      cases hc
      exact ⟨a, getElem?_set_self hi, hab.trans hcrit⟩
    · exact ⟨c, by rw [List.getElem?_set_ne hij, hc], hcrit⟩

theorem Guarded.acquire (h : Guarded critical tasks none) (hi : tasks[i]? = some b)
    (ha : critical a = true) : Guarded critical (tasks.set i a) (some i) where
  holds j c hj hc := by
    rcases getElem?_set_cases hj with ⟨rfl, -⟩ | ⟨-, hj⟩
    · rfl
    · cases h.holds j c hj hc
  held j hj := by
    cases hj
    exact ⟨a, getElem?_set_self hi, ha⟩

theorem Guarded.release (h : Guarded critical tasks lock) (hi : tasks[i]? = some b)
    (hb : critical b = true) (ha : critical a = false) :
    Guarded critical (tasks.set i a) none where
  holds j c hj hc := by
    rcases getElem?_set_cases hj with ⟨rfl, rfl⟩ | ⟨hij, hj⟩
    · rw [ha] at hc
      cases hc
    · exact absurd (h.unique hj hi hc hb) hij
  held j hj := by cases hj

theorem Guarded.exists_turn {running : τ → Bool} (h : Guarded critical tasks lock)
    (hrun : ∃ c ∈ tasks, running c = true) (hcrit : ∀ c, critical c = true → running c = true) :
    ∃ (i : Nat) (c : τ), tasks[i]? = some c ∧ running c = true ∧ (critical c = true ∨ lock = none) := by
  cases lock with
  | none =>
    obtain ⟨c, hc, hr⟩ := hrun
    obtain ⟨i, hi⟩ := List.mem_iff_getElem?.mp hc
    exact ⟨i, c, hi, hr, .inr rfl⟩
  | some i =>
    obtain ⟨c, hc, hr⟩ := h.held i rfl
    exact ⟨i, c, hc, hcrit c hr, .inl hr⟩

/-- What a move from `b` to `a` does to the lock. -/
inductive LockMove (critical : τ → Bool) (lock lock' : Option Nat) (i : Nat) (b a : τ) : Prop where
  | keep (hl : lock' = lock) (hab : critical a = critical b)
  | acquire (hn : lock = none) (hl : lock' = some i) (ha : critical a = true)
  | release (hl : lock' = none) (hb : critical b = true) (ha : critical a = false)

variable {lock' : Option Nat}

theorem LockMove.of_eq {σ : Type*} {critical' : σ → Bool} {a' b' : σ}
    (h : LockMove critical lock lock' i b a) (hb : critical' b' = critical b)
    (ha : critical' a' = critical a) : LockMove critical' lock lock' i b' a' := by
  cases h with
  | keep hl hab => exact .keep hl (by rw [ha, hb, hab])
  | acquire hn hl hca => exact .acquire hn hl (ha.trans hca)
  | release hl hcb hca => exact .release hl (hb.trans hcb) (ha.trans hca)

theorem Guarded.move (h : Guarded critical tasks lock) (hi : tasks[i]? = some b)
    (hm : LockMove critical lock lock' i b a) : Guarded critical (tasks.set i a) lock' := by
  cases hm with
  | keep hl hab => exact hl ▸ h.keep hi hab
  | acquire hn hl ha =>
    subst hn hl
    exact h.acquire hi ha
  | release hl hb ha => exact hl ▸ h.release hi hb ha

/-! ## Sums over the pool -/

variable {f : τ → Option β} {x : β}

theorem filterMap_concat_eq (h : f a = none) : (tasks ++ [a]).filterMap f = tasks.filterMap f := by
  rw [List.filterMap_append, List.filterMap_cons, h, List.filterMap_nil, List.append_nil]

theorem filterMap_set_eq (h : tasks[i]? = some b) (hab : f a = f b) :
    (tasks.set i a).filterMap f = tasks.filterMap f := by
  induction tasks generalizing i with
  | nil => simp at h
  | cons d tasks ih =>
    cases i with
    | zero =>
      cases h
      simp only [List.set_cons_zero, List.filterMap_cons, hab]
    | succ i => simp only [List.set_cons_succ, List.filterMap_cons, ih h]

theorem filterMap_eq_toList (h : tasks[i]? = some b)
    (hother : ∀ j c, tasks[j]? = some c → j ≠ i → f c = none) :
    tasks.filterMap f = (f b).toList := by
  induction tasks generalizing i with
  | nil => simp at h
  | cons d tasks ih =>
    cases i with
    | zero =>
      cases h
      have hnil : tasks.filterMap f = [] := by
        refine List.filterMap_eq_nil_iff.mpr fun c hc => ?_
        obtain ⟨j, hj⟩ := List.mem_iff_getElem?.mp hc
        exact hother (j + 1) c hj (Nat.succ_ne_zero j)
      rw [List.filterMap_cons, hnil]
      cases f b <;> rfl
    | succ i =>
      rw [List.filterMap_cons, hother 0 d rfl (Nat.succ_ne_zero i).symm]
      exact ih h fun j c hj hij => hother (j + 1) c hj fun he => hij (Nat.succ.inj he)

/-- Where `f` sees only critical tasks, it sees what the holder of the lock shows. -/
theorem Guarded.filterMap_eq (h : Guarded critical tasks lock)
    (hf : ∀ c, critical c = false → f c = none) (hi : tasks[i]? = some b)
    (hb : critical b = true) : tasks.filterMap f = (f b).toList := by
  refine filterMap_eq_toList hi fun j c hj hij => hf c ?_
  by_contra hc
  exact hij (h.unique hj hi (by simpa using hc) hb)

theorem filterMap_set_perm (h : tasks[i]? = some b) (hb : f b = none) (ha : f a = some x) :
    ((tasks.set i a).filterMap f).Perm (tasks.filterMap f ++ [x]) := by
  induction tasks generalizing i with
  | nil => simp at h
  | cons d tasks ih =>
    cases i with
    | zero =>
      cases h
      simp only [List.set_cons_zero, List.filterMap_cons, ha, hb]
      exact (List.perm_append_singleton x _).symm
    | succ i =>
      simp only [List.set_cons_succ, List.filterMap_cons]
      cases f d with
      | none => exact ih h
      | some y => exact (ih h).cons y

/-! ## Counting -/

variable {P : τ → Bool}

theorem countP_set (h : tasks[i]? = some b) :
    (tasks.set i a).countP P + (P b).toNat = tasks.countP P + (P a).toNat := by
  induction tasks generalizing i with
  | nil => simp at h
  | cons d tasks ih =>
    cases i with
    | zero =>
      cases h
      rw [List.set_cons_zero, List.countP_cons, List.countP_cons]
      cases P a <;> cases P b <;> rfl
    | succ i =>
      have hi := ih h
      rw [List.set_cons_succ, List.countP_cons, List.countP_cons]
      omega

theorem sum_set {g : τ → Nat} (h : tasks[i]? = some b) :
    ((tasks.set i a).map g).sum + g b = (tasks.map g).sum + g a := by
  induction tasks generalizing i with
  | nil => simp at h
  | cons d tasks ih =>
    cases i with
    | zero =>
      cases h
      rw [List.set_cons_zero, List.map_cons, List.map_cons, List.sum_cons, List.sum_cons]
      omega
    | succ i =>
      have hi := ih h
      rw [List.set_cons_succ, List.map_cons, List.map_cons, List.sum_cons, List.sum_cons]
      omega

end Pool
