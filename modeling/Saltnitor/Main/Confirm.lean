import Saltnitor.Main.Turn

/-!
# The SIGKILL confirmation

A Kill key on a selected row asks for confirmation and picks the target; the
next key decides. `ArmedBy` names the Kill key a pending target comes from, with
no key since; every run keeps it (`armed_of_run`), so a SIGKILL is requested only
by `y` right after a Kill key, for the target picked there.
-/

namespace Saltnitor.Main

open Rust App Process Tuner

namespace State

/-- The key `k` asks for the SIGKILL of `target`, the row selected in `s`. -/
structure KillKey (s : State) (k : KeyInput) (target : Target) : Prop where
  pressed : s.Pressed k .kill
  selected : ∃ info, s.inspectors.selectedProc s.openPane.1 = some info ∧
    target = .select info k.opened

theorem KillKey.unique {s : State} {k : KeyInput} {T T' : Target} (h : KillKey s k T)
    (h' : KillKey s k T') : T = T' := by
  obtain ⟨info, hi, rfl⟩ := h.selected
  obtain ⟨info', hi', rfl⟩ := h'.selected
  cases hi.symm.trans hi'
  rfl

/-- The pending target and the question are both there, with one PID and name, or neither is. -/
def Consistent (s : State) : Prop :=
  s.pendingKill = none ∧ s.confirmLine = none ∨
    ∃ T, s.pendingKill = some T ∧ s.confirmLine = some (confirmQuestion T.pid T.name)

variable {s t : State} {e : Event}

theorem Quiet.consistent (h : Quiet s t) (hs : s.Consistent) : t.Consistent := by
  rw [Consistent, h.pendingKill, h.confirmLine]
  exact hs

theorem Turn.consistent (h : Turn s e t) (hs : s.Consistent) : t.Consistent := by
  cases h with
  | quiet _ h => exact h.consistent hs
  | draw h _ => exact h.consistent hs
  | poll h _ => exact h.consistent hs
  | move _ _ => exact hs
  | terminate _ _ => exact hs
  | ask _ _ => exact .inr ⟨_, rfl, rfl⟩
  | confirm _ _ => exact .inl ⟨rfl, rfl⟩
  | cancel _ _ => exact .inl ⟨rfl, rfl⟩

theorem Turn.pending (h : Turn s e t) {T : Target} (ht : t.pendingKill = some T) :
    s.pendingKill = some T ∧ e.isKey = false ∨ ∃ k, e = .key k ∧ s.KillKey k T := by
  cases h with
  | quiet hk h =>
    rw [h.pendingKill] at ht
    cases he : e.isKey with
    | false => exact .inl ⟨ht, rfl⟩
    | true => exact absurd (ht.symm.trans (hk he)) (Option.some_ne_none T)
  | draw h _ => exact .inl ⟨h.pendingKill.symm.trans ht, rfl⟩
  | poll h _ => exact .inl ⟨h.pendingKill.symm.trans ht, rfl⟩
  | move hp _ => exact absurd (ht.symm.trans hp) (Option.some_ne_none T)
  | terminate hp _ => exact absurd (ht.symm.trans hp.pendingKill) (Option.some_ne_none T)
  | ask hp hs =>
    cases ht
    exact .inr ⟨_, rfl, hp, _, hs, rfl⟩
  | confirm _ _ => cases ht
  | cancel _ _ => cases ht

theorem Turn.kill (h : Turn s e t) {T : Target} {svc : Str} (hk : Spawn.kill T svc ∈ t.spawned) :
    ∃ y, e = .key y ∧ y.key.code = .char 'y' ∧ s.pendingKill = some T ∧
      t.spawned = [.kill T svc] := by
  cases h with
  | quiet _ h => exact absurd (h.not_signals hk) (by simp [Spawn.signals])
  | draw h _ => exact absurd (h.not_signals hk) (by simp [Spawn.signals])
  | poll h _ => exact absurd (h.not_signals hk) (by simp [Spawn.signals])
  | move _ _ => cases hk
  | terminate _ _ => cases List.mem_singleton.mp hk
  | ask _ _ => cases hk
  | confirm hp hy =>
    cases List.mem_singleton.mp hk
    exact ⟨_, rfl, hy, hp, rfl⟩
  | cancel _ _ => cases hk

theorem Turn.cancelled {k : KeyInput} {T : Target} (h : Turn s (.key k) t)
    (hp : s.pendingKill = some T) (hy : k.key.code ≠ .char 'y') :
    t = { s with pendingKill := none, confirmLine := none, spawned := [] }.addLog
      ">>> PROCESS: kill cancelled" := by
  cases h with
  | quiet hk _ => exact absurd (hp.symm.trans (hk rfl)) (Option.some_ne_none T)
  | move hn _ => exact absurd (hp.symm.trans hn) (Option.some_ne_none T)
  | terminate hn _ => exact absurd (hp.symm.trans hn.pendingKill) (Option.some_ne_none T)
  | ask hn _ => exact absurd (hp.symm.trans hn.pendingKill) (Option.some_ne_none T)
  | confirm _ hy' => exact absurd hy' hy
  | cancel _ _ => rfl

end State

/-! ## Runs -/

open State

variable {fmtF32 : Float32 → Word} {l : Launch} {es pre : List Event} {t : State} {T : Target}

/-- `T` was picked by the last key of `es`, the Kill key right after `pre`. -/
def ArmedBy (fmtF32 : Float32 → Word) (l : Launch) (es pre : List Event) (T : Target) : Prop :=
  ∃ k mid u, es = pre ++ .key k :: mid ∧ (∀ e ∈ mid, e.isKey = false) ∧
    Machine.run (handle fmtF32) (.new l) pre = some u ∧ u.KillKey k T

theorem ArmedBy.snoc {e : Event} (h : ArmedBy fmtF32 l es pre T) (he : e.isKey = false) :
    ArmedBy fmtF32 l (es ++ [e]) pre T := by
  obtain ⟨k, mid, u, rfl, hm, hu, hk⟩ := h
  refine ⟨k, mid ++ [e], u, by simp, fun x hx => ?_, hu, hk⟩
  rcases List.mem_append.mp hx with hx | hx
  · exact hm x hx
  · rw [List.mem_singleton.mp hx]
    exact he

theorem consistent_of_run (h : Machine.run (handle fmtF32) (.new l) es = some t) : t.Consistent :=
  Machine.run_inv (P := Consistent) (fun _ _ _ hs ht => (turn_of_handle ht).consistent hs) h
    (.inl ⟨rfl, rfl⟩)

/-- A pending target was picked by the last key. -/
theorem armed_of_run (h : Machine.run (handle fmtF32) (.new l) es = some t)
    (ht : t.pendingKill = some T) : ∃ pre, ArmedBy fmtF32 l es pre T := by
  refine Machine.run_history
    (P := fun es t => ∀ T, t.pendingKill = some T → ∃ pre, ArmedBy fmtF32 l es pre T)
    (fun _ ht => by cases ht) (fun es s e t hs ih hstep T ht => ?_) h T ht
  rcases (turn_of_handle hstep).pending ht with ⟨hp, he⟩ | ⟨k, rfl, hk⟩
  · obtain ⟨pre, hpre⟩ := ih T hp
    exact ⟨pre, hpre.snoc he⟩
  · exact ⟨es, k, [], s, rfl, (fun _ hx => nomatch hx), hs, hk⟩

/-- The last event of `es` requests the SIGKILL that the Kill key right after `pre` asked for. -/
def Confirmed (fmtF32 : Float32 → Word) (l : Launch) (es pre : List Event) (T : Target) : Prop :=
  ∃ es' y u svc, es = es' ++ [.key y] ∧ ArmedBy fmtF32 l es' pre T ∧
    Machine.run (handle fmtF32) (.new l) es = some u ∧ Spawn.kill T svc ∈ u.spawned

theorem eq_of_prefix_of_noKey {a b : List Event} {x y : Event} (hx : x.isKey = true)
    (hb : ∀ e ∈ b, e.isKey = false) (h : a ++ [x] <+: b ++ [y]) : a ++ [x] = b ++ [y] := by
  rcases List.prefix_concat_iff.mp h with h | h
  · exact h
  · have := hb x (h.subset (by simp))
    rw [hx] at this
    cases this

theorem Confirmed.unique {p₁ p₂ : List Event} {T₁ T₂ : Target} (hp₁ : p₁ <+: es) (hp₂ : p₂ <+: es)
    (h₁ : Confirmed fmtF32 l p₁ pre T₁) (h₂ : Confirmed fmtF32 l p₂ pre T₂) :
    p₁ = p₂ ∧ T₁ = T₂ := by
  obtain ⟨_, y₁, _, _, rfl, ⟨k₁, mid₁, u₁, rfl, hm₁, hu₁, hk₁⟩, -, -⟩ := h₁
  obtain ⟨_, y₂, _, _, rfl, ⟨k₂, mid₂, u₂, rfl, hm₂, hu₂, hk₂⟩, -, -⟩ := h₂
  have hkey (k : KeyInput) : (Event.key k).isKey = true := rfl
  rw [List.append_assoc, List.cons_append] at hp₁ hp₂
  cases hu₁.symm.trans hu₂
  have hpre : pre ++ .key k₁ :: (mid₁ ++ [.key y₁]) <+: pre ++ .key k₂ :: (mid₂ ++ [.key y₂]) ∨
      pre ++ .key k₂ :: (mid₂ ++ [.key y₂]) <+: pre ++ .key k₁ :: (mid₁ ++ [.key y₁]) :=
    List.prefix_or_prefix_of_prefix hp₁ hp₂
  rw [List.prefix_append_right_inj, List.prefix_append_right_inj, List.cons_prefix_cons,
    List.cons_prefix_cons] at hpre
  rcases hpre with ⟨hk, hmid⟩ | ⟨hk, hmid⟩
  · cases hk
    have := eq_of_prefix_of_noKey (hkey y₁) hm₂ hmid
    exact ⟨by rw [List.append_assoc, List.cons_append, this, List.append_assoc, List.cons_append],
      hk₁.unique hk₂⟩
  · cases hk
    have := eq_of_prefix_of_noKey (hkey y₂) hm₁ hmid
    exact ⟨by rw [List.append_assoc, List.cons_append, ← this, List.append_assoc, List.cons_append],
      hk₁.unique hk₂⟩

/-- **SIGKILL needs a second key.** After any events the pending target and the question belong
together; a SIGKILL is requested by `y` alone, right after a Kill key, for the target picked there,
and once; any other key withdraws the question and does no more than log that. -/
theorem sigkill_confirmed (fmtF32 : Float32 → Word) (l : Launch) (es : List Event) (t : State)
    (h : Machine.run (handle fmtF32) (.new l) es = some t) :
    t.Consistent ∧
    (∀ T svc, Spawn.kill T svc ∈ t.spawned → t.spawned = [.kill T svc] ∧
      ∃ es' y pre, es = es' ++ [.key y] ∧ y.key.code = .char 'y' ∧ ArmedBy fmtF32 l es' pre T) ∧
    (∀ p₁ p₂ pre T₁ T₂, p₁ <+: es → p₂ <+: es → Confirmed fmtF32 l p₁ pre T₁ →
      Confirmed fmtF32 l p₂ pre T₂ → p₁ = p₂ ∧ T₁ = T₂) ∧
    ∀ T k t', t.pendingKill = some T → k.key.code ≠ .char 'y' →
      handle fmtF32 t (.key k) = some t' →
      t' = { t with pendingKill := none, confirmLine := none, spawned := [] }.addLog
        ">>> PROCESS: kill cancelled" := by
  refine ⟨consistent_of_run h, fun T svc hk => ?_, fun _ _ _ _ _ hp₁ hp₂ h₁ h₂ =>
    h₁.unique hp₁ hp₂ h₂, fun T k t' hp hy ht' => (turn_of_handle ht').cancelled hp hy⟩
  -- the request belongs to the last event
  cases es using List.reverseRecOn with
  | nil =>
    cases h
    cases hk
  | append_singleton es' e =>
    obtain ⟨s, hs, hr⟩ := Machine.run_append_eq_some.mp h
    obtain ⟨t', ht', hnil⟩ := Machine.run_cons_eq_some.mp hr
    cases hnil
    obtain ⟨y, rfl, hy, hp, hone⟩ := (turn_of_handle ht').kill hk
    obtain ⟨pre, hpre⟩ := armed_of_run hs hp
    exact ⟨hone, es', y, pre, rfl, hy, hpre⟩

/-- A row is selected, killed, polled once more and confirmed. -/
theorem sigkill_confirmed_sample :
    ∃ t, Machine.run (handle fmtOne) (.new sampleLaunch) (sampleSelect 1 ++
        [.key (sampleKey (.char 'X')), samplePoll 1, .key (sampleKey (.char 'y'))]) = some t ∧
      t.spawned = [.kill (.select (sampleRow 1) (.ok 10)) "svc"] ∧
      ∃ pre, ArmedBy fmtOne sampleLaunch
        (sampleSelect 1 ++ [.key (sampleKey (.char 'X')), samplePoll 1]) pre
        (.select (sampleRow 1) (.ok 10)) := by
  obtain ⟨t, ht, hs⟩ := Option.map_eq_some_iff.mp (show
    (Machine.run (handle fmtOne) (.new sampleLaunch) (sampleSelect 1 ++
      [.key (sampleKey (.char 'X')), samplePoll 1, .key (sampleKey (.char 'y'))])).map
      (·.spawned) = some [.kill (.select (sampleRow 1) (.ok 10)) "svc"] by decide +kernel)
  refine ⟨t, ht, hs, ?_⟩
  obtain ⟨-, es', y, pre, he, -, hpre⟩ := (sigkill_confirmed fmtOne sampleLaunch _ t ht).2.1
    (.select (sampleRow 1) (.ok 10)) "svc" (by rw [hs]; exact List.mem_singleton.mpr rfl)
  have he : (sampleSelect 1 ++ [.key (sampleKey (.char 'X')), samplePoll 1]) ++
      [.key (sampleKey (.char 'y'))] = es' ++ [.key y] := he
  have he : es' = sampleSelect 1 ++ [.key (sampleKey (.char 'X')), samplePoll 1] :=
    (List.append_inj' he rfl).1.symm
  rw [he] at hpre
  exact ⟨pre, hpre⟩

end Saltnitor.Main
