import Saltnitor.Main.Confirm

/-!
# The row under the operator's cursor

The inspectors remember the PID a cursor movement rests on, not the process. Beside the
run, `track` keeps the row each pane's last movement went to. A key acts on that process as
long as no lookup of the selected PID finds another one (`Unreused`): a PID that died and
was taken again between two polls is followed to its new process, and the snapshot that the
later identity check compares with is taken from the new row.
-/

namespace Saltnitor.Main

open Rust App Process Tuner

/-! ## The same process -/

/-- The same PID, started at the same time. -/
def SameProcess (a b : ProcessInfo) : Prop :=
  a.pid = b.pid ∧ a.startTimeTicks = b.startTimeTicks

theorem SameProcess.trans {a b c : ProcessInfo} (h : SameProcess a b) (h' : SameProcess b c) :
    SameProcess a c := ⟨h.1.trans h'.1, h.2.trans h'.2⟩

/-- The row that a lookup of `r`'s PID finds among `rows`, if any, is of `r`'s process. -/
def FindsSame (rows : List ProcessInfo) (r : ProcessInfo) : Prop :=
  ∀ r' ∈ rows.find? fun x => x.pid == r.pid, r.startTimeTicks = r'.startTimeTicks

instance (rows : List ProcessInfo) (r : ProcessInfo) : Decidable (FindsSame rows r) :=
  inferInstanceAs (Decidable (∀ r' ∈ rows.find? _, _))

theorem FindsSame.same {rows : List ProcessInfo} {r r' : ProcessInfo} (h : FindsSame rows r)
    (hf : (rows.find? fun x => x.pid == r.pid) = some r') : SameProcess r r' := by
  have hpid : r'.pid = r.pid := by simpa using List.find?_some hf
  exact ⟨hpid.symm, h r' hf⟩

theorem drawPane_of_agrees (list : App.ListRender) {p : Pane} (h : p.Agrees) :
    drawPane list p = p := by
  have hc : list.select (max 1 p.rows.length) p.cursor = p.cursor := by
    cases hc : p.cursor with
    | none => exact list.select_none _
    | some i => exact list.select_of_lt _ i (lt_max_of_lt_right (h.of_cursor hc).1)
  rw [drawPane, hc]

namespace State

/-! ## Where the cursor was placed -/

/-- For each pane the row the last movement of its cursor went to, after `e`. -/
def place (s : State) (placed : ProcPane → Option ProcessInfo) : Event →
    ProcPane → Option ProcessInfo
  | .key k =>
    match s.cursorMove k with
    | some (pane, forward) =>
      Function.update placed pane ((s.inspectors.pane pane).move forward).cursorRow
    | none => placed
  | _ => placed

/-- A turn, with the rows the cursors were placed on kept beside the state. -/
def track (fmtF32 : Float32 → Word) (s : State × (ProcPane → Option ProcessInfo)) (e : Event) :
    Option (State × (ProcPane → Option ProcessInfo)) :=
  (handle fmtF32 s.1 e).map fun t => (t, s.1.place s.2 e)

/-- Wherever `e` makes a PID be looked up again, the row found is of the process it stood for: in
the new rows of a poll for the selected one, in the old rows for the one a cursor moves to. -/
def Unreused (s : State) : Event → Prop
  | .hardwareUpdate _ _ _ processes _ => ∀ pane, ∀ info ∈ s.inspectors.selectedProc pane,
    FindsSame (Inspectors.rowsOf pane processes) info
  | .key k => ∀ m ∈ s.cursorMove k,
    ∀ r ∈ (s.inspectors.pane m.1).rows[(s.inspectors.pane m.1).next m.2]?,
      FindsSame (s.inspectors.pane m.1).rows r
  | _ => True

instance (s : State) : ∀ e, Decidable (Unreused s e)
  | .hardwareUpdate .. => inferInstanceAs (Decidable (∀ _, ∀ _ ∈ _, _))
  | .key _ => inferInstanceAs (Decidable (∀ _ ∈ _, ∀ _ ∈ _, _))
  | .draw _ | .apiStreamStart _ | .apiStreamChunk _ | .apiStreamEnd .. | .modelsFetched _
  | .portAudit _ | .logLine _ | .activeModelSet _ | .error .. | .tick => .isTrue trivial

/-- What is selected is the process the cursor was placed on. -/
structure Placed (s : State) (placed : ProcPane → Option ProcessInfo) : Prop where
  agree : s.inspectors.Agree
  row : ∀ pane info, s.inspectors.selectedProc pane = some info →
    ∃ r, placed pane = some r ∧ SameProcess r info

variable {s t : State} {e : Event} {placed : ProcPane → Option ProcessInfo}

theorem placed_new (l : Launch) : Placed (.new l) placed where
  agree := Inspectors.agree_new
  row pane info h := by cases pane <;> cases h

theorem Placed.of_inspectors (h : s.Placed placed) (hi : t.inspectors = s.inspectors) :
    t.Placed placed where
  agree := hi ▸ h.agree
  row := hi ▸ h.row

theorem Placed.draw {list : App.ListRender} (h : s.Placed placed)
    (hi : ∀ pane, t.inspectors.pane pane = s.inspectors.pane pane ∨
      t.inspectors.pane pane = drawPane list (s.inspectors.pane pane)) : t.Placed placed := by
  have heq : ∀ pane, t.inspectors.pane pane = s.inspectors.pane pane := fun pane =>
    (hi pane).elim id fun h' => h'.trans (drawPane_of_agrees list (h.agree pane))
  refine ⟨fun pane => heq pane ▸ h.agree pane, fun pane info hs => h.row pane info ?_⟩
  rw [Inspectors.selectedProc, ← heq pane]
  exact hs

theorem Placed.setProcesses {processes : List ProcessInfo} {users : List (Nat × Str)}
    (h : s.Placed placed) (hi : t.inspectors = s.inspectors.setProcesses processes users)
    (hu : ∀ pane, ∀ info ∈ s.inspectors.selectedProc pane,
      FindsSame (Inspectors.rowsOf pane processes) info) : t.Placed placed where
  agree := hi ▸ Inspectors.agree_setProcesses s.inspectors processes users
  row pane info hs := by
    rw [hi, Inspectors.selectedProc, Inspectors.pane_setProcesses] at hs
    obtain ⟨hsel, hf⟩ := Pane.selectedProc_setRows hs
    obtain ⟨old, hold, hpid⟩ := (h.agree pane).selectedProc hsel
    obtain ⟨r, hr, hsame⟩ := h.row pane old hold
    rw [← hpid] at hf
    exact ⟨r, hr, hsame.trans ((hu pane old hold).same hf)⟩

theorem Placed.moveProcCursor {pane : ProcPane} {forward : Bool} (h : s.Placed placed)
    (hi : t.inspectors = s.inspectors.moveProcCursor pane forward)
    (hu : ∀ r ∈ (s.inspectors.pane pane).rows[(s.inspectors.pane pane).next forward]?,
      FindsSame (s.inspectors.pane pane).rows r) :
    t.Placed (Function.update placed pane ((s.inspectors.pane pane).move forward).cursorRow) where
  agree := hi ▸ Inspectors.agree_moveProcCursor h.agree pane forward
  row pane' info hs := by
    rw [hi, Inspectors.selectedProc] at hs
    by_cases he : pane' = pane
    · cases he
      rw [Inspectors.pane_moveProcCursor] at hs
      obtain ⟨r, hr, hrow, hf⟩ := Pane.selectedProc_move hs
      exact ⟨r, by rw [Function.update_self, hr], (hu r hrow).same hf⟩
    · obtain rfl : pane' = pane.other := by
        cases pane <;> cases pane' <;> simp_all [ProcPane.other]
      rw [Inspectors.other_moveProcCursor] at hs
      rw [Function.update_of_ne he]
      exact h.row _ _ hs

theorem inspectors_cursorMove {fmtF32 : Float32 → Word} {k : KeyInput} {pane : ProcPane}
    {forward : Bool} (hm : s.cursorMove k = some (pane, forward))
    (h : handle fmtF32 s (.key k) = some t) :
    t.inspectors = s.inspectors.moveProcCursor pane forward := by
  have hk : s.cleared.handleKey fmtF32 k = some t := by
    unfold handle at h
    split at h
    · cases h
    · exact h
  unfold cursorMove at hm
  split at hm
  · rename_i hp
    cases hm
    cases (handleKey_pressed hp).symm.trans hk
    rfl
  · split at hm
    · rename_i hp
      cases hm
      cases (handleKey_pressed hp).symm.trans hk
      rfl
    · cases hm

theorem Turn.inspectors_key {k : KeyInput} (h : Turn s (.key k) t) (hm : s.cursorMove k = none) :
    t.inspectors = s.inspectors := by
  cases h with
  | quiet _ h => exact h.inspectors
  | move _ hm' => cases hm.symm.trans hm'
  | terminate _ _ => rfl
  | ask _ _ => rfl
  | confirm _ _ => rfl
  | cancel _ _ => rfl

/-- One turn keeps what is selected where it was placed. -/
theorem Placed.step {fmtF32 : Float32 → Word} (h : s.Placed placed) (hu : s.Unreused e)
    (ht : handle fmtF32 s e = some t) : t.Placed (s.place placed e) := by
  cases e with
  | key k =>
    cases hm : s.cursorMove k with
    | none =>
      simp only [place, hm]
      exact h.of_inspectors ((turn_of_handle ht).inspectors_key hm)
    | some m =>
      simp only [place, hm]
      exact h.moveProcCursor (inspectors_cursorMove hm ht) (hu m hm)
  | draw f =>
    cases turn_of_handle ht with
    | quiet _ hq => exact h.of_inspectors hq.inspectors
    | draw _ hi => exact h.draw hi
  | hardwareUpdate =>
    cases turn_of_handle ht with
    | quiet _ hq => exact h.of_inspectors hq.inspectors
    | poll _ hi => exact h.setProcesses hi hu
  | _ => cases turn_of_handle ht with | quiet _ hq => exact h.of_inspectors hq.inspectors

/-! ## What the keys act on -/

/-- The turn from `s` to `t` requests a SIGTERM of `target` or asks for its SIGKILL. -/
def Targets (s t : State) (target : Target) : Prop :=
  (∃ svc grace, Spawn.terminate target svc grace ∈ t.spawned) ∨
    s.pendingKill = none ∧ t.pendingKill = some target

theorem Turn.targets {target : Target} (h : Turn s e t) (hT : Targets s t target) :
    ∃ info, s.inspectors.selectedProc s.openPane.1 = some info ∧ target.pid = info.pid ∧
      target.identity = info.identity := by
  rcases hT with ⟨svc, grace, hT⟩ | ⟨hnone, hT⟩
  · cases h with
    | quiet _ h => exact absurd (h.not_signals hT) (by simp [Spawn.signals])
    | draw h _ => exact absurd (h.not_signals hT) (by simp [Spawn.signals])
    | poll h _ => exact absurd (h.not_signals hT) (by simp [Spawn.signals])
    | move _ _ => cases hT
    | terminate _ hs =>
      cases List.mem_singleton.mp hT
      exact ⟨_, hs, rfl, rfl⟩
    | ask _ _ => cases hT
    | confirm _ _ => cases List.mem_singleton.mp hT
    | cancel _ _ => cases hT
  · rcases h.pending hT with ⟨hp, -⟩ | ⟨k, -, hk⟩
    · cases hnone.symm.trans hp
    · obtain ⟨info, hs, rfl⟩ := hk.selected
      exact ⟨info, hs, rfl, rfl⟩

/-- Whatever the next turn targets is the process that the cursor of the open pane was placed on. -/
def TargetsPlaced (fmtF32 : Float32 → Word) (s : State) (placed : ProcPane → Option ProcessInfo) :
    Prop :=
  ∀ e t target, handle fmtF32 s e = some t → Targets s t target →
    ∃ r, placed s.openPane.1 = some r ∧ target.pid = r.pid ∧
      target.identity.startTimeTicks = r.startTimeTicks

theorem run_track (fmtF32 : Float32 → Word) (s : State) (placed : ProcPane → Option ProcessInfo)
    (es : List Event) :
    (Machine.run (track fmtF32) (s, placed) es).map (·.1) = Machine.run (handle fmtF32) s es := by
  induction es generalizing s placed with
  | nil => rfl
  | cons e es ih =>
    rw [Machine.run_cons, Machine.run_cons]
    cases h : handle fmtF32 s e with
    | none => simp only [track, h, Option.map_none, Option.bind_none]
    | some t => simp only [track, h, Option.map_some, Option.bind_some, ih]

/-- **A key acts on the process under the cursor**, in every run in which no selected PID is found
again as another process. -/
theorem targets_placed (fmtF32 : Float32 → Word) (l : Launch) (es : List Event) (s : State)
    (placed : ProcPane → Option ProcessInfo)
    (hu : Machine.Along (track fmtF32) (fun s e => s.1.Unreused e) (.new l, fun _ => none) es)
    (h : Machine.run (track fmtF32) (.new l, fun _ => none) es = some (s, placed)) :
    TargetsPlaced fmtF32 s placed := by
  have hinv : s.Placed placed := by
    refine Machine.run_inv_along (P := fun s => s.1.Placed s.2) (fun s e t hs hu ht => ?_) h hu
      (placed_new l)
    obtain ⟨t', ht', rfl⟩ := Option.map_eq_some_iff.mp ht
    exact hs.step hu ht'
  intro e t target ht hT
  obtain ⟨info, hs, hpid, hid⟩ := (turn_of_handle ht).targets hT
  obtain ⟨r, hr, hsame⟩ := hinv.row _ _ hs
  exact ⟨r, hr, hpid.trans hsame.1.symm, by rw [hid]; exact hsame.2.symm⟩

end State

/-! ## A run for each case -/

/-- The same process is polled twice and acted on. -/
theorem targets_placed_sample :
    ∃ s placed, Machine.run (State.track fmtOne) (.new sampleLaunch, fun _ => none)
        (sampleSelect 1 ++ [samplePoll 1]) = some (s, placed) ∧
      placed .sys = some (sampleRow 1) ∧ State.TargetsPlaced fmtOne s placed := by
  have hrun : (Machine.run (State.track fmtOne) (.new sampleLaunch, fun _ => none)
      (sampleSelect 1 ++ [samplePoll 1])).map (·.2 .sys) = some (some (sampleRow 1)) := by
    decide +kernel
  obtain ⟨⟨s, placed⟩, hs, hp⟩ := Option.map_eq_some_iff.mp hrun
  exact ⟨s, placed, hs, hp,
    State.targets_placed fmtOne sampleLaunch _ s placed (by decide +kernel) hs⟩

/-- PID 10 is taken again between two polls, and `x` acts on the new process. -/
theorem not_targetsPlaced_reused :
    ¬ ∀ es s placed, Machine.run (State.track fmtOne) (.new sampleLaunch, fun _ => none) es =
      some (s, placed) → State.TargetsPlaced fmtOne s placed := by
  intro hall
  have hrun : (Machine.run (State.track fmtOne) (.new sampleLaunch, fun _ => none)
      (sampleSelect 1 ++ [samplePoll 2])).map (fun s => (s.2 s.1.openPane.1,
        (State.handle fmtOne s.1 (.key (sampleKey (.char 'x')))).map (·.spawned))) =
      some (some (sampleRow 1),
        some [.terminate (.select (sampleRow 2) (.ok 10)) "svc" 5000]) := by decide +kernel
  obtain ⟨⟨s, placed⟩, hs, hp⟩ := Option.map_eq_some_iff.mp hrun
  obtain ⟨hplaced, hx⟩ := Prod.mk.inj hp
  obtain ⟨t, ht, hsp⟩ := Option.map_eq_some_iff.mp hx
  obtain ⟨r, hr, -, hstart⟩ := hall _ s placed hs _ t (.select (sampleRow 2) (.ok 10)) ht
    (.inl ⟨"svc", 5000, by rw [hsp]; exact List.mem_singleton.mpr rfl⟩)
  cases hplaced.symm.trans hr
  exact absurd hstart (by decide)

end Saltnitor.Main
