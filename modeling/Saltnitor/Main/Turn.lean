import Saltnitor.Lib.Machine
import Saltnitor.Main.Loop

/-!
# What a turn can do

`Turn` lists what one turn of the loop can do to the confirmation, to the
inspectors and to processes, guards included; everything else is `Quiet`.
`turn_of_handle` is the inversion of `handle`, and what follows about runs cites
it instead of the handlers.
-/

namespace Saltnitor.Main

open Rust App Process Tuner

/-- The task signals a process. -/
def Spawn.signals : Spawn → Bool
  | .terminate .. | .kill .. => true
  | _ => false

/-- The event is a key. -/
def Event.isKey : Event → Bool
  | .key _ => true
  | _ => false

namespace State

/-- The state as a turn begins. -/
def cleared (s : State) : State := { s with spawned := [] }

/-- The confirmation and the inspectors are as before, and no process is signalled. -/
structure Quiet (s t : State) : Prop where
  pendingKill : t.pendingKill = s.pendingKill
  confirmLine : t.confirmLine = s.confirmLine
  inspectors : t.inspectors = s.inspectors
  spawned : ∀ x ∈ t.spawned, x.signals = true → x ∈ s.spawned

variable {s t u : State}

theorem Quiet.refl (s : State) : Quiet s s := ⟨rfl, rfl, rfl, fun _ hx _ => hx⟩

theorem Quiet.trans (h : Quiet s t) (h' : Quiet t u) : Quiet s u :=
  ⟨h'.pendingKill.trans h.pendingKill, h'.confirmLine.trans h.confirmLine,
    h'.inspectors.trans h.inspectors, fun x hx hs => h.spawned x (h'.spawned x hx hs) hs⟩

theorem Quiet.of_eq (hp : t.pendingKill = s.pendingKill) (hc : t.confirmLine = s.confirmLine)
    (hi : t.inspectors = s.inspectors) (hs : t.spawned = s.spawned) : Quiet s t :=
  ⟨hp, hc, hi, fun _ hx _ => hs ▸ hx⟩

theorem Quiet.not_signals (h : Quiet s.cleared t) {x : Spawn} (hx : x ∈ t.spawned) :
    x.signals = false := by
  cases hs : x.signals with
  | false => rfl
  | true => exact nomatch h.spawned x hx hs

/-! ## Quiet handlers -/

theorem quiet_addLog (s : State) (line : Str) : Quiet s (s.addLog line) := .of_eq rfl rfl rfl rfl

theorem quiet_spawn (s : State) {x : Spawn} (hx : x.signals = false) : Quiet s (s.spawn x) := by
  refine ⟨rfl, rfl, rfl, fun y hy hs => ?_⟩
  rcases List.mem_append.mp hy with hy | hy
  · exact hy
  · rw [List.mem_singleton.mp hy, hx] at hs
    cases hs

theorem quiet_perform (s : State) (e : App.Effect) : Quiet s (s.perform e) := by
  cases e with
  | log line => exact quiet_addLog s line
  | strike => exact quiet_spawn s rfl
  | warmLoad => exact quiet_spawn s rfl

theorem quiet_foldl_perform (s : State) (es : List App.Effect) : Quiet s (es.foldl perform s) := by
  induction es generalizing s with
  | nil => exact .refl s
  | cons e es ih => exact (quiet_perform s e).trans (ih _)

theorem quiet_setConsole (s : State) (a : App) : Quiet s (s.setConsole a) := by
  refine .trans ?_ (quiet_foldl_perform _ a.effects)
  exact .of_eq rfl rfl rfl rfl

theorem quiet_consoleKey {code : KeyCode} (h : s.consoleKey code = some t) : Quiet s t := by
  unfold consoleKey at h
  split at h
  · cases h
    exact quiet_setConsole ..
  · obtain ⟨a, -, rfl⟩ := Option.map_eq_some_iff.mp h
    exact quiet_setConsole ..

theorem quiet_applyTuner (s : State) (fmtF32 : Float32 → Word) : Quiet s (s.applyTuner fmtF32) := by
  unfold applyTuner
  split
  · exact quiet_addLog ..
  · split
    · exact quiet_addLog ..
    · refine .trans ?_ (quiet_spawn _ rfl)
      exact .of_eq rfl rfl rfl rfl

theorem quiet_tunerKey (s : State) (fmtF32 : Float32 → Word) (code : KeyCode) :
    Quiet s (s.tunerKey fmtF32 code) := by
  unfold tunerKey
  split
  · exact .of_eq rfl rfl rfl rfl
  · exact .of_eq rfl rfl rfl rfl
  · exact .of_eq rfl rfl rfl rfl
  · exact .of_eq rfl rfl rfl rfl
  · split
    · exact .of_eq rfl rfl rfl rfl
    · exact .refl s
  · exact .of_eq rfl rfl rfl rfl
  · exact .of_eq rfl rfl rfl rfl
  · exact quiet_applyTuner s fmtF32
  · exact .refl s

theorem quiet_helpKey (s : State) (code : KeyCode) : Quiet s (s.helpKey code) := by
  unfold helpKey
  split <;> exact .of_eq rfl rfl rfl rfl

theorem quiet_searchKey (s : State) (code : KeyCode) : Quiet s (s.searchKey code) := by
  unfold searchKey
  split <;> exact .of_eq rfl rfl rfl rfl

theorem quiet_systemctl (s : State) (line verb ok : Str) : Quiet s (s.systemctl line verb ok) :=
  (quiet_addLog s line).trans (quiet_spawn _ rfl)

theorem quiet_crashDump (s : State) (timestamp : Str) (home : Option Str) :
    Quiet s (s.crashDump timestamp home) :=
  (quiet_addLog s _).trans (quiet_spawn _ rfl)

theorem quiet_dashboardKey (s : State) (k : KeyInput) : Quiet s (s.dashboardKey k) := by
  unfold dashboardKey
  dsimp only
  split
  all_goals first
    | exact .of_eq rfl rfl rfl rfl
    | exact quiet_systemctl ..
    | skip
  · split
    · exact quiet_systemctl ..
    · exact .refl s
  · split
    · exact quiet_crashDump ..
    · exact .refl s

/-! ## The turns -/

/-- A key that reaches an inspector, as the inspector reads it. -/
structure Pressed (s : State) (k : KeyInput) (pk : ProcKey) : Prop where
  pendingKill : s.pendingKill = none
  shown : (s.showGpuInspector || s.showSysInspector) = true
  key : classify k.key s.openPane.2 = pk

instance (s : State) (k : KeyInput) (pk : ProcKey) : Decidable (Pressed s k pk) :=
  decidable_of_iff (s.pendingKill = none ∧ (s.showGpuInspector || s.showSysInspector) = true ∧
    classify k.key s.openPane.2 = pk) ⟨fun ⟨a, b, c⟩ => ⟨a, b, c⟩, fun ⟨a, b, c⟩ => ⟨a, b, c⟩⟩

/-- The cursor a key moves, and in which direction. -/
def cursorMove (s : State) (k : KeyInput) : Option (ProcPane × Bool) :=
  if Pressed s k .up then some (s.openPane.1, false)
  else if Pressed s k .down then some (s.openPane.1, true)
  else none

/-- What one turn does. -/
inductive Turn (s : State) : Event → State → Prop
  | quiet {e : Event} {t : State} (hk : e.isKey = true → s.pendingKill = none)
      (h : Quiet s.cleared t) : Turn s e t
  | draw {f : Frame} {t : State} (h : Quiet s.cleared { t with inspectors := s.inspectors })
      (hi : ∀ pane, t.inspectors.pane pane = s.inspectors.pane pane ∨
        t.inspectors.pane pane = drawPane f.list (s.inspectors.pane pane)) : Turn s (.draw f) t
  | poll {ramUsed : F64} {cpuLoad : Nat} {gpu : Option GpuSample} {processes : List ProcessInfo}
      {users : List (Nat × Str)} {t : State}
      (h : Quiet s.cleared { t with inspectors := s.inspectors })
      (hi : t.inspectors = s.inspectors.setProcesses processes users) :
      Turn s (.hardwareUpdate ramUsed cpuLoad gpu processes users) t
  | move {k : KeyInput} {pane : ProcPane} {forward : Bool}
      (hp : s.pendingKill = none) (hm : s.cursorMove k = some (pane, forward)) :
      Turn s (.key k) { s.cleared with inspectors := s.inspectors.moveProcCursor pane forward }
  | terminate {k : KeyInput} {info : ProcessInfo} (hp : s.Pressed k .terminate)
      (hs : s.inspectors.selectedProc s.openPane.1 = some info) :
      Turn s (.key k) (s.cleared.startTerminate info k.opened)
  | ask {k : KeyInput} {info : ProcessInfo} (hp : s.Pressed k .kill)
      (hs : s.inspectors.selectedProc s.openPane.1 = some info) :
      Turn s (.key k) (s.cleared.askKill info k.opened)
  | confirm {k : KeyInput} {target : Target} (hp : s.pendingKill = some target)
      (hy : k.key.code = .char 'y') :
      Turn s (.key k)
        ({ s.cleared with pendingKill := none, confirmLine := none }.confirmKill target)
  | cancel {k : KeyInput} {target : Target} (hp : s.pendingKill = some target)
      (hy : k.key.code ≠ .char 'y') :
      Turn s (.key k)
        ({ s.cleared with pendingKill := none, confirmLine := none }.addLog
          ">>> PROCESS: kill cancelled")

theorem cursorMove_up {k : KeyInput} (h : Pressed s k .up) :
    s.cursorMove k = some (s.openPane.1, false) := if_pos h

theorem cursorMove_down {k : KeyInput} (h : Pressed s k .down) :
    s.cursorMove k = some (s.openPane.1, true) := by
  have hup : ¬ Pressed s k .up := fun hu => absurd (h.key.symm.trans hu.key) (by decide)
  rw [cursorMove, if_neg hup, if_pos h]

theorem turn_inspectorKey {k : KeyInput} {pk : ProcKey} (h : Pressed s k pk) :
    Turn s (.key k) (s.cleared.inspectorKey s.openPane.1 k.opened pk) := by
  have hp := h.pendingKill
  cases pk with
  | up => exact .move hp (cursorMove_up h)
  | down => exact .move hp (cursorMove_down h)
  | terminate =>
    cases hs : s.inspectors.selectedProc s.openPane.1 with
    | none =>
      have : s.cleared.inspectorKey s.openPane.1 k.opened .terminate = s.cleared := by
        simp only [inspectorKey, cleared, hs]
      rw [this]
      exact .quiet (fun _ => hp) (.refl _)
    | some info =>
      have : s.cleared.inspectorKey s.openPane.1 k.opened .terminate =
          s.cleared.startTerminate info k.opened := by
        simp only [inspectorKey, cleared, hs]
      rw [this]
      exact .terminate h hs
  | kill =>
    cases hs : s.inspectors.selectedProc s.openPane.1 with
    | none =>
      have : s.cleared.inspectorKey s.openPane.1 k.opened .kill = s.cleared := by
        simp only [inspectorKey, cleared, hs]
      rw [this]
      exact .quiet (fun _ => hp) (.refl _)
    | some info =>
      have : s.cleared.inspectorKey s.openPane.1 k.opened .kill =
          s.cleared.askKill info k.opened := by
        simp only [inspectorKey, cleared, hs]
      rw [this]
      exact .ask h hs
  | close =>
    refine .quiet (fun _ => hp) ?_
    simp only [inspectorKey]
    split <;> exact .of_eq rfl rfl rfl rfl
  | other => exact .quiet (fun _ => hp) (.refl _)

theorem handleKey_pressed {fmtF32 : Float32 → Word} {k : KeyInput} {pk : ProcKey}
    (h : Pressed s k pk) :
    s.cleared.handleKey fmtF32 k = some (s.cleared.inspectorKey s.openPane.1 k.opened pk) := by
  have hp : s.cleared.pendingKill = none := h.pendingKill
  have hshown : (s.cleared.showGpuInspector || s.cleared.showSysInspector) = true := h.shown
  have hk : classify k.key s.cleared.openPane.2 = pk := h.key
  unfold handleKey
  simp only [hp]
  rw [if_pos hshown, hk]
  rfl

theorem turn_of_handleKey {fmtF32 : Float32 → Word} {k : KeyInput}
    (h : s.cleared.handleKey fmtF32 k = some t) : Turn s (.key k) t := by
  unfold handleKey at h
  split at h
  · rename_i target hp
    split at h
    · rename_i hy
      cases h
      exact .confirm hp hy
    · rename_i hy
      cases h
      exact .cancel hp hy
  · rename_i hp
    have hp : s.pendingKill = none := hp
    split at h
    · rename_i hshown
      cases h
      exact turn_inspectorKey ⟨hp, hshown, rfl⟩
    · refine .quiet (fun _ => hp) ?_
      split at h
      · cases h
        exact quiet_tunerKey ..
      · split at h
        · exact quiet_consoleKey h
        · split at h
          · cases h
            exact quiet_helpKey ..
          · split at h
            · cases h
              exact quiet_searchKey ..
            · cases h
              exact quiet_dashboardKey ..

/-- Drawing moves no more than the cursor of the pane that is shown. -/
theorem pane_drawInspector (s : State) (list : App.ListRender) (pane : ProcPane) :
    (s.drawInspector list).pane pane = s.inspectors.pane pane ∨
      (s.drawInspector list).pane pane = drawPane list (s.inspectors.pane pane) := by
  unfold drawInspector
  split
  · cases pane
    · exact .inr rfl
    · exact .inl rfl
  · split
    · cases pane
      · exact .inl rfl
      · exact .inr rfl
    · exact .inl rfl

/-- **The inversion of a turn.** -/
theorem turn_of_handle {fmtF32 : Float32 → Word} {e : Event} (h : handle fmtF32 s e = some t) :
    Turn s e t := by
  unfold handle at h
  split at h
  · cases h
  have h : s.cleared.receive fmtF32 e = some t := h
  cases e with
  | draw f =>
    cases h
    refine .draw (.of_eq rfl rfl rfl rfl) fun pane => ?_
    show (if f.inspector then s.cleared.drawInspector f.list else s.inspectors).pane pane = _ ∨
      (if f.inspector then s.cleared.drawInspector f.list else s.inspectors).pane pane = _
    split
    · exact pane_drawInspector s.cleared f.list pane
    · exact .inl rfl
  | key k => exact turn_of_handleKey h
  | hardwareUpdate ramUsed cpuLoad gpu processes users =>
    cases h
    exact .poll (.of_eq rfl rfl rfl rfl) rfl
  | apiStreamStart ttftMs => cases h; exact .quiet nofun (.of_eq rfl rfl rfl rfl)
  | apiStreamChunk token => cases h; exact .quiet nofun (.of_eq rfl rfl rfl rfl)
  | apiStreamEnd m status => cases h; exact .quiet nofun (quiet_addLog ..)
  | modelsFetched models => cases h; exact .quiet nofun (.of_eq rfl rfl rfl rfl)
  | portAudit status => cases h; exact .quiet nofun (.of_eq rfl rfl rfl rfl)
  | logLine line => cases h; exact .quiet nofun (quiet_addLog ..)
  | activeModelSet m => cases h; exact .quiet nofun (.of_eq rfl rfl rfl rfl)
  | error source message => cases h; exact .quiet nofun (.of_eq rfl rfl rfl rfl)
  | tick => cases h; exact .quiet nofun (.refl _)

end State

/-! ## A sample run -/

def sampleLaunch : Launch where
  console := { host := "127.0.0.1", port := 8080, defaultNgl := 99, controlPort := 8765,
               clientBearer := none, inferBearer := none, history := none }
  cpuCoreCount := 8
  serviceName := "svc"
  defaultCtx := 8192
  ramTotal := .fin 32
  vramTotal := .fin 24
  routerIni := none
  termGraceMs := 5000
  redactor := .new []

/-- PID 10, as the process that started at `ticks`. -/
def sampleRow (ticks : Nat) : ProcessInfo where
  pid := 10
  name := "python3"
  memoryBytes := 4194304
  gpuMemoryBytes := none
  gpuMemoryReason := none
  command := none
  startTimeTicks := ticks
  uid := 1000

def sampleKey (code : KeyCode) : State.KeyInput :=
  { key := { code := code }, opened := .ok 10, timestamp := [], home := none }

/-- The tuner is opened, and gets the keys of `codes`. -/
def sampleTuner (codes : List KeyCode) : List Event :=
  (.char 't' :: codes).map fun code => .key (sampleKey code)

def samplePoll (ticks : Nat) : Event := .hardwareUpdate (.fin 8) 5 none [sampleRow ticks] []

/-- The row is polled and selected in the CPU inspector. -/
def sampleSelect (ticks : Nat) : List Event :=
  [samplePoll ticks, .key (sampleKey (.char 'c')), .key (sampleKey .down)]

end Saltnitor.Main
