import Saltnitor.App.Inspector
import Saltnitor.App.Logs
import Saltnitor.Main.Keys
import Saltnitor.Tuner.Panel

/-!
# The render and control loop

`State` is the whole of `App` as the loop in `main` works on it, `handle` one
event. A key goes to the pending confirmation, an inspector, the tuner, the
console, the help, the search or the dashboard, whichever is first (`handleKey`).
What runs outside the loop is a `Spawn`: `spawned` has what the last event
started. `none` is the loop's end or a panic of the console.
-/

namespace Saltnitor.Main

open Rust App Process Tuner

/-! ## State -/

/-- A task outside the loop. -/
inductive Spawn where
  | terminate (target : Target) (serviceName : Str) (graceMs : Nat)
  | kill (target : Target) (serviceName : Str)
  | console (effect : App.Effect)
  /-- Write the settings into the section, then restart the unit. -/
  | tuner (routerIni section_ : Str) (kv : List (Str × Str)) (serviceName : Str)
  | systemctl (verb serviceName ok : Str)
  | crashDump (path content : Str)
  deriving DecidableEq

structure State where
  shouldQuit : Bool
  cpuCoreCount : Nat
  serviceName : Str
  termGraceMs : Nat
  routerIni : Option Str
  console : App
  /-- 0: interrogator, 1: hot-swap. -/
  bottomTabMode : Fin 2
  tuner : Panel
  showTuner : Bool
  inspectors : Inspectors
  showGpuInspector : Bool
  showSysInspector : Bool
  /-- A SIGKILL that waits for `y`. -/
  pendingKill : Option Target
  confirmLine : Option Str
  showHelp : Bool
  isSearching : Bool
  searchQuery : Str
  gauges : Gauges
  logs : Logs
  portStatus : Str
  lastError : Option Str
  spawned : List Spawn

/-- What `main` starts the loop with. -/
structure Launch where
  console : App.Launch
  cpuCoreCount : Nat
  serviceName : Str
  defaultCtx : Int32
  ramTotal : F64
  vramTotal : F64
  routerIni : Option Str
  termGraceMs : Nat
  redactor : Auth.Redactor

namespace State

/-- `App::new`, with what `main` sets right after it. -/
def new (l : Launch) : State where
  shouldQuit := false
  cpuCoreCount := l.cpuCoreCount
  serviceName := l.serviceName
  termGraceMs := l.termGraceMs
  routerIni := l.routerIni
  console := .new l.console
  bottomTabMode := 0
  tuner := .new l.cpuCoreCount l.defaultCtx
  showTuner := false
  inspectors := .new
  showGpuInspector := false
  showSysInspector := false
  pendingKill := none
  confirmLine := none
  showHelp := false
  isSearching := false
  searchQuery := []
  gauges := {
    vramUsed := .fin 0, vramTotal := l.vramTotal, ramUsed := .fin 0, ramTotal := l.ramTotal
    gpuMeasured := false, gpuTemp := 0, gpuPower := "0W"
    cpuHistory := ⟨List.replicate 100 0, by rw [List.length_replicate]⟩ }
  logs := .new l.redactor
  portStatus := ("Port " : Str) ++ toDec l.console.port ++ (": SCANNING..." : Str)
  lastError := none
  spawned := []

def addLog (s : State) (line : Str) : State := { s with logs := s.logs.addLog line }

def spawn (s : State) (t : Spawn) : State := { s with spawned := s.spawned ++ [t] }

/-! ## Process control -/

/-- SIGTERM the selected row; `opened` is the kernel's answer to `pidfd_open`. -/
def startTerminate (s : State) (info : ProcessInfo) (opened : Except Errno Nat) : State :=
  (s.addLog ((">>> PROCESS: SIGTERM " : Str) ++ toDec info.pid ++ (" (" : Str) ++ info.name ++
    (") requested" : Str))).spawn (.terminate (.select info opened) s.serviceName s.termGraceMs)

/-- The question for `pid` and `name`. -/
def confirmQuestion (pid : Nat) (name : Str) : Str :=
  ("SIGKILL " : Str) ++ toDec pid ++ (" (" : Str) ++ name ++ (")? [y/N]" : Str)

def askKill (s : State) (info : ProcessInfo) (opened : Except Errno Nat) : State :=
  { s with
    confirmLine := some (confirmQuestion info.pid info.name)
    pendingKill := some (.select info opened) }

def confirmKill (s : State) (target : Target) : State := s.spawn (.kill target s.serviceName)

/-- The pane whose keys these are, with the letter that opened it. -/
def openPane (s : State) : ProcPane × Char := if s.showGpuInspector then (.gpu, 'g') else (.sys, 'c')

def inspectorKey (s : State) (pane : ProcPane) (opened : Except Errno Nat) : ProcKey → State
  | .close =>
    if s.showGpuInspector then { s with showGpuInspector := false }
    else { s with showSysInspector := false }
  | .up => { s with inspectors := s.inspectors.moveProcCursor pane false }
  | .down => { s with inspectors := s.inspectors.moveProcCursor pane true }
  | .terminate =>
    match s.inspectors.selectedProc pane with
    | some info => s.startTerminate info opened
    | none => s
  | .kill =>
    match s.inspectors.selectedProc pane with
    | some info => s.askKill info opened
    | none => s
  | .other => s

/-! ## The tuner -/

/-- `Enter`: write the settings of the active model. -/
def applyTuner (s : State) (fmtF32 : Float32 → Word) : State :=
  if s.console.activeModel = [] ∨ s.console.activeModel = ("None" : Str) then
    s.addLog ">>> TUNER: no active model - select one in the Hot-Swap deck (Tab) before applying."
  else
    match s.routerIni with
    | none =>
      s.addLog ">>> TUNER: refusing to apply — set `router_ini` in config.toml (REQ-SEC-013, DEC-04)"
    | some routerIni =>
      let kv := s.tuner.settings fmtF32 s.console.currentNgl
      { s.addLog ((">>> TUNER: writing " : Str) ++ toDec kv.length ++ (" keys to [" : Str) ++
          s.console.activeModel ++ ("] in router.ini..." : Str)) with
        showTuner := false }.spawn (.tuner routerIni s.console.activeModel kv s.serviceName)

def adjustTuner (s : State) (right : Bool) : State :=
  let (console, tuner) := adjust right s.cpuCoreCount s.console s.tuner
  { s with console := console, tuner := tuner }

def tunerKey (s : State) (fmtF32 : Float32 → Word) : KeyCode → State
  | .esc | .char 't' => { s with showTuner := false }
  | .tab => { s with tuner := s.tuner.nextPage }
  | .up => { s with tuner := { s.tuner with selected := s.tuner.selected - 1 } }
  | .down =>
    if s.tuner.selected < lastRow s.tuner.page then
      { s with tuner := { s.tuner with selected := s.tuner.selected + 1 } }
    else s
  | .left => s.adjustTuner false
  | .right => s.adjustTuner true
  | .enter => s.applyTuner fmtF32
  | _ => s

/-! ## The bottom deck -/

/-- What the console asks for: log lines are added, the rest is started. -/
def perform (s : State) : App.Effect → State
  | .log line => s.addLog line
  | e => s.spawn (.console e)

/-- Take over the console's new state and do what it asks for. -/
def setConsole (s : State) (a : App) : State :=
  a.effects.foldl perform { s with console := { a with effects := [] } }

/-- The deck shows the hot-swap list, not the interrogator. -/
def onHotSwap (s : State) : Bool := decide (s.bottomTabMode = 1)

def consoleKey (s : State) (code : KeyCode) : Option State :=
  if s.bottomTabMode = 1 then some (s.setConsole (s.console.hotSwapKey code.toConsole))
  else (s.console.interrogatorKey code.toConsole).map s.setConsole

/-! ## Help, search and dashboard -/

def helpKey (s : State) : KeyCode → State
  | .esc | .char 'h' | .char 'q' => { s with showHelp := false }
  | _ => s

def searchKey (s : State) : KeyCode → State
  | .esc | .enter => { s with isSearching := false }
  | .backspace => { s with searchQuery := s.searchQuery.dropLast }
  | .char c => { s with searchQuery := s.searchQuery ++ [c] }
  | _ => s

/-- A log line, and a verb for the unit. -/
def systemctl (s : State) (line verb ok : Str) : State :=
  (s.addLog line).spawn (.systemctl verb s.serviceName ok)

/-- `Ctrl+D`, at `timestamp` and with `$HOME` as `home`. -/
def crashDump (s : State) (timestamp : Str) (home : Option Str) : State :=
  let path := home.getD "." ++ ("/saltnitor_crash_" : Str) ++ timestamp ++ (".txt" : Str)
  let content := crashDumpText timestamp s.console.activeModel s.gauges s.logs
  (s.addLog ((">>> CRASH DUMP -> " : Str) ++ path)).spawn (.crashDump path content)

/-- A key, with what the code reads from outside when it handles one. -/
structure KeyInput where
  key : KeyEvent
  /-- The kernel's answer to `pidfd_open`. -/
  opened : Except Errno Nat
  timestamp : Str
  home : Option Str

def dashboardKey (s : State) (k : KeyInput) : State :=
  let svc := s.serviceName
  match k.key.code with
  | .tab => { s with bottomTabMode := s.bottomTabMode + 1 }
  | .pageUp => { s with logs := s.logs.scrollLogsUp }
  | .pageDown => { s with logs := s.logs.scrollLogsDown }
  | .esc => { s with showGpuInspector := false, showSysInspector := false }
  | .char 'q' => { s with shouldQuit := true }
  | .char 't' => { s with showTuner := true }
  | .char 'i' => { s with console := { s.console with consoleFocused := true } }
  | .char 'g' => { s with showGpuInspector := !s.showGpuInspector, showSysInspector := false }
  | .char 'c' => { s with showSysInspector := !s.showSysInspector, showGpuInspector := false }
  | .char '/' => { s with isSearching := true, searchQuery := [] }
  | .char 'h' => { s with showHelp := true }
  | .char 'S' =>
    s.systemctl ((">>> SYSTEMCTL: Starting " : Str) ++ svc ++ ("..." : Str)) "start"
      ((">>> SYSTEMCTL: " : Str) ++ svc ++ (" started." : Str))
  | .char 'X' =>
    s.systemctl ((">>> SYSTEMCTL: Stopping " : Str) ++ svc ++ ("..." : Str)) "stop"
      ((">>> SYSTEMCTL: " : Str) ++ svc ++ (" stopped." : Str))
  | .char 'R' =>
    s.systemctl ((">>> SYSTEMCTL: Restarting " : Str) ++ svc ++ ("..." : Str)) "restart"
      ((">>> SYSTEMCTL: " : Str) ++ svc ++ (" restarted." : Str))
  | .char 'k' =>
    if k.key.control then
      s.systemctl ">>> TACTICAL KILL-SWITCH: stopping unit (frees VRAM, stays down)..." "stop"
        ">>> KILL-SWITCH: unit stopped, VRAM freed. (Shift+S to restart.)"
    else s
  | .char 'd' => if k.key.control then s.crashDump k.timestamp k.home else s
  | _ => s

/-! ## One key -/

def handleKey (s : State) (fmtF32 : Float32 → Word) (k : KeyInput) : Option State :=
  match s.pendingKill with
  | some target =>
    let s := { s with pendingKill := none, confirmLine := none }
    if k.key.code = .char 'y' then some (s.confirmKill target)
    else some (s.addLog ">>> PROCESS: kill cancelled")
  | none =>
    if s.showGpuInspector || s.showSysInspector then
      let (pane, closeChar) := s.openPane
      some (s.inspectorKey pane k.opened (classify k.key closeChar))
    else if s.showTuner then some (s.tunerKey fmtF32 k.key.code)
    else if s.console.consoleFocused then s.consoleKey k.key.code
    else if s.showHelp then some (s.helpKey k.key.code)
    else if s.isSearching then some (s.searchKey k.key.code)
    else some (s.dashboardKey k)

end State

/-! ## Events -/

inductive Source where
  | unavailable
  | estimated
  | measured
  deriving DecidableEq

/-- What the interrogator measured. -/
structure Metrics where
  ttftMs : Option Nat
  ppTps : Option F64
  tgTps : Option F64
  source : Source
  deriving DecidableEq

/-- The deck's texts for TTFT, PP and TG. -/
def render (m : Metrics) : Str × Str × Str :=
  let suffix : Str := if m.source = .estimated then " (est.)" else ""
  let rate (label : Str) (v : Option F64) : Str :=
    match v with
    | some v => label ++ (": " : Str) ++ v.fmt1 ++ (" t/s" : Str) ++ suffix
    | none => label ++ (": n/a" : Str)
  (match m.ttftMs with
    | some t => ("TTFT: " : Str) ++ toDec t ++ ("ms" : Str)
    | none => "TTFT: n/a", rate "PP" m.ppTps, rate "TG" m.tgTps)

/-- One answer of nvidia-smi, as far as the loop keeps it. -/
structure GpuSample where
  vramUsedGb : F64
  tempC : Int
  power : Str
  deriving DecidableEq

/-- No sample leaves the old numbers, unmeasured. -/
def applyGpuSample (g : Gauges) : Option GpuSample → Gauges
  | none => { g with gpuMeasured := false }
  | some s =>
    { g with gpuMeasured := true, vramUsed := s.vramUsedGb, gpuTemp := s.tempC, gpuPower := s.power }

/-- The lists a frame has room for; the search decides how many log lines there are. -/
structure Frame where
  inspector : Bool
  logItems : Option Nat
  deck : Bool
  list : App.ListRender

inductive Event where
  /-- `terminal.draw` before the next event. -/
  | draw (frame : Frame)
  | key (k : State.KeyInput)
  | apiStreamStart (ttftMs : Nat)
  | apiStreamChunk (token : Str)
  | apiStreamEnd (metrics : Metrics) (status : Str)
  | modelsFetched (models : List Str)
  | portAudit (status : Str)
  | hardwareUpdate (ramUsed : F64) (cpuLoad : Nat) (gpu : Option GpuSample)
      (processes : List ProcessInfo) (users : List (Nat × Str))
  | logLine (line : Str)
  | activeModelSet (model : Str)
  | error (source message : Str)
  | tick

/-- An empty pane shows one line. -/
def drawPane (list : App.ListRender) (p : Pane) : Pane :=
  { p with cursor := list.select (max 1 p.rows.length) p.cursor }

namespace State

def drawInspector (s : State) (list : App.ListRender) : Inspectors :=
  if s.showGpuInspector then { s.inspectors with gpu := drawPane list s.inspectors.gpu }
  else if s.showSysInspector then { s.inspectors with sys := drawPane list s.inspectors.sys }
  else s.inspectors

def draw (s : State) (f : Frame) : State :=
  { s with
    inspectors := if f.inspector then s.drawInspector f.list else s.inspectors
    logs := match f.logItems with
      | some n => { s.logs with selected := f.list.select n s.logs.selected }
      | none => s.logs
    console := if f.deck ∧ s.bottomTabMode = 1 then s.console.drawDeck f.list else s.console }

def apiStreamEnd (s : State) (m : Metrics) (status : Str) : State :=
  let (ttft, pp, tg) := render m
  s.addLog (("API Strike: " : Str) ++ ttft ++ (" | " : Str) ++ pp ++ (" | " : Str) ++ tg ++
    (" | [" : Str) ++ status ++ ("] " : Str) ++ s.console.lastApiResult.take 30)

/-- The interrogator's failure is also shown in the deck. -/
def showError (a : App) (source message : Str) : App :=
  if source = ("interrogator" : Str) then
    let shown := if a.lastApiResult = ("Sending payload..." : Str) then [] else a.lastApiResult
    { a with lastApiResult := shown ++ ("ERROR: " : Str) ++ message }
  else a

def error (s : State) (source message : Str) : State :=
  { s with
    console := showError s.console source message
    lastError := some (source ++ (": " : Str) ++ message) }.addLog
      ((">>> ERROR [" : Str) ++ source ++ ("]: " : Str) ++ message)

def hardwareUpdate (s : State) (ramUsed : F64) (cpuLoad : Nat) (gpu : Option GpuSample)
    (processes : List ProcessInfo) (users : List (Nat × Str)) : State :=
  { s with
    gauges := (applyGpuSample { s.gauges with ramUsed := ramUsed } gpu).addCpu cpuLoad
    inspectors := s.inspectors.setProcesses processes users }

/-- The handler of an event. -/
def receive (s : State) (fmtF32 : Float32 → Word) : Event → Option State
  | .draw f => some (s.draw f)
  | .key k => s.handleKey fmtF32 k
  | .apiStreamStart ttftMs =>
    some { s with console := { s.console with lastTtft := ttftMs, lastApiResult := [] } }
  | .apiStreamChunk token =>
    some { s with console := { s.console with
      lastApiResult := s.console.lastApiResult ++ token } }
  | .apiStreamEnd m status => some (s.apiStreamEnd m status)
  | .modelsFetched models => some { s with console := s.console.modelsFetched models }
  | .portAudit status => some { s with portStatus := status }
  | .hardwareUpdate ramUsed cpuLoad gpu processes users =>
    some (s.hardwareUpdate ramUsed cpuLoad gpu processes users)
  | .logLine line => some (s.addLog line)
  | .activeModelSet m =>
    some ({ s with console := { s.console with activeModel := m } }.addLog
      ((">>> EXTERNAL: resident model is now " : Str) ++ m))
  | .error source message => some (s.error source message)
  | .tick => some s

/-- One turn of the loop, which ends once `shouldQuit` is set. -/
def handle (fmtF32 : Float32 → Word) (s : State) (e : Event) : Option State :=
  if s.shouldQuit then none else { s with spawned := [] }.receive fmtF32 e

end State

end Saltnitor.Main
