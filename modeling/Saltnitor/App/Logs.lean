import Saltnitor.Lib.Recent
import Saltnitor.Auth.Redactor
import Saltnitor.Rust.Number

/-!
# The log pane

`addLog` redacts a line and keeps the last hundred; `crashDumpText` writes the
same lines below a header. `scrollLogsUp` and `scrollLogsDown` move the cursor,
which follows the newest line while `autoScroll` is on.
-/

namespace Saltnitor.App

open Rust Auth

/-! ## The buffer -/

structure Logs where
  redactor : Redactor
  logs : Recent Str 100
  /-- `log_state.selected()`. -/
  selected : Option Nat
  autoScroll : Bool

namespace Logs

/-- As `App::new` starts; `main` sets the redactor before the first line. -/
def new (r : Redactor) : Logs :=
  { redactor := r, logs := .nothing, selected := some 0, autoScroll := true }

def addLog (l : Logs) (line : Str) : Logs :=
  let logs := l.logs.add (l.redactor.redact line)
  { l with
    logs := logs
    selected := if l.autoScroll then some (logs.items.length - 1) else l.selected }

def scrollLogsUp (l : Logs) : Logs :=
  { l with
    autoScroll := false
    selected := some (match l.selected with
      | some i => i - 1
      | none => 0) }

def scrollLogsDown (l : Logs) : Logs :=
  match l.selected with
  | some i =>
    if l.logs.items.length - 1 ≤ i then
      { l with autoScroll := true, selected := some (l.logs.items.length - 1) }
    else { l with selected := some (i + 1) }
  | none => { l with selected := some 0 }

theorem foldl_addLog (l : Logs) (lines : List Str) :
    (lines.foldl addLog l).redactor = l.redactor ∧
      (lines.foldl addLog l).logs = (lines.map l.redactor.redact).foldl Recent.add l.logs := by
  induction lines generalizing l with
  | nil => exact ⟨rfl, rfl⟩
  | cons line lines ih => exact ih (l.addLog line)

end Logs

/-! ## The crash dump -/

/-- What the poller measured last. -/
structure Gauges where
  vramUsed : F64
  vramTotal : F64
  ramUsed : F64
  ramTotal : F64
  gpuMeasured : Bool
  gpuTemp : Int
  gpuPower : Str
  cpuHistory : Recent Nat 100

/-- A new value for the CPU graph. -/
def Gauges.addCpu (g : Gauges) (cpuLoad : Nat) : Gauges :=
  { g with cpuHistory := g.cpuHistory.add cpuLoad }

/-- The dump down to its log lines. -/
def crashDumpHeader (timestamp activeModel : Str) (g : Gauges) : Str :=
  ("--- SALTNITOR CRASH DUMP [" : Str) ++ timestamp ++ ("] ---\n\nTARGET MODEL: " : Str) ++
    activeModel ++ ("\nVRAM USAGE:   " : Str) ++ g.vramUsed.fmt2 ++ (" / " : Str) ++
    g.vramTotal.fmt2 ++ (" GB\nRAM USAGE:    " : Str) ++ g.ramUsed.fmt2 ++ (" / " : Str) ++
    g.ramTotal.fmt2 ++ (" GB\nGPU TEMP:     " : Str) ++ fmtInt g.gpuTemp ++
    (" C\nGPU POWER:    " : Str) ++ g.gpuPower ++ ("\nCPU LOAD:     " : Str) ++
    toDec (g.cpuHistory.items.getLastD 0) ++ ("%\n\n--- RECENT LOGS ---\n" : Str)

def crashDumpText (timestamp activeModel : Str) (g : Gauges) (l : Logs) : Str :=
  crashDumpHeader timestamp activeModel g ++
    l.logs.items.flatMap fun log => l.redactor.redact log ++ ("\n" : Str)

/-! ## No secret is kept or dumped -/

/-- **Logged lines are redacted.** After any lines the buffer holds the last hundred of them,
redacted; a dump shows those lines unchanged, and redacting again would not change them. -/
theorem addLog_redacts {secrets : List Str} (h : PlainSecrets secrets) (lines : List Str) :
    (lines.foldl Logs.addLog (Logs.new (.new secrets))).logs.items =
        (lines.map (Redactor.new secrets).redact).rtake 100 ∧
      (∀ log ∈ (lines.foldl Logs.addLog (Logs.new (.new secrets))).logs.items,
        Redacted secrets log) ∧
      (∀ timestamp activeModel g,
        crashDumpText timestamp activeModel g (lines.foldl Logs.addLog (Logs.new (.new secrets))) =
          crashDumpHeader timestamp activeModel g ++
            (lines.foldl Logs.addLog (Logs.new (.new secrets))).logs.items.flatMap
              (· ++ ("\n" : Str))) ∧
      ∀ line, Redacted secrets ((Redactor.new secrets).redact line) ∧
        (Redactor.new secrets).redact ((Redactor.new secrets).redact line) =
          (Redactor.new secrets).redact line := by
  obtain ⟨hr, hl⟩ := Logs.foldl_addLog (.new (.new secrets)) lines
  have hitems : (lines.foldl Logs.addLog (Logs.new (.new secrets))).logs.items =
      (lines.map (Redactor.new secrets).redact).rtake 100 := by
    rw [hl, Recent.items_foldl_add]
    rfl
  have hred : ∀ log ∈ (lines.foldl Logs.addLog (Logs.new (.new secrets))).logs.items,
      Redacted secrets log := by
    intro log hlog
    rw [hitems] at hlog
    obtain ⟨line, -, rfl⟩ := List.mem_map.mp ((List.drop_suffix ..).subset hlog)
    exact redact_redacted h line
  refine ⟨hitems, hred, fun timestamp activeModel g => ?_, fun line =>
    ⟨redact_redacted h line, redact_redact h line⟩⟩
  rw [crashDumpText, hr]
  congr 1
  refine List.flatMap_congr fun log hlog => ?_
  show (Redactor.new secrets).redact log ++ _ = _
  rw [redact_of_redacted (hred log hlog)]

theorem addLog_redacts_token :
    ((Logs.new (.new ["s3cr3t"])).addLog "router said Bearer s3cr3t").logs.items =
        [("router said Bearer <redacted>" : Str)] ∧
      ∀ log ∈ ((Logs.new (.new ["s3cr3t"])).addLog "router said Bearer s3cr3t").logs.items,
        Redacted ["s3cr3t"] log := by
  have hp : PlainSecrets ["s3cr3t"] := by
    rintro s hs
    rw [List.mem_singleton.mp hs]
    exact ⟨by decide, by decide, by decide⟩
  obtain ⟨hitems, hred, -⟩ := addLog_redacts hp ["router said Bearer s3cr3t"]
  exact ⟨hitems.trans (by decide +kernel), hred⟩

end Saltnitor.App
