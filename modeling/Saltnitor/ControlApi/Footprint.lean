import Mathlib.Data.List.Infix
import Saltnitor.Rust.Double
import Saltnitor.Rust.Json

/-!
# The oracle

`estimateFootprint` guesses the memory a profile needs from its declared figures
or its file name, in doubles that round at every step; `oracle` compares it, with the
reserves, to what the host reports, and there the figures are taken as exact numbers. The
host's reports are the texts the program reads: the output of nvidia-smi and `/proc/meminfo`.
-/

namespace Saltnitor.ControlApi

open Rust

structure ProfileMeta where
  /-- The gguf file. -/
  model : Str
  offload : Bool := false
  estVramGb : Option F64 := none
  estRamGb : Option F64 := none
  deriving DecidableEq

structure OomInfo where
  needVramGb : F64
  totalVramGb : F64
  needRamGb : F64
  totalRamGb : F64
  deriving DecidableEq

/-! ## The estimate -/

/-- To one decimal. -/
def round1 (x : F64) : F64 := (x.fmul (.fin 10)).round.fdiv 10

/-- The number before a final `B`. -/
def sizeWord (w : Str) : Option F64 :=
  if w.getLast? = some 'B' then
    (parseF64 w.dropLast).filter fun n => F64.le (.fin (3 / 10)) n && n.lt (.fin 2000)
  else none

/-- The first size word of a file name, in billions of parameters. -/
def parseParamsB (name : Str) : Option F64 :=
  let up := (toUppercase name).map fun c => if c = '-' ∨ c = '_' ∨ c = '.' then ' ' else c
  (splitWhitespace up).findSome? sizeWord

/-- Bits per weight, from the quantization a file name names. -/
def parseBpw (name : Str) : ℚ :=
  let up := toUppercase name
  let has (s : Str) : Bool := s <:+: up
  if has "Q2_K" then 26 / 10
  else if has "Q3_K" || has "IQ3" then 35 / 10
  else if has "IQ4_XS" then 43 / 10
  else if has "Q4_K" || has "IQ4" then 485 / 100
  else if has "Q5_K" || has "Q5_" then 55 / 10
  else if has "Q6_K" then 66 / 10
  else if has "Q8_0" then 85 / 10
  else if has "F16" || has "BF16" then 16
  else 5

/-- VRAM and RAM a profile needs, in GiB. -/
def estimateFootprint (p : ProfileMeta) : F64 × F64 :=
  match p.estVramGb, p.estRamGb with
  | some v, some r => (v, r)
  | _, _ =>
    let paramsB := (parseParamsB p.model).getD (.fin 8)
    let bpw := F64.nearest (parseBpw p.model)
    let weights := (paramsB.fmul bpw).fdiv 8
    if p.offload then
      (round1 ((weights.fmul (.nearest (15 / 100))).fadd
          ((p.estVramGb.getD (.fin 0)).max (.fin 2))),
        round1 (weights.fmul (.nearest (85 / 100))))
    else (round1 (weights.fadd (.fin (15 / 10))), .fin 0)

/-! ## The host -/

structure CommandOutput where
  success : Bool
  stdout : Str
  deriving DecidableEq

/-- What the host reports: nvidia-smi's answers for `memory.total` and `memory.used`, and
`/proc/meminfo`; `none` where the command cannot be run or the file not be read. -/
structure Telemetry where
  memoryTotal : Option CommandOutput
  memoryUsed : Option CommandOutput
  meminfo : Option Str

def nvidiaQuery (out : Option CommandOutput) : Option F64 := do
  let o ← out
  if !o.success then none
  else parseF64 (trim (← (lines o.stdout).head?))

def vramTotalGb (t : Telemetry) : F64 := ((nvidiaQuery t.memoryTotal).getD (.fin 1)).divBy 1024

def vramUsedGb (t : Telemetry) : F64 := ((nvidiaQuery t.memoryUsed).getD (.fin 0)).divBy 1024

def meminfoKb (meminfo : Option Str) (key : Str) : Option F64 := do
  let line ← (lines (← meminfo)).find? fun l => key.isPrefixOf l
  parseF64 (← (splitWhitespace line)[1]?)

def totalRamGb (t : Telemetry) : F64 :=
  ((meminfoKb t.meminfo "MemTotal:").map fun kb => kb.divBy 1048576).getD (.fin 1)

def freeRamGb (t : Telemetry) : F64 :=
  ((meminfoKb t.meminfo "MemAvailable:").map fun kb => kb.divBy 1048576).getD (.fin 0)

/-! ## The decision -/

structure Reserves where
  vramGb : F64
  ramGb : F64

/-- Does the profile fit once the incumbent is evicted? The estimates, or the numbers that forbid. -/
def oracle (reserve : Reserves) (t : Telemetry) (prof : ProfileMeta) :
    Except OomInfo (F64 × F64) :=
  let (needV, needR) := estimateFootprint prof
  let totalV := vramTotalGb t
  let totalR := totalRamGb t
  if (needV.add reserve.vramGb).le totalV && (needR.add reserve.ramGb).le totalR then
    .ok (needV, needR)
  else .error
    { needVramGb := needV, totalVramGb := totalV, needRamGb := needR, totalRamGb := totalR }

example : estimateFootprint { model := "Qwen3-30B-A3B-Q4_K_M.gguf", offload := true } =
    (.nearest (47 / 10), .nearest (155 / 10)) := by decide +kernel

-- 24 * 4.85 / 8 + 1.5 is 16.05, and the double below it
example : estimateFootprint { model := "x-24B-Q4_K_M.gguf" } = (.fin 16, .fin 0) := by decide +kernel

end Saltnitor.ControlApi
