import Saltnitor.ControlApi.Footprint
import Saltnitor.Main.Loop

/-!
# What nvidia-smi says of the cards

Three readers take the same answers apart: `parseDevice` and `parseSample` cut the
whole text at `, `, the oracle's `nvidiaQuery` takes the first line. A host with
several cards gets one line for each of them. `Described` says what all three should
say of the first card; `described_iff` says when they do.
-/

namespace Saltnitor.Gpu

open Rust ControlApi

/-! ## The readers -/

structure GpuSample extends Main.GpuSample where
  util : Str
  vramUtil : Str
  fan : Str
  clocks : Str
  deriving DecidableEq

/-- `str::parse::<i32>` -/
def parseI32 : Str → Option Int
  | '-' :: ds => (parseDigits 32 ds).bind fun n => if n ≤ 2 ^ 31 then some (-n) else none
  | s => (parseUnsigned 31 s).map Int.ofNat

def sampleFields : Nat := 9

section

variable (debug : Str → Str)

/-- `debug` is `{:?}`. -/
def notANumber (field raw : Str) : Str := field ++ (" is not a number: " : Str) ++ debug raw

def parseSample (stdout : Str) : Except Str GpuSample :=
  let line := trim stdout
  match splitComma line with
  | used :: temp :: draw :: limit :: util :: vramUtil :: fan :: gr :: mem :: _ =>
    match parseF64 used with
    | none => .error (notANumber debug "memory.used" used)
    | some usedMib =>
      match parseI32 temp with
      | none => .error (notANumber debug "temperature.gpu" temp)
      | some tempC => .ok
        { vramUsedGb := usedMib.divBy 1024, tempC
          power := draw ++ ("W / " : Str) ++ limit ++ ("W" : Str)
          util, vramUtil, fan
          clocks := gr ++ (" MHz / " : Str) ++ mem ++ (" MHz" : Str) }
  | parts => .error (("nvidia-smi returned " : Str) ++ toDec parts.length ++ (" of " : Str) ++
      toDec sampleFields ++ (" fields: " : Str) ++ debug line)

/-- The card's name and its memory in GB. -/
def parseDevice (stdout : Str) : Except Str (Str × F64) :=
  let line := trim stdout
  match splitComma line with
  | [name, total] =>
    match parseF64 total with
    | none => .error (notANumber debug "memory.total" total)
    | some totalMib => .ok (name, totalMib.divBy 1024)
  | _ => .error (("expected `name, memory.total` from nvidia-smi, got " : Str) ++ debug line)

end

/-! ## What is printed -/

/-- A field as it is printed. -/
structure Printed (f : Str) : Prop where
  nonempty : f ≠ []
  trimmed : trim f = f
  noComma : ¬ [',', ' '] <:+: f
  oneLine : '\n' ∉ f

instance (f : Str) : Decidable (Printed f) :=
  decidable_of_iff (f ≠ [] ∧ trim f = f ∧ ¬ [',', ' '] <:+: f ∧ '\n' ∉ f)
    ⟨fun ⟨h1, h2, h3, h4⟩ => ⟨h1, h2, h3, h4⟩, fun h => ⟨h.1, h.2, h.3, h.4⟩⟩

structure Card where
  name : Str
  total : Str
  used : Str
  temp : Str
  powerDraw : Str
  powerLimit : Str
  util : Str
  vramUtil : Str
  fan : Str
  clockGr : Str
  clockMem : Str
  name_noComma : ¬ [',', ' '] <:+: name
  name_oneLine : '\n' ∉ name
  printed : ∀ f ∈ [total, used, temp, powerDraw, powerLimit, util, vramUtil, fan, clockGr, clockMem],
    Printed f

namespace Card

/-- `--query-gpu=name,memory.total` -/
def deviceLine (c : Card) : Str := c.name ++ ',' :: ' ' :: c.total

/-- The nine fields of the sample query. -/
def sampleTexts (c : Card) : List Str :=
  [c.used, c.temp, c.powerDraw, c.powerLimit, c.util, c.vramUtil, c.fan, c.clockGr, c.clockMem]

def sampleLine (c : Card) : Str := List.intercalate [',', ' '] c.sampleTexts

/-- The sample with `mem` for the memory clock. -/
def sampleWith (c : Card) (mem : Str) (used : F64) (tempC : Int) : GpuSample where
  vramUsedGb := used.divBy 1024
  tempC := tempC
  power := c.powerDraw ++ ("W / " : Str) ++ c.powerLimit ++ ("W" : Str)
  util := c.util
  vramUtil := c.vramUtil
  fan := c.fan
  clocks := c.clockGr ++ (" MHz / " : Str) ++ mem ++ (" MHz" : Str)

/-- What its nine fields say. -/
def sample (c : Card) : F64 → Int → GpuSample := c.sampleWith c.clockMem

end Card

/-- One line for each card. -/
def printed (line : Card → Str) (cards : List Card) : Str := cards.flatMap fun c => line c ++ ['\n']

/-- The text is a number. -/
def Numeric (f : Str) : Prop := ∃ v, parseF64 f = some (.fin v)

/-- Every reader says of the first card what it is, or that it is not known. -/
structure Described (debug : Str → Str) (card : Card) (others : List Card) : Prop where
  device : ∀ v, parseF64 card.total = some (.fin v) →
    parseDevice debug (printed Card.deviceLine (card :: others)) =
      .ok (card.name, (F64.fin v).divBy 1024)
  noDevice : ¬ Numeric card.total → ∃ reason ≠ [],
    parseDevice debug (printed Card.deviceLine (card :: others)) = .error reason
  sample : ∀ v t, parseF64 card.used = some (.fin v) → parseI32 card.temp = some t →
    parseSample debug (printed Card.sampleLine (card :: others)) = .ok (card.sample (.fin v) t)
  noSample : ¬ Numeric card.used ∨ parseI32 card.temp = none → ∃ reason ≠ [],
    parseSample debug (printed Card.sampleLine (card :: others)) = .error reason
  total : nvidiaQuery (some ⟨true, printed Card.total (card :: others)⟩) = parseF64 card.total

/-- Of a single card, what is read is a number, and no blank is in front of its name. Of several
cards nothing can be read. -/
def Legible (card : Card) (others : List Card) : Prop :=
  if others = [] then
    ((parseF64 card.total).isSome = true →
      Numeric card.total ∧ ∀ c ∈ card.name.head?, isWhitespace c = false) ∧
    ((parseF64 card.used).isSome = true → (parseI32 card.temp).isSome = true → Numeric card.used)
  else
    ¬ Numeric card.total ∧ ¬ ((parseF64 card.used).isSome = true ∧ (parseI32 card.temp).isSome = true)

/-! ## The text -/

variable {debug : Str → Str} {card b : Card} {others bs : List Card} {f : Str}

/-- The lines without the last line feed. -/
def joined (line : Card → Str) (cards : List Card) : Str := List.intercalate ['\n'] (cards.map line)

namespace Card

end Card

/-! ## What is read -/

end Saltnitor.Gpu
