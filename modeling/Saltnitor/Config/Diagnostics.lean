import Mathlib.Data.List.MinMax
import Saltnitor.Rust.Number

/-!
# Config diagnostics

A `ConfigError` names the file, the place, the key, what was expected and what
was found. `humanize` takes serde's sentence apart, and `tomlError` leaves only
the type of what was found when the key holds a secret.
-/

namespace Saltnitor.Config

open Rust

structure ConfigError where
  file : Str
  line : Option Nat := none
  col : Option Nat := none
  key : Str
  expected : Str
  found : Str
  hint : Option Str := none
  deriving DecidableEq

namespace ConfigError

def place (e : ConfigError) : Str :=
  match e.line, e.col with
  | some l, some c => (":" : Str) ++ toDec l ++ (":" : Str) ++ toDec c
  | _, _ => []

/-- `Display`. -/
def render (e : ConfigError) : Str :=
  e.file ++ e.place ++ (": " : Str) ++ (if e.key = [] then [] else e.key ++ (": " : Str)) ++
    ("expected " : Str) ++ e.expected ++ (", found " : Str) ++ e.found ++
    match e.hint with
    | some h => ("\n  hint: " : Str) ++ h
    | none => []

/-- The same error without its place. -/
def unplaced (e : ConfigError) : ConfigError := { e with line := none, col := none }

end ConfigError

/-- An error of the TOML reader: the message and the byte it starts at. -/
structure DeError where
  message : Str
  span : Option Nat
  deriving DecidableEq

/-! ## The place -/

/-- The characters of the first `n` bytes. -/
def takeBytes : Nat → Str → Str
  | _, [] => []
  | n, c :: s => if c.utf8Size ≤ n then c :: takeBytes (n - c.utf8Size) s else []

def lineCol (text : Str) (offset : Nat) : Nat × Nat :=
  let before := takeBytes offset text
  (before.count '\n' + 1, ((afterLast '\n' before).getD before).length + 1)

/-! ## The closest known key -/

/-- One row of the table, from the one above it. -/
def editRow (ca : Char) : Nat → Str → List Nat → List Nat
  | left, cb :: b, p :: q :: prev =>
    let v := min (min (p + if ca = cb then 0 else 1) (q + 1)) (left + 1)
    v :: editRow ca v b (q :: prev)
  | _, _, _ => []

def editDistance (a b : Str) : Nat :=
  let last := a.zipIdx.foldl (fun prev (ca, i) => (i + 1) :: editRow ca (i + 1) b prev)
    (List.range (b.length + 1))
  last.getLast?.getD 0

def closest (field : Str) (known : List Str) : Option Str :=
  (((known.map fun k => (editDistance field k, k)).filter fun d => decide (d.1 ≤ 3)).argmin
    Prod.fst).map Prod.snd

example : closest "est_vram_bg" ["model", "offload", "est_vram_gb", "est_ram_gb"] =
    some ("est_vram_gb" : Str) := by decide +kernel

/-! ## Serde's sentences -/

def backquote : Char := Char.ofNat 0x60

/-- `rsplit_once`: the parts around the last occurrence. -/
def rsplitOnce (pat : Str) : Str → Option (Str × Str)
  | [] => if pat = [] then some ([], []) else none
  | c :: s =>
    match rsplitOnce pat s with
    | some (a, b) => some (c :: a, b)
    | none => (List.isPrefixOf? pat (c :: s)).map fun b => ([], b)

/-- `trim_start_matches`, at most `n` times. -/
def trimStartMatches (pat : Str) : Nat → Str → Str
  | 0, s => s
  | n + 1, s =>
    match List.isPrefixOf? pat s with
    | some t => trimStartMatches pat n t
    | none => s

/-- Every other one, from the first. -/
def everyOther : List Str → List Str
  | [] => []
  | [s] => [s]
  | s :: _ :: ss => s :: everyOther ss

def join (path field : Str) : Str :=
  if path = [] then field else path ++ ("." : Str) ++ field

def typeName (w : Str) : Str :=
  if w ∈ (["u8", "u16", "u32", "u64", "i8", "i16", "i32", "i64", "usize", "isize"] : List Str) then
    "integer"
  else if w ∈ (["f32", "f64"] : List Str) then "float"
  else if w ∈ (["a string", "string"] : List Str) then "string"
  else if w ∈ (["a boolean", "boolean"] : List Str) then "boolean"
  else if w ∈ (["a map", "a table", "map"] : List Str) then "table"
  else trimStartMatches "a " w.length w

/-- What a sentence says: key, expected, found and hint. -/
structure Diagnosis where
  key : Str
  expected : Str
  found : Str
  hint : Option Str := none
  deriving DecidableEq

/-- The text after `unknown field` and its backquote. -/
def unknownField (key rest : Str) : Diagnosis :=
  let (field, tail) := (splitOnce backquote rest).getD (rest, [])
  let known := everyOther ((tail.splitOn backquote).drop 1)
  { key := if key = field ∨ (("." : Str) ++ field) <:+ key then key else join key field
    expected := if known = [] then "no keys here"
      else ("one of " : Str) ++ (", " : Str).intercalate known
    found := ("unknown key `" : Str) ++ field ++ ("`" : Str)
    hint := (closest field known).map fun k => ("did you mean `" : Str) ++ k ++ ("`?" : Str) }

/-- The text after `pat`, when it names what was found and what was expected. -/
def foundExpected (pat msg : Str) : Option (Str × Str) :=
  (List.isPrefixOf? pat msg).bind (rsplitOnce ", expected ")

def humanize (key msg : Str) : Diagnosis :=
  match List.isPrefixOf? "unknown field `" msg with
  | some rest => unknownField key rest
  | none =>
    match List.isPrefixOf? "missing field `" msg with
    | some rest =>
      { key := join key (rest.rdropWhile (· == backquote)), expected := "a value"
        found := "nothing" }
    | none =>
      match foundExpected "invalid type: " msg with
      | some (found, expected) => { key, expected := typeName expected, found }
      | none =>
        match foundExpected "invalid value: " msg with
        | some (found, expected) => { key, expected, found }
        | none => { key, expected := "valid TOML", found := msg }

/-! ## Secret keys -/

/-- The key holds a credential or names where one lives. -/
def isSecretKey (key : Str) : Bool :=
  let leaf := (afterLast '.' key).getD key
  (["control_token", "infer_bearer", "control_token_env"] : List Str).contains leaf ||
    ("_token" : Str).isSuffixOf leaf || ("_bearer" : Str).isSuffixOf leaf ||
    ("_key" : Str).isSuffixOf leaf

/-- The first word: the type, where serde names a type and then the value. -/
def firstWord (s : Str) : Str := (splitWhitespace s).head?.getD []

/-- What is shown of `found` under `key`. -/
def shownFor (key found : Str) : Str :=
  if isSecretKey key && !List.isPrefixOf ("unknown key" : Str) found then firstWord found else found

def tomlError (file text key : Str) (e : DeError) : ConfigError :=
  let place := e.span.map (lineCol text)
  let d := humanize key e.message
  { file, line := place.map (·.1), col := place.map (·.2), key := d.key, expected := d.expected
    found := shownFor d.key d.found, hint := d.hint }

end Saltnitor.Config
