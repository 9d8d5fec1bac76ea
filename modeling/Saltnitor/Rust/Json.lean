import Saltnitor.Rust.Number

/-!
# JSON values

`Json` is what `serde_json` builds and prints: a number is an exact rational,
an object keeps its members in order. `member` finds the last member of a name,
as a parser does that lets a later member replace an earlier one.
-/

namespace Rust

inductive Json where
  | null
  | bool (b : Bool)
  | num (n : ℚ)
  | str (s : Str)
  | arr (xs : List Json)
  | obj (members : List (Str × Json))

namespace Json

/-- The last member called `key`. -/
def lastOf {α : Type*} (key : Str) (members : List (Str × α)) : Option α :=
  members.foldl (fun found m => if m.1 = key then some m.2 else found) none

/-- The members of an object; other values have none. -/
def members : Json → List (Str × Json)
  | obj members => members
  | _ => []

def member (key : Str) : Json → Option Json
  | obj members => lastOf key members
  | _ => none

def asStr : Json → Option Str
  | str s => some s
  | _ => none

def asBool : Json → Option Bool
  | bool b => some b
  | _ => none

/-- `v[key]`: the member, or null where there is none. -/
def index (key : Str) (v : Json) : Json := (v.member key).getD null

/-- `v[i]`: the item, or null where there is none. -/
def item (i : Nat) : Json → Json
  | arr xs => xs[i]?.getD null
  | _ => null

/-- A number as a double, which is finite. -/
def asF64 : Json → Option ℚ
  | num n => some n
  | _ => none

theorem asStr_index (key : Str) (v : Json) : (v.index key).asStr = (v.member key).bind asStr := by
  rw [index]
  cases v.member key <;> rfl

/-- A double as JSON: what is not a finite number is null. -/
def ofF64 : F64 → Json
  | .fin v => num v
  | _ => null

/-- `Option<String>` as JSON. -/
def ofOption : Option Str → Json
  | none => null
  | some s => str s

end Json

/-! ## Text -/

/-- A character of a JSON string as `serde_json` prints it. -/
def escapeChar (c : Char) : Str :=
  if c = '"' then ['\\', '"']
  else if c = '\\' then ['\\', '\\']
  else if c = '\n' then ['\\', 'n']
  else if c = '\r' then ['\\', 'r']
  else if c = '\t' then ['\\', 't']
  else if c.toNat = 8 then ['\\', 'b']
  else if c.toNat = 12 then ['\\', 'f']
  else if c.toNat < 32 then
    ['\\', 'u', '0', '0', Nat.digitChar (c.toNat / 16), Nat.digitChar (c.toNat % 16)]
  else [c]

def quote (s : Str) : Str := '"' :: (s.flatMap escapeChar ++ ['"'])

theorem newline_not_mem_quote (s : Str) : '\n' ∉ quote s := by
  have hdigit : ∀ n < 16, Nat.digitChar n ≠ '\n' := by decide
  have hchar (c : Char) : '\n' ∉ escapeChar c := by
    unfold escapeChar
    split_ifs with h₁ h₂ h₃ h₄ h₅ h₆ h₇ h₈
    · decide
    · decide
    · decide
    · decide
    · decide
    · decide
    · decide
    · have h := hdigit (c.toNat / 16) (by omega)
      have h' := hdigit (c.toNat % 16) (by omega)
      simp [Ne.symm h, Ne.symm h']
    · simpa using Ne.symm h₃
  rw [quote, List.mem_cons, List.mem_append, List.mem_flatMap]
  rintro (h | ⟨c, -, h⟩ | h)
  · cases h
  · exact hchar c h
  · cases h with
    | tail _ h => cases h

end Rust
