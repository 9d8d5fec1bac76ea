import Mathlib.Algebra.Order.Ring.Rat
import Saltnitor.Rust.Text

/-!
# Numbers read from text

`parseF64` is `str::parse::<f64>` with the value kept exact: a finite literal is
the rational it denotes. Arithmetic, comparison and printing follow IEEE 754 on
the special values and are exact on the finite ones; `Rust.Double` rounds.
-/

namespace Rust

/-! ## Naturals -/

/-- The value of a digit string. -/
def digitsVal (ds : Str) : Nat := Nat.ofDigitChars 10 ds 0

/-- The decimal digits of `n`, as `Display` prints it. -/
def toDec (n : Nat) : Str := Nat.toDigits 10 n

/-- `Display` of a signed integer. -/
def fmtInt (i : Int) : Str := if i < 0 then '-' :: toDec i.natAbs else toDec i.natAbs

/-- A digit string that fits in `bits` bits. -/
def parseDigits (bits : Nat) (ds : Str) : Option Nat :=
  if ds ≠ [] ∧ ds.all Char.isDigit = true ∧ digitsVal ds < 2 ^ bits then some (digitsVal ds)
  else none

/-- `str::parse` to an unsigned integer of `bits` bits. -/
def parseUnsigned (bits : Nat) : Str → Option Nat
  | '+' :: ds => parseDigits bits ds
  | ds => parseDigits bits ds

theorem isDigit_of_mem_toDec {n : Nat} {c : Char} (h : c ∈ toDec n) : c.isDigit = true :=
  Nat.isDigit_of_mem_toDigits (by omega) (by omega) h

theorem toDec_ne_nil (n : Nat) : toDec n ≠ [] := Nat.toDigits_ne_nil

theorem digitsVal_toDec (n : Nat) : digitsVal (toDec n) = n :=
  Nat.ofDigitChars_toDigits (by omega) (by omega)

theorem parseDigits_eq_some {bits n : Nat} {ds : Str} :
    parseDigits bits ds = some n ↔
      (ds ≠ [] ∧ ds.all Char.isDigit = true ∧ digitsVal ds < 2 ^ bits) ∧ digitsVal ds = n := by
  simp only [parseDigits, Option.ite_none_right_eq_some, Option.some.injEq]

/-- A number in range is read back from its digits. -/
theorem parseUnsigned_toDec {bits n : Nat} (h : n < 2 ^ bits) :
    parseUnsigned bits (toDec n) = some n := by
  have hd : parseDigits bits (toDec n) = some n := by
    rw [parseDigits_eq_some, digitsVal_toDec]
    exact ⟨⟨toDec_ne_nil n, List.all_eq_true.mpr fun c hc => isDigit_of_mem_toDec hc, h⟩, rfl⟩
  unfold parseUnsigned
  split
  · rename_i ds he
    have := isDigit_of_mem_toDec (n := n) (c := '+') (by rw [he]; exact List.mem_cons_self ..)
    exact absurd this (by decide)
  · exact hd

theorem eq_of_parseUnsigned_toDec {bits n k : Nat} (h : parseUnsigned bits (toDec n) = some k) : k = n := by
  have hd : parseDigits bits (toDec n) = some k := by
    unfold parseUnsigned at h
    split at h
    · rename_i ds he
      have := isDigit_of_mem_toDec (n := n) (c := '+') (by rw [he]; exact List.mem_cons_self ..)
      exact absurd this (by decide)
    · exact h
  rw [← (parseDigits_eq_some.mp hd).2, digitsVal_toDec]

/-! ## Doubles -/

/-- A double with its value kept exact: arithmetic on finite values does not round. -/
inductive F64 where
  | nan
  | inf (negative : Bool)
  | fin (v : ℚ)
  deriving DecidableEq

/-- A sign and the text after it. -/
def splitSign : Str → Bool × Str
  | '+' :: s => (false, s)
  | '-' :: s => (true, s)
  | s => (false, s)

/-- `e` or `E`, an optional sign and digits; no exponent at all is zero. -/
def parseExponent : Str → Option Int
  | [] => some 0
  | c :: s =>
    let (negative, ds) := splitSign s
    if (c == 'e' || c == 'E') && !ds.isEmpty && ds.all Char.isDigit then
      some (if negative then -(digitsVal ds : Int) else digitsVal ds)
    else none

/-- `m * 10 ^ e`. -/
def scale10 (m : ℚ) (e : Int) : ℚ := if 0 ≤ e then m * 10 ^ e.toNat else m / 10 ^ (-e).toNat

/-- Digits, an optional fraction and an optional exponent, with a digit somewhere. -/
def parseDecimal (s : Str) : Option ℚ :=
  let whole := s.takeWhile Char.isDigit
  let (frac, rest) : Str × Str :=
    match s.dropWhile Char.isDigit with
    | '.' :: r => (r.takeWhile Char.isDigit, r.dropWhile Char.isDigit)
    | r => ([], r)
  if whole.isEmpty && frac.isEmpty then none
  else (parseExponent rest).map fun e => scale10 (digitsVal (whole ++ frac)) (e - frac.length)

def parseF64 (s : Str) : Option F64 :=
  let (negative, body) := splitSign s
  let word := toAsciiLowercase body
  if word == ("inf" : Str) || word == ("infinity" : Str) then some (.inf negative)
  else if word == ("nan" : Str) then some .nan
  else (parseDecimal body).map fun v => .fin (if negative then -v else v)

example : parseF64 "-1.5e1" = some (.fin (-15)) := by decide +kernel

theorem splitSign_of_digit {c : Char} {s : Str} (hc : c.isDigit = true) :
    splitSign (c :: s) = (false, c :: s) := by
  unfold splitSign
  split
  · rename_i he
    exact absurd ((List.cons.inj he).1 ▸ hc) (by decide)
  · rename_i he
    exact absurd ((List.cons.inj he).1 ▸ hc) (by decide)
  · rfl

theorem toLower_of_digit {c : Char} (hc : c.isDigit = true) : c.toLower = c := by
  refine dif_neg ?_
  rintro ⟨h, -⟩
  have h65 : 65 ≤ c.toNat := h
  have h57 : c.toNat ≤ 57 := of_decide_eq_true (Bool.and_eq_true_iff.mp hc).2
  omega

theorem parseF64_digits {ds : Str} (hne : ds ≠ []) (hd : ∀ c ∈ ds, c.isDigit = true) :
    parseF64 ds = some (.fin (digitsVal ds)) := by
  obtain ⟨c, tail, rfl⟩ := List.exists_cons_of_ne_nil hne
  have hc : c.isDigit = true := hd c (List.mem_cons_self ..)
  have hword (w : Str) (hw : ∀ d ∈ w.head?, d.isDigit = false) :
      (toAsciiLowercase (c :: tail) == w) = false := by
    refine beq_false_of_ne ?_
    rintro rfl
    have := hw c.toLower rfl
    rw [toLower_of_digit hc, hc] at this
    cases this
  have hdecimal : parseDecimal (c :: tail) = some (digitsVal (c :: tail) : ℚ) := by
    unfold parseDecimal
    rw [List.takeWhile_eq_self_iff.mpr hd, List.dropWhile_eq_nil_iff.mpr hd]
    simp [parseExponent, scale10]
  unfold parseF64
  rw [splitSign_of_digit hc]
  dsimp only
  rw [hword "inf" (by rintro _ ⟨⟩; rfl), hword "infinity" (by rintro _ ⟨⟩; rfl),
    hword "nan" (by rintro _ ⟨⟩; rfl), hdecimal]
  rfl

/-! A text with a character that no number has is none. -/

theorem mem_splitSign {c : Char} {s : Str} (hc : c ≠ '+' ∧ c ≠ '-') (h : c ∈ s) :
    c ∈ (splitSign s).2 := by
  unfold splitSign
  split
  · exact (List.mem_cons.mp h).resolve_left hc.1
  · exact (List.mem_cons.mp h).resolve_left hc.2
  · exact h

theorem parseExponent_slash {s : Str} (h : '/' ∈ s) : parseExponent s = none := by
  cases s with
  | nil => cases h
  | cons c s =>
    rcases List.mem_cons.mp h with rfl | h
    · simp [parseExponent]
    · have hall : (splitSign s).2.all Char.isDigit = false :=
        List.all_eq_false.mpr ⟨'/', mem_splitSign (by decide) h, by decide⟩
      simp [parseExponent, hall]

theorem mem_dropWhile_isDigit {s : Str} (h : '/' ∈ s) : '/' ∈ s.dropWhile Char.isDigit := by
  rw [← List.takeWhile_append_dropWhile (p := Char.isDigit) (l := s), List.mem_append] at h
  refine h.resolve_left fun hm => ?_
  exact absurd (List.mem_takeWhile_imp hm) (by decide)

theorem parseDecimal_slash {s : Str} (h : '/' ∈ s) : parseDecimal s = none := by
  have hd := mem_dropWhile_isDigit h
  unfold parseDecimal
  dsimp only
  split
  · rename_i r hr
    rw [hr] at hd
    rw [parseExponent_slash (mem_dropWhile_isDigit ((List.mem_cons.mp hd).resolve_left (by decide)))]
    split <;> rfl
  · rw [parseExponent_slash hd]
    split <;> rfl

theorem parseF64_slash {s : Str} (h : '/' ∈ s) : parseF64 s = none := by
  have hbody := mem_splitSign (by decide) h
  have hlower : '/' ∈ toAsciiLowercase (splitSign s).2 := List.mem_map.mpr ⟨'/', hbody, by decide⟩
  have hword (w : Str) (hw : '/' ∉ w) : (toAsciiLowercase (splitSign s).2 == w) = false :=
    beq_false_of_ne fun he => hw (he ▸ hlower)
  unfold parseF64
  dsimp only
  rw [hword "inf" (by decide), hword "infinity" (by decide), hword "nan" (by decide),
    parseDecimal_slash hbody]
  rfl

namespace F64

/-- The sign of a product or a quotient. -/
def negative : F64 → Bool
  | nan => false
  | inf n => n
  | fin v => v < 0

def add : F64 → F64 → F64
  | fin x, fin y => fin (x + y)
  | inf a, inf b => if a = b then inf a else nan
  | inf a, fin _ | fin _, inf a => inf a
  | nan, _ | _, nan => nan

def mul : F64 → F64 → F64
  | fin x, fin y => fin (x * y)
  | nan, _ | _, nan => nan
  | x, y => if x = fin 0 ∨ y = fin 0 then nan else inf (x.negative != y.negative)

/-- Division by a nonzero constant. -/
def divBy (x : F64) (d : ℚ) : F64 := x.mul (fin (1 / d))

/-- `false` as soon as one side is not a number. -/
def le : F64 → F64 → Bool
  | fin x, fin y => x ≤ y
  | inf a, inf b => a || !b
  | inf a, fin _ => a
  | fin _, inf b => !b
  | nan, _ | _, nan => false

def lt (x y : F64) : Bool := x.le y && x != y

/-- `f64::max`: the other one when one is not a number. -/
def max (x y : F64) : F64 :=
  match x, y with
  | nan, y => y
  | x, nan => x
  | x, y => if x.le y then y else x

/-- To the nearest integer, halves away from zero. -/
def round : F64 → F64
  | fin v => fin (if v < 0 then -((-v + 1 / 2).floor : ℚ) else (v + 1 / 2).floor)
  | x => x

/-- The nearest natural to `v ≥ 0`, the even one of two. -/
def nearestEven (v : ℚ) : Nat :=
  let n := v.floor.toNat
  let r := v - n
  if r < 1 / 2 then n else if r = 1 / 2 then n + n % 2 else n + 1

/-- `{:.1}`. -/
def fmt1 : F64 → Str
  | nan => "NaN"
  | inf false => "inf"
  | inf true => "-inf"
  | fin v =>
    let tenths := nearestEven (|v| * 10)
    let digits := toDec (tenths / 10) ++ '.' :: toDec (tenths % 10)
    if v < 0 then '-' :: digits else digits

/-- `{:.2}`. -/
def fmt2 : F64 → Str
  | nan => "NaN"
  | inf false => "inf"
  | inf true => "-inf"
  | fin v =>
    let cents := nearestEven (|v| * 100)
    let digits := toDec (cents / 100) ++ '.' :: (toDec (cents / 10 % 10) ++ toDec (cents % 10))
    if v < 0 then '-' :: digits else digits

end F64

example : F64.fmt2 (.fin (805 / 100)) = ("8.05" : Str) := by decide +kernel

example : F64.fmt1 (.fin (-3 / 20)) = ("-0.2" : Str) := by decide +kernel

end Rust
