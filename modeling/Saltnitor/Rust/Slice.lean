import Saltnitor.Rust.Utf8

/-!
# Slices of a string

Rust counts places in a string in bytes: `str::find` says at which byte the first
`c` is, and `&s[i..]` and `&s[..i]` panic when byte `i` is inside a character or
past the end. `sliceFrom` and `sliceTo` are these slices, with `none` for the
panic.
-/

namespace Rust

/-- `str::len`. -/
def byteLen (s : Str) : Nat := (bytes s).length

@[simp] theorem byteLen_nil : byteLen [] = 0 := rfl

@[simp] theorem byteLen_cons (c : Char) (s : Str) :
    byteLen (c :: s) = c.utf8Size + byteLen s := by
  rw [byteLen, bytes_cons, List.length_append, String.length_utf8EncodeChar, byteLen]

@[simp] theorem byteLen_append (s t : Str) : byteLen (s ++ t) = byteLen s + byteLen t := by
  rw [byteLen, bytes_append, List.length_append, byteLen, byteLen]

theorem byteLen_eq_zero {s : Str} : byteLen s = 0 ↔ s = [] := by
  cases s with
  | nil => simp
  | cons c s =>
    have := c.utf8Size_pos
    simp only [byteLen_cons, reduceCtorEq, iff_false]
    omega

/-- `&s[i..]`. -/
def sliceFrom : Str → Nat → Option Str
  | s, 0 => some s
  | [], _ + 1 => none
  | c :: s, i + 1 => if c.utf8Size ≤ i + 1 then sliceFrom s (i + 1 - c.utf8Size) else none

/-- `&s[..i]`. -/
def sliceTo : Str → Nat → Option Str
  | _, 0 => some []
  | [], _ + 1 => none
  | c :: s, i + 1 =>
    if c.utf8Size ≤ i + 1 then (sliceTo s (i + 1 - c.utf8Size)).map (c :: ·) else none

/-- `&s[i..j]`. -/
def slice (s : Str) (i j : Nat) : Option Str :=
  if i ≤ j then (sliceFrom s i).bind fun t => sliceTo t (j - i) else none

/-- `str::find` of a character. -/
def find (c : Char) : Str → Option Nat
  | [] => none
  | d :: s => if d = c then some 0 else (find c s).map (d.utf8Size + ·)

example : sliceTo "aé" 2 = none ∧ sliceFrom "aéb" 3 = some ['b'] ∧ find '$' "é$" = some 2 := by
  decide +kernel

variable {s t : Str} {i : Nat} {c : Char}

/-- The tail from a byte on is what follows a prefix of that many bytes. -/
theorem sliceFrom_eq_some : sliceFrom s i = some t ↔ ∃ a, s = a ++ t ∧ byteLen a = i := by
  induction s generalizing i with
  | nil =>
    cases i with
    | zero => simp [sliceFrom, eq_comm]
    | succ i =>
      simp only [sliceFrom, reduceCtorEq, List.nil_eq, List.append_eq_nil_iff, false_iff,
        not_exists, not_and, and_imp]
      rintro a rfl - h
      cases h
  | cons c s ih =>
    have hpos := c.utf8Size_pos
    cases i with
    | zero => simp [sliceFrom, byteLen_eq_zero]
    | succ i =>
      unfold sliceFrom
      split
      · rename_i hle
        rw [ih]
        constructor
        · rintro ⟨a, rfl, ha⟩
          exact ⟨c :: a, rfl, by rw [byteLen_cons]; omega⟩
        · rintro ⟨a, ha, hlen⟩
          cases a with
          | nil => cases hlen
          | cons d a =>
            cases ha
            rw [byteLen_cons] at hlen
            exact ⟨a, rfl, by omega⟩
      · rename_i hle
        simp only [reduceCtorEq, false_iff, not_exists, not_and]
        rintro a ha hlen
        cases a with
        | nil => cases hlen
        | cons d a =>
          cases ha
          rw [byteLen_cons] at hlen
          omega

theorem sliceTo_eq_some : sliceTo s i = some t ↔ t <+: s ∧ byteLen t = i := by
  induction s generalizing i t with
  | nil =>
    cases i with
    | zero =>
      simp only [sliceTo, Option.some.injEq, List.prefix_nil, byteLen_eq_zero, and_self]
      exact eq_comm
    | succ i =>
      simp only [sliceTo, reduceCtorEq, List.prefix_nil, false_iff, not_and]
      rintro rfl h
      cases h
  | cons c s ih =>
    have hpos := c.utf8Size_pos
    cases i with
    | zero =>
      simp only [sliceTo, Option.some.injEq, byteLen_eq_zero]
      exact ⟨fun h => h ▸ ⟨List.nil_prefix, rfl⟩, fun h => h.2.symm⟩
    | succ i =>
      unfold sliceTo
      cases t with
      | nil => split <;> simp
      | cons d t =>
        rw [List.cons_prefix_cons, byteLen_cons]
        split
        · simp only [Option.map_eq_some_iff, ih, List.cons.injEq]
          constructor
          · rintro ⟨u, ⟨hu, hlen⟩, rfl, rfl⟩
            exact ⟨⟨rfl, hu⟩, by omega⟩
          · rintro ⟨⟨rfl, ht⟩, hlen⟩
            exact ⟨t, ⟨ht, by omega⟩, rfl, rfl⟩
        · simp only [reduceCtorEq, false_iff, not_and]
          rintro ⟨rfl, -⟩ hlen
          omega

theorem sliceFrom_append (s t : Str) : sliceFrom (s ++ t) (byteLen s) = some t :=
  sliceFrom_eq_some.mpr ⟨s, rfl, rfl⟩

theorem sliceTo_append (s t : Str) : sliceTo (s ++ t) (byteLen s) = some s :=
  sliceTo_eq_some.mpr ⟨List.prefix_append .., rfl⟩

theorem slice_append (s t u : Str) :
    slice (s ++ t ++ u) (byteLen s) (byteLen s + byteLen t) = some t := by
  rw [slice, if_pos (Nat.le_add_right ..), List.append_assoc, sliceFrom_append, Option.bind_some,
    Nat.add_sub_cancel_left, sliceTo_append]

theorem find_append (h : c ∉ s) (t : Str) : find c (s ++ c :: t) = some (byteLen s) := by
  induction s with
  | nil => rw [List.nil_append, find, if_pos rfl, byteLen_nil]
  | cons d s ih =>
    rw [List.mem_cons, not_or] at h
    rw [List.cons_append, find, if_neg (Ne.symm h.1), ih h.2, Option.map_some, byteLen_cons]

theorem find_eq_none : find c s = none ↔ c ∉ s := by
  induction s with
  | nil => simp [find]
  | cons d s ih =>
    unfold find
    split
    · rename_i h
      simp [h]
    · rename_i h
      rw [Option.map_eq_none_iff, ih, List.mem_cons, not_or]
      exact ⟨fun hs => ⟨Ne.symm h, hs⟩, And.right⟩

/-! ## ASCII -/

theorem utf8EncodeChar_ascii (h : c.toNat < 128) : String.utf8EncodeChar c = [.ofNat c.toNat] := by
  unfold String.utf8EncodeChar
  rw [if_pos (show c.val.toNat ≤ 0x7f from Nat.le_of_lt_succ h)]
  rfl

theorem le_of_mem_utf8EncodeChar (h : 128 ≤ c.toNat) :
    ∀ b ∈ String.utf8EncodeChar c, 128 ≤ b.toNat := by
  intro b hb
  have hlt : ¬ c.val.toNat ≤ 0x7f := Nat.not_le.mpr h
  simp only [String.utf8EncodeChar, if_neg hlt] at hb
  split_ifs at hb <;> simp only [List.mem_cons, List.not_mem_nil, or_false] at hb <;>
    rcases hb with rfl | rfl | rfl | rfl <;>
    simp only [UInt8.toNat_ofNat'] <;> omega

/-- A test for bytes that only ASCII passes takes the characters that pass it. -/
theorem takeWhile_bytes {p : UInt8 → Bool} {q : Char → Bool}
    (hp : ∀ b, p b = true → b.toNat < 128) (hq : ∀ c, q c = true → c.toNat < 128)
    (h : ∀ n < 128, p (.ofNat n) = q (.ofNat n)) (s : Str) :
    (bytes s).takeWhile p = bytes (s.takeWhile q) := by
  induction s with
  | nil => rfl
  | cons c s ih =>
    rw [bytes_cons]
    rcases Nat.lt_or_ge c.toNat 128 with hc | hc
    · have hpq : p (.ofNat c.toNat) = q c := by rw [h _ hc, Char.ofNat_toNat]
      rw [utf8EncodeChar_ascii hc, List.singleton_append, List.takeWhile_cons, List.takeWhile_cons,
        hpq]
      split
      · rw [ih, bytes_cons, utf8EncodeChar_ascii hc, List.singleton_append]
      · rfl
    · obtain ⟨b, bs, hb⟩ := List.exists_cons_of_ne_nil (utf8EncodeChar_ne_nil c)
      have hle := le_of_mem_utf8EncodeChar hc b (hb ▸ List.mem_cons_self ..)
      have hpb : ¬ p b = true := fun h => absurd (hp b h) (by omega)
      have hqc : ¬ q c = true := fun h => absurd (hq c h) (by omega)
      rw [hb, List.cons_append, List.takeWhile_cons_of_neg hpb, List.takeWhile_cons_of_neg hqc,
        bytes_nil]

end Rust
