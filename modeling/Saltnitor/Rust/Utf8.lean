import Saltnitor.Rust.Text

/-!
# Reading UTF-8

`fromUtf8` is the decoder that fails on bytes that are no text, `fromUtf8Lossy` the
one that puts U+FFFD for them. Both take one character after another off the front.
The first reads back exactly what `bytes` writes. The second does so too, piece by
piece, as long as no character is cut: `lossy_pieces` says that a text arrives
whole if and only if every piece of its bytes is a text.
-/

namespace Rust

/-! ## One character -/

/-- The character at the front. -/
def decodeChar (bs : List UInt8) : Option Char := bs.toByteArray.utf8DecodeChar? 0

def isCont (b : UInt8) : Bool := 0x80 ≤ b && b ≤ 0xBF

/-- Whether `c` can be second in a character of three or four bytes that starts with `b`. -/
def goesOn (b c : UInt8) : Bool :=
  (b == 0xE0 && 0xA0 ≤ c && c ≤ 0xBF) || (0xE1 ≤ b && b ≤ 0xEC && isCont c) ||
    (b == 0xED && 0x80 ≤ c && c ≤ 0x9F) || (0xEE ≤ b && b ≤ 0xEF && isCont c) ||
    (b == 0xF0 && 0x90 ≤ c && c ≤ 0xBF) || (0xF1 ≤ b && b ≤ 0xF3 && isCont c) ||
    (b == 0xF4 && 0x80 ≤ c && c ≤ 0x8F)

/-- How many bytes one U+FFFD stands for where there is no character: those that could have begun
one, at least the first. -/
def brokenLen : List UInt8 → Nat
  | b :: c :: bs =>
    if goesOn b c then
      match bs with
      | d :: _ => if 0xF0 ≤ b && isCont d then 3 else 2
      | [] => 2
    else 1
  | _ => 1

theorem decodeChar_append (c : Char) (bs : List UInt8) :
    decodeChar (String.utf8EncodeChar c ++ bs) = some c := by
  rw [decodeChar, List.toByteArray_append]
  exact ByteArray.utf8DecodeChar?_utf8EncodeChar_append

theorem exists_of_decodeChar {bs : List UInt8} {c : Char} (h : decodeChar bs = some c) :
    ∃ rest, bs = String.utf8EncodeChar c ++ rest := by
  obtain ⟨l, hl⟩ := ByteArray.exists_of_utf8DecodeChar?_eq_some h
  refine ⟨l.data.toList, ?_⟩
  have := congrArg (fun b : ByteArray => b.data.toList) hl
  simpa using this

theorem utf8EncodeChar_ne_nil (c : Char) : String.utf8EncodeChar c ≠ [] := by
  intro h
  have hlen := String.length_utf8EncodeChar c
  have hpos := c.utf8Size_pos
  rw [h] at hlen
  simp at hlen
  omega

/-! ## The decoders -/

/-- `String::from_utf8`, `skip` bytes further. -/
def fromUtf8From : Nat → List UInt8 → Option Str
  | _, [] => some []
  | skip + 1, _ :: bs => fromUtf8From skip bs
  | 0, b :: bs =>
    match decodeChar (b :: bs) with
    | some c => (fromUtf8From (c.utf8Size - 1) bs).map (c :: ·)
    | none => none

/-- `String::from_utf8`: `none` where the bytes are no text. -/
def fromUtf8 (bs : List UInt8) : Option Str := fromUtf8From 0 bs

def lossyFrom : Nat → List UInt8 → Str
  | _, [] => []
  | skip + 1, _ :: bs => lossyFrom skip bs
  | 0, b :: bs =>
    match decodeChar (b :: bs) with
    | some c => c :: lossyFrom (c.utf8Size - 1) bs
    | none => '\uFFFD' :: lossyFrom (brokenLen (b :: bs) - 1) bs

/-- `String::from_utf8_lossy`. -/
def fromUtf8Lossy (bs : List UInt8) : Str := lossyFrom 0 bs

example : fromUtf8Lossy [0x61, 0xE2, 0x82, 0x62, 0xC3, 0xA9, 0xFF] =
    ['a', '\uFFFD', 'b', 'é', '\uFFFD'] := by decide +kernel

theorem fromUtf8From_eq (skip : Nat) (bs : List UInt8) :
    fromUtf8From skip bs = fromUtf8 (bs.drop skip) := by
  induction bs generalizing skip with
  | nil => cases skip <;> rfl
  | cons b bs ih =>
    cases skip with
    | zero => rfl
    | succ skip => exact ih skip

theorem lossyFrom_eq (skip : Nat) (bs : List UInt8) :
    lossyFrom skip bs = fromUtf8Lossy (bs.drop skip) := by
  induction bs generalizing skip with
  | nil => cases skip <;> rfl
  | cons b bs ih =>
    cases skip with
    | zero => rfl
    | succ skip => exact ih skip

theorem drop_utf8Size {c : Char} {b : UInt8} {bs rest : List UInt8}
    (h : b :: bs = String.utf8EncodeChar c ++ rest) : bs.drop (c.utf8Size - 1) = rest := by
  have hlen := String.length_utf8EncodeChar c
  have hpos := c.utf8Size_pos
  have hdrop : (b :: bs).drop c.utf8Size = rest := by rw [h, ← hlen, List.drop_left]
  rw [← hdrop]
  obtain ⟨n, hn⟩ : ∃ n, c.utf8Size = n + 1 := ⟨c.utf8Size - 1, by omega⟩
  rw [hn, List.drop_succ_cons, Nat.add_sub_cancel]

theorem fromUtf8_char (c : Char) (bs : List UInt8) :
    fromUtf8 (String.utf8EncodeChar c ++ bs) = (fromUtf8 bs).map (c :: ·) := by
  obtain ⟨b, l, he⟩ := List.exists_cons_of_ne_nil (utf8EncodeChar_ne_nil c)
  have hd := decodeChar_append c bs
  have hdrop : (l ++ bs).drop (c.utf8Size - 1) = bs :=
    drop_utf8Size (show b :: (l ++ bs) = String.utf8EncodeChar c ++ bs by rw [he]; rfl)
  rw [he, List.cons_append] at hd ⊢
  rw [fromUtf8, fromUtf8From, hd]
  dsimp only
  rw [fromUtf8From_eq, hdrop]

theorem lossy_char (c : Char) (bs : List UInt8) :
    fromUtf8Lossy (String.utf8EncodeChar c ++ bs) = c :: fromUtf8Lossy bs := by
  obtain ⟨b, l, he⟩ := List.exists_cons_of_ne_nil (utf8EncodeChar_ne_nil c)
  have hd := decodeChar_append c bs
  have hdrop : (l ++ bs).drop (c.utf8Size - 1) = bs :=
    drop_utf8Size (show b :: (l ++ bs) = String.utf8EncodeChar c ++ bs by rw [he]; rfl)
  rw [he, List.cons_append] at hd ⊢
  rw [fromUtf8Lossy, lossyFrom, hd]
  dsimp only
  rw [lossyFrom_eq, hdrop]

theorem lossy_broken {b : UInt8} {bs : List UInt8} (h : decodeChar (b :: bs) = none) :
    fromUtf8Lossy (b :: bs) = '\uFFFD' :: fromUtf8Lossy (bs.drop (brokenLen (b :: bs) - 1)) := by
  rw [fromUtf8Lossy, lossyFrom, h]
  dsimp only
  rw [lossyFrom_eq]

/-! ## A text is read back -/

@[simp] theorem bytes_nil : bytes [] = [] := rfl

theorem bytes_cons (c : Char) (s : Str) : bytes (c :: s) = String.utf8EncodeChar c ++ bytes s := by
  rw [bytes, List.flatMap_cons]
  rfl

theorem bytes_append (s t : Str) : bytes (s ++ t) = bytes s ++ bytes t := by
  rw [bytes, List.flatMap_append]
  rfl

theorem bytes_flatten (ts : List Str) : bytes ts.flatten = (ts.map bytes).flatten := by
  induction ts with
  | nil => rfl
  | cons t ts ih => rw [List.flatten_cons, bytes_append, ih, List.map_cons, List.flatten_cons]

theorem fromUtf8_bytes (s : Str) : fromUtf8 (bytes s) = some s := by
  induction s with
  | nil => rfl
  | cons c s ih => rw [bytes_cons, fromUtf8_char, ih, Option.map_some]

theorem fromUtf8_append (s : Str) (bs : List UInt8) :
    fromUtf8 (bytes s ++ bs) = (fromUtf8 bs).map (s ++ ·) := by
  induction s with
  | nil =>
    rw [bytes_nil, List.nil_append]
    cases fromUtf8 bs <;> rfl
  | cons c s ih => rw [bytes_cons, List.append_assoc, fromUtf8_char, ih, Option.map_map]; rfl

theorem lossy_append (s : Str) (bs : List UInt8) :
    fromUtf8Lossy (bytes s ++ bs) = s ++ fromUtf8Lossy bs := by
  induction s with
  | nil => rfl
  | cons c s ih => rw [bytes_cons, List.append_assoc, lossy_char, ih, List.cons_append]

theorem lossy_bytes (s : Str) : fromUtf8Lossy (bytes s) = s := by
  have := lossy_append s []
  rwa [List.append_nil, fromUtf8Lossy, fromUtf8Lossy, lossyFrom, List.append_nil] at this

theorem fromUtf8_eq_some {bs : List UInt8} {s : Str} : fromUtf8 bs = some s ↔ bs = bytes s := by
  refine ⟨fun h => ?_, fun h => h ▸ fromUtf8_bytes s⟩
  induction hn : bs.length using Nat.strong_induction_on generalizing bs s with
  | _ n ih =>
    cases bs with
    | nil => cases h; rfl
    | cons b bs =>
      cases hd : decodeChar (b :: bs) with
      | none => rw [fromUtf8, fromUtf8From, hd] at h; cases h
      | some c =>
        obtain ⟨rest, hrest⟩ := exists_of_decodeChar hd
        rw [hrest, fromUtf8_char, Option.map_eq_some_iff] at h
        obtain ⟨s, hs, rfl⟩ := h
        have hlt : rest.length < n := by
          have hpos := c.utf8Size_pos
          have hl := congrArg List.length hrest
          rw [List.length_append, String.length_utf8EncodeChar] at hl
          omega
        rw [hrest, bytes_cons, ih _ hlt hs rfl]

/-! ## Pieces of a text -/

/-- How many bytes can begin a character. -/
def firsts (bs : List UInt8) : Nat := bs.countP fun b => b.IsUTF8FirstByte

/-- 1 where the first byte cannot begin a character. -/
def late : List UInt8 → Nat
  | b :: _ => if b.IsUTF8FirstByte then 0 else 1
  | [] => 0

/-- At least so many characters are read from the bytes. -/
def units (bs : List UInt8) : Nat := firsts bs + late bs

theorem firsts_append (as bs : List UInt8) : firsts (as ++ bs) = firsts as + firsts bs :=
  List.countP_append ..

theorem firsts_le_units (bs : List UInt8) : firsts bs ≤ units bs := Nat.le_add_right ..

theorem units_cons (b : UInt8) (bs : List UInt8) : units (b :: bs) = firsts bs + 1 := by
  rw [units, firsts, List.countP_cons, firsts, late]
  by_cases hf : b.IsUTF8FirstByte <;> simp [hf]

theorem not_first_of_isCont {b : UInt8} (h : isCont b = true) : ¬ b.IsUTF8FirstByte := by
  have hall : ∀ n < 256, isCont (.ofNat n) = true → ¬ (UInt8.ofNat n).IsUTF8FirstByte := by
    decide +kernel
  have hb := hall b.toNat b.toNat_lt
  rw [UInt8.ofNat_toNat] at hb
  exact hb h

theorem isCont_of_goesOn {b c : UInt8} (h : goesOn b c = true) : isCont c = true := by
  simp only [goesOn, isCont, Bool.or_eq_true, Bool.and_eq_true, decide_eq_true_eq,
    UInt8.le_iff_toNat_le] at h ⊢
  simp only [UInt8.reduceToNat] at h ⊢
  omega

/-- A character is a byte that can begin one and bytes that cannot. -/
theorem exists_utf8EncodeChar (c : Char) :
    ∃ b l, String.utf8EncodeChar c = b :: l ∧ b.IsUTF8FirstByte ∧ firsts l = 0 := by
  obtain ⟨b, l, he⟩ := List.exists_cons_of_ne_nil (utf8EncodeChar_ne_nil c)
  have hiff (i : Nat) (hi : i < (String.utf8EncodeChar c).length) :
      (String.utf8EncodeChar c)[i].IsUTF8FirstByte ↔ i = 0 :=
    UInt8.isUTF8FirstByte_getElem_utf8EncodeChar
  refine ⟨b, l, he, ?_, ?_⟩
  · have := (hiff 0 (by rw [he]; simp)).mpr rfl
    simpa only [he, List.getElem_cons_zero] using this
  · rw [firsts, List.countP_eq_zero]
    intro d hd hf
    obtain ⟨i, hi, rfl⟩ := List.getElem_of_mem hd
    have := (hiff (i + 1) (by rw [he]; simpa using hi)).mp
      (by simpa only [he, List.getElem_cons_succ, decide_eq_true_eq] using hf)
    exact absurd this (Nat.succ_ne_zero i)

theorem firsts_cons_of_first {b : UInt8} (h : b.IsUTF8FirstByte) (bs : List UInt8) :
    firsts (b :: bs) = firsts bs + 1 := List.countP_cons_of_pos (by simpa using h)

theorem firsts_char (c : Char) (bs : List UInt8) :
    firsts (String.utf8EncodeChar c ++ bs) = firsts bs + 1 := by
  obtain ⟨b, l, he, hb, hl⟩ := exists_utf8EncodeChar c
  rw [he, List.cons_append, firsts_cons_of_first hb, firsts_append, hl, Nat.zero_add]

theorem units_char (c : Char) (bs : List UInt8) :
    units (String.utf8EncodeChar c ++ bs) = firsts bs + 1 := by
  obtain ⟨b, l, he, -, hl⟩ := exists_utf8EncodeChar c
  rw [he, List.cons_append, units_cons, firsts_append, hl, Nat.zero_add]

theorem firsts_bytes (s : Str) : firsts (bytes s) = s.length := by
  induction s with
  | nil => rfl
  | cons c s ih => rw [bytes_cons, firsts_char, ih, List.length_cons]

/-- Behind the first byte, what one U+FFFD stands for begins no character. -/
theorem firsts_broken (b : UInt8) (bs : List UInt8) :
    firsts (bs.take (brokenLen (b :: bs) - 1)) = 0 := by
  have hone {c : UInt8} (hc : isCont c = true) : firsts [c] = 0 := by
    simp [firsts, not_first_of_isCont hc]
  cases bs with
  | nil => rfl
  | cons c bs =>
    by_cases hgo : goesOn b c = true
    · have hc := hone (isCont_of_goesOn hgo)
      cases bs with
      | nil => simpa [brokenLen, hgo] using hc
      | cons d bs =>
        by_cases hd : 0xF0 ≤ b ∧ isCont d = true
        · have htwo : firsts [c, d] = 0 := (firsts_append [c] [d]).trans (by rw [hc, hone hd.2])
          simpa [brokenLen, hgo, hd] using htwo
        · simpa [brokenLen, hgo, hd] using hc
    · simp [brokenLen, hgo, firsts]

theorem units_le (bs : List UInt8) : units bs ≤ (fromUtf8Lossy bs).length := by
  induction hn : bs.length using Nat.strong_induction_on generalizing bs with
  | _ n ih =>
    cases bs with
    | nil => exact Nat.zero_le _
    | cons b bs =>
      rw [List.length_cons] at hn
      cases hd : decodeChar (b :: bs) with
      | some c =>
        obtain ⟨rest, hrest⟩ := exists_of_decodeChar hd
        have hlt : rest.length < n := by
          have hpos := c.utf8Size_pos
          have hl := congrArg List.length hrest
          rw [List.length_append, String.length_utf8EncodeChar, List.length_cons] at hl
          omega
        rw [hrest, units_char, lossy_char, List.length_cons]
        exact Nat.succ_le_succ ((firsts_le_units rest).trans (ih _ hlt rest rfl))
      | none =>
        have hrest := ih _ (by rw [List.length_drop]; omega)
          (bs.drop (brokenLen (b :: bs) - 1)) rfl
        have hbs : firsts bs = firsts (bs.drop (brokenLen (b :: bs) - 1)) := by
          conv_lhs => rw [← List.take_append_drop (brokenLen (b :: bs) - 1) bs]
          rw [firsts_append, firsts_broken, Nat.zero_add]
        rw [lossy_broken hd, List.length_cons, units_cons, hbs]
        exact Nat.succ_le_succ ((firsts_le_units _).trans hrest)

theorem units_append_le (as bs : List UInt8) : units (as ++ bs) ≤ units as + units bs := by
  cases as with
  | nil => exact Nat.le_add_left ..
  | cons a as =>
    have hbs := firsts_le_units bs
    rw [List.cons_append, units_cons, units_cons, firsts_append]
    omega

theorem units_flatten_le (ps : List (List UInt8)) :
    units ps.flatten ≤ (ps.map fromUtf8Lossy).flatten.length := by
  induction ps with
  | nil => exact Nat.zero_le _
  | cons p ps ih =>
    rw [List.flatten_cons, List.map_cons, List.flatten_cons, List.length_append]
    exact (units_append_le ..).trans (Nat.add_le_add (units_le p) ih)

theorem fromUtf8Lossy_ne_nil {bs : List UInt8} (h : bs ≠ []) : fromUtf8Lossy bs ≠ [] := by
  cases bs with
  | nil => exact absurd rfl h
  | cons b bs =>
    cases hd : decodeChar (b :: bs) with
    | some c => rw [fromUtf8Lossy, lossyFrom, hd]; exact List.cons_ne_nil _ _
    | none => rw [lossy_broken hd]; exact List.cons_ne_nil _ _

/-- The end of a character's bytes begins no character. -/
theorem late_of_cut {c : Char} {r r' : List UInt8} (h : String.utf8EncodeChar c = r ++ r')
    (hr : r ≠ []) (hr' : r' ≠ []) : firsts r' = 0 ∧ late r' = 1 := by
  obtain ⟨b, l, he, -, hl⟩ := exists_utf8EncodeChar c
  obtain ⟨b', r, rfl⟩ := List.exists_cons_of_ne_nil hr
  obtain ⟨d, t, rfl⟩ := List.exists_cons_of_ne_nil hr'
  rw [h, List.cons_append] at he
  obtain ⟨-, rfl⟩ := List.cons.inj he
  rw [firsts_append] at hl
  have hz : firsts (d :: t) = 0 := by omega
  refine ⟨hz, if_neg fun hd => ?_⟩
  rw [firsts_cons_of_first hd] at hz
  cases hz

/-- A piece of a text's bytes is a text itself, or its end cuts a character. -/
theorem bytes_cut {p q : List UInt8} {s : Str} (h : p ++ q = bytes s) :
    (∃ s₁ s₂, s = s₁ ++ s₂ ∧ p = bytes s₁ ∧ q = bytes s₂) ∨
      ∃ s₁ c s₂ r r', s = s₁ ++ c :: s₂ ∧ p = bytes s₁ ++ r ∧ q = r' ++ bytes s₂ ∧
        String.utf8EncodeChar c = r ++ r' ∧ r ≠ [] ∧ r' ≠ [] := by
  induction s generalizing p with
  | nil =>
    rw [bytes_nil, List.append_eq_nil_iff] at h
    exact .inl ⟨[], [], rfl, h.1, h.2⟩
  | cons c s ih =>
    rw [bytes_cons] at h
    rcases List.append_eq_append_iff.mp h with ⟨r', hc, hq⟩ | ⟨p', hp, hs⟩
    · by_cases hp : p = []
      · subst hp
        rw [List.nil_append] at hc
        exact .inl ⟨[], c :: s, rfl, rfl, by rw [bytes_cons, hq, hc]⟩
      · by_cases hr : r' = []
        · subst hr
          rw [List.append_nil] at hc
          exact .inl ⟨[c], s, rfl, by rw [bytes_cons, hc, bytes_nil, List.append_nil], hq⟩
        · exact .inr ⟨[], c, s, p, r', rfl, rfl, hq, hc, hp, hr⟩
    · rcases ih hs.symm with ⟨s₁, s₂, rfl, rfl, hq⟩ | ⟨s₁, d, s₂, r, r', rfl, rfl, hq, hd, hr, hr'⟩
      · exact .inl ⟨c :: s₁, s₂, rfl, by rw [hp, bytes_cons], hq⟩
      · exact .inr ⟨c :: s₁, d, s₂, r, r', rfl, by rw [hp, bytes_cons, List.append_assoc], hq, hd,
          hr, hr'⟩

theorem exists_bytes_of_append {p : List UInt8} {s t : Str} (h : p ++ bytes t = bytes s) :
    ∃ s₁, p = bytes s₁ := by
  rcases bytes_cut h with ⟨s₁, -, -, hp, -⟩ | ⟨-, c, s₂, r, r', -, -, hq, hc, hr, hr'⟩
  · exact ⟨s₁, hp⟩
  · obtain ⟨d, l, rfl⟩ := List.exists_cons_of_ne_nil hr'
    obtain ⟨-, hlate⟩ := late_of_cut hc hr hr'
    -- the text that follows begins with a byte that begins a character
    cases t with
    | nil => cases hq
    | cons e t =>
      obtain ⟨b, m, he, hb, -⟩ := exists_utf8EncodeChar e
      rw [bytes_cons, he, List.cons_append, List.cons_append] at hq
      obtain ⟨rfl, -⟩ := List.cons.inj hq
      rw [late, if_pos hb] at hlate
      cases hlate

theorem fromUtf8_between {a b : Str} {p : List UInt8} :
    (∃ s, fromUtf8 (bytes a ++ p ++ bytes b) = some s) ↔ ∃ s, p = bytes s := by
  constructor
  · rintro ⟨s, h⟩
    obtain ⟨s₁, h₁⟩ := exists_bytes_of_append (fromUtf8_eq_some.mp h)
    have hp : (fromUtf8 p).map (a ++ ·) = some s₁ := by
      rw [← fromUtf8_append, h₁, fromUtf8_bytes]
    obtain ⟨s₂, h₂, -⟩ := Option.map_eq_some_iff.mp hp
    exact ⟨s₂, fromUtf8_eq_some.mp h₂⟩
  · rintro ⟨s, rfl⟩
    exact ⟨a ++ s ++ b, by rw [← bytes_append, ← bytes_append, fromUtf8_bytes]⟩

/-- **A text that arrives in pieces is read whole if and only if no piece cuts a character.** -/
theorem lossy_pieces {ps : List (List UInt8)} {s : Str} (h : ps.flatten = bytes s) :
    (ps.map fromUtf8Lossy).flatten = s ↔ ∃ ts : List Str, ps = ts.map bytes := by
  constructor
  · intro he
    induction ps generalizing s with
    | nil => exact ⟨[], rfl⟩
    | cons p ps ih =>
      rw [List.flatten_cons] at h
      rw [List.map_cons, List.flatten_cons] at he
      rcases bytes_cut h with ⟨s₁, s₂, rfl, rfl, hq⟩ | ⟨s₁, c, s₂, r, r', rfl, rfl, hq, hc, hr, hr'⟩
      · rw [lossy_bytes, List.append_cancel_left_eq] at he
        obtain ⟨ts, rfl⟩ := ih hq he
        exact ⟨s₁ :: ts, rfl⟩
      · -- a character that is cut is read as two or more
        have hlen := congrArg List.length he
        have hfirst := List.length_pos_iff.mpr (fromUtf8Lossy_ne_nil hr)
        have hrest := units_flatten_le ps
        obtain ⟨hz, hlate⟩ := late_of_cut hc hr hr'
        have hunits : units ps.flatten = s₂.length + 1 := by
          obtain ⟨d, t, rfl⟩ := List.exists_cons_of_ne_nil hr'
          rw [hq, units, firsts_append, hz, firsts_bytes, Nat.zero_add]
          exact congrArg _ hlate
        rw [lossy_append, List.length_append, List.length_append, List.length_append,
          List.length_cons] at hlen
        omega
  · rintro ⟨ts, rfl⟩
    have hmap : (ts.map bytes).map fromUtf8Lossy = ts := by
      rw [List.map_map]
      exact (List.map_congr_left fun t _ => lossy_bytes t).trans (List.map_id ts)
    rw [hmap]
    rw [← bytes_flatten] at h
    exact bytes_inj.mp h

end Rust
