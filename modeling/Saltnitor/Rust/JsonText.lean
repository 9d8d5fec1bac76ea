import Saltnitor.Rust.Json

/-!
# JSON texts

`Spells` is the grammar of JSON with the value a text stands for: escapes are decoded, numbers are
exact, members keep their order and may repeat a name. It is read from the left: `Spells n s r`
says `s` begins with the text of `n` and `r` is what follows. `parseValue` reads it; what the
grammar derives it finds (`parseValue_spells`), so a text has one value (`SpellsText.unique`).
-/

namespace Rust

/-! ## Tokens -/

/-- White space of JSON. -/
def isBlank (c : Char) : Bool := c == ' ' || c == '\t' || c == '\n' || c == '\r'

def Blank (s : Str) : Prop := ∀ c ∈ s, isBlank c = true

def skipBlanks (s : Str) : Str := s.dropWhile isBlank

def hexVal (c : Char) : Option Nat :=
  if c.isDigit then some (c.toNat - 48)
  else if 'a' ≤ c ∧ c ≤ 'f' then some (c.toNat - 87)
  else if 'A' ≤ c ∧ c ≤ 'F' then some (c.toNat - 55)
  else none

/-- The number of four hexadecimal digits, and what follows. -/
def hex4 : Str → Option (Nat × Str)
  | a :: b :: c :: d :: s => do
    some ((((← hexVal a) * 16 + (← hexVal b)) * 16 + (← hexVal c)) * 16 + (← hexVal d), s)
  | _ => none

/-- The character an escape of one letter stands for. -/
def unescape (e : Char) : Option Char :=
  if e = '"' then some '"'
  else if e = '\\' then some '\\'
  else if e = '/' then some '/'
  else if e = 'b' then some '\x08'
  else if e = 'f' then some '\x0c'
  else if e = 'n' then some '\n'
  else if e = 'r' then some '\r'
  else if e = 't' then some '\t'
  else none

def isHigh (n : Nat) : Bool := 0xD800 ≤ n && n ≤ 0xDBFF

def isLow (n : Nat) : Bool := 0xDC00 ≤ n && n ≤ 0xDFFF

/-- The character of a surrogate pair. -/
def pairChar (hi lo : Nat) : Char := .ofNat (0x10000 + (hi - 0xD800) * 0x400 + (lo - 0xDC00))

/-- A number: no leading zero, digits on both sides of a point. -/
def jsonNumber (s : Str) : Option ℚ :=
  let body := if s.head? = some '-' then s.drop 1 else s
  let whole := body.takeWhile Char.isDigit
  let rest := body.dropWhile Char.isDigit
  if whole = [] ∨ (whole.head? = some '0' ∧ 1 < whole.length) then none
  else if rest.head? = some '.' ∧ (rest.drop 1).takeWhile Char.isDigit = [] then none
  else (parseDecimal body).map fun v => if s.head? = some '-' then -v else v

def isNumChar (c : Char) : Bool := c.isDigit || c == '-' || c == '+' || c == '.' || c == 'e' || c == 'E'

/-! ## Grammar -/

/-- One character of a string. -/
inductive UnitText : Str → Char → Str → Prop
  | plain {c : Char} {s : Str} (h : 32 ≤ c.toNat ∧ c ≠ '"' ∧ c ≠ '\\') : UnitText (c :: s) c s
  | escape {e c : Char} {s : Str} (h : unescape e = some c) : UnitText ('\\' :: e :: s) c s
  | unicode {s r : Str} {n : Nat} (h : hex4 s = some (n, r)) (hs : isHigh n = false ∧ isLow n = false) :
      UnitText ('\\' :: 'u' :: s) (.ofNat n) r
  | pair {s r r' : Str} {hi lo : Nat} (h : hex4 s = some (hi, '\\' :: 'u' :: r))
      (h' : hex4 r = some (lo, r')) (hs : isHigh hi = true ∧ isLow lo = true) :
      UnitText ('\\' :: 'u' :: s) (pairChar hi lo) r'

/-- The rest of a string behind its opening quote. -/
inductive StrText : Str → Str → Str → Prop
  | close (r : Str) : StrText ('"' :: r) [] r
  | unit {s s' t r : Str} {c : Char} (h : UnitText s c s') (ht : StrText s' t r) :
      StrText s (c :: t) r

/-- What the grammar derives: values, the items of an array and the members of an object. -/
inductive Node where
  | value (v : Json)
  | elems (vs : List Json)
  | members (ms : List (Str × Json))

inductive Spells : Node → Str → Str → Prop
  | null (r : Str) : Spells (.value .null) ('n' :: 'u' :: 'l' :: 'l' :: r) r
  | yes (r : Str) : Spells (.value (.bool true)) ('t' :: 'r' :: 'u' :: 'e' :: r) r
  | no (r : Str) : Spells (.value (.bool false)) ('f' :: 'a' :: 'l' :: 's' :: 'e' :: r) r
  | num {s r : Str} {n : ℚ} (h : jsonNumber s = some n) (hr : ∀ c ∈ r.head?, isNumChar c = false) :
      Spells (.value (.num n)) (s ++ r) r
  | str {s t r : Str} (h : StrText s t r) : Spells (.value (.str t)) ('"' :: s) r
  | arrNil {w r : Str} (hw : Blank w) : Spells (.value (.arr [])) ('[' :: (w ++ ']' :: r)) r
  | arr {s r : Str} {vs : List Json} (h : Spells (.elems vs) s r) :
      Spells (.value (.arr vs)) ('[' :: s) r
  | objNil {w r : Str} (hw : Blank w) :
      Spells (.value (.obj [])) ('\x7b' :: (w ++ '\x7d' :: r)) r
  | obj {s r : Str} {ms : List (Str × Json)} (h : Spells (.members ms) s r) :
      Spells (.value (.obj ms)) ('\x7b' :: s) r
  | elem {w s w' r : Str} {v : Json} (hw : Blank w) (h : Spells (.value v) s (w' ++ ']' :: r))
      (hw' : Blank w') : Spells (.elems [v]) (w ++ s) r
  | elems {w s w' r r' : Str} {v : Json} {vs : List Json} (hw : Blank w)
      (h : Spells (.value v) s (w' ++ ',' :: r)) (hw' : Blank w') (hs : Spells (.elems vs) r r') :
      Spells (.elems (v :: vs)) (w ++ s) r'
  | member {w k w₁ w₂ s w' r key : Str} {v : Json} (hw : Blank w)
      (hk : StrText k key (w₁ ++ ':' :: (w₂ ++ s))) (hw₁ : Blank w₁) (hw₂ : Blank w₂)
      (h : Spells (.value v) s (w' ++ '\x7d' :: r)) (hw' : Blank w') :
      Spells (.members [(key, v)]) (w ++ '"' :: k) r
  | members {w k w₁ w₂ s w' r r' key : Str} {v : Json} {ms : List (Str × Json)} (hw : Blank w)
      (hk : StrText k key (w₁ ++ ':' :: (w₂ ++ s))) (hw₁ : Blank w₁) (hw₂ : Blank w₂)
      (h : Spells (.value v) s (w' ++ ',' :: r)) (hw' : Blank w') (hs : Spells (.members ms) r r') :
      Spells (.members ((key, v) :: ms)) (w ++ '"' :: k) r'

/-- The whole text is a value, with white space around it. -/
def SpellsText (s : Str) (v : Json) : Prop :=
  ∃ w t r, s = w ++ t ∧ Blank w ∧ Spells (.value v) t r ∧ Blank r

/-! ## Parser -/

/-- What follows `\u`. -/
def unicodeEscape (s : Str) : Option (Char × Str) :=
  (hex4 s).bind fun hi =>
    if isHigh hi.1 then
      (List.isPrefixOf? ['\\', 'u'] hi.2).bind fun r =>
        (hex4 r).bind fun lo => if isLow lo.1 then some (pairChar hi.1 lo.1, lo.2) else none
    else if isLow hi.1 then none
    else some (.ofNat hi.1, hi.2)

/-- The character a string begins with. -/
def strUnit : Str → Option (Char × Str)
  | [] => none
  | c :: s =>
    if c = '\\' then
      match s with
      | [] => none
      | e :: s => if e = 'u' then unicodeEscape s else (unescape e).map fun c => (c, s)
    else if 32 ≤ c.toNat ∧ c ≠ '"' then some (c, s)
    else none

def parseString : Nat → Str → Option (Str × Str)
  | 0, _ => none
  | fuel + 1, s =>
    if s.head? = some '"' then some ([], s.drop 1)
    else (strUnit s).bind fun u => (parseString fuel u.2).map fun t => (u.1 :: t.1, t.2)

/-- What follows `c`, with white space in front of it. -/
def expect (c : Char) (s : Str) : Option Str :=
  match skipBlanks s with
  | [] => none
  | d :: r => if d = c then some r else none

mutual

def parseValue : Nat → Str → Option (Json × Str)
  | 0, _ => none
  | _ + 1, [] => none
  | fuel + 1, c :: r =>
    if c = '"' then (parseString fuel r).map fun t => (.str t.1, t.2)
    else if c = '[' then
      match expect ']' r with
      | some r => some (.arr [], r)
      | none => (parseElems fuel r).map fun vs => (.arr vs.1, vs.2)
    else if c = '\x7b' then
      match expect '\x7d' r with
      | some r => some (.obj [], r)
      | none => (parseMembers fuel r).map fun ms => (.obj ms.1, ms.2)
    else if c = 'n' then (List.isPrefixOf? "ull".toList r).map fun r => (.null, r)
    else if c = 't' then (List.isPrefixOf? "rue".toList r).map fun r => (.bool true, r)
    else if c = 'f' then (List.isPrefixOf? "alse".toList r).map fun r => (.bool false, r)
    else
      (jsonNumber ((c :: r).takeWhile isNumChar)).map fun n => (.num n, (c :: r).dropWhile isNumChar)

def parseElems : Nat → Str → Option (List Json × Str)
  | 0, _ => none
  | fuel + 1, s =>
    (parseValue fuel (skipBlanks s)).bind fun v =>
      match expect ']' v.2 with
      | some r => some ([v.1], r)
      | none =>
        (expect ',' v.2).bind fun r => (parseElems fuel r).map fun vs => (v.1 :: vs.1, vs.2)

def parseMembers : Nat → Str → Option (List (Str × Json) × Str)
  | 0, _ => none
  | fuel + 1, s =>
    (expect '"' s).bind fun k =>
      (parseString fuel k).bind fun key =>
        (expect ':' key.2).bind fun r =>
          (parseValue fuel (skipBlanks r)).bind fun v =>
            match expect '\x7d' v.2 with
            | some r => some ([(key.1, v.1)], r)
            | none =>
              (expect ',' v.2).bind fun r =>
                (parseMembers fuel r).map fun ms => ((key.1, v.1) :: ms.1, ms.2)

end

/-! ## What the grammar derives, the parser finds -/

theorem splitSign_append (s : Str) :
    s = (splitSign s).2 ∨ s = '+' :: (splitSign s).2 ∨ s = '-' :: (splitSign s).2 := by
  unfold splitSign
  split
  · exact .inr (.inl rfl)
  · exact .inr (.inr rfl)
  · exact .inl rfl

theorem isNumChar_of_isDigit {c : Char} (h : c.isDigit = true) : isNumChar c = true := by
  simp [isNumChar, h]

theorem isNumChar_parseExponent {s : Str} {e : Int} (h : parseExponent s = some e) :
    ∀ c ∈ s, isNumChar c = true := by
  cases s with
  | nil => exact List.forall_mem_nil _
  | cons c s =>
    unfold parseExponent at h
    dsimp only at h
    split at h
    case isFalse => cases h
    case isTrue hif =>
      simp only [Bool.and_eq_true, List.all_eq_true] at hif
      obtain ⟨⟨hc, -⟩, hall⟩ := hif
      have hds : ∀ d ∈ (splitSign s).2, isNumChar d = true := fun d hd => isNumChar_of_isDigit (hall d hd)
      have hs : ∀ d ∈ s, isNumChar d = true := by
        rcases splitSign_append s with he | he | he
        · rwa [he]
        · rw [he]
          exact List.forall_mem_cons.mpr ⟨rfl, hds⟩
        · rw [he]
          exact List.forall_mem_cons.mpr ⟨rfl, hds⟩
      refine List.forall_mem_cons.mpr ⟨?_, hs⟩
      rcases Bool.or_eq_true_iff.mp hc with hc | hc
      · rw [eq_of_beq hc]
        rfl
      · rw [eq_of_beq hc]
        rfl

theorem isNumChar_parseDecimal {s : Str} {v : ℚ} (h : parseDecimal s = some v) :
    ∀ c ∈ s, isNumChar c = true := by
  have hdigits (t : Str) : ∀ c ∈ t.takeWhile Char.isDigit, isNumChar c = true :=
    fun c hc => isNumChar_of_isDigit (List.mem_takeWhile_imp hc)
  suffices hrest : ∀ c ∈ s.dropWhile Char.isDigit, isNumChar c = true by
    intro c hc
    rw [← List.takeWhile_append_dropWhile (p := Char.isDigit) (l := s), List.mem_append] at hc
    exact hc.elim (hdigits s c) (hrest c)
  simp only [parseDecimal, Option.ite_none_left_eq_some, Option.map_eq_some_iff] at h
  obtain ⟨-, e, he, -⟩ := h
  split at he
  · rename_i r hr
    rw [hr]
    refine List.forall_mem_cons.mpr ⟨rfl, fun c hc => ?_⟩
    rw [← List.takeWhile_append_dropWhile (p := Char.isDigit) (l := r), List.mem_append] at hc
    exact hc.elim (hdigits r c) (isNumChar_parseExponent he c)
  · exact isNumChar_parseExponent he

/-- A number is made of its own characters and begins with a sign or a digit. -/
theorem jsonNumber_spec {s : Str} {n : ℚ} (h : jsonNumber s = some n) :
    (∀ c ∈ s, isNumChar c = true) ∧
      ∃ c t, s = c :: t ∧ ∀ d : Char, d.isDigit = false → d ≠ '-' → c ≠ d := by
  simp only [jsonNumber, Option.ite_none_left_eq_some, Option.map_eq_some_iff] at h
  obtain ⟨hlead, -, v, hv, -⟩ := h
  have hbody := isNumChar_parseDecimal hv
  cases s with
  | nil => exact absurd (Or.inl rfl) hlead
  | cons c t =>
    by_cases hc : c = '-'
    · subst hc
      exact ⟨List.forall_mem_cons.mpr ⟨rfl, hbody⟩, '-', t, rfl, fun d _ hd => hd.symm⟩
    · have hne : ¬ (c :: t).head? = some '-' := fun he => hc (Option.some.inj he)
      rw [if_neg hne] at hbody hlead
      refine ⟨hbody, c, t, rfl, ?_⟩
      rintro d hd - rfl
      exact hlead (.inl (List.takeWhile_cons_of_neg (by simp [hd])))

theorem jsonNumber_ne {s t r : Str} {n : ℚ} {c : Char} (h : jsonNumber s = some n)
    (hc : c.isDigit = false) (hsign : c ≠ '-') : c :: t ≠ s ++ r := by
  obtain ⟨-, d, s, rfl, hd⟩ := jsonNumber_spec h
  exact fun he => hd c hc hsign (List.cons.inj he).1.symm

/-! Strings. -/

theorem UnitText.strUnit {s s' : Str} {c : Char} (h : UnitText s c s') : strUnit s = some (c, s') := by
  unfold Rust.strUnit
  cases h with
  | plain h => simp [h]
  | @escape e c s h =>
    have he : e ≠ 'u' := by
      rintro rfl
      cases h
    simp [he, h]
  | unicode h hs => simp [unicodeEscape, h, hs]
  | pair h h' hs =>
    simp only [↓reduceIte, unicodeEscape, h, Option.bind_some, hs]
    simp [List.isPrefixOf?, h', hs]

theorem UnitText.head_ne {s s' : Str} {c : Char} (h : UnitText s c s') : s.head? ≠ some '"' := by
  cases h with
  | plain h => exact fun he => h.2.1 (Option.some.inj he)
  | escape => simp
  | unicode => simp
  | pair => simp

theorem length_hex4 {s r : Str} {n : Nat} (h : hex4 s = some (n, r)) : r.length < s.length := by
  match s, h with
  | a :: b :: c :: d :: s, h =>
    simp only [hex4, Option.bind_eq_bind, Option.bind_eq_some_iff, Option.some.injEq, Prod.mk.injEq] at h
    obtain ⟨_, _, _, _, _, _, _, _, -, rfl⟩ := h
    simp only [List.length_cons]
    omega

theorem UnitText.length_lt {s s' : Str} {c : Char} (h : UnitText s c s') : s'.length < s.length := by
  cases h with
  | plain h => exact Nat.lt_succ_self _
  | escape h =>
    simp only [List.length_cons]
    omega
  | unicode h hs =>
    have := length_hex4 h
    simp only [List.length_cons]
    omega
  | pair h h' hs =>
    have h := length_hex4 h
    have := length_hex4 h'
    simp only [List.length_cons] at h ⊢
    omega

theorem StrText.length_lt {s t r : Str} (h : StrText s t r) : r.length < s.length := by
  induction h with
  | close r => exact Nat.lt_succ_self _
  | unit h _ ih => exact ih.trans h.length_lt

theorem StrText.parsed {s t r : Str} (h : StrText s t r) {m : Nat} (hm : s.length < m) :
    parseString m s = some (t, r) := by
  induction h generalizing m with
  | close r =>
    obtain ⟨m, rfl⟩ := Nat.exists_eq_add_of_lt hm
    rfl
  | unit h _ ih =>
    obtain ⟨m, rfl⟩ := Nat.exists_eq_add_of_le' (show 1 ≤ m by omega)
    have := h.length_lt
    rw [Rust.parseString, if_neg h.head_ne, h.strUnit, Option.bind_some, ih (by omega)]
    rfl

theorem StrText.parseString {s t r : Str} (h : StrText s t r) :
    ∃ n, ∀ m ≥ n, parseString m s = some (t, r) := ⟨s.length + 1, fun _ hm => h.parsed hm⟩

/-! White space. -/

theorem skipBlanks_append {w : Str} (hw : Blank w) (s : Str) : skipBlanks (w ++ s) = skipBlanks s :=
  List.dropWhile_append_of_pos hw

theorem skipBlanks_cons {c : Char} (hc : isBlank c = false) (s : Str) : skipBlanks (c :: s) = c :: s :=
  List.dropWhile_cons_of_neg (by simp [hc])

theorem expect_append {w : Str} (hw : Blank w) {d : Char} (hd : isBlank d = false) (c : Char) (r : Str) :
    expect c (w ++ d :: r) = if d = c then some r else none := by
  rw [expect, skipBlanks_append hw, skipBlanks_cons hd]

/-- A value begins with a character that neither is white space nor closes an array. -/
theorem Spells.head {v : Json} {s r : Str} (h : Spells (.value v) s r) :
    ∃ c t, s = c :: t ∧ isBlank c = false ∧ c ≠ ']' := by
  cases h with
  | @num s r n h hr =>
    obtain ⟨-, c, t, rfl, hc⟩ := jsonNumber_spec h
    refine ⟨c, t ++ r, rfl, ?_, hc ']' (by decide) (by decide)⟩
    simp [isBlank, hc ' ' (by decide) (by decide), hc '\t' (by decide) (by decide),
      hc '\n' (by decide) (by decide), hc '\r' (by decide) (by decide)]
  | _ => exact ⟨_, _, rfl, by decide, by decide⟩

/-- What the parser makes of a node, with fuel enough: what begins with a character of its own is
two steps deeper. -/
def Node.Parsed : Node → Str → Str → Prop
  | .value v, s, r => ∀ m, 2 * s.length < m → parseValue m s = some (v, r)
  | .elems vs, s, r => ∀ m, 2 * s.length + 1 < m → parseElems m s = some (vs, r)
  | .members ms, s, r => ∀ m, 2 * s.length + 1 < m → parseMembers m s = some (ms, r)

theorem expect_elems {vs : List Json} {s r : Str} (h : Spells (.elems vs) s r) : expect ']' s = none := by
  cases h with
  | elem hw h hw' =>
    obtain ⟨c, t, rfl, hc, hne⟩ := h.head
    rw [expect_append hw hc, if_neg hne]
  | elems hw h hw' hs =>
    obtain ⟨c, t, rfl, hc, hne⟩ := h.head
    rw [expect_append hw hc, if_neg hne]

theorem expect_members {ms : List (Str × Json)} {s r : Str} (h : Spells (.members ms) s r) :
    expect '\x7d' s = none := by
  cases h with
  | member hw => rw [expect_append hw (by decide), if_neg (by decide)]
  | members hw => rw [expect_append hw (by decide), if_neg (by decide)]

theorem parseValue_num {s r : Str} {n : ℚ} (h : jsonNumber s = some n)
    (hr : ∀ c ∈ r.head?, isNumChar c = false) (m : Nat) :
    parseValue (m + 1) (s ++ r) = some (.num n, r) := by
  obtain ⟨hchars, c, t, rfl, hne⟩ := jsonNumber_spec h
  have htake : ((c :: t) ++ r).takeWhile isNumChar = c :: t := by
    rw [List.takeWhile_append_of_pos hchars]
    cases r with
    | nil => simp
    | cons d r => simp [hr d rfl]
  have hdrop : ((c :: t) ++ r).dropWhile isNumChar = r := by
    rw [List.dropWhile_append_of_pos hchars]
    cases r with
    | nil => rfl
    | cons d r => exact List.dropWhile_cons_of_neg (by simp [hr d rfl])
  rw [List.cons_append] at *
  rw [parseValue, if_neg (hne _ (by decide) (by decide)), if_neg (hne _ (by decide) (by decide)),
    if_neg (hne _ (by decide) (by decide)), if_neg (hne _ (by decide) (by decide)),
    if_neg (hne _ (by decide) (by decide)), if_neg (hne _ (by decide) (by decide)), htake, hdrop, h]
  rfl

theorem skipBlanks_value {v : Json} {w s r : Str} (hw : Blank w) (h : Spells (.value v) s r) :
    skipBlanks (w ++ s) = s := by
  obtain ⟨c, t, rfl, hc, -⟩ := h.head
  rw [skipBlanks_append hw, skipBlanks_cons hc]

theorem parseMembers_first {w k w₁ w₂ s r key : Str} {v : Json} {m : Nat} (hw : Blank w)
    (hk : parseString m k = some (key, w₁ ++ ':' :: (w₂ ++ s))) (hw₁ : Blank w₁)
    (hs : skipBlanks (w₂ ++ s) = s) (hv : parseValue m s = some (v, r)) :
    parseMembers (m + 1) (w ++ '"' :: k) =
      match expect '\x7d' r with
      | some r => some ([(key, v)], r)
      | none =>
        (expect ',' r).bind fun r =>
          (parseMembers m r).map fun ms => ((key, v) :: ms.1, ms.2) := by
  rw [parseMembers, expect_append hw (by decide), if_pos rfl, Option.bind_some, hk, Option.bind_some,
    expect_append hw₁ (by decide), if_pos rfl, Option.bind_some, hs, hv, Option.bind_some]

theorem Spells.length_le {n : Node} {s r : Str} (h : Spells n s r) : r.length ≤ s.length := by
  induction h with
  | str h =>
    have := h.length_lt
    simp only [List.length_cons]
    omega
  | member _ hk _ _ _ _ ih =>
    have := hk.length_lt
    simp only [List.length_append, List.length_cons] at *
    omega
  | members _ hk _ _ _ _ _ ih ih' =>
    have := hk.length_lt
    simp only [List.length_append, List.length_cons] at *
    omega
  | _ =>
    simp only [List.length_append, List.length_cons] at *
    omega

theorem Spells.parsed {n : Node} {s r : Str} (h : Spells n s r) : n.Parsed s r := by
  have hfuel {k m : Nat} (h : k < m) : ∃ m', m = m' + 1 := Nat.exists_eq_add_of_le' (by omega)
  induction h with
  | null r | yes r | no r =>
    intro m hm
    obtain ⟨m, rfl⟩ := hfuel hm
    rfl
  | num h hr =>
    intro m hm
    obtain ⟨m, rfl⟩ := hfuel hm
    exact parseValue_num h hr m
  | str h =>
    intro m hm
    obtain ⟨m, rfl⟩ := hfuel hm
    rw [List.length_cons] at hm
    rw [parseValue, if_pos rfl, h.parsed (by omega)]
    rfl
  | arrNil hw =>
    intro m hm
    obtain ⟨m, rfl⟩ := hfuel hm
    rw [parseValue, if_neg (by decide), if_pos rfl, expect_append hw (by decide), if_pos rfl]
  | arr h ih =>
    intro m hm
    obtain ⟨m, rfl⟩ := hfuel hm
    rw [List.length_cons] at hm
    rw [parseValue, if_neg (by decide), if_pos rfl, expect_elems h, ih m (by omega)]
    rfl
  | objNil hw =>
    intro m hm
    obtain ⟨m, rfl⟩ := hfuel hm
    rw [parseValue, if_neg (by decide), if_neg (by decide), if_pos rfl,
      expect_append hw (by decide), if_pos rfl]
  | obj h ih =>
    intro m hm
    obtain ⟨m, rfl⟩ := hfuel hm
    rw [List.length_cons] at hm
    rw [parseValue, if_neg (by decide), if_neg (by decide), if_pos rfl, expect_members h, ih m (by omega)]
    rfl
  | elem hw h hw' ih =>
    intro m hm
    obtain ⟨m, rfl⟩ := hfuel hm
    rw [List.length_append] at hm
    rw [parseElems, skipBlanks_value hw h, ih m (by omega), Option.bind_some]
    dsimp only
    rw [expect_append hw' (by decide), if_pos rfl]
  | elems hw h hw' _ ih ih' =>
    intro m hm
    obtain ⟨m, rfl⟩ := hfuel hm
    have hle := h.length_le
    simp only [List.length_append, List.length_cons] at hm hle
    rw [parseElems, skipBlanks_value hw h, ih m (by omega), Option.bind_some]
    dsimp only
    rw [expect_append hw' (by decide), if_neg (by decide), expect_append hw' (by decide), if_pos rfl,
      Option.bind_some, ih' m (by omega)]
    rfl
  | member hw hk hw₁ hw₂ h hw' ih =>
    intro m hm
    obtain ⟨m, rfl⟩ := hfuel hm
    have hlt := hk.length_lt
    simp only [List.length_append, List.length_cons] at hm hlt
    rw [parseMembers_first hw (hk.parsed (by omega)) hw₁ (skipBlanks_value hw₂ h) (ih m (by omega)),
      expect_append hw' (by decide), if_pos rfl]
  | members hw hk hw₁ hw₂ h hw' _ ih ih' =>
    intro m hm
    obtain ⟨m, rfl⟩ := hfuel hm
    have hlt := hk.length_lt
    have hle := h.length_le
    simp only [List.length_append, List.length_cons] at hm hlt hle
    rw [parseMembers_first hw (hk.parsed (by omega)) hw₁ (skipBlanks_value hw₂ h) (ih m (by omega)),
      expect_append hw' (by decide), if_neg (by decide)]
    dsimp only
    rw [expect_append hw' (by decide), if_pos rfl, Option.bind_some, ih' m (by omega)]
    rfl

/-- From some fuel on the parser gives the value the grammar derives. -/
theorem parseValue_spells {v : Json} {s r : Str} (h : Spells (.value v) s r) :
    ∃ n, ∀ m ≥ n, parseValue m s = some (v, r) := ⟨_, h.parsed⟩

theorem Spells.unique {v v' : Json} {s r r' : Str} (h : Spells (.value v) s r)
    (h' : Spells (.value v') s r') : v = v' ∧ r = r' := by
  obtain ⟨n, hn⟩ := parseValue_spells h
  obtain ⟨n', hn'⟩ := parseValue_spells h'
  have := (hn (n + n') (by omega)).symm.trans (hn' (n + n') (by omega))
  simpa using this

theorem SpellsText.unique {s : Str} {v v' : Json} (h : SpellsText s v) (h' : SpellsText s v') : v = v' := by
  obtain ⟨w, t, r, rfl, hw, ht, -⟩ := h
  obtain ⟨w', t', r', he, hw', ht', -⟩ := h'
  have hskip := skipBlanks_value hw ht
  rw [he, skipBlanks_value hw' ht'] at hskip
  exact (ht.unique (hskip ▸ ht')).1

end Rust
