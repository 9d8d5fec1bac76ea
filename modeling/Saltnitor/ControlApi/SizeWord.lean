import Mathlib.Tactic.FieldSimp
import Saltnitor.ControlApi.Estimate

/-!
# The size in a file name

A model file says its size in one of the words of its name, as `30B` or `0.5B`. The estimate
reads the whole path, cut at dashes, underscores, points and blanks but not at slashes, and takes
the first piece that reads as a size. `sizeRead_iff` says for which paths that is the size word.
-/

namespace Saltnitor.ControlApi

open Rust

/-! ## File names -/

/-- The sizes that are believed. -/
def Believed (n : ℚ) : Prop := 3 / 10 ≤ n ∧ n < 2000

instance (n : ℚ) : Decidable (Believed n) := inferInstanceAs (Decidable (_ ∧ _))

/-- A whole or decimal number in front of a `B`. -/
structure SizeText where
  whole : Str
  frac : Str
  unit : Char
  whole_ne : whole ≠ []
  whole_digits : ∀ c ∈ whole, c.isDigit = true
  frac_digits : ∀ c ∈ frac, c.isDigit = true
  unit_b : unit = 'B' ∨ unit = 'b'
  believed : Believed ((digitsVal (whole ++ frac) : ℚ) / 10 ^ frac.length)

namespace SizeText

/-- A number without a fraction has no point. -/
def text (t : SizeText) : Str :=
  if t.frac = [] then t.whole ++ [t.unit] else t.whole ++ '.' :: (t.frac ++ [t.unit])

def value (t : SizeText) : ℚ := digitsVal (t.whole ++ t.frac) / 10 ^ t.frac.length

end SizeText

/-- A word of a file name that is no size word. -/
def IsWord (w : Str) : Prop :=
  (∀ c ∈ w, c ≠ '-' ∧ c ≠ '_' ∧ c ≠ '/') ∧ ∀ t : SizeText, t.text ≠ w

/-- The path of a model file with one size word. -/
structure ModelPath where
  /-- Empty, or up to a slash. -/
  dir : Str
  /-- The words in front of the size word, each with the separator behind it. -/
  before : List (Str × Char)
  size : SizeText
  /-- The words behind it, each with the separator in front of it. -/
  after : List (Char × Str)
  ext : Str
  dir_end : dir = [] ∨ dir.getLast? = some '/'
  before_words : ∀ w ∈ before, IsWord w.1 ∧ (w.2 = '-' ∨ w.2 = '_')
  after_words : ∀ w ∈ after, (w.1 = '-' ∨ w.1 = '_') ∧ IsWord w.2
  ext_word : ∀ c ∈ ext, c ≠ '-' ∧ c ≠ '_' ∧ c ≠ '/' ∧ c ≠ '.'

/-- The size of the weights, in GiB, with nothing rounded. -/
def weightsGb (model : Str) : F64 :=
  (((parseParamsB model).getD (.fin 8)).mul (.fin (parseBpw model))).divBy 8

namespace ModelPath

/-- What stands in front of the size word in the base name. -/
def lead (f : ModelPath) : Str := f.before.flatMap fun w => w.1 ++ [w.2]

/-- What stands behind it. -/
def rest (f : ModelPath) : Str := (f.after.flatMap fun w => w.1 :: w.2) ++ '.' :: f.ext

def base (f : ModelPath) : Str := f.lead ++ (f.size.text ++ f.rest)

def path (f : ModelPath) : Str := f.dir ++ f.base

/-- Directory and base name up to the size word. -/
def front (f : ModelPath) : Str := f.dir ++ f.lead

end ModelPath

/-! ## Pieces -/

/-- Dashes, underscores and points are blanks. -/
def flatten (name : Str) : Str :=
  (toUppercase name).map fun c => if c = '-' ∨ c = '_' ∨ c = '.' then ' ' else c

def pieces (name : Str) : List Str := splitWhitespace (flatten name)

/-- The first piece that reads as a size says `n`. -/
def Says (name : Str) (n : ℚ) : Prop :=
  ∃ ws w ws', pieces name = ws ++ w :: ws' ∧ sizeWord w = some (.fin n) ∧
    ∀ v ∈ ws, sizeWord v = none

/-- No piece reads as a size. -/
def Silent (name : Str) : Prop := ∀ w ∈ pieces name, sizeWord w = none

variable {a b name : Str} {n : ℚ}

theorem parseParamsB_eq (name : Str) : parseParamsB name = (pieces name).findSome? sizeWord := rfl

theorem says_iff : Says name n ↔ parseParamsB name = some (.fin n) := by
  rw [parseParamsB_eq, List.findSome?_eq_some_iff]
  rfl

theorem silent_iff : Silent name ↔ parseParamsB name = none := by
  rw [parseParamsB_eq, List.findSome?_eq_none_iff]
  rfl

/-! A piece has no sign but a plus and no point, so the number it reads as is whole, and a double
has room for it. -/

theorem splitSign_of_no_minus {s : Str} (h : '-' ∉ s) :
    (splitSign s).1 = false ∧ ∀ c ∈ (splitSign s).2, c ∈ s := by
  unfold splitSign
  split
  · exact ⟨rfl, fun c hc => List.mem_cons_of_mem _ hc⟩
  · exact absurd (List.mem_cons_self ..) h
  · exact ⟨rfl, fun c hc => hc⟩

theorem parseExponent_of_no_minus {s : Str} {e : Int} (h : '-' ∉ s)
    (he : parseExponent s = some e) : 0 ≤ e := by
  cases s with
  | nil => cases he; omega
  | cons c s =>
    have hsign := (splitSign_of_no_minus (s := s) fun hm => h (List.mem_cons_of_mem _ hm)).1
    simp only [parseExponent, hsign, Bool.false_eq_true, if_false] at he
    split at he
    · cases he
      omega
    · cases he

theorem parseDecimal_whole {s : Str} {v : ℚ} (hm : '-' ∉ s) (hp : '.' ∉ s)
    (h : parseDecimal s = some v) : ∃ n : Nat, v = n := by
  have hdrop (c : Char) (hc : c ∉ s) : c ∉ s.dropWhile Char.isDigit :=
    fun hd => hc ((List.dropWhile_suffix _).subset hd)
  unfold parseDecimal at h
  dsimp only at h
  split at h
  · rename_i r hr
    exact absurd (hr ▸ List.mem_cons_self ..) (hdrop '.' hp)
  · split at h
    · cases h
    · obtain ⟨e, he, rfl⟩ := Option.map_eq_some_iff.mp h
      have h0 := parseExponent_of_no_minus (hdrop '-' hm) he
      refine ⟨digitsVal (s.takeWhile Char.isDigit) * 10 ^ e.toNat, ?_⟩
      simp [scale10, h0]

theorem parseF64_whole {s : Str} {v : ℚ} (hm : '-' ∉ s) (hp : '.' ∉ s)
    (h : parseF64 s = some (.fin v)) : ∃ n : Nat, v = n := by
  obtain ⟨hsign, hsub⟩ := splitSign_of_no_minus hm
  unfold parseF64 at h
  dsimp only at h
  split at h
  · cases h
  · split at h
    · cases h
    · obtain ⟨w, hw, he⟩ := Option.map_eq_some_iff.mp h
      rw [hsign] at he
      cases he
      exact parseDecimal_whole (fun hc => hm (hsub _ hc)) (fun hc => hp (hsub _ hc)) hw

theorem mem_of_mem_splitWhitespace {s w : Str} {c : Char} (hw : w ∈ splitWhitespace s) (hc : c ∈ w) :
    c ∈ s := by
  replace hw := List.mem_of_mem_filter hw
  induction s generalizing w with
  | nil => simp_all
  | cons d s ih =>
    rw [List.splitOnP_cons_eq_if_modifyHead] at hw
    split at hw
    · rcases List.mem_cons.mp hw with rfl | hw
      · cases hc
      · exact List.mem_cons_of_mem _ (ih hc hw)
    · obtain ⟨v, vs, hv⟩ := List.exists_cons_of_ne_nil (List.splitOnP_ne_nil isWhitespace s)
      rw [hv, List.modifyHead_cons] at hw
      rcases List.mem_cons.mp hw with rfl | hw
      · rcases List.mem_cons.mp hc with rfl | hc
        · exact List.mem_cons_self ..
        · exact List.mem_cons_of_mem _ (ih hc (hv ▸ List.mem_cons_self ..))
      · exact List.mem_cons_of_mem _ (ih hc (hv ▸ List.mem_cons_of_mem _ hw))

theorem not_mem_flatten {c : Char} (hc : c = '-' ∨ c = '.') : c ∉ flatten name := by
  intro h
  obtain ⟨d, -, hd⟩ := List.mem_map.mp h
  split at hd
  · rcases hc with rfl | rfl <;> cases hd
  · rename_i hne
    rcases hc with rfl | rfl <;> simp_all

/-- Reading a size rounds nothing. -/
theorem parseParamsB_rounded {x : F64} (h : parseParamsB name = some x) : x.rounded = x := by
  obtain ⟨w, hw, hx⟩ := List.exists_of_findSome?_eq_some h
  have hpiece {c : Char} (hc : c = '-' ∨ c = '.') : c ∉ w.dropLast := fun hm =>
    not_mem_flatten hc (mem_of_mem_splitWhitespace hw (List.mem_of_mem_dropLast hm))
  obtain ⟨q, rfl, -, hle⟩ := sizeWord_within hx
  unfold sizeWord at hx
  split at hx
  · obtain ⟨hf, -⟩ := Option.filter_eq_some_iff.mp hx
    obtain ⟨n, rfl⟩ := parseF64_whole (hpiece (.inl rfl)) (hpiece (.inr rfl)) hf
    have hn : n ≤ 2000 := by exact_mod_cast hle
    exact F64.nearest_natCast (by omega)
  · cases hx

theorem flatten_append (a b : Str) : flatten (a ++ b) = flatten a ++ flatten b := by
  simp [flatten, toUppercase]

theorem flatten_separator {c : Char} (hc : c = '-' ∨ c = '_' ∨ c = '.') (s : Str) :
    flatten (c :: s) = ' ' :: flatten s := by
  rcases hc with rfl | rfl | rfl <;> rfl

theorem pieces_separator {c : Char} (hc : c = '-' ∨ c = '_' ∨ c = '.') (a b : Str) :
    pieces (a ++ c :: b) = pieces a ++ pieces b := by
  rw [pieces, flatten_append, flatten_separator hc, splitWhitespace_append_cons (by decide)]
  rfl

theorem pieces_nil : pieces [] = [] := rfl

/-- In front of a separator, or behind one, a text is cut. -/
theorem pieces_append_of_head {c : Char} (hc : c = '-' ∨ c = '_' ∨ c = '.') (hb : b.head? = some c) :
    pieces (a ++ b) = pieces a ++ pieces b := by
  obtain ⟨t, rfl⟩ := List.head?_eq_some_iff.mp hb
  have h := pieces_separator hc [] t
  rw [List.nil_append, pieces_nil, List.nil_append] at h
  rw [pieces_separator hc, h]

theorem pieces_append_of_last {c : Char} (hc : c = '-' ∨ c = '_' ∨ c = '.')
    (ha : a.getLast? = some c) : pieces (a ++ b) = pieces a ++ pieces b := by
  obtain ⟨t, rfl⟩ := List.getLast?_eq_some_iff.mp ha
  have h := pieces_separator hc t []
  rw [pieces_nil, List.append_nil] at h
  rw [List.append_assoc, List.singleton_append, pieces_separator hc, h]

theorem upperChar_digit : ∀ n < 58, 48 ≤ n → upperChar (Char.ofNat n) = [Char.ofNat n] := by decide

theorem flatten_digits {ds : Str} (hd : ∀ c ∈ ds, c.isDigit = true) : flatten ds = ds := by
  induction ds with
  | nil => rfl
  | cons c ds ih =>
    have hc : c.isDigit = true := hd c (List.mem_cons_self ..)
    have h48 : 48 ≤ c.toNat := of_decide_eq_true (Bool.and_eq_true_iff.mp hc).1
    have h57 : c.toNat ≤ 57 := of_decide_eq_true (Bool.and_eq_true_iff.mp hc).2
    have hup := upperChar_digit c.toNat (by omega) h48
    rw [Char.ofNat_toNat] at hup
    have hsep : ¬ (c = '-' ∨ c = '_' ∨ c = '.') := by
      rintro (rfl | rfl | rfl) <;> exact absurd hc (by decide)
    have hflat : flatten [c] = [c] := by simp [flatten, toUppercase, hup, hsep]
    rw [← List.singleton_append, flatten_append, hflat, ih fun d hd' => hd d (List.mem_cons_of_mem _ hd')]

theorem digit_not_blank {c : Char} (hc : c.isDigit = true) : isWhitespace c = false := by
  have h48 : 48 ≤ c.toNat := of_decide_eq_true (Bool.and_eq_true_iff.mp hc).1
  have h57 : c.toNat ≤ 57 := of_decide_eq_true (Bool.and_eq_true_iff.mp hc).2
  simp only [isWhitespace, Bool.or_eq_false_iff, Bool.and_eq_false_iff, decide_eq_false_iff_not,
    beq_eq_false_iff_ne]
  omega

theorem flatten_slash {dir : Str} (h : dir.getLast? = some '/') :
    (flatten dir).getLast? = some '/' := by
  obtain ⟨t, rfl⟩ := List.getLast?_eq_some_iff.mp h
  rw [flatten_append]
  exact List.getLast?_concat

/-- What is written behind a text that does not end in a blank is a part of its last word. -/
theorem splitWhitespace_glue {s : Str} {c : Char} (hs : s.getLast? = some c)
    (hc : isWhitespace c = false) : ∃ ws g, c ∈ g ∧ ∀ y, (∀ d ∈ y, isWhitespace d = false) →
      splitWhitespace (s ++ y) = ws ++ [g ++ y] := by
  obtain ⟨t, rfl⟩ := List.getLast?_eq_some_iff.mp hs
  -- a last word, behind the last blank
  have word {t y : Str} (ht : ∀ d ∈ t, isWhitespace d = false)
      (hy : ∀ d ∈ y, isWhitespace d = false) :
      splitWhitespace (t ++ [c] ++ y) = [t ++ [c] ++ y] := by
    refine splitWhitespace_of_no_blank (by simp) fun d hd => ?_
    simp only [List.mem_append, List.mem_singleton] at hd
    rcases hd with (hd | rfl) | hd
    · exact ht d hd
    · exact hc
    · exact hy d hd
  cases hf : t.reverse.find? isWhitespace with
  | none =>
    have ht : ∀ d ∈ t, isWhitespace d = false := by
      simpa using List.find?_eq_none.mp hf
    exact ⟨[], t ++ [c], by simp, fun y hy => word ht hy⟩
  | some w =>
    obtain ⟨hw, as, bs, hrev, has⟩ := List.find?_eq_some_iff_append.mp hf
    have hsplit : t = bs.reverse ++ w :: as.reverse := by
      rw [← List.reverse_reverse t, hrev]
      simp
    have hno : ∀ d ∈ as.reverse, isWhitespace d = false := by simpa using has
    refine ⟨splitWhitespace bs.reverse, as.reverse ++ [c], by simp, fun y hy => ?_⟩
    rw [← word hno hy, hsplit, ← splitWhitespace_append_cons hw]
    simp

/-! ## What is read -/

theorem sizeWord_slash {w : Str} (h : '/' ∈ w) : sizeWord w = none := by
  unfold sizeWord
  split
  · rename_i hl
    obtain ⟨t, rfl⟩ := List.getLast?_eq_some_iff.mp hl
    have ht : '/' ∈ t := by simpa using h
    rw [List.dropLast_concat, parseF64_slash ht]
    rfl
  · rfl

theorem sizeWord_digits {ds : Str} (hd : ∀ c ∈ ds, c.isDigit = true) : sizeWord ds = none := by
  unfold sizeWord
  refine if_neg fun h => ?_
  exact absurd (hd 'B' (List.mem_of_getLast? h)) (by decide)

theorem sizeWord_digits_b {ds : Str} (hne : ds ≠ []) (hd : ∀ c ∈ ds, c.isDigit = true) :
    sizeWord (ds ++ ['B']) =
      if Believed (digitsVal ds) then some (.fin (digitsVal ds)) else none := by
  have hrange : (F64.le (.fin (3 / 10)) (.fin (digitsVal ds)) &&
      F64.lt (.fin (digitsVal ds)) (.fin 2000)) = decide (Believed (digitsVal ds)) := by
    rw [Bool.eq_iff_iff]
    simp only [F64.le, F64.lt, Bool.and_eq_true, decide_eq_true_eq, bne_iff_ne, ne_eq,
      F64.fin.injEq, Believed, lt_iff_le_and_ne]
  unfold sizeWord
  rw [if_pos (by simp), List.dropLast_concat, parseF64_digits hne hd, Option.filter_some, hrange]
  simp only [decide_eq_true_eq]

theorem flatten_unit (t : SizeText) : flatten [t.unit] = ['B'] := by
  rcases t.unit_b with h | h <;> rw [h] <;> rfl

theorem parseParamsB_append_of_head {c : Char} (hc : c = '-' ∨ c = '_' ∨ c = '.')
    (hb : b.head? = some c) : parseParamsB (a ++ b) = (parseParamsB a).or (parseParamsB b) := by
  rw [parseParamsB_eq, pieces_append_of_head hc hb, List.findSome?_append]
  rfl

theorem parseParamsB_append_of_last {c : Char} (hc : c = '-' ∨ c = '_' ∨ c = '.')
    (ha : a.getLast? = some c) : parseParamsB (a ++ b) = (parseParamsB a).or (parseParamsB b) := by
  rw [parseParamsB_eq, pieces_append_of_last hc ha, List.findSome?_append]
  rfl

/-- What is written right behind a directory is not read. -/
theorem parseParamsB_glue {dir y : Str} (hdir : dir.getLast? = some '/')
    (hy : ∀ d ∈ flatten y, isWhitespace d = false) : parseParamsB (dir ++ y) = parseParamsB dir := by
  obtain ⟨ws, g, hg, hglue⟩ := splitWhitespace_glue (flatten_slash hdir) (by decide)
  have hdirPieces : pieces dir = ws ++ [g] := by
    simpa [pieces] using hglue [] nofun
  have hg' : '/' ∈ g ++ flatten y := List.mem_append_left _ hg
  rw [parseParamsB_eq, parseParamsB_eq, hdirPieces, pieces, flatten_append, hglue _ hy,
    List.findSome?_append, List.findSome?_append, List.findSome?_singleton,
    List.findSome?_singleton, sizeWord_slash hg', sizeWord_slash hg]

theorem parseParamsB_digits {ds : Str} (hne : ds ≠ []) (hd : ∀ c ∈ ds, c.isDigit = true) :
    parseParamsB ds = none := by
  rw [parseParamsB_eq, pieces, flatten_digits hd,
    splitWhitespace_of_no_blank hne fun c hc => digit_not_blank (hd c hc), List.findSome?_singleton,
    sizeWord_digits hd]

theorem not_believed_zero : ¬ Believed ((0 : Nat) : ℚ) := fun h => absurd h.1 (by norm_num)

theorem digitsVal_lt {ds : Str} (hd : ∀ c ∈ ds, c.isDigit = true) :
    digitsVal ds < 10 ^ ds.length := by
  induction ds with
  | nil => decide
  | cons c ds ih =>
    have hc : c.toNat ≤ 57 :=
      of_decide_eq_true (Bool.and_eq_true_iff.mp (hd c (List.mem_cons_self ..))).2
    have hlt := ih fun d hd' => hd d (List.mem_cons_of_mem _ hd')
    have h0 : '0'.toNat = 48 := rfl
    have hmul : 10 ^ ds.length * (c.toNat - 48) ≤ 10 ^ ds.length * 9 := Nat.mul_le_mul_left _ (by omega)
    rw [digitsVal, Nat.ofDigitChars_cons, Nat.ofDigitChars_eq_ofDigitChars_zero, List.length_cons,
      Nat.pow_succ, h0, Nat.mul_zero, Nat.zero_add]
    unfold digitsVal at hlt
    omega

namespace SizeText

variable (t : SizeText)

theorem not_blank_unit {ds : Str} (hd : ∀ c ∈ ds, c.isDigit = true) :
    flatten (ds ++ [t.unit]) = ds ++ ['B'] ∧ ∀ c ∈ ds ++ ['B'], isWhitespace c = false := by
  refine ⟨by rw [flatten_append, flatten_digits hd, flatten_unit], fun c hc => ?_⟩
  rcases List.mem_append.mp hc with hc | hc
  · exact digit_not_blank (hd c hc)
  · rw [List.mem_singleton.mp hc]
    decide

theorem parseParamsB_unit {ds : Str} (hne : ds ≠ []) (hd : ∀ c ∈ ds, c.isDigit = true) :
    parseParamsB (ds ++ [t.unit]) =
      if Believed (digitsVal ds) then some (.fin (digitsVal ds)) else none := by
  obtain ⟨hflat, hblank⟩ := t.not_blank_unit hd
  rw [parseParamsB_eq, pieces, hflat, splitWhitespace_of_no_blank (by simp) hblank,
    List.findSome?_singleton, sizeWord_digits_b hne hd]

theorem frac_ne_value (hb : Believed (digitsVal t.frac)) : (digitsVal t.frac : ℚ) ≠ t.value := by
  intro h
  have hsplit : digitsVal (t.whole ++ t.frac) =
      10 ^ t.frac.length * digitsVal t.whole + digitsVal t.frac := by
    rw [digitsVal, Nat.ofDigitChars_append, Nat.ofDigitChars_eq_ofDigitChars_zero]
    rfl
  have hpow : (10 : ℚ) ^ t.frac.length ≠ 0 := by positivity
  rw [value, eq_div_iff hpow] at h
  have hnat : digitsVal t.frac * 10 ^ t.frac.length =
      10 ^ t.frac.length * digitsVal t.whole + digitsVal t.frac := by
    rw [← hsplit]
    exact_mod_cast h
  have hdvd : 10 ^ t.frac.length ∣ digitsVal t.frac :=
    (Nat.dvd_add_right (Dvd.intro _ rfl)).mp (hnat ▸ Dvd.intro_left _ rfl)
  have hzero := Nat.eq_zero_of_dvd_of_lt hdvd (digitsVal_lt t.frac_digits)
  rw [hzero] at hb
  exact not_believed_zero hb

end SizeText

/-! ## Which paths are read -/

namespace ModelPath

variable (f : ModelPath)

/-- The size word is not right behind a slash. -/
def Apart : Prop := f.dir = [] ∨ f.before ≠ []

instance : Decidable f.Apart := inferInstanceAs (Decidable (_ ∨ ¬ _))

/-- The size word is read: in front of it nothing reads as a size, it has no point and is not right
behind a slash. Otherwise what is read instead may happen to say the same. -/
def Told : Prop :=
  Says f.front f.size.value ∨ Silent f.front ∧
    ((f.size.frac = [] ∧ f.Apart) ∨
      (¬ Believed (digitsVal f.size.frac) ∧ Says f.rest f.size.value))

theorem path_eq : f.path = f.front ++ f.size.text ++ f.rest := by
  simp [path, base, front]

theorem head_rest : ∃ c, (c = '-' ∨ c = '_' ∨ c = '.') ∧ f.rest.head? = some c := by
  unfold rest
  cases h : f.after with
  | nil => exact ⟨'.', by simp, rfl⟩
  | cons w ws =>
    have hw := (f.after_words w (h ▸ List.mem_cons_self ..)).1
    exact ⟨w.1, by tauto, rfl⟩

theorem last_front (h : f.before ≠ []) :
    ∃ c, (c = '-' ∨ c = '_' ∨ c = '.') ∧ f.front.getLast? = some c := by
  obtain ⟨ws, w, hsplit⟩ := List.eq_nil_or_concat f.before |>.resolve_left h
  have hw := (f.before_words w (by simp [hsplit])).2
  refine ⟨w.2, by tauto, ?_⟩
  simp [front, lead, hsplit]

/-- Behind the front a text is cut off, unless it is glued to the directory. -/
theorem parseParamsB_front (h : f.Apart) (y : Str) :
    parseParamsB (f.front ++ y) = (parseParamsB f.front).or (parseParamsB y) := by
  by_cases hb : f.before = []
  · have hfront : f.front = [] := by
      rw [front, lead, hb, h.resolve_right (not_not_intro hb)]
      rfl
    rw [hfront]
    rfl
  · obtain ⟨c, hc, hlast⟩ := f.last_front hb
    exact parseParamsB_append_of_last hc hlast

theorem parseParamsB_front_glued (h : ¬ f.Apart) {y : Str}
    (hy : ∀ d ∈ flatten y, isWhitespace d = false) :
    parseParamsB (f.front ++ y) = parseParamsB f.front := by
  rw [Apart, not_or, not_not] at h
  have hfront : f.front = f.dir := by simp [front, lead, h.2]
  rw [hfront]
  exact parseParamsB_glue (f.dir_end.resolve_left h.1) hy

/-- Digits without the unit are never read, glued or not. -/
theorem parseParamsB_front_digits :
    parseParamsB (f.front ++ f.size.whole) = parseParamsB f.front := by
  by_cases h : f.Apart
  · rw [f.parseParamsB_front h, parseParamsB_digits f.size.whole_ne f.size.whole_digits,
      Option.or_none]
  · refine f.parseParamsB_front_glued h fun d hd => ?_
    rw [flatten_digits f.size.whole_digits] at hd
    exact digit_not_blank (f.size.whole_digits d hd)

theorem value_of_whole (h : f.size.frac = []) : f.size.value = digitsVal f.size.whole := by
  simp [SizeText.value, h]

theorem parseParamsB_word : parseParamsB (f.front ++ f.size.text) =
    (parseParamsB f.front).or
      (if f.size.frac = [] ∧ f.Apart then some (.fin f.size.value)
      else if Believed (digitsVal f.size.frac) then some (.fin (digitsVal f.size.frac)) else none) := by
  by_cases hfrac : f.size.frac = []
  · have htext : f.size.text = f.size.whole ++ [f.size.unit] := if_pos hfrac
    have hno : ¬ Believed (digitsVal f.size.frac) := by
      rw [hfrac]
      exact not_believed_zero
    rw [htext, if_neg hno]
    by_cases h : f.Apart
    · have hbelieved : Believed (digitsVal f.size.whole) := by
        rw [← f.value_of_whole hfrac]
        exact f.size.believed
      rw [f.parseParamsB_front h, f.size.parseParamsB_unit f.size.whole_ne f.size.whole_digits,
        if_pos hbelieved, if_pos ⟨hfrac, h⟩, f.value_of_whole hfrac]
    · obtain ⟨hflat, hblank⟩ := f.size.not_blank_unit f.size.whole_digits
      rw [f.parseParamsB_front_glued h (hflat ▸ hblank), if_neg fun hc => h hc.2, Option.or_none]
  · have htext : f.size.text = f.size.whole ++ '.' :: (f.size.frac ++ [f.size.unit]) := if_neg hfrac
    have hpoint : parseParamsB ('.' :: (f.size.frac ++ [f.size.unit])) =
        parseParamsB (f.size.frac ++ [f.size.unit]) :=
      parseParamsB_append_of_last (a := ['.']) (c := '.') (by simp) rfl
    rw [htext, ← List.append_assoc, parseParamsB_append_of_head (c := '.') (by simp) rfl,
      f.parseParamsB_front_digits, hpoint, f.size.parseParamsB_unit hfrac f.size.frac_digits,
      if_neg (show ¬ (f.size.frac = [] ∧ f.Apart) from fun hc => hfrac hc.1)]

theorem parseParamsB_path : parseParamsB f.path = some (.fin f.size.value) ↔ f.Told := by
  obtain ⟨c, hc, hrest⟩ := f.head_rest
  rw [path_eq, parseParamsB_append_of_head hc hrest, parseParamsB_word, Told, says_iff, silent_iff,
    says_iff]
  cases parseParamsB f.front with
  | some x => simp
  | none =>
    simp only [Option.none_or, true_and, reduceCtorEq, false_or]
    by_cases hread : f.size.frac = [] ∧ f.Apart
    · simp [hread]
    · rw [if_neg hread, or_iff_right hread]
      split_ifs with hb
      · simp [hb, f.size.frac_ne_value hb]
      · simp [hb]

/-- The size is read as it is written, and the weights are those of the base name: as exact
numbers, and as the doubles the footprint reckons with. -/
structure Reads : Prop where
  params : parseParamsB f.path = some (.fin f.size.value)
  weights : weightsGb f.path = .fin (f.size.value * parseBpw f.base / 8)
  rounded : ControlApi.weights f.path =
    (F64.fmul (.fin f.size.value) (.nearest (parseBpw f.base))).fdiv 8

/-- **The size in a file name** is read from the path exactly when the path is told, and the weights
are those of the base name exactly when the quantization is, too. -/
theorem sizeRead_iff : f.Reads ↔ f.Told ∧ parseBpw f.path = parseBpw f.base := by
  have hpos : f.size.value ≠ 0 := by
    intro h
    have hb : Believed f.size.value := f.size.believed
    rw [h] at hb
    exact absurd hb.1 (by norm_num)
  have hweights (h : parseParamsB f.path = some (.fin f.size.value)) :
      weightsGb f.path = .fin (f.size.value * parseBpw f.base / 8) ↔
        parseBpw f.path = parseBpw f.base := by
    have hw : weightsGb f.path = .fin (f.size.value * parseBpw f.path * (1 / 8)) := by
      rw [weightsGb, h]
      rfl
    rw [hw, F64.fin.injEq, mul_one_div, div_left_inj' (by norm_num), mul_right_inj' hpos]
  rw [← parseParamsB_path]
  refine ⟨fun h => ⟨h.params, (hweights h.params).mp h.weights⟩, fun ⟨hp, hb⟩ => ?_⟩
  refine { params := hp, weights := (hweights hp).mpr hb, rounded := ?_ }
  rw [ControlApi.weights, hp, hb]
  rfl

/-! ### Paths that are not -/

theorem getLast?_text (t : SizeText) : t.text.getLast? = some t.unit := by
  unfold SizeText.text
  split
  · exact List.getLast?_concat
  · rw [← List.cons_append, ← List.append_assoc]
    exact List.getLast?_concat

theorem isWord_of_last {w : Str} (hw : ∀ c ∈ w, c ≠ '-' ∧ c ≠ '_' ∧ c ≠ '/')
    (hl : w.getLast? ≠ some 'B' ∧ w.getLast? ≠ some 'b') : IsWord w := by
  refine ⟨hw, ?_⟩
  rintro t rfl
  have hlast := getLast?_text t
  rcases t.unit_b with hu | hu <;> rw [hu] at hlast
  · exact hl.1 hlast
  · exact hl.2 hlast

/-- Half a billion, in decimal. -/
def qwen : ModelPath where
  dir := []
  before := [("Qwen2.5", '-')]
  size := ⟨"0", "5", 'B', by decide, by decide, by decide, by decide, by decide +kernel⟩
  after := [('-', "Instruct")]
  ext := "gguf"
  dir_end := .inl rfl
  before_words := List.forall_mem_singleton.mpr ⟨isWord_of_last (by decide) (by decide), .inl rfl⟩
  after_words := List.forall_mem_singleton.mpr ⟨.inl rfl, isWord_of_last (by decide) (by decide)⟩
  ext_word := by decide

/-- Thirty billion, at the front of the base name, in some directory. -/
def inDirectory (dir : Str) (h : dir.getLast? = some '/') : ModelPath where
  dir := dir
  before := []
  size := ⟨"30", [], 'B', by decide, by decide, nofun, .inl rfl, by decide +kernel⟩
  after := []
  ext := "gguf"
  dir_end := .inr h
  before_words := nofun
  after_words := nofun
  ext_word := by decide

/-- Half a billion is read as five; thirty billion as the seven of a directory, or not at all. -/
theorem not_reads_qwen :
    (qwen.path = ("Qwen2.5-0.5B-Instruct.gguf" : Str) ∧ parseParamsB qwen.path = some (.fin 5) ∧
        ¬ qwen.Reads) ∧
      (¬ (inDirectory "/models-7B-x/" rfl).Reads ∧ parseParamsB "/models-7B-x/30B.gguf" = some (.fin 7)) ∧
      ¬ (inDirectory "/models/" rfl).Reads ∧ parseParamsB "/models/30B.gguf" = none := by
  refine ⟨⟨by decide, by decide +kernel, fun h => ?_⟩, ⟨fun h => ?_, by decide +kernel⟩,
    fun h => ?_, by decide +kernel⟩
  all_goals
    have := h.params
    revert this
    decide +kernel

end ModelPath

end Saltnitor.ControlApi
