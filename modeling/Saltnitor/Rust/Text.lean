import Mathlib.Data.List.Basic
import Mathlib.Data.List.DropRight
import Mathlib.Data.List.Induction

/-!
# Text

A Rust `String` is a list of Unicode scalar values; `bytes` is its UTF-8
encoding, and `bytes_inj` says two texts with equal bytes are equal. The
operations are those of `str` in the Rust standard library, under its names.
Letter case is ASCII case throughout (`Char.toLower` maps `A`–`Z` only).
-/

namespace Rust

abbrev Str := List Char

instance : Coe String Str := ⟨String.toList⟩

/-- What all of a list's elements have is decided on the list, also where their type is finite. -/
instance (priority := 2000) forallMemDecidable {α : Type} (p : α → Prop) [DecidablePred p]
    (l : List α) : Decidable (∀ a ∈ l, p a) := List.decidableBAll p l

/-- UTF-8. -/
def bytes (s : Str) : List UInt8 := s.flatMap String.utf8EncodeChar

theorem bytes_toByteArray (s : Str) : (bytes s).toByteArray = (String.ofList s).toByteArray := by
  rw [String.toByteArray_ofList]; rfl

theorem bytes_inj {s t : Str} : bytes s = bytes t ↔ s = t := by
  refine ⟨fun h => ?_, fun h => h ▸ rfl⟩
  have h' := congrArg List.toByteArray h
  rw [bytes_toByteArray, bytes_toByteArray, String.toByteArray_inj] at h'
  exact String.ofList_injective h'

/-! ## Letter case -/

def toAsciiLowercase (s : Str) : Str := s.map Char.toLower

def eqIgnoreAsciiCase (s t : Str) : Bool := toAsciiLowercase s == toAsciiLowercase t

theorem eqIgnoreAsciiCase_iff {s t : Str} :
    eqIgnoreAsciiCase s t = true ↔ toAsciiLowercase s = toAsciiLowercase t := by
  simp [eqIgnoreAsciiCase]

/-- Upper case, exact on every character whose upper case is ASCII text; the others have an upper
case that is neither ASCII nor white space, and stand for it. -/
def upperChar (c : Char) : Str :=
  match c.toNat with
  | 0xDF => "SS"
  | 0x131 => "I"
  | 0x17F => "S"
  | 0xFB00 => "FF"
  | 0xFB01 => "FI"
  | 0xFB02 => "FL"
  | 0xFB03 => "FFI"
  | 0xFB04 => "FFL"
  | 0xFB05 | 0xFB06 => "ST"
  | _ => [c.toUpper]

def toUppercase (s : Str) : Str := s.flatMap upperChar

/-! ## White space -/

/-- Unicode `White_Space`. -/
def isWhitespace (c : Char) : Bool :=
  let n := c.toNat
  (9 ≤ n && n ≤ 13) || n == 0x20 || n == 0x85 || n == 0xA0 || n == 0x1680 ||
    (0x2000 ≤ n && n ≤ 0x200A) || n == 0x2028 || n == 0x2029 || n == 0x202F ||
    n == 0x205F || n == 0x3000

/-- Drop the characters satisfying `p` at both ends. -/
def trimMatches (p : Char → Bool) (s : Str) : Str := (s.dropWhile p).rdropWhile p

def trim (s : Str) : Str := trimMatches isWhitespace s

theorem dropWhile_congr {p q : Char → Bool} {s : Str} (h : ∀ c ∈ s, p c = q c) :
    s.dropWhile p = s.dropWhile q := by
  induction s with
  | nil => rfl
  | cons c s ih =>
    have hc := h c (List.mem_cons_self ..)
    have hs := ih fun d hd => h d (List.mem_cons_of_mem _ hd)
    simp only [List.dropWhile_cons, hc, hs]

theorem trimMatches_congr {p q : Char → Bool} {s : Str} (h : ∀ c ∈ s, p c = q c) :
    trimMatches p s = trimMatches q s := by
  have h' : ∀ c ∈ (s.dropWhile q).reverse, p c = q c := fun c hc =>
    h c ((List.dropWhile_suffix _).subset (List.mem_reverse.mp hc))
  simp only [trimMatches, List.rdropWhile, dropWhile_congr h, dropWhile_congr h']

theorem dropWhile_concat {p : Char → Bool} {c : Char} (hc : p c = true) (s : Str) :
    (s ++ [c]).dropWhile p = if s.dropWhile p = [] then [] else s.dropWhile p ++ [c] := by
  rw [List.dropWhile_append]
  split
  · rename_i he
    rw [List.isEmpty_iff] at he
    rw [if_pos he, List.dropWhile_cons_of_pos hc, List.dropWhile_nil]
  · rename_i he
    rw [List.isEmpty_iff] at he
    rw [if_neg he]

theorem trim_concat {c : Char} (hc : isWhitespace c = true) (s : Str) :
    trim (s ++ [c]) = trim s := by
  rw [trim, trimMatches, dropWhile_concat hc, trim, trimMatches]
  split
  · rename_i he
    rw [he]
  · rw [List.rdropWhile_concat_pos _ _ _ hc]

theorem trim_cons {c : Char} (hc : isWhitespace c = true) (s : Str) : trim (c :: s) = trim s := by
  rw [trim, trimMatches, List.dropWhile_cons_of_pos hc, trim, trimMatches]

theorem dropWhile_eq_self {p : Char → Bool} {s : Str} (h : ∀ c ∈ s.head?, p c = false) :
    s.dropWhile p = s := by
  cases s with
  | nil => rfl
  | cons c s => exact List.dropWhile_cons_of_neg (by simpa using h c rfl)

theorem length_trim_le (s : Str) : (trim s).length ≤ s.length := by
  rw [trim, trimMatches]
  exact (List.rdropWhile_prefix ..).length_le.trans (List.dropWhile_suffix ..).length_le

theorem head_of_trim_eq_self {s : Str} (h : trim s = s) : ∀ c ∈ s.head?, isWhitespace c = false := by
  cases s with
  | nil => exact fun c hc => nomatch hc
  | cons c s =>
    intro d hd
    cases hd
    by_contra hw
    rw [Bool.not_eq_false] at hw
    have hle := length_trim_le s
    rw [← trim_cons hw, h, List.length_cons] at hle
    omega

theorem trim_eq_self {s : Str} (h : ∀ c ∈ s, isWhitespace c = false) : trim s = s := by
  rw [trim, trimMatches, dropWhile_eq_self fun c hc => h c (List.mem_of_mem_head? hc),
    List.rdropWhile, dropWhile_eq_self fun c hc =>
      h c (List.mem_reverse.mp (List.mem_of_mem_head? hc)), List.reverse_reverse]

theorem trim_append_blank {s w : Str} (h : ∀ c ∈ w, isWhitespace c = true) : trim (s ++ w) = trim s := by
  induction w using List.reverseRecOn with
  | nil => rw [List.append_nil]
  | append_singleton w c ih =>
    rw [← List.append_assoc, trim_concat (h c (by simp))]
    exact ih fun d hd => h d (by simp [hd])

theorem filter_trim (s : Str) :
    (trim s).filter (fun c => !isWhitespace c) = s.filter fun c => !isWhitespace c := by
  have hdrop (s : Str) : (s.dropWhile isWhitespace).filter (fun c => !isWhitespace c) =
      s.filter fun c => !isWhitespace c := by
    conv_rhs => rw [← List.takeWhile_append_dropWhile (p := isWhitespace) (l := s)]
    have hnil : (s.takeWhile isWhitespace).filter (fun c => !isWhitespace c) = [] :=
      List.filter_eq_nil_iff.mpr fun c hc => by simp [List.mem_takeWhile_imp hc]
    rw [List.filter_append, hnil, List.nil_append]
  rw [trim, trimMatches, List.rdropWhile, List.filter_reverse, hdrop, List.filter_reverse,
    List.reverse_reverse, hdrop]

theorem mem_trim {s : Str} {c : Char} (hc : isWhitespace c = false) : c ∈ trim s ↔ c ∈ s := by
  have h := congrArg (c ∈ ·) (filter_trim s)
  simpa [List.mem_filter, hc] using h

/-- A part in front is trimmed to the same text just when blanks follow it. -/
theorem trim_eq_trim_append {s t : Str} :
    trim s = trim (s ++ t) ↔ ∀ c ∈ t, isWhitespace c = true := by
  refine ⟨fun h c hc => ?_, fun h => (trim_append_blank h).symm⟩
  have hf := congrArg List.length (filter_trim (s ++ t))
  rw [← h, filter_trim, List.filter_append, List.length_append] at hf
  have hnil := List.length_eq_zero_iff.mp (by omega :
    (t.filter fun c => !isWhitespace c).length = 0)
  simpa using List.filter_eq_nil_iff.mp hnil c hc

theorem rdropWhile_append_blank {s w : Str} (h : ∀ c ∈ w, isWhitespace c = true) :
    (s ++ w).rdropWhile isWhitespace = s.rdropWhile isWhitespace := by
  induction w using List.reverseRecOn with
  | nil => rw [List.append_nil]
  | append_singleton w c ih =>
    rw [← List.append_assoc, List.rdropWhile_concat_pos _ _ _ (h c (by simp))]
    exact ih fun d hd => h d (by simp [hd])

theorem mem_rdropWhile {s w : Str} {c d : Char} (hd : d ∈ w) (hw : isWhitespace d = false) :
    c ∈ (s ++ c :: w).rdropWhile isWhitespace := by
  induction w using List.reverseRecOn with
  | nil => cases hd
  | append_singleton w e ih =>
    rw [← List.cons_append, ← List.append_assoc, List.rdropWhile_concat]
    split
    · rename_i he
      refine ih ((List.mem_append.mp hd).resolve_right fun hm => ?_)
      cases List.mem_singleton.mp hm
      rw [hw] at he
      cases he
    · simp

/-- `{:?}` of a text that needs no escapes. -/
def quoted (s : Str) : Str := '"' :: s ++ ['"']

theorem quoted_injective : Function.Injective quoted := fun _ _ h =>
  List.append_cancel_right (List.cons.inj h).2

/-! ## Splitting -/

/-- The text before and after the first `c`. -/
def splitOnce (c : Char) (s : Str) : Option (Str × Str) :=
  match s.dropWhile (· != c) with
  | [] => none
  | _ :: rest => some (s.takeWhile (· != c), rest)

theorem splitOnce_append {c : Char} {a b : Str} (h : c ∉ a) :
    splitOnce c (a ++ c :: b) = some (a, b) := by
  have ha : ∀ d ∈ a, (d != c) = true := fun d hd => by
    simp only [bne_iff_ne]; rintro rfl; exact h hd
  simp only [splitOnce, List.dropWhile_append_of_pos ha, List.takeWhile_append_of_pos ha]
  simp

theorem splitOnce_eq_some {c : Char} {s a b : Str} :
    splitOnce c s = some (a, b) ↔ s = a ++ c :: b ∧ c ∉ a := by
  constructor
  · intro h
    cases hd : s.dropWhile (· != c) with
    | nil => simp [splitOnce, hd] at h
    | cons d rest =>
      simp only [splitOnce, hd, Option.some.injEq, Prod.mk.injEq] at h
      obtain ⟨rfl, rfl⟩ := h
      have hdc : d = c := by
        have := List.head_dropWhile_not (· != c) (l := s) (by simp [hd])
        simpa [hd] using this
      refine ⟨?_, fun hm => ?_⟩
      · have := List.takeWhile_append_dropWhile (p := (· != c)) (l := s)
        rw [hd, hdc] at this
        exact this.symm
      · simpa using List.mem_takeWhile_imp hm
  · rintro ⟨rfl, h⟩
    exact splitOnce_append h

theorem mem_of_mem_splitOn {c d : Char} {s t : Str} (ht : t ∈ s.splitOn c) (hd : d ∈ t) :
    d ∈ s := by
  induction s generalizing t with
  | nil =>
    rw [List.splitOn_nil, List.mem_singleton] at ht
    exact ht ▸ hd
  | cons x s ih =>
    rw [List.splitOn_cons_eq_if_modifyHead] at ht
    split at ht
    · rcases List.mem_cons.mp ht with rfl | ht
      · cases hd
      · exact List.mem_cons_of_mem _ (ih ht hd)
    · cases hs : s.splitOn c with
      | nil => exact absurd hs (List.splitOn_ne_nil c s)
      | cons u us =>
        rw [hs] at ht ih
        rcases List.mem_cons.mp ht with rfl | ht
        · rcases List.mem_cons.mp hd with rfl | hd
          · exact List.mem_cons_self ..
          · exact List.mem_cons_of_mem _ (ih (List.mem_cons_self ..) hd)
        · exact List.mem_cons_of_mem _ (ih (List.mem_cons_of_mem _ ht) hd)

theorem not_mem_of_mem_splitOn {c : Char} {s t : Str} (ht : t ∈ s.splitOn c) : c ∉ t := by
  induction s generalizing t with
  | nil =>
    rw [List.splitOn_nil, List.mem_singleton] at ht
    rw [ht]
    exact List.not_mem_nil
  | cons x s ih =>
    rw [List.splitOn_cons_eq_if_modifyHead] at ht
    split at ht
    · rcases List.mem_cons.mp ht with rfl | ht
      · exact List.not_mem_nil
      · exact ih ht
    · rename_i hx
      cases hs : s.splitOn c with
      | nil => exact absurd hs (List.splitOn_ne_nil c s)
      | cons u us =>
        rw [hs] at ht ih
        rcases List.mem_cons.mp ht with rfl | ht
        · rw [List.mem_cons, not_or]
          exact ⟨fun he => hx (by simp [he]), ih (List.mem_cons_self ..)⟩
        · exact ih (List.mem_cons_of_mem _ ht)

/-- The first piece, and where the others come from. -/
theorem splitOn_eq_cons (c : Char) (s : Str) : ∃ tail, s.splitOn c = s.takeWhile (· != c) :: tail ∧
    ∀ l ∈ tail, ∀ d ∈ l, d ∈ s.dropWhile (· != c) := by
  have hhead : c ∉ s.takeWhile (· != c) := fun hm => by simpa using List.mem_takeWhile_imp hm
  have hs := List.takeWhile_append_dropWhile (p := (· != c)) (l := s)
  cases hd : s.dropWhile (· != c) with
  | nil =>
    rw [hd, List.append_nil] at hs
    refine ⟨[], ?_, fun l hl => nomatch hl⟩
    rw [hs] at hhead ⊢
    exact List.splitOn_eq_singleton hhead
  | cons d r =>
    have hc : d = c := by
      have h := List.head_dropWhile_not (p := (· != c)) (l := s) (by rw [hd]; exact List.cons_ne_nil _ _)
      simpa [hd] using h
    subst hc
    refine ⟨r.splitOn d, ?_, fun l hl e he => List.mem_cons_of_mem _ (mem_of_mem_splitOn hl he)⟩
    conv_lhs => rw [← hs, hd, List.splitOn_append_cons_self_of_not_mem hhead]

/-- `str::split(", ")`. -/
def splitComma : Str → List Str
  | ',' :: ' ' :: s => [] :: splitComma s
  | c :: s => (splitComma s).modifyHead (c :: ·)
  | [] => [[]]

theorem isPrefixOf?_eq_some {p s t : Str} : List.isPrefixOf? p s = some t ↔ s = p ++ t := by
  rw [List.isPrefixOf?_eq_some_iff_append_eq, eq_comm]

theorem isPrefixOf?_eq_none {p s : Str} : List.isPrefixOf? p s = none ↔ ¬ p <+: s := by
  rw [Option.eq_none_iff_forall_ne_some]
  simp only [ne_eq, isPrefixOf?_eq_some, List.IsPrefix, eq_comm, not_exists]

/-- Drop the carriage return before a line feed. -/
def chompCr (l : Str) : Str := if l.getLast? = some '\r' then l.dropLast else l

/-- `str::lines`: cut at line feeds, each with an optional carriage return before it. -/
def lines (s : Str) : List Str :=
  let ps := s.splitOn '\n'
  ps.dropLast.map chompCr ++ (ps.getLast?.toList.filter fun l => !l.isEmpty)

/-- `str::split_whitespace`. -/
def splitWhitespace (s : Str) : List Str := (s.splitOnP isWhitespace).filter fun w => !w.isEmpty

example : lines "a\r\n\nb\n" = [['a'], [], ['b']] := by decide

/-- Lines without line feeds, each ended by one, are read back. -/
theorem lines_flatMap {ls : List Str} (s : Str) (h : ∀ l ∈ ls, '\n' ∉ l) :
    lines (ls.flatMap (· ++ ['\n']) ++ s) = ls.map chompCr ++ lines s := by
  have hs : (ls.flatMap (· ++ ['\n']) ++ s).splitOn '\n' = ls ++ s.splitOn '\n' := by
    induction ls with
    | nil => rfl
    | cons l ls ih =>
      rw [List.flatMap_cons, List.append_assoc, List.append_assoc, List.singleton_append,
        List.splitOn_append_cons_self_of_not_mem (h l (List.mem_cons_self ..)),
        ih fun l' hl => h l' (List.mem_cons_of_mem _ hl)]
      rfl
  have hne : s.splitOn '\n' ≠ [] := List.splitOn_ne_nil '\n' s
  have hlast : (ls ++ s.splitOn '\n').getLast? = (s.splitOn '\n').getLast? :=
    List.getLast?_append_of_ne_nil _ hne
  simp only [lines, hs, hlast, List.dropLast_append_of_ne_nil hne, List.map_append,
    List.append_assoc]

theorem lines_append (s t : Str) :
    lines (s ++ '\n' :: t) = (s.splitOn '\n').map chompCr ++ lines t := by
  have hjoin (ls : List Str) (h : ls ≠ []) :
      ls.flatMap (· ++ ['\n']) = List.intercalate ['\n'] ls ++ ['\n'] := by
    induction ls with
    | nil => exact absurd rfl h
    | cons l ls ih =>
      cases ls with
      | nil => simp
      | cons l' ls =>
        rw [List.flatMap_cons, ih (List.cons_ne_nil _ _), List.intercalate_cons_cons]
        simp only [List.append_assoc]
  have hs : s ++ '\n' :: t = (s.splitOn '\n').flatMap (· ++ ['\n']) ++ t := by
    rw [hjoin _ (List.splitOn_ne_nil _ _), List.intercalate_splitOn, List.append_assoc,
      List.singleton_append]
  rw [hs, lines_flatMap t fun l hl => not_mem_of_mem_splitOn hl]

theorem prefix_chompCr (l : Str) : chompCr l <+: l := by
  unfold chompCr
  split
  · exact List.dropLast_prefix l
  · exact List.prefix_refl l

theorem chompCr_eq_or (l : Str) : chompCr l = l ∨ l = chompCr l ++ ['\r'] := by
  unfold chompCr
  split
  · rename_i h
    exact .inr (List.dropLast_append_getLast? _ h).symm
  · exact .inl rfl

theorem trim_chompCr (l : Str) : trim (chompCr l) = trim l := by
  rcases chompCr_eq_or l with h | h
  · rw [h]
  · conv_rhs => rw [h, trim_concat (by decide)]

theorem not_mem_of_mem_lines {s l : Str} (h : l ∈ lines s) : '\n' ∉ l := by
  rcases List.mem_append.mp h with h | h
  · obtain ⟨t, ht, rfl⟩ := List.mem_map.mp h
    exact fun hm => not_mem_of_mem_splitOn (List.dropLast_subset _ ht)
      ((prefix_chompCr t).subset hm)
  · have := List.mem_of_mem_filter h
    exact not_mem_of_mem_splitOn (List.mem_of_getLast? (Option.mem_toList.mp this))

theorem splitWhitespace_cons {c : Char} {s : Str} (h : isWhitespace c = true) :
    splitWhitespace (c :: s) = splitWhitespace s := by
  rw [splitWhitespace, List.splitOnP_cons_eq_if_modifyHead, if_pos h]
  rfl

theorem splitWhitespace_word {w s : Str} {c : Char} (hw : w ≠ [])
    (hn : ∀ d ∈ w, isWhitespace d = false) (hc : isWhitespace c = true) :
    splitWhitespace (w ++ c :: s) = w :: splitWhitespace s := by
  rw [splitWhitespace, List.splitOnP_append_cons_of_forall_mem hn c hc, List.filter_cons_of_pos]
  · rfl
  · simpa using hw

theorem splitWhitespace_of_no_blank {w : Str} (hw : w ≠ []) (hn : ∀ d ∈ w, isWhitespace d = false) :
    splitWhitespace w = [w] := by
  rw [splitWhitespace, List.splitOnP_eq_singleton hn, List.filter_cons_of_pos (by simpa using hw),
    List.filter_nil]

theorem splitWhitespace_append_cons {a b : Str} {c : Char} (hc : isWhitespace c = true) :
    splitWhitespace (a ++ c :: b) = splitWhitespace a ++ splitWhitespace b := by
  rw [splitWhitespace, List.splitOnP_append_cons a b hc, List.filter_append]
  rfl

theorem splitWhitespace_flatMap {ws : List Str} {c : Char} (s : Str) (hc : isWhitespace c = true)
    (h : ∀ w ∈ ws, w ≠ [] ∧ ∀ d ∈ w, isWhitespace d = false) :
    splitWhitespace (ws.flatMap (· ++ [c]) ++ s) = ws ++ splitWhitespace s := by
  induction ws with
  | nil => rfl
  | cons w ws ih =>
    obtain ⟨hw, hn⟩ := h w (List.mem_cons_self ..)
    rw [List.flatMap_cons, List.append_assoc, List.append_assoc, List.singleton_append,
      splitWhitespace_word hw hn hc, ih fun w' hw' => h w' (List.mem_cons_of_mem _ hw'),
      List.cons_append]

/-- The text after the last `c`. -/
def afterLast (c : Char) (s : Str) : Option Str :=
  if c ∈ s then some (s.reverse.takeWhile (· != c)).reverse else none

theorem afterLast_append {c : Char} {s t : Str} (h : c ∉ t) : afterLast c (s ++ c :: t) = some t := by
  have ht : ∀ d ∈ t.reverse, (d != c) = true := fun d hd => by
    simp only [bne_iff_ne]
    rintro rfl
    exact h (List.mem_reverse.mp hd)
  unfold afterLast
  rw [if_pos (by simp), List.reverse_append, List.reverse_cons, List.append_assoc,
    List.takeWhile_append_of_pos ht]
  simp

/-! ## A text edited in place -/

/-- `Vec::insert`; `none` is its panic. -/
def vecInsert (s : Str) (i : Nat) (c : Char) : Option Str :=
  if i ≤ s.length then some (s.insertIdx i c) else none

/-- `Vec::remove`; `none` is its panic. -/
def vecRemove (s : Str) (i : Nat) : Option Str :=
  if i < s.length then some (s.eraseIdx i) else none

theorem vecInsert_eq_none {s : Str} {i : Nat} {c : Char} : vecInsert s i c = none ↔ s.length < i := by
  simp [vecInsert]

theorem vecRemove_eq_none {s : Str} {i : Nat} : vecRemove s i = none ↔ s.length ≤ i := by
  simp [vecRemove]

/-- At a place in the text, or behind it, nothing panics. -/
theorem exists_vecInsert {s : Str} {i : Nat} (hi : i ≤ s.length) (c : Char) :
    ∃ t, vecInsert s i c = some t ∧ t.length = s.length + 1 :=
  ⟨_, if_pos hi, List.length_insertIdx_of_le_length hi ..⟩

/-- Where there is a character nothing panics. -/
theorem exists_vecRemove {s : Str} {i : Nat} (hi : i < s.length) :
    ∃ t, vecRemove s i = some t ∧ t.length = s.length - 1 :=
  ⟨_, if_pos hi, List.length_eraseIdx_of_lt hi⟩

end Rust
