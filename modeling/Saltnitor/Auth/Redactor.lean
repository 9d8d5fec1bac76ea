import Saltnitor.Lib.Rewrite
import Saltnitor.Rust.Text

/-!
# The redactor

`Redactor.redact` rewrites a log line three times: every configured secret, then
what follows a `bearer` word, then what follows `?token=`. Each pass puts the
marker in place of what it removes, and the marker is in brackets, so what one
pass removed no later pass brings back: `redact_redacted`, and a redacted line
is not changed again: `redact_of_redacted`. The secrets are replaced one after
the other, so one that lies inside another and comes first leaves the rest of
it: `replaceSecrets_whole`.
-/

namespace Saltnitor.Auth

open Rust Rewrite

/-! ## The code -/

def marker : Str := "<redacted>"

/-- `[A-Za-z0-9._~+/=-]` without regard to case: two more letters fold into `s` and `k`. -/
def tokenChar (c : Char) : Bool :=
  let n := c.toNat
  (0x41 ≤ n && n ≤ 0x5A) || (0x61 ≤ n && n ≤ 0x7A) || (0x30 ≤ n && n ≤ 0x39) || n == 0x2E ||
    n == 0x5F || n == 0x7E || n == 0x2B || n == 0x2F || n == 0x3D || n == 0x2D || n == 0x17F ||
    n == 0x212A

/-- The length of `(?i)bearer\s+` at the front. -/
def bearerHead (s : Str) : Option Nat :=
  if eqIgnoreAsciiCase (s.take 6) "bearer" ∧ (s.drop 6).takeWhile isWhitespace ≠ [] then
    some (6 + ((s.drop 6).takeWhile isWhitespace).length)
  else none

/-- The length of `[?&]token=` at the front. -/
def queryHead : Str → Option Nat
  | [] => none
  | c :: s => if (c = '?' ∨ c = '&') ∧ ("token=" : Str) <+: s then some 7 else none

/-- `[^&\s]` -/
def valueChar (c : Char) : Bool := c != '&' && !isWhitespace c

def bearerPattern : Finder Char := .headed bearerHead tokenChar

def queryPattern : Finder Char := .headed queryHead valueChar

/-- `bearer` and `query` are the two patterns, where they have been compiled. -/
structure Redactor where
  secrets : List {s : Str // s ≠ []}
  bearer : Option (Finder Char)
  query : Option (Finder Char)

def Redactor.default : Redactor := { secrets := [], bearer := none, query := none }

/-- The secrets that are not empty. -/
def nonEmpty (secrets : List Str) : List {s : Str // s ≠ []} :=
  secrets.filterMap fun s => if h : s ≠ [] then some ⟨s, h⟩ else none

def Redactor.new (secrets : List Str) : Redactor :=
  { secrets := nonEmpty secrets, bearer := some bearerPattern, query := some queryPattern }

/-- Replace the secrets, one after the other. -/
def replaceSecrets (secrets : List {s : Str // s ≠ []}) (line : Str) : Str :=
  secrets.foldl (fun out s => (Finder.literal s.1 s.2).rewrite marker out) line

/-- `Regex::replace_all` with the kept group and the marker. -/
def replacePattern (re : Option (Finder Char)) (line : Str) : Str :=
  match re with
  | some re => re.rewrite marker line
  | none => line

def Redactor.redact (r : Redactor) (line : Str) : Str :=
  replacePattern r.query (replacePattern r.bearer (replaceSecrets r.secrets line))

example : (Redactor.new ["s3cr3t"]).redact "Bearer  s3cr3t, bearer a.b&token=x y" =
    ("Bearer  <redacted>, bearer <redacted>&token=<redacted> y" : Str) := by decide +kernel

/-! ## What a redacted line does not have -/

/-- A secret that cannot be confused with the marker. -/
abbrev Plain (s : Str) : Prop := Avoids '<' '>' "redacted" s

/-- The secrets a redactor is given can be told from the marker. -/
def PlainSecrets (secrets : List Str) : Prop := ∀ s ∈ secrets, Plain s

theorem marker_eq : marker = bracket '<' '>' "redacted" := rfl

theorem mem_nonEmpty {secrets : List Str} {s : {s : Str // s ≠ []}} :
    s ∈ nonEmpty secrets ↔ s.1 ∈ secrets := by
  simp only [nonEmpty, List.mem_filterMap]
  constructor
  · rintro ⟨t, ht, he⟩
    split at he
    · cases he
      exact ht
    · cases he
  · exact fun h => ⟨s.1, h, by rw [dif_pos s.2]⟩

/-- A `bearer` word in any letter case, white space and a token character. -/
def BearerWord (w : Str) : Prop :=
  ∃ b ws c, w = b ++ ws ++ [c] ∧ eqIgnoreAsciiCase b "bearer" = true ∧ ws ≠ [] ∧
    (∀ x ∈ ws, isWhitespace x = true) ∧ tokenChar c = true

/-- No secret, no bearer token and no query token is in the line. -/
structure Redacted (secrets : List Str) (line : Str) : Prop where
  secret : ∀ s ∈ secrets, ¬ s <:+: line
  bearer : ∀ w, BearerWord w → ¬ w <:+: line
  query : ∀ p sep r, line = p ++ sep :: (("token=" : Str) ++ r) → sep = '?' ∨ sep = '&' →
    r.takeWhile valueChar = [] ∨ r.takeWhile valueChar = marker

/-! ## The passes -/

theorem tokenChar_not_whitespace {c : Char} (h : tokenChar c = true) : isWhitespace c = false := by
  rw [Bool.eq_false_iff]
  intro hw
  simp only [tokenChar, isWhitespace, Bool.or_eq_true, Bool.and_eq_true, decide_eq_true_eq,
    beq_iff_eq] at h hw
  omega

/-- A `bearer` word cannot be confused with the marker. -/
theorem BearerWord.avoids {w : Str} (h : BearerWord w) : Plain w := by
  obtain ⟨b, ws, c, rfl, hb, hne, hws, hc⟩ := h
  rw [eqIgnoreAsciiCase_iff] at hb
  have hletter {x : Char} (hx : x ∈ b) : x.toLower ∈ ("bearer" : Str) := by
    have : x.toLower ∈ toAsciiLowercase b := List.mem_map_of_mem hx
    rw [hb] at this
    exact this
  have hnot {x : Char} (hx : x.toLower ∉ ("bearer" : Str) ∧ isWhitespace x = false ∧
      tokenChar x = false) : x ∉ b ++ ws ++ [c] := by
    intro hm
    rw [List.append_assoc, List.mem_append, List.mem_append, List.mem_singleton] at hm
    rcases hm with hm | hm | rfl
    · exact hx.1 (hletter hm)
    · rw [hws x hm] at hx
      exact Bool.noConfusion hx.2.1
    · rw [hc] at hx
      exact Bool.noConfusion hx.2.2
  refine ⟨hnot (by decide), hnot (by decide), fun hin => ?_⟩
  -- the marker's word has no white space
  obtain ⟨x, ws, rfl⟩ := List.exists_cons_of_ne_nil hne
  have hx : x ∈ ("redacted" : Str) := hin.subset (by simp)
  have hall : ∀ y ∈ ("redacted" : Str), isWhitespace y = false := by decide
  have := hws x (List.mem_cons_self ..)
  rw [hall x hx] at this
  cases this

theorem bearerHead_eq_some {s : Str} {k : Nat} (h : bearerHead s = some k) :
    ∃ ws, s.take k = s.take 6 ++ ws ∧ ∀ x ∈ ws, isWhitespace x = true := by
  simp only [bearerHead, Option.ite_none_right_eq_some, Option.some.injEq] at h
  obtain ⟨-, rfl⟩ := h
  refine ⟨(s.drop 6).takeWhile isWhitespace, ?_, fun x hx => List.mem_takeWhile_imp hx⟩
  rw [List.take_add]
  congr 1
  exact (List.prefix_iff_eq_take.mp (List.takeWhile_prefix _)).symm

theorem BearerWord.hits {w t : Str} (h : BearerWord w) (ht : w <+: t) :
    bearerPattern.find t ≠ none := by
  obtain ⟨b, ws, c, rfl, hb, hne, hws, hc⟩ := h
  obtain ⟨q, rfl⟩ := ht
  have hlen : b.length = 6 := by
    have := congrArg List.length (eqIgnoreAsciiCase_iff.mp hb)
    simpa [toAsciiLowercase] using this
  have htake : (b ++ ws ++ [c] ++ q).take 6 = b := by
    rw [List.append_assoc, List.append_assoc, List.take_left' hlen]
  have hdrop : (b ++ ws ++ [c] ++ q).drop 6 = ws ++ c :: q := by
    rw [List.append_assoc, List.append_assoc, List.drop_left' hlen]
    simp
  have htw : (ws ++ c :: q).takeWhile isWhitespace = ws := by
    rw [List.takeWhile_append_of_pos hws,
      List.takeWhile_cons_of_neg (by simp [tokenChar_not_whitespace hc]), List.append_nil]
  have hhead : bearerHead (b ++ ws ++ [c] ++ q) = some (6 + ws.length) := by
    rw [bearerHead, htake, hdrop, htw, if_pos ⟨hb, hne⟩]
  intro hf
  have := headedFind_eq_none.mp hf _ hhead
  rw [← List.drop_drop, hdrop, List.drop_left, List.takeWhile_cons_of_pos hc] at this
  cases this

theorem BearerWord.not_kept {w t : Str} {k d : Nat} (h : BearerWord w)
    (hf : bearerPattern.find t = some (k, d)) : ¬ w <:+: t.take k := by
  obtain ⟨b, ws, c, rfl, hb, hne, hws, hc⟩ := h
  obtain ⟨ws', he, hws'⟩ := bearerHead_eq_some (headedFind_eq_some.mp hf).1
  rintro ⟨p, q, e⟩
  have hlen : b.length = 6 := by
    have := congrArg List.length (eqIgnoreAsciiCase_iff.mp hb)
    simpa [toAsciiLowercase] using this
  -- everything from the seventh character of the kept part on is white space
  have hmem : c ∈ (t.take k).drop 6 := by
    rw [← e, show p ++ (b ++ ws ++ [c]) ++ q = (p ++ b ++ ws) ++ ([c] ++ q) by simp,
      List.drop_append_of_le_length (by simp only [List.length_append]; omega)]
    simp
  rw [he, List.drop_append] at hmem
  rcases List.mem_append.mp hmem with hm | hm
  · rw [List.drop_eq_nil_of_le (List.length_take_le ..)] at hm
    cases hm
  · have := hws' c ((List.drop_suffix _ _).subset hm)
    rw [tokenChar_not_whitespace hc] at this
    cases this

theorem queryHead_eq_some {s : Str} {k : Nat} :
    queryHead s = some k ↔
      k = 7 ∧ ∃ c r, s = c :: (("token=" : Str) ++ r) ∧ (c = '?' ∨ c = '&') := by
  cases s with
  | nil => simp [queryHead]
  | cons c s =>
    simp only [queryHead, Option.ite_none_right_eq_some, Option.some.injEq, List.cons.injEq]
    constructor
    · rintro ⟨⟨hc, r, rfl⟩, rfl⟩
      exact ⟨rfl, c, r, ⟨rfl, rfl⟩, hc⟩
    · rintro ⟨rfl, _, r, ⟨rfl, rfl⟩, hc⟩
      exact ⟨⟨hc, List.prefix_append ..⟩, rfl⟩

theorem head?_rewrite_query (s : Str) : (queryPattern.rewrite marker s).head? = s.head? := by
  induction s using scan_induction queryPattern with
  | nil => rfl
  | step c s hf _ => rw [rewrite_cons hf, List.head?_cons, List.head?_cons]
  | found s k d hf _ =>
    obtain ⟨rfl, c, r, rfl, -⟩ := queryHead_eq_some.mp (headedFind_eq_some.mp hf).1
    rw [rewrite_match hf]
    rfl

theorem takeWhile_eq_nil_iff_head? {p : Char → Bool} {s : Str} :
    s.takeWhile p = [] ↔ ∀ c, s.head? = some c → p c = false := by
  cases s with
  | nil => simp
  | cons c s => cases hc : p c <;> simp [hc]

theorem takeWhile_rewrite_query {s : Str} (h : s.takeWhile valueChar = []) :
    (queryPattern.rewrite marker s).takeWhile valueChar = [] := by
  rw [takeWhile_eq_nil_iff_head?, head?_rewrite_query]
  exact takeWhile_eq_nil_iff_head?.mp h

theorem takeWhile_drop_takeWhile (p : Char → Bool) (s : Str) :
    (s.drop (s.takeWhile p).length).takeWhile p = [] := by
  have hdrop : s.drop (s.takeWhile p).length = s.dropWhile p := by
    conv_lhs => rw [← List.takeWhile_append_dropWhile (p := p) (l := s)]
    rw [List.drop_left' (by rw [List.takeWhile_append_dropWhile])]
  rw [hdrop, takeWhile_eq_nil_iff_head?]
  intro x hx
  have := List.head?_dropWhile_not p s
  rw [hx] at this
  simpa using this

/-- Inside the word no match begins. -/
theorem rewrite_token_append (r : Str) : queryPattern.rewrite marker (("token=" : Str) ++ r) =
    ("token=" : Str) ++ queryPattern.rewrite marker r := by
  refine rewrite_append fun u hu hne => headedFind_eq_none.mpr fun k hk => ?_
  obtain ⟨-, c, r', he, hc⟩ := queryHead_eq_some.mp hk
  obtain ⟨x, u, rfl⟩ := List.exists_cons_of_ne_nil hne
  obtain ⟨rfl, -⟩ := List.cons.inj he
  have hall : ∀ x ∈ ("token=" : Str), ¬ (x = '?' ∨ x = '&') := by decide
  exact absurd hc (hall _ (hu.subset (List.mem_cons_self ..)))

theorem behind_of_not_mem {t s p r : Str} {sep : Char} (ht : sep ∉ t)
    (h : t ++ s = p ++ sep :: r) : ∃ p', s = p' ++ sep :: r := by
  rw [List.append_eq_append_iff] at h
  obtain ⟨p', -, hp'⟩ | ⟨p', he, hp'⟩ := h
  · exact ⟨p', hp'⟩
  · cases p' with
    | nil => exact ⟨[], hp'.symm⟩
    | cons y p' =>
      obtain ⟨rfl, -⟩ := List.cons.inj hp'
      exact absurd (he ▸ List.mem_append_right p (List.mem_cons_self ..)) ht

theorem value_of_rewrite_query {s p r : Str} {sep : Char}
    (h : queryPattern.rewrite marker s = p ++ sep :: (("token=" : Str) ++ r))
    (hsep : sep = '?' ∨ sep = '&') :
    r.takeWhile valueChar = [] ∨ r.takeWhile valueChar = marker := by
  induction s using scan_induction queryPattern generalizing p with
  | nil => cases p <;> cases h
  | step c s hf ih =>
    rw [rewrite_cons hf] at h
    cases p with
    | cons x p => exact ih (List.cons.inj h).2
    | nil =>
      obtain ⟨rfl, hr⟩ := List.cons.inj h
      -- the word stood there before, with no value behind it
      have hkept : ("token=" : Str) <+: queryPattern.rewrite (bracket '<' '>' "redacted") s := by
        rw [← marker_eq, hr]
        exact List.prefix_append ..
      obtain ⟨r₀, rfl⟩ := prefix_of_rewrite (by decide) hkept
      have hv : r₀.takeWhile valueChar = [] :=
        headedFind_eq_none.mp hf 7 (queryHead_eq_some.mpr ⟨rfl, c, r₀, rfl, hsep⟩)
      rw [rewrite_token_append] at hr
      rw [← List.append_cancel_left hr]
      exact .inl (takeWhile_rewrite_query hv)
  | found s k d hf ih =>
    obtain ⟨hk, -, hd⟩ := headedFind_eq_some.mp hf
    obtain ⟨rfl, c, r₀, rfl, hc⟩ := queryHead_eq_some.mp hk
    have hrest : ((c :: (("token=" : Str) ++ r₀)).drop (7 + d)).takeWhile valueChar = [] := by
      rw [← List.drop_drop, ← hd]
      exact takeWhile_drop_takeWhile valueChar r₀
    rw [rewrite_match hf] at h
    have h' : c :: (("token=<redacted>" : Str) ++
        queryPattern.rewrite marker ((c :: (("token=" : Str) ++ r₀)).drop (7 + d))) =
        p ++ sep :: (("token=" : Str) ++ r) := h
    cases p with
    | nil =>
      right
      have hr : marker ++ queryPattern.rewrite marker
          ((c :: (("token=" : Str) ++ r₀)).drop (7 + d)) = r :=
        (List.append_right_inj ("token=" : Str)).mp (List.cons.inj h').2
      have hall : ∀ x ∈ marker, valueChar x = true := by decide
      rw [← hr, List.takeWhile_append_of_pos hall, takeWhile_rewrite_query hrest, List.append_nil]
    | cons x p =>
      have hall : ∀ x ∈ ("token=<redacted>" : Str), ¬ (x = '?' ∨ x = '&') := by decide
      obtain ⟨p', hp'⟩ := behind_of_not_mem (fun hm => hall sep hm hsep) (List.cons.inj h').2
      exact ih hp'

/-! ## A redacted line -/

theorem infix_of_replaceSecrets {secrets : List {s : Str // s ≠ []}} {line w : Str} (hw : Plain w)
    (h : w <:+: replaceSecrets secrets line) : w <:+: line := by
  induction secrets generalizing line with
  | nil => exact h
  | cons s secrets ih => exact infix_of_rewrite hw (ih h)

/-- No secret is left: the pass of each removes it, and no later pass brings it back. -/
theorem not_infix_replaceSecrets {secrets : List {s : Str // s ≠ []}} {line : Str}
    {s : {s : Str // s ≠ []}} (hs : s ∈ secrets) (hp : Plain s.1) :
    ¬ s.1 <:+: replaceSecrets secrets line := by
  induction secrets generalizing line with
  | nil => cases hs
  | cons t secrets ih =>
    rcases List.mem_cons.mp hs with rfl | hs
    · exact fun h => not_infix_literal hp (infix_of_replaceSecrets hp h)
    · exact ih hs

theorem infix_of_replacePattern {re : Option (Finder Char)} {line w : Str} (hw : Plain w)
    (h : w <:+: replacePattern re line) : w <:+: line := by
  cases re with
  | none => exact h
  | some re => exact infix_of_rewrite hw h

theorem redact_redacted {secrets : List Str} (h : PlainSecrets secrets) (line : Str) :
    Redacted secrets ((Redactor.new secrets).redact line) where
  secret s hs hin := by
    have hp := h s hs
    have hin := infix_of_replacePattern hp (infix_of_replacePattern hp hin)
    have hs : (⟨s, hp.ne_nil⟩ : {s : Str // s ≠ []}) ∈ nonEmpty secrets := mem_nonEmpty.mpr hs
    exact not_infix_replaceSecrets hs hp hin
  bearer w hw hin :=
    not_infix_rewrite hw.avoids (fun _ => hw.hits) (fun _ _ _ => hw.not_kept)
      (infix_of_replacePattern hw.avoids hin)
  query _ _ _ he hsep := value_of_rewrite_query he hsep

theorem replaceSecrets_eq_self {secrets : List {s : Str // s ≠ []}} {line : Str}
    (h : ∀ s ∈ secrets, ¬ s.1 <:+: line) : replaceSecrets secrets line = line := by
  induction secrets with
  | nil => rfl
  | cons s secrets ih =>
    have hs : (Finder.literal s.1 s.2).rewrite marker line = line :=
      literal_eq_self (h s (List.mem_cons_self ..))
    rw [replaceSecrets, List.foldl_cons, hs]
    exact ih fun t ht => h t (List.mem_cons_of_mem _ ht)

/-- A match of the bearer pattern begins with a `bearer` word. -/
theorem exists_bearerWord {t : Str} {k d : Nat} (h : bearerPattern.find t = some (k, d)) :
    ∃ w, BearerWord w ∧ w <+: t := by
  obtain ⟨hk, hne, -⟩ := headedFind_eq_some.mp h
  simp only [bearerHead, Option.ite_none_right_eq_some, Option.some.injEq] at hk
  obtain ⟨⟨hb, hws⟩, rfl⟩ := hk
  obtain ⟨c, hc, q, hq⟩ : ∃ c, tokenChar c = true ∧
      ∃ q, t.drop (6 + ((t.drop 6).takeWhile isWhitespace).length) = c :: q := by
    cases hd : t.drop (6 + ((t.drop 6).takeWhile isWhitespace).length) with
    | nil => rw [hd] at hne; exact absurd rfl hne
    | cons c q =>
      refine ⟨c, ?_, q, rfl⟩
      rw [hd] at hne
      by_contra hc
      exact hne (List.takeWhile_cons_of_neg hc)
  refine ⟨t.take 6 ++ (t.drop 6).takeWhile isWhitespace ++ [c],
    ⟨_, _, c, rfl, hb, hws, fun x hx => List.mem_takeWhile_imp hx, hc⟩, q, ?_⟩
  have hpre : t.take 6 ++ (t.drop 6).takeWhile isWhitespace =
      t.take (6 + ((t.drop 6).takeWhile isWhitespace).length) := by
    rw [List.take_add, ← List.prefix_iff_eq_take.mp (List.takeWhile_prefix _)]
  rw [hpre, List.append_assoc, List.singleton_append, ← hq, List.take_append_drop]

theorem redact_of_redacted {secrets : List Str} {line : Str} (h : Redacted secrets line) :
    (Redactor.new secrets).redact line = line := by
  have hsecrets : replaceSecrets (nonEmpty secrets) line = line :=
    replaceSecrets_eq_self fun s hs => h.secret s.1 (mem_nonEmpty.mp hs)
  have hbearer : bearerPattern.rewrite marker line = line := by
    refine rewrite_of_none fun t ht => ?_
    cases hf : bearerPattern.find t with
    | none => rfl
    | some m =>
      obtain ⟨w, hw, hwt⟩ := exists_bearerWord hf
      exact absurd (hwt.isInfix.trans ht.isInfix) (h.bearer w hw)
  have hquery : queryPattern.rewrite marker line = line := by
    refine rewrite_eq_self fun t k d ht hf => ?_
    obtain ⟨hk, hne, rfl⟩ := headedFind_eq_some.mp hf
    obtain ⟨rfl, c, r, rfl, hc⟩ := queryHead_eq_some.mp hk
    obtain ⟨p, rfl⟩ := ht
    have hr : ((c :: (("token=" : Str) ++ r)).drop 7) = r := rfl
    rw [hr] at hne ⊢
    rw [← List.prefix_iff_eq_take.mp (List.takeWhile_prefix _)]
    exact (h.query p c r rfl hc).resolve_left hne
  show queryPattern.rewrite marker (bearerPattern.rewrite marker
    (replaceSecrets (nonEmpty secrets) line)) = line
  rw [hsecrets, hbearer, hquery]

theorem redact_redact {secrets : List Str} (h : PlainSecrets secrets) (line : Str) :
    (Redactor.new secrets).redact ((Redactor.new secrets).redact line) =
      (Redactor.new secrets).redact line :=
  redact_of_redacted (redact_redacted h line)

/-! ## One secret inside another -/

/-- Every occurrence of a non-empty secret in `p ++ s ++ q` lies inside `s`. -/
def OnlyInside (secrets : List Str) (p s q : Str) : Prop :=
  ∀ u ∈ secrets, u ≠ [] → ∀ i < (p ++ s ++ q).length, u <+: (p ++ s ++ q).drop i →
    p.length ≤ i ∧ i + u.length ≤ p.length + s.length

instance (secrets : List Str) (p s q : Str) : Decidable (OnlyInside secrets p s q) :=
  inferInstanceAs (Decidable (∀ u ∈ secrets, _))

/-- The secret `s` is replaced as a whole and the rest of the line is kept. -/
def HidesWhole (secrets : List Str) (p s q : Str) : Prop :=
  replaceSecrets (Redactor.new secrets).secrets (p ++ s ++ q) = p ++ marker ++ q

instance (secrets : List Str) (p s q : Str) : Decidable (HidesWhole secrets p s q) :=
  inferInstanceAs (Decidable (_ = _))

/-- `s` is not empty, no secret before it lies inside it, and none after it occurs in the line
that is left. -/
def InOrder (secrets : List Str) (p s q : Str) : Prop :=
  ∃ before hs after, nonEmpty secrets = before ++ ⟨s, hs⟩ :: after ∧
    (∀ u ∈ before, ¬ u.1 <:+: s) ∧ ∀ u ∈ after, ¬ u.1 <:+: p ++ marker ++ q

section Inside

variable {secrets : List Str} {p s q : Str}

theorem OnlyInside.at (h : OnlyInside secrets p s q) {a u b : Str} (hu : u ∈ secrets)
    (hne : u ≠ []) (e : a ++ (u ++ b) = p ++ s ++ q) :
    p.length ≤ a.length ∧ a.length + u.length ≤ p.length + s.length := by
  have hpos := List.length_pos_iff.mpr hne
  refine h u hu hne a.length ?_ ?_
  · rw [← e]
    simp only [List.length_append]
    omega
  · rw [← e, List.drop_left]
    exact List.prefix_append ..

theorem OnlyInside.inside (h : OnlyInside secrets p s q) {u : Str} (hu : u ∈ secrets)
    (hne : u ≠ []) (hin : u <:+: p ++ s ++ q) : u <:+: s := by
  obtain ⟨a, b, e⟩ := hin
  rw [List.append_assoc] at e
  obtain ⟨hpa, hlen⟩ := h.at hu hne e
  obtain ⟨a', rfl⟩ : p <+: a :=
    List.prefix_of_prefix_length_le ⟨s ++ q, (List.append_assoc ..).symm⟩ ⟨u ++ b, e⟩ hpa
  have e' : a' ++ u ++ b = s ++ q := by
    simpa only [List.append_assoc, List.append_cancel_left_eq] using e
  have hle : (a' ++ u).length ≤ s.length := by
    simp only [List.length_append] at hlen ⊢
    omega
  obtain ⟨r, hr⟩ : a' ++ u <+: s := List.prefix_of_prefix_length_le ⟨b, e'⟩ ⟨q, rfl⟩ hle
  exact ⟨a', r, hr⟩

theorem replaceSecrets_append (us vs : List {s : Str // s ≠ []}) (line : Str) :
    replaceSecrets (us ++ vs) line = replaceSecrets vs (replaceSecrets us line) :=
  List.foldl_append ..

theorem OnlyInside.literal (h : OnlyInside secrets p s q) (hs : s ∈ secrets) (hne : s ≠ []) :
    (Finder.literal s hne).rewrite marker (p ++ s ++ q) = p ++ marker ++ q := by
  have hpos := List.length_pos_iff.mpr hne
  rw [List.append_assoc]
  refine literal_append (fun u hu hu0 => ?_) ?_
  · rintro ⟨b, e⟩
    obtain ⟨x, rfl⟩ := hu
    have := h.at (a := x) (b := b) hs hne (by rw [e]; simp)
    rw [List.length_append] at this
    exact hu0 (List.eq_nil_of_length_eq_zero (by omega))
  · rintro ⟨a, b, e⟩
    have := h.at (a := p ++ (s ++ a)) (b := b) hs hne (by rw [← e]; simp)
    simp only [List.length_append] at this
    omega

theorem InOrder.hidesWhole (h : OnlyInside secrets p s q) (ho : InOrder secrets p s q) :
    HidesWhole secrets p s q := by
  obtain ⟨before, hs, after, he, hb, ha⟩ := ho
  have hmem {u : {s : Str // s ≠ []}} (hu : u ∈ before ++ ⟨s, hs⟩ :: after) : u.1 ∈ secrets := by
    rw [← he] at hu
    exact mem_nonEmpty.mp hu
  have hbefore : replaceSecrets before (p ++ s ++ q) = p ++ s ++ q :=
    replaceSecrets_eq_self fun u hu hin =>
      hb u hu (h.inside (hmem (List.mem_append_left _ hu)) u.2 hin)
  have hs' : (Finder.literal s hs).rewrite marker (p ++ s ++ q) = p ++ marker ++ q :=
    h.literal (hmem (u := ⟨s, hs⟩) (by simp)) hs
  show replaceSecrets (nonEmpty secrets) (p ++ s ++ q) = p ++ marker ++ q
  rw [he, replaceSecrets_append, hbefore, replaceSecrets, List.foldl_cons, hs']
  exact replaceSecrets_eq_self ha

/-- How the passes change the number of `<`, with `n` matches in all. -/
theorem count_replaceSecrets {us : List {s : Str // s ≠ []}} (hu : ∀ u ∈ us, '<' ∉ u.1)
    (line : Str) : ∃ n, (replaceSecrets us line).count '<' = line.count '<' + n ∧
      (n = 0 → ∀ u ∈ us, ¬ u.1 <:+: line) := by
  induction us generalizing line with
  | nil => exact ⟨0, rfl, fun _ _ hu => nomatch hu⟩
  | cons u us ih =>
    obtain ⟨m, hm, -, hm0⟩ := literal_count marker line u.2 (hu u (List.mem_cons_self ..))
      (by decide)
    obtain ⟨n, hn, hn0⟩ := ih (fun v hv => hu v (List.mem_cons_of_mem _ hv))
      ((Finder.literal u.1 u.2).rewrite marker line)
    refine ⟨m + n, ?_, fun h0 v hv => ?_⟩
    · rw [replaceSecrets, List.foldl_cons]
      exact hn.trans (by rw [hm, Nat.add_assoc])
    · have hu0 := hm0 (by omega)
      rcases List.mem_cons.mp hv with rfl | hv
      · exact hu0
      · have := hn0 (by omega) v hv
        rwa [literal_eq_self hu0] at this

/-- If the line comes out right, one secret matched once, and that was `s`. -/
theorem inOrder_of_replaceSecrets {us : List {s : Str // s ≠ []}} (hu : ∀ u ∈ us, '<' ∉ u.1)
    (hs : '<' ∉ s) (hin : ∀ u ∈ us, u.1 <:+: p ++ s ++ q → u.1 <:+: s)
    (h : replaceSecrets us (p ++ s ++ q) = p ++ marker ++ q) :
    ∃ before hs after, us = before ++ ⟨s, hs⟩ :: after ∧ (∀ u ∈ before, ¬ u.1 <:+: s) ∧
      ∀ u ∈ after, ¬ u.1 <:+: p ++ marker ++ q := by
  have hcount : (p ++ marker ++ q).count '<' = (p ++ s ++ q).count '<' + 1 := by
    have hm : marker.count '<' = 1 := by decide
    simp only [List.count_append, hm, List.count_eq_zero.mpr hs]
    omega
  induction us with
  | nil =>
    have h' : p ++ s ++ q = p ++ marker ++ q := h
    rw [h'] at hcount
    omega
  | cons u us ih =>
    have hu' : ∀ v ∈ us, '<' ∉ v.1 := fun v hv => hu v (List.mem_cons_of_mem _ hv)
    by_cases hocc : u.1 <:+: p ++ s ++ q
    · obtain ⟨m, hm, hlen, hm0⟩ := literal_count marker (p ++ s ++ q) u.2
        (hu u (List.mem_cons_self ..)) (by decide)
      obtain ⟨n, hn, hn0⟩ := count_replaceSecrets hu'
        ((Finder.literal u.1 u.2).rewrite marker (p ++ s ++ q))
      have hrest : replaceSecrets us ((Finder.literal u.1 u.2).rewrite marker (p ++ s ++ q)) =
        p ++ marker ++ q := h
      have hm1 : m ≠ 0 := fun h0 => hm0 h0 hocc
      rw [hrest, hm, hcount] at hn
      obtain ⟨rfl, rfl⟩ : m = 1 ∧ n = 0 := by omega
      have hsame := replaceSecrets_eq_self (hn0 rfl)
      rw [hrest] at hsame
      -- equal lengths: the secret that matched is all of `s`
      have hus : u.1 = s := by
        refine (hin u (List.mem_cons_self ..) hocc).eq_of_length ?_
        rw [← hsame] at hlen
        simp only [List.length_append] at hlen
        omega
      obtain ⟨u, hune⟩ := u
      obtain rfl : u = s := hus
      refine ⟨[], hune, us, rfl, (fun _ hv => nomatch hv), ?_⟩
      rw [hsame]
      exact hn0 rfl
    · have h' : replaceSecrets us (p ++ s ++ q) = p ++ marker ++ q := by
        rw [replaceSecrets, List.foldl_cons, literal_eq_self hocc] at h
        exact h
      obtain ⟨before, hne, after, rfl, hb, ha⟩ := ih hu'
        (fun v hv => hin v (List.mem_cons_of_mem _ hv)) h'
      refine ⟨u :: before, hne, after, rfl, fun v hv => ?_, ha⟩
      rcases List.mem_cons.mp hv with rfl | hv
      · exact fun hvs => hocc (hvs.trans
          ((List.suffix_append p s).isInfix.trans (List.prefix_append ..).isInfix))
      · exact hb v hv

end Inside

/-- **A secret is replaced as a whole** when the secrets stand in the right order, and, unless a
secret contains the marker's bracket, only then. -/
theorem replaceSecrets_whole {secrets : List Str} {p s q : Str} (hs : s ∈ secrets)
    (h : OnlyInside secrets p s q) :
    (InOrder secrets p s q → HidesWhole secrets p s q) ∧
    ((∀ u ∈ secrets, '<' ∉ u) → (HidesWhole secrets p s q ↔ InOrder secrets p s q)) := by
  refine ⟨fun ho => ho.hidesWhole h, fun hu => ⟨fun hw => ?_, fun ho => ho.hidesWhole h⟩⟩
  exact inOrder_of_replaceSecrets (fun u hm => hu u.1 (mem_nonEmpty.mp hm)) (hu s hs)
    (fun u hm => h.inside (mem_nonEmpty.mp hm) u.2) hw

theorem inOrder_longer_first : InOrder ["abc", "ab"] "key=" "abc" "!" := by
  have hs : ("abc" : Str) ∈ (["abc", "ab"] : List Str) := by decide
  have hin : OnlyInside ["abc", "ab"] "key=" "abc" "!" := by decide +kernel
  have hw : HidesWhole ["abc", "ab"] "key=" "abc" "!" := by decide +kernel
  exact ((replaceSecrets_whole hs hin).2 (by decide)).mp hw

/-- The shorter secret first: the rest of the longer one stays. -/
theorem not_hidesWhole_shorter_first :
    ("abc" : Str) ∈ (["ab", "abc"] : List Str) ∧ OnlyInside ["ab", "abc"] "key=" "abc" "" ∧
      ¬ HidesWhole ["ab", "abc"] "key=" "abc" "" := by decide +kernel

end Saltnitor.Auth
