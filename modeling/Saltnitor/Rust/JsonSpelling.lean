import Saltnitor.Rust.JsonQuote
import Saltnitor.Rust.JsonTree

/-!
# Spellings

One value has many texts, since a string can be written in many ways. `Body b t` says that `b`
between quotes reads as `t`, and `Spelled x s r` is the grammar once more, with the strings of `x`
as the text has them (`spellsText_iff`). A pass over the text that leaves alone what is outside
the strings (`KeepsOutside`) is a pass over each of them (`SpelledText.map`). `Lexer` keeps of the grammar
only quotes and backslashes, and stops at what is no escape: a pass that breaks a string there
leaves no value (`SpelledText.of_value`).
-/

namespace Rust

/-! ## One string -/

/-- What can stand for a character between quotes. -/
def Glyph (u : Str) (c : Char) : Prop := UnitText u c []

/-- What can stand for a text between quotes. -/
inductive Body : Str → Str → Prop
  | nil : Body [] []
  | unit {u b t : Str} {c : Char} (h : Glyph u c) (hb : Body b t) : Body (u ++ b) (c :: t)

def unescapedFrom : Nat → Str → Str
  | 0, _ => []
  | fuel + 1, b =>
    match strUnit b with
    | none => []
    | some (c, b) => c :: unescapedFrom fuel b

/-- What stands between quotes, as it reads. -/
def unescaped (b : Str) : Str := unescapedFrom b.length b

/-- Every backslash begins an escape, and no quote or control character stands alone. -/
def WellSpelled (b : Str) : Prop := Body b (unescaped b)

variable {s s' r t b u v z : Str} {c : Char} {n : Nat}

theorem hexVal_ne {d : Char} (h : (hexVal c).isSome = true) (hd : hexVal d = none) : c ≠ d := by
  rintro rfl
  rw [hd] at h
  cases h

theorem hex4_eq_some (h : hex4 s = some (n, r)) :
    ∃ v, s = v ++ r ∧ (∀ c ∈ v, (hexVal c).isSome = true) ∧ ∀ z, hex4 (v ++ z) = some (n, z) := by
  match s, h with
  | a :: b :: c :: d :: s, h =>
    simp only [hex4, Option.bind_eq_bind, Option.bind_eq_some_iff, Option.some.injEq, Prod.mk.injEq] at h
    obtain ⟨va, ha, vb, hb, vc, hc, vd, hd, rfl, rfl⟩ := h
    refine ⟨[a, b, c, d], rfl, by simp [ha, hb, hc, hd], fun z => ?_⟩
    simp [hex4, ha, hb, hc, hd]

/-- A character is read from its own glyph, whatever follows. -/
theorem UnitText.split (h : UnitText s c s') : ∃ u, s = u ++ s' ∧ ∀ z, UnitText (u ++ z) c z := by
  cases h with
  | plain h => exact ⟨[c], rfl, fun z => .plain h⟩
  | @escape e _ _ h => exact ⟨['\\', e], rfl, fun z => .escape h⟩
  | unicode h hs =>
    obtain ⟨v, rfl, -, hv⟩ := hex4_eq_some h
    exact ⟨'\\' :: 'u' :: v, rfl, fun z => .unicode (hv z) hs⟩
  | pair h h' hs =>
    obtain ⟨v, rfl, -, hv⟩ := hex4_eq_some h
    obtain ⟨v', rfl, -, hv'⟩ := hex4_eq_some h'
    refine ⟨'\\' :: 'u' :: (v ++ '\\' :: 'u' :: v'), by simp, fun z => ?_⟩
    rw [List.cons_append, List.cons_append, List.append_assoc]
    exact .pair (hv _) (hv' z) hs

theorem Glyph.unitText (h : Glyph u c) (z : Str) : UnitText (u ++ z) c z := by
  obtain ⟨u', rfl, hu⟩ := UnitText.split h
  rw [List.append_nil]
  exact hu z

theorem UnitText.glyph (h : UnitText s c s') : ∃ u, s = u ++ s' ∧ Glyph u c := by
  obtain ⟨u, rfl, hu⟩ := h.split
  refine ⟨u, rfl, ?_⟩
  have := hu []
  rwa [List.append_nil] at this

theorem Glyph.ne_nil (h : Glyph u c) : u ≠ [] := by
  rintro rfl
  cases h

theorem strText_iff : StrText s t r ↔ ∃ b, s = b ++ '"' :: r ∧ Body b t := by
  constructor
  · intro h
    induction h with
    | close r => exact ⟨[], rfl, .nil⟩
    | unit h _ ih =>
      obtain ⟨b, rfl, hb⟩ := ih
      obtain ⟨u, rfl, hu⟩ := h.glyph
      exact ⟨u ++ b, by rw [List.append_assoc], .unit hu hb⟩
  · rintro ⟨b, rfl, hb⟩
    induction hb with
    | nil => exact .close r
    | unit h _ ih =>
      rw [List.append_assoc]
      exact .unit (h.unitText _) ih

theorem strText_append_iff : StrText (b ++ '"' :: r) t r ↔ Body b t := by
  rw [strText_iff]
  constructor
  · rintro ⟨b', he, hb⟩
    rwa [List.append_cancel_right he]
  · exact fun hb => ⟨b, rfl, hb⟩

theorem Body.unescaped (h : Body b t) : unescaped b = t := by
  have hfrom (fuel : Nat) (hle : b.length ≤ fuel) : unescapedFrom fuel b = t := by
    induction h generalizing fuel with
    | nil => cases fuel <;> rfl
    | @unit u b t c h _ ih =>
      have hpos := List.length_pos_iff.mpr h.ne_nil
      rw [List.length_append] at hle
      obtain ⟨fuel, rfl⟩ := Nat.exists_eq_add_of_le' (show 1 ≤ fuel by omega)
      rw [unescapedFrom, (h.unitText b).strUnit]
      exact congrArg _ (ih fuel (by omega))
  exact hfrom _ (Nat.le_refl _)

theorem Body.wellSpelled (h : Body b t) : WellSpelled b := by
  rw [WellSpelled, h.unescaped]
  exact h

theorem Body.unique {t' : Str} (h : Body b t) (h' : Body b t') : t = t' :=
  h.unescaped.symm.trans h'.unescaped

theorem Plain.body (h : Plain s) : Body s s := by
  induction s with
  | nil => exact .nil
  | cons c s ih =>
    obtain ⟨hc, hs⟩ := List.forall_mem_cons.mp h
    exact @Body.unit [c] s s c (.plain hc) (ih hs)

theorem Body.append {a : Str} (h : Body a s) (hb : Body b t) : Body (a ++ b) (s ++ t) := by
  induction h with
  | nil => exact hb
  | unit h _ ih =>
    rw [List.append_assoc]
    exact .unit h ih

/-! What begins with a glyph reads as its character and what the rest reads as. -/

theorem Body.of_glyph (hu : Glyph u c) (h : Body (u ++ b) t) : ∃ t', t = c :: t' ∧ Body b t' := by
  generalize hs : u ++ b = s at h
  cases h with
  | nil => exact absurd (List.append_eq_nil_iff.mp hs).1 hu.ne_nil
  | @unit u' b' t' c' hu' hb =>
    have h := (hu'.unitText b').strUnit
    rw [← hs, (hu.unitText b).strUnit] at h
    obtain ⟨rfl, rfl⟩ := Prod.mk.inj (Option.some.inj h)
    exact ⟨t', rfl, hb⟩

theorem Body.of_append {a : Str} (ha : Body a s) (h : Body (a ++ b) t) : ∃ t', t = s ++ t' ∧ Body b t' := by
  induction ha generalizing t with
  | nil => exact ⟨t, rfl, h⟩
  | unit hu _ ih =>
    rw [List.append_assoc] at h
    obtain ⟨t, rfl, ht⟩ := h.of_glyph hu
    obtain ⟨t', rfl, ht'⟩ := ih ht
    exact ⟨t', rfl, ht'⟩

/-- A slash ends its glyph, and may have a backslash before it. -/
theorem Glyph.slash (h : Glyph (v ++ '/' :: z) c) : z = [] ∧ c = '/' ∧ (v = [] ∨ v = ['\\']) := by
  have hhex {w : Str} (hw : ∀ c ∈ w, (hexVal c).isSome = true) : '/' ∉ w :=
    fun hm => hexVal_ne (hw _ hm) (by decide) rfl
  have hmem : '/' ∈ v ++ '/' :: z := List.mem_append_right _ (List.mem_cons_self ..)
  generalize hs : v ++ '/' :: z = u at h hmem
  cases h with
  | plain h =>
    rcases v with _ | ⟨a, v⟩
    · cases hs
      exact ⟨rfl, rfl, .inl rfl⟩
    · exact absurd (List.cons.inj hs).2 (by simp)
  | escape he =>
    rcases v with _ | ⟨a, _ | ⟨d, v⟩⟩
    · exact absurd (List.cons.inj hs).1 (by decide)
    · cases hs
      cases he
      exact ⟨rfl, rfl, .inr rfl⟩
    · exact absurd (List.cons.inj (List.cons.inj hs).2).2 (by simp)
  | unicode h hs' =>
    obtain ⟨v, rfl, hv, -⟩ := hex4_eq_some h
    simp [hhex hv] at hmem
  | pair h h' hs' =>
    obtain ⟨v, rfl, hv, -⟩ := hex4_eq_some h
    obtain ⟨v', rfl, hv', -⟩ := hex4_eq_some h'
    simp [hhex hv, hhex hv'] at hmem

/-- A text is cut behind a slash, and what it reads as too. -/
theorem Body.cut_slash {a : Str} (h : Body (a ++ '/' :: b) t) :
    ∃ s s', t = s ++ '/' :: s' ∧ Body (a ++ ['/']) (s ++ ['/']) ∧ Body b s' := by
  generalize hs : a ++ '/' :: b = d at h
  induction h generalizing a with
  | nil => cases a <;> cases hs
  | @unit u b' t c hu hb ih =>
    have hin {z : Str} (hz : u = a ++ '/' :: z) (hb' : b = z ++ b') :
        ∃ s s', c :: t = s ++ '/' :: s' ∧ Body (a ++ ['/']) (s ++ ['/']) ∧ Body b s' := by
      subst hz
      obtain ⟨rfl, rfl, -⟩ := hu.slash
      rw [List.nil_append] at hb'
      subst hb'
      have hbody := Body.unit hu .nil
      rw [List.append_nil] at hbody
      exact ⟨[], t, rfl, hbody, hb⟩
    obtain ⟨v, rfl, hv⟩ | ⟨v, rfl, hv⟩ := List.append_eq_append_iff.mp hs
    · cases v with
      | nil =>
        obtain ⟨s, s', rfl, hs', hb'⟩ := ih (a := []) hv
        rw [List.append_nil] at hu
        exact ⟨c :: s, s', rfl, .unit hu hs', hb'⟩
      | cons d v =>
        have hv := List.cons.inj hv
        exact hin (by rw [hv.1]) hv.2
    · obtain ⟨s, s', rfl, hs', hb'⟩ := ih hv.symm
      refine ⟨c :: s, s', rfl, ?_, hb'⟩
      rw [List.append_assoc]
      exact .unit hu hs'

/-! ## The whole text -/

namespace Node

/-- Every string and every name, mapped. -/
def mapStr (f : Str → Str) : Node → Node
  | value v => value (v.mapStr f)
  | elems vs => elems (vs.map (Json.mapStr f))
  | members ms => members (ms.map fun m => (f m.1, m.2.mapStr f))

/-- Every string and every name. -/
def strings : Node → List Str
  | value v => v.strings
  | elems vs => vs.flatMap Json.strings
  | members ms => ms.flatMap fun m => m.1 :: m.2.strings

theorem forall_strings_elems {P : Str → Prop} {v : Json} {vs : List Json} :
    (∀ b ∈ (elems (v :: vs)).strings, P b) ↔
      (∀ b ∈ v.strings, P b) ∧ ∀ b ∈ (elems vs).strings, P b :=
  List.forall_mem_append

theorem forall_strings_members {P : Str → Prop} {k : Str} {v : Json} {ms : List (Str × Json)} :
    (∀ b ∈ (members ((k, v) :: ms)).strings, P b) ↔
      P k ∧ (∀ b ∈ v.strings, P b) ∧ ∀ b ∈ (members ms).strings, P b := by
  rw [← List.forall_mem_append, ← List.forall_mem_cons]
  rfl

end Node

/-- The grammar of `Spells`, where a string is what stands between its quotes. -/
inductive Spelled : Node → Str → Str → Prop
  | null (r : Str) : Spelled (.value .null) ('n' :: 'u' :: 'l' :: 'l' :: r) r
  | yes (r : Str) : Spelled (.value (.bool true)) ('t' :: 'r' :: 'u' :: 'e' :: r) r
  | no (r : Str) : Spelled (.value (.bool false)) ('f' :: 'a' :: 'l' :: 's' :: 'e' :: r) r
  | num {s r : Str} {n : ℚ} (h : jsonNumber s = some n) (hr : ∀ c ∈ r.head?, isNumChar c = false) :
      Spelled (.value (.num n)) (s ++ r) r
  | str {b r : Str} (h : WellSpelled b) : Spelled (.value (.str b)) ('"' :: (b ++ '"' :: r)) r
  | arrNil {w r : Str} (hw : Blank w) : Spelled (.value (.arr [])) ('[' :: (w ++ ']' :: r)) r
  | arr {s r : Str} {xs : List Json} (h : Spelled (.elems xs) s r) :
      Spelled (.value (.arr xs)) ('[' :: s) r
  | objNil {w r : Str} (hw : Blank w) :
      Spelled (.value (.obj [])) ('{' :: (w ++ '}' :: r)) r
  | obj {s r : Str} {ms : List (Str × Json)} (h : Spelled (.members ms) s r) :
      Spelled (.value (.obj ms)) ('{' :: s) r
  | elem {w s w' r : Str} {x : Json} (hw : Blank w) (h : Spelled (.value x) s (w' ++ ']' :: r))
      (hw' : Blank w') : Spelled (.elems [x]) (w ++ s) r
  | elems {w s w' r r' : Str} {x : Json} {xs : List Json} (hw : Blank w)
      (h : Spelled (.value x) s (w' ++ ',' :: r)) (hw' : Blank w') (hs : Spelled (.elems xs) r r') :
      Spelled (.elems (x :: xs)) (w ++ s) r'
  | member {w b w₁ w₂ s w' r : Str} {x : Json} (hw : Blank w) (hb : WellSpelled b) (hw₁ : Blank w₁)
      (hw₂ : Blank w₂) (h : Spelled (.value x) s (w' ++ '}' :: r)) (hw' : Blank w') :
      Spelled (.members [(b, x)]) (w ++ '"' :: (b ++ '"' :: (w₁ ++ ':' :: (w₂ ++ s)))) r
  | members {w b w₁ w₂ s w' r r' : Str} {x : Json} {ms : List (Str × Json)} (hw : Blank w)
      (hb : WellSpelled b) (hw₁ : Blank w₁) (hw₂ : Blank w₂)
      (h : Spelled (.value x) s (w' ++ ',' :: r)) (hw' : Blank w') (hs : Spelled (.members ms) r r') :
      Spelled (.members ((b, x) :: ms)) (w ++ '"' :: (b ++ '"' :: (w₁ ++ ':' :: (w₂ ++ s)))) r'

/-- The whole text is `x`, with white space around it. -/
def SpelledText (s : Str) (x : Json) : Prop :=
  ∃ w t r, s = w ++ t ∧ Blank w ∧ Spelled (.value x) t r ∧ Blank r

theorem WellSpelled.strText (h : WellSpelled b) (r : Str) : StrText (b ++ '"' :: r) (unescaped b) r :=
  strText_iff.mpr ⟨b, rfl, h⟩

theorem StrText.wellSpelled (h : StrText s t r) :
    ∃ b, s = b ++ '"' :: r ∧ WellSpelled b ∧ t = unescaped b := by
  obtain ⟨b, rfl, hb⟩ := strText_iff.mp h
  exact ⟨b, rfl, hb.wellSpelled, hb.unescaped.symm⟩

theorem Spelled.spells {x : Node} (h : Spelled x s r) : Spells (x.mapStr unescaped) s r := by
  induction h with
  | null r => exact .null r
  | yes r => exact .yes r
  | no r => exact .no r
  | num h hr => exact .num h hr
  | str h => exact .str (h.strText _)
  | arrNil hw => exact .arrNil hw
  | arr _ ih =>
    simp only [Node.mapStr, Json.mapStr_arr]
    exact .arr ih
  | objNil hw => exact .objNil hw
  | obj _ ih =>
    simp only [Node.mapStr, Json.mapStr_obj]
    exact .obj ih
  | elem hw _ hw' ih => exact .elem hw ih hw'
  | elems hw _ hw' _ ih ih' => exact .elems hw ih hw' ih'
  | member hw hb hw₁ hw₂ _ hw' ih => exact .member hw (hb.strText _) hw₁ hw₂ ih hw'
  | members hw hb hw₁ hw₂ _ hw' _ ih ih' => exact .members hw (hb.strText _) hw₁ hw₂ ih hw' ih'

theorem Spells.spelled {x : Node} (h : Spells x s r) : ∃ y, x = y.mapStr unescaped ∧ Spelled y s r := by
  have hvalue {v : Json} {s r : Str} (h : ∃ y, .value v = Node.mapStr unescaped y ∧ Spelled y s r) :
      ∃ y, v = Json.mapStr unescaped y ∧ Spelled (.value y) s r := by
    obtain ⟨y | _ | _, he, hy⟩ := h
    · exact ⟨y, Node.value.inj he, hy⟩
    · cases he
    · cases he
  have helems {vs : List Json} {s r : Str} (h : ∃ y, .elems vs = Node.mapStr unescaped y ∧ Spelled y s r) :
      ∃ ys, vs = ys.map (Json.mapStr unescaped) ∧ Spelled (.elems ys) s r := by
    obtain ⟨_ | ys | _, he, hy⟩ := h
    · cases he
    · exact ⟨ys, Node.elems.inj he, hy⟩
    · cases he
  have hmembers {ms : List (Str × Json)} {s r : Str}
      (h : ∃ y, .members ms = Node.mapStr unescaped y ∧ Spelled y s r) :
      ∃ ys, ms = ys.map (fun m => (unescaped m.1, m.2.mapStr unescaped)) ∧ Spelled (.members ys) s r := by
    obtain ⟨_ | _ | ys, he, hy⟩ := h
    · cases he
    · cases he
    · exact ⟨ys, Node.members.inj he, hy⟩
  induction h with
  | null r => exact ⟨.value .null, rfl, .null r⟩
  | yes r => exact ⟨.value (.bool true), rfl, .yes r⟩
  | no r => exact ⟨.value (.bool false), rfl, .no r⟩
  | @num s r n h hr => exact ⟨.value (.num n), rfl, .num h hr⟩
  | str h =>
    obtain ⟨b, rfl, hb, rfl⟩ := h.wellSpelled
    exact ⟨.value (.str b), rfl, .str hb⟩
  | arrNil hw => exact ⟨.value (.arr []), rfl, .arrNil hw⟩
  | arr _ ih =>
    obtain ⟨ys, rfl, hys⟩ := helems ih
    exact ⟨.value (.arr ys), by simp only [Node.mapStr, Json.mapStr_arr], .arr hys⟩
  | objNil hw => exact ⟨.value (.obj []), rfl, .objNil hw⟩
  | obj _ ih =>
    obtain ⟨ys, rfl, hys⟩ := hmembers ih
    exact ⟨.value (.obj ys), by simp only [Node.mapStr, Json.mapStr_obj], .obj hys⟩
  | elem hw _ hw' ih =>
    obtain ⟨y, rfl, hy⟩ := hvalue ih
    exact ⟨.elems [y], rfl, .elem hw hy hw'⟩
  | elems hw _ hw' _ ih ih' =>
    obtain ⟨y, rfl, hy⟩ := hvalue ih
    obtain ⟨ys, rfl, hys⟩ := helems ih'
    exact ⟨.elems (y :: ys), rfl, .elems hw hy hw' hys⟩
  | member hw hk hw₁ hw₂ _ hw' ih =>
    obtain ⟨b, rfl, hb, rfl⟩ := hk.wellSpelled
    obtain ⟨y, rfl, hy⟩ := hvalue ih
    exact ⟨.members [(b, y)], rfl, .member hw hb hw₁ hw₂ hy hw'⟩
  | members hw hk hw₁ hw₂ _ hw' _ ih ih' =>
    obtain ⟨b, rfl, hb, rfl⟩ := hk.wellSpelled
    obtain ⟨y, rfl, hy⟩ := hvalue ih
    obtain ⟨ys, rfl, hys⟩ := hmembers ih'
    exact ⟨.members ((b, y) :: ys), rfl, .members hw hb hw₁ hw₂ hy hw' hys⟩

/-- A text of a value is a spelling that reads as it. -/
theorem spellsText_iff {v : Json} :
    SpellsText s v ↔ ∃ x, SpelledText s x ∧ v = x.mapStr unescaped := by
  constructor
  · rintro ⟨w, t, r, rfl, hw, h, hr⟩
    obtain ⟨x | _ | _, he, hx⟩ := h.spelled
    · exact ⟨x, ⟨w, t, r, rfl, hw, hx, hr⟩, Node.value.inj he⟩
    · cases he
    · cases he
  · rintro ⟨x, ⟨w, t, r, rfl, hw, h, hr⟩, rfl⟩
    exact ⟨w, t, r, rfl, hw, h.spells, hr⟩

/-! ## Quotes and backslashes -/

inductive Lexer where
  | outside
  | inside
  | escape
  deriving DecidableEq

def Lexer.step : Lexer → Char → Option Lexer
  | outside, c => some (if c = '"' then inside else outside)
  | inside, c => some (if c = '"' then outside else if c = '\\' then escape else inside)
  | escape, c => if c = 'u' ∨ (unescape c).isSome = true then some inside else none

def Lexer.run (l : Lexer) (s : Str) : Option Lexer := s.foldlM Lexer.step l

/-- Every quote is closed and every backslash in a string begins an escape. -/
def Lexer.Accepts (l : Lexer) (s : Str) : Prop := l.run s = some outside

@[simp] theorem Lexer.run_cons (l : Lexer) (c : Char) (s : Str) :
    l.run (c :: s) = (l.step c).bind fun l => l.run s := rfl

theorem Lexer.run_append (l : Lexer) (s t : Str) : l.run (s ++ t) = (l.run s).bind fun l => l.run t :=
  List.foldlM_append ..

theorem Lexer.run_plain (h : ∀ c ∈ u, c ≠ '"' ∧ c ≠ '\\') : inside.run u = some inside := by
  induction u with
  | nil => rfl
  | cons c u ih =>
    obtain ⟨⟨hq, hb⟩, hu⟩ := List.forall_mem_cons.mp h
    rw [run_cons, step, if_neg hq, if_neg hb, Option.bind_some, ih hu]

/-- Between quotes the lexer goes from glyph to glyph. -/
theorem Glyph.run (h : Glyph u c) : Lexer.inside.run u = some .inside := by
  have hhex {v : Str} (h : ∀ c ∈ v, (hexVal c).isSome = true) : Lexer.inside.run v = some .inside :=
    Lexer.run_plain fun c hc => ⟨hexVal_ne (h c hc) (by decide), hexVal_ne (h c hc) (by decide)⟩
  have hopen (s : Str) : Lexer.inside.run ('\\' :: 'u' :: s) = Lexer.inside.run s := rfl
  cases h with
  | plain h => exact Lexer.run_plain (List.forall_mem_singleton.mpr h.2)
  | @escape e c s h =>
    rw [Lexer.run_cons, Lexer.step, if_neg (by decide), if_pos rfl, Option.bind_some, Lexer.run_cons,
      Lexer.step, h, if_pos (.inr rfl)]
    rfl
  | unicode h hs =>
    obtain ⟨v, rfl, hv, -⟩ := hex4_eq_some h
    rw [hopen, List.append_nil, hhex hv]
  | pair h h' hs =>
    obtain ⟨v, rfl, hv, -⟩ := hex4_eq_some h
    obtain ⟨v', rfl, hv', -⟩ := hex4_eq_some h'
    rw [hopen, Lexer.run_append, hhex hv, Option.bind_some, hopen, List.append_nil, hhex hv']

theorem Body.run (h : Body b t) : Lexer.inside.run b = some .inside := by
  induction h with
  | nil => rfl
  | unit h _ ih => rw [Lexer.run_append, h.run, Option.bind_some, ih]

theorem Body.accepts (h : Body b t) (r : Str) :
    Lexer.inside.Accepts (b ++ '"' :: r) ↔ Lexer.outside.Accepts r := by
  rw [Lexer.Accepts, Lexer.run_append, h.run]
  rfl

theorem Lexer.accepts_outside {w : Str} (hw : ∀ c ∈ w, c ≠ '"') (s : Str) :
    outside.Accepts (w ++ s) ↔ outside.Accepts s := by
  induction w with
  | nil => rfl
  | cons c w ih =>
    obtain ⟨hc, hw⟩ := List.forall_mem_cons.mp hw
    rw [List.cons_append, Accepts, run_cons, step, if_neg hc, Option.bind_some]
    exact ih hw

theorem Lexer.accepts_blank {w : Str} (hw : Blank w) (s : Str) :
    outside.Accepts (w ++ s) ↔ outside.Accepts s :=
  accepts_outside (fun c hc => by rintro rfl; exact absurd (hw _ hc) (by decide)) s

/-! ## Passes over a text -/

/-- The characters a text has outside its strings. -/
def isOutside (c : Char) : Bool :=
  isBlank c || isNumChar c || c == '\x7b' || c == '\x7d' || "[],:nulltruefalse".toList.contains c

theorem Blank.isOutside {w : Str} (hw : Blank w) : ∀ c ∈ w, isOutside c = true :=
  fun c hc => by simp [Rust.isOutside, hw c hc]

/-- A pass over texts that works on each string and on nothing else. -/
structure KeepsOutside (F : Str → Str) : Prop where
  nil : F [] = []
  pass : ∀ c s, isOutside c = true → F (c :: s) = c :: F s
  quote : ∀ b s, F (b ++ '"' :: s) = F b ++ '"' :: F s
  number : ∀ s, (∀ c ∈ s.head?, isNumChar c = false) → ∀ c ∈ (F s).head?, isNumChar c = false

theorem keepsOutside_id : KeepsOutside id where
  nil := rfl
  pass _ _ _ := rfl
  quote _ _ := rfl
  number _ h := h

section Pass

variable {F : Str → Str} {P : Str → Prop} (hF : KeepsOutside F)

include hF

theorem KeepsOutside.append (w s : Str) (hw : ∀ c ∈ w, isOutside c = true) :
    F (w ++ s) = w ++ F s := by
  induction w with
  | nil => rfl
  | cons c w ih =>
    obtain ⟨hc, hw⟩ := List.forall_mem_cons.mp hw
    rw [List.cons_append, hF.pass c _ hc, ih hw, List.cons_append]

theorem KeepsOutside.blank {w : Str} (hw : Blank w) (s : Str) : F (w ++ s) = w ++ F s :=
  hF.append w s hw.isOutside

theorem KeepsOutside.string (b r : Str) : F ('"' :: (b ++ '"' :: r)) = '"' :: (F b ++ '"' :: F r) := by
  refine (hF.quote [] (b ++ '"' :: r)).trans ?_
  rw [hF.nil, hF.quote, List.nil_append]

theorem KeepsOutside.name {w w₁ w₂ : Str} (hw : Blank w) (hw₁ : Blank w₁) (hw₂ : Blank w₂) (b s : Str) :
    F (w ++ '"' :: (b ++ '"' :: (w₁ ++ ':' :: (w₂ ++ s)))) =
      w ++ '"' :: (F b ++ '"' :: (w₁ ++ ':' :: (w₂ ++ F s))) := by
  rw [hF.blank hw, hF.string, hF.blank hw₁, hF.pass ':' _ (by decide), hF.blank hw₂]

theorem KeepsOutside.close {w : Str} (hw : Blank w) (c : Char) (hc : isOutside c = true) (s : Str) :
    F (w ++ c :: s) = w ++ c :: F s := by
  rw [hF.blank hw, hF.pass c _ hc]

theorem Spelled.map {x : Node} (h : Spelled x s r) (hx : ∀ b ∈ x.strings, WellSpelled (F b)) :
    Spelled (x.mapStr F) (F s) (F r) := by
  induction h with
  | null r =>
    rw [show F ('n' :: 'u' :: 'l' :: 'l' :: r) = _ from hF.append "null".toList r (by decide)]
    exact .null _
  | yes r =>
    rw [show F ('t' :: 'r' :: 'u' :: 'e' :: r) = _ from hF.append "true".toList r (by decide)]
    exact .yes _
  | no r =>
    rw [show F ('f' :: 'a' :: 'l' :: 's' :: 'e' :: r) = _ from hF.append "false".toList r (by decide)]
    exact .no _
  | num h hr =>
    rw [hF.append _ _ fun c hc => by simp [isOutside, (jsonNumber_spec h).1 c hc]]
    exact .num h (hF.number _ hr)
  | str h =>
    rw [hF.string]
    exact .str (hx _ (List.mem_singleton_self _))
  | arrNil hw =>
    rw [hF.pass _ _ (by decide), hF.close hw _ (by decide)]
    exact .arrNil hw
  | arr _ ih =>
    simp only [Node.mapStr, Json.mapStr_arr, Node.strings, Json.strings_arr] at ih hx ⊢
    rw [hF.pass _ _ (by decide)]
    exact .arr (ih hx)
  | objNil hw =>
    rw [hF.pass _ _ (by decide), hF.close hw _ (by decide)]
    exact .objNil hw
  | obj _ ih =>
    simp only [Node.mapStr, Json.mapStr_obj, Node.strings, Json.strings_obj] at ih hx ⊢
    rw [hF.pass _ _ (by decide)]
    exact .obj (ih hx)
  | elem hw _ hw' ih =>
    have ih := ih (Node.forall_strings_elems.mp hx).1
    rw [hF.close hw' _ (by decide)] at ih
    rw [hF.blank hw]
    exact .elem hw ih hw'
  | elems hw _ hw' _ ih ih' =>
    obtain ⟨hv, hvs⟩ := Node.forall_strings_elems.mp hx
    have ih := ih hv
    rw [hF.close hw' _ (by decide)] at ih
    rw [hF.blank hw]
    exact .elems hw ih hw' (ih' hvs)
  | member hw hb hw₁ hw₂ _ hw' ih =>
    obtain ⟨hk, hv, -⟩ := Node.forall_strings_members.mp hx
    have ih := ih hv
    rw [hF.close hw' _ (by decide)] at ih
    rw [hF.name hw hw₁ hw₂]
    exact .member hw hk hw₁ hw₂ ih hw'
  | members hw hb hw₁ hw₂ _ hw' _ ih ih' =>
    obtain ⟨hk, hv, hms⟩ := Node.forall_strings_members.mp hx
    have ih := ih hv
    rw [hF.close hw' _ (by decide)] at ih
    rw [hF.name hw hw₁ hw₂]
    exact .members hw hk hw₁ hw₂ ih hw' (ih' hms)

/-- The strings of a spelling, rewritten, are a spelling of the rewritten text. -/
theorem SpelledText.map {x : Json} (h : SpelledText s x) (hx : ∀ b ∈ x.strings, WellSpelled (F b)) :
    SpelledText (F s) (x.mapStr F) := by
  obtain ⟨w, t, r, rfl, hw, h, hr⟩ := h
  refine ⟨w, F t, F r, hF.blank hw t, hw, h.map hF hx, ?_⟩
  have := hF.blank hr []
  rw [hF.nil, List.append_nil] at this
  rwa [this]

/-- Outside the strings the lexer goes past a node, and inside only where `P` holds. -/
theorem Spelled.accepts {P : Str → Prop} (hP : ∀ b s, WellSpelled b →
    (Lexer.inside.Accepts (F b ++ '"' :: s) ↔ P b ∧ Lexer.outside.Accepts s)) {x : Node}
    (h : Spelled x s r) : Lexer.outside.Accepts (F s) ↔
      (∀ b ∈ x.strings, P b) ∧ Lexer.outside.Accepts (F r) := by
  have hword (w s : Str) (ho : ∀ c ∈ w, isOutside c = true) :
      Lexer.outside.Accepts (F (w ++ s)) ↔ Lexer.outside.Accepts (F s) := by
    rw [hF.append w s ho, Lexer.accepts_outside]
    rintro c hc rfl
    exact absurd (ho _ hc) (by decide)
  have hskip {w : Str} (hw : Blank w) (s : Str) :
      Lexer.outside.Accepts (F (w ++ s)) ↔ Lexer.outside.Accepts (F s) :=
    hword w s hw.isOutside
  have hclose {w : Str} (hw : Blank w) (c : Char) (hc : isOutside c = true) (s : Str) :
      Lexer.outside.Accepts (F (w ++ c :: s)) ↔ Lexer.outside.Accepts (F s) :=
    (hskip hw _).trans (hword [c] s (List.forall_mem_singleton.mpr hc))
  have hstring {b : Str} (hb : WellSpelled b) (s : Str) :
      Lexer.outside.Accepts (F ('"' :: (b ++ '"' :: s))) ↔ P b ∧ Lexer.outside.Accepts (F s) := by
    rw [hF.string]
    exact hP b _ hb
  have hname {w w₁ w₂ b : Str} (hw : Blank w) (hb : WellSpelled b) (hw₁ : Blank w₁) (hw₂ : Blank w₂)
      (s : Str) : Lexer.outside.Accepts (F (w ++ '"' :: (b ++ '"' :: (w₁ ++ ':' :: (w₂ ++ s))))) ↔
        P b ∧ Lexer.outside.Accepts (F s) := by
    rw [hskip hw, hstring hb, hclose hw₁ ':' (by decide), hskip hw₂]
  have hnil (q : Prop) : q ↔ (∀ b ∈ ([] : List Str), P b) ∧ q :=
    (and_iff_right (List.forall_mem_nil _)).symm
  induction h with
  | null r => exact (hword "null".toList r (by decide)).trans (hnil _)
  | yes r => exact (hword "true".toList r (by decide)).trans (hnil _)
  | no r => exact (hword "false".toList r (by decide)).trans (hnil _)
  | num h hr =>
    exact (hword _ _ fun c hc => by simp [isOutside, (jsonNumber_spec h).1 c hc]).trans (hnil _)
  | @str b r h =>
    refine (hstring h r).trans (and_congr_left' ?_)
    rw [Node.strings, Json.strings_str, List.forall_mem_singleton]
  | @arrNil w r hw =>
    exact (hclose blank_nil '[' (by decide) _).trans ((hclose hw ']' (by decide) r).trans (hnil _))
  | @arr s r xs _ ih =>
    refine (hclose blank_nil '[' (by decide) s).trans (ih.trans ?_)
    rw [Node.strings, Node.strings, Json.strings_arr]
  | @objNil w r hw =>
    exact (hclose blank_nil '\x7b' (by decide) _).trans
      ((hclose hw '\x7d' (by decide) r).trans (hnil _))
  | @obj s r ms _ ih =>
    refine (hclose blank_nil '\x7b' (by decide) s).trans (ih.trans ?_)
    rw [Node.strings, Node.strings, Json.strings_obj]
  | elem hw _ hw' ih =>
    refine (hskip hw _).trans (ih.trans ?_)
    rw [hclose hw' _ (by decide), Node.forall_strings_elems, and_assoc]
    exact and_congr_right' (hnil _)
  | elems hw _ hw' _ ih ih' =>
    refine (hskip hw _).trans (ih.trans ?_)
    rw [hclose hw' _ (by decide), Node.forall_strings_elems, and_assoc]
    exact and_congr_right' ih'
  | member hw hb hw₁ hw₂ _ hw' ih =>
    refine (hname hw hb hw₁ hw₂ _).trans ((and_congr_right' ih).trans ?_)
    rw [hclose hw' _ (by decide), Node.forall_strings_members, and_assoc, and_assoc]
    exact and_congr_right' (and_congr_right' (hnil _))
  | members hw hb hw₁ hw₂ _ hw' _ ih ih' =>
    refine (hname hw hb hw₁ hw₂ _).trans ((and_congr_right' ih).trans ?_)
    rw [hclose hw' _ (by decide), Node.forall_strings_members, and_assoc, and_assoc]
    exact and_congr_right' (and_congr_right' ih')

omit hF in
theorem SpellsText.accepts {v : Json} (h : SpellsText s v) : Lexer.outside.Accepts s := by
  obtain ⟨x, ⟨w, t, r, rfl, hw, hx, hr⟩, -⟩ := spellsText_iff.mp h
  have hend : Lexer.outside.Accepts r := by
    have := (Lexer.accepts_blank hr []).mpr rfl
    rwa [List.append_nil] at this
  exact (Lexer.accepts_blank hw t).mpr ((hx.accepts keepsOutside_id
    fun b s hb => (hb.accepts s).trans (iff_and_self.mpr fun _ => trivial)).mpr ⟨fun _ _ => trivial, hend⟩)

/-- A pass that breaks a string, where the lexer sees it, leaves a text without a value. -/
theorem SpelledText.of_value {x v : Json} (h : SpelledText s x) (hv : SpellsText (F s) v)
    (hlex : ∀ b, WellSpelled b → Lexer.inside.run (F b) ≠ none → WellSpelled (F b)) :
    ∀ b ∈ x.strings, WellSpelled (F b) := by
  have hstring (b s : Str) (hb : WellSpelled b) :
      Lexer.inside.Accepts (F b ++ '"' :: s) ↔ WellSpelled (F b) ∧ Lexer.outside.Accepts s := by
    constructor
    · intro h
      have hw : WellSpelled (F b) := by
        refine hlex b hb fun hnone => ?_
        rw [Lexer.Accepts, Lexer.run_append, hnone] at h
        cases h
      exact ⟨hw, (hw.accepts s).mp h⟩
    · rintro ⟨hw, h⟩
      exact (hw.accepts s).mpr h
  obtain ⟨w, t, r, rfl, hw, hx, -⟩ := h
  have ha := hv.accepts
  rw [hF.blank hw, Lexer.accepts_blank hw, hx.accepts hF hstring] at ha
  exact ha.1

omit hF in
theorem SpelledText.wellSpelled {x : Json} (h : SpelledText s x) : ∀ b ∈ x.strings, WellSpelled b :=
  h.of_value keepsOutside_id (spellsText_iff.mpr ⟨x, h, rfl⟩) fun _ hb _ => hb

end Pass

end Rust
