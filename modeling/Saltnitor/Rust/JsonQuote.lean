import Mathlib.Data.List.Infix
import Saltnitor.Rust.JsonText

/-!
# Text between quotes

A text put between the quotes of a JSON string as it is reads back only if it is `Plain`
(`Plain.of_strText`): a quote of its own ends the string, a last backslash runs on into the text
behind it, and every other escape is shorter than what it stands for. `quote` reads back for
every text (`strText_quote`). `Json.Same` compares objects whatever the order of their members.
-/

namespace Rust

/-- No quote, no backslash, no control character. -/
def Plain (s : Str) : Prop := ∀ c ∈ s, 32 ≤ c.toNat ∧ c ≠ '"' ∧ c ≠ '\\'

instance (s : Str) : Decidable (Plain s) := inferInstanceAs (Decidable (∀ c ∈ s, _))

/-! ## Reading back -/

theorem Plain.strText {s : Str} (h : Plain s) (r : Str) : StrText (s ++ '"' :: r) s r := by
  induction s with
  | nil => exact .close r
  | cons c s ih =>
    obtain ⟨hc, hs⟩ := List.forall_mem_cons.mp h
    exact .unit (.plain hc) (ih hs)

theorem StrText.unique {s t t' r r' : Str} (h : StrText s t r) (h' : StrText s t' r') :
    t = t' ∧ r = r' := by
  obtain ⟨n, hn⟩ := h.parseString
  obtain ⟨n', hn'⟩ := h'.parseString
  have := (hn (n + n') (by omega)).symm.trans (hn' (n + n') (by omega))
  simpa using this

theorem hexVal_digitChar : ∀ n < 16, hexVal (Nat.digitChar n) = some n := by decide

theorem unitText_escapeChar (c : Char) (s : Str) : UnitText (escapeChar c ++ s) c s := by
  unfold escapeChar
  split_ifs with h₁ h₂ h₃ h₄ h₅ h₆ h₇ h₈
  · subst h₁
    exact .escape rfl
  · subst h₂
    exact .escape rfl
  · subst h₃
    exact .escape rfl
  · subst h₄
    exact .escape rfl
  · subst h₅
    exact .escape rfl
  · rw [← Char.ofNat_toNat c, h₆]
    exact .escape rfl
  · rw [← Char.ofNat_toNat c, h₇]
    exact .escape rfl
  · have hhex : hex4 ('0' :: '0' :: Nat.digitChar (c.toNat / 16) :: Nat.digitChar (c.toNat % 16) :: s) =
        some (c.toNat, s) := by
      simp only [hex4, hexVal_digitChar _ (show c.toNat / 16 < 16 by omega),
        hexVal_digitChar _ (show c.toNat % 16 < 16 by omega), show hexVal '0' = some 0 from rfl]
      simp
      omega
    have hu := UnitText.unicode hhex
      ⟨by simp [isHigh]; omega, by simp [isLow]; omega⟩
    rwa [Char.ofNat_toNat] at hu
  · exact .plain ⟨by omega, h₁, h₂⟩

theorem strText_quote (s r : Str) : StrText (s.flatMap escapeChar ++ '"' :: r) s r := by
  induction s with
  | nil => exact .close r
  | cons c s ih =>
    rw [List.flatMap_cons, List.append_assoc]
    exact .unit (unitText_escapeChar c _) ih

/-! ## Reading across the closing quote -/

theorem hex4_cross {u y r : Str} {n : Nat} (h : hex4 (u ++ '"' :: y) = some (n, r)) :
    ∃ u', r = u' ++ '"' :: y ∧ u' <:+ u ∧ u'.length + 4 ≤ u.length := by
  have hquote : hexVal '"' = none := by decide
  match u, h with
  | [], h =>
    rcases y with _ | ⟨b, _ | ⟨c, _ | ⟨d, y⟩⟩⟩ <;> simp [hex4, hquote] at h
  | [a], h =>
    rcases y with _ | ⟨c, _ | ⟨d, y⟩⟩ <;> simp [hex4, hquote] at h
  | [a, b], h =>
    rcases y with _ | ⟨d, y⟩ <;> simp [hex4, hquote] at h
  | [a, b, c], h => simp [hex4, hquote] at h
  | a :: b :: c :: d :: u, h =>
    refine ⟨u, ?_, ⟨[a, b, c, d], rfl⟩, by simp⟩
    simp only [hex4, List.cons_append, Option.bind_eq_bind, Option.bind_eq_some_iff] at h
    obtain ⟨_, _, _, _, _, _, _, _, h⟩ := h
    exact (Prod.mk.inj (Option.some.inj h)).2.symm

/-- A character read from `u`, which a quote follows: a last backslash takes that quote. -/
theorem UnitText.cross {u y s' : Str} {c : Char} (h : UnitText (u ++ '"' :: y) c s') :
    (u = ['\\'] ∧ s' = y) ∨ ∃ u', s' = u' ++ '"' :: y ∧ u' <:+ u ∧
      ((u = c :: u' ∧ 32 ≤ c.toNat ∧ c ≠ '"' ∧ c ≠ '\\') ∨ u'.length + 2 ≤ u.length) := by
  generalize hs : u ++ '"' :: y = s at h
  cases h with
  | plain hc =>
    cases u with
    | nil => exact absurd (List.cons.inj hs).1.symm hc.2.1
    | cons a u =>
      obtain ⟨rfl, rfl⟩ := List.cons.inj hs
      exact .inr ⟨u, rfl, List.suffix_cons .., .inl ⟨rfl, hc⟩⟩
  | escape he =>
    rcases u with _ | ⟨a, _ | ⟨b, u⟩⟩
    · cases hs
    · cases hs
      exact .inl ⟨rfl, rfl⟩
    · cases hs
      exact .inr ⟨u, rfl, ⟨['\\', _], rfl⟩, .inr (by simp)⟩
  | unicode hx =>
    rcases u with _ | ⟨a, _ | ⟨b, u⟩⟩
    · cases hs
    · cases hs
    · cases hs
      obtain ⟨u', hr, hsuf, hlen⟩ := hex4_cross hx
      refine .inr ⟨u', hr, hsuf.trans ⟨['\\', 'u'], rfl⟩, .inr ?_⟩
      simp only [List.length_cons]
      omega
  | pair hx hx' =>
    rcases u with _ | ⟨a, _ | ⟨b, u⟩⟩
    · cases hs
    · cases hs
    · cases hs
      obtain ⟨u', hr, hsuf, hlen⟩ := hex4_cross hx
      rcases u' with _ | ⟨a, _ | ⟨b, u'⟩⟩
      · cases hr
      · cases hr
      · cases hr
        obtain ⟨u'', hr', hsuf', hlen'⟩ := hex4_cross hx'
        have htail : u' <:+ u := (show u' <:+ '\\' :: 'u' :: u' from ⟨['\\', 'u'], rfl⟩).trans hsuf
        refine .inr ⟨u'', hr', (hsuf'.trans htail).trans ⟨['\\', 'u'], rfl⟩, .inr ?_⟩
        simp only [List.length_cons] at hlen ⊢
        omega

/-- A string read from `u`, then a quote and `p` up to the next quote: the string is `u`, or it is
shorter than `u`, or a last backslash made it run on through `p`. -/
theorem StrText.cross {u p z t r : Str} (hp : Plain p) (h : StrText (u ++ '"' :: (p ++ '"' :: z)) t r) :
    (Plain u ∧ t = u) ∨ t.length < u.length ∨ (p <:+ t ∧ ['\\'] <:+ u) := by
  generalize hs : u ++ '"' :: (p ++ '"' :: z) = s at h
  induction h generalizing u with
  | close r =>
    cases u with
    | nil => exact .inl ⟨List.forall_mem_nil _, rfl⟩
    | cons a u => exact .inr (.inl (Nat.succ_pos _))
  | @unit s s' t r c hu ht ih =>
    subst hs
    rcases hu.cross with ⟨rfl, rfl⟩ | ⟨u', rfl, hsuf, hu'⟩
    · obtain ⟨rfl, -⟩ := ht.unique (hp.strText z)
      exact .inr (.inr ⟨List.suffix_cons .., List.suffix_refl _⟩)
    · rcases ih rfl with ⟨hplain, rfl⟩ | hlt | ⟨hpt, hlast⟩
      · rcases hu' with ⟨rfl, hc⟩ | hlen
        · exact .inl ⟨List.forall_mem_cons.mpr ⟨hc, hplain⟩, rfl⟩
        · exact .inr (.inl (by simp only [List.length_cons]; omega))
      · refine .inr (.inl ?_)
        have hu : u'.length < u.length := by
          rcases hu' with ⟨rfl, -⟩ | hlen
          · exact Nat.lt_succ_self _
          · omega
        simp only [List.length_cons]
        omega
      · exact .inr (.inr ⟨hpt.trans (List.suffix_cons ..), hlast.trans hsuf⟩)

theorem Plain.of_strText {s p z r : Str} (hp : Plain p) (hne : p ≠ [])
    (h : StrText (s ++ '"' :: (p ++ '"' :: z)) s r) : Plain s := by
  rcases h.cross hp with ⟨hs, -⟩ | hlt | ⟨hps, hlast⟩
  · exact hs
  · exact absurd hlt (Nat.lt_irrefl _)
  · have hmem : ['\\'] <:+ p :=
      List.suffix_of_suffix_length_le hlast hps (List.length_pos_iff.mpr hne)
    exact absurd rfl (hp '\\' (hmem.subset (List.mem_singleton_self _))).2.2

/-! ## Equal values -/

namespace Json

/-- Equal up to the order of members that have different names. -/
inductive Same : Json → Json → Prop
  | refl (v : Json) : Same v v
  | trans {u v w : Json} (h : Same u v) (h' : Same v w) : Same u w
  | item {xs ys : List Json} {v w : Json} (h : Same v w) :
      Same (.arr (xs ++ v :: ys)) (.arr (xs ++ w :: ys))
  | member {ms ns : List (Str × Json)} {k : Str} {v w : Json} (h : Same v w) :
      Same (.obj (ms ++ (k, v) :: ns)) (.obj (ms ++ (k, w) :: ns))
  | order {ms ns : List (Str × Json)} (h : ms.Perm ns) (hd : (ms.map Prod.fst).Nodup) :
      Same (.obj ms) (.obj ns)

theorem Same.eq_str {v w : Json} (h : Same v w) (t : Str) : v = str t ↔ w = str t := by
  induction h with
  | refl v => exact Iff.rfl
  | trans _ _ ih ih' => exact ih.trans ih'
  | item | member | order => exact ⟨fun h => (by cases h), fun h => (by cases h)⟩

theorem Same.mem_members {v w : Json} (h : Same v w) (k t : Str) :
    (k, str t) ∈ v.members ↔ (k, str t) ∈ w.members := by
  induction h with
  | refl v => exact Iff.rfl
  | trans _ _ ih ih' => exact ih.trans ih'
  | item => exact Iff.rfl
  | @member ms ns k' v w h =>
    have hpair : (k, str t) = (k', v) ↔ (k, str t) = (k', w) := by
      rw [Prod.mk.injEq, Prod.mk.injEq, eq_comm (a := str t), eq_comm (a := str t), h.eq_str t]
    simp only [members, List.mem_append, List.mem_cons, hpair]
  | order h => exact h.mem_iff

end Json

/-! ## Objects as they are written -/

variable {v : Json} {s s' r r' t k p key : Str} {ms : List (Str × Json)}

theorem blank_nil : Blank [] := List.forall_mem_nil _

theorem blank_space : Blank [' '] := List.forall_mem_singleton.mpr rfl

theorem Plain.spells (h : Plain t) (r : Str) : Spells (.value (.str t)) ('"' :: (t ++ '"' :: r)) r :=
  .str (h.strText r)

theorem Spells.item (h : Spells (.value v) s (']' :: r)) : Spells (.value (.arr [v])) ('[' :: s) r :=
  .arr (@Spells.elem [] s [] r v blank_nil h blank_nil)

theorem Spells.last (hk : Plain key) (hp : Blank p) (h : Spells (.value v) s ('\x7d' :: r)) :
    Spells (.members [(key, v)]) ('"' :: (key ++ '"' :: ':' :: (p ++ s))) r :=
  @Spells.member [] _ [] p s [] r key v blank_nil (hk.strText _)
    blank_nil hp h blank_nil

theorem Spells.next (hk : Plain key) (hp : Blank p) (h : Spells (.value v) s (',' :: s'))
    (hs : Spells (.members ms) s' r) :
    Spells (.members ((key, v) :: ms)) ('"' :: (key ++ '"' :: ':' :: (p ++ s))) r :=
  @Spells.members [] _ [] p s [] s' r key v ms blank_nil (hk.strText _)
    blank_nil hp h blank_nil hs

theorem Spells.pad (hp : Blank p) (h : Spells (.members ms) s r) :
    Spells (.members ms) (p ++ s) r := by
  cases h with
  | @member w k w₁ w₂ s w' r key v hw hk hw₁ hw₂ h hw' =>
    rw [← List.append_assoc]
    exact .member (List.forall_mem_append.mpr ⟨hp, hw⟩) hk hw₁ hw₂ h hw'
  | @members w k w₁ w₂ s w' r r' key v ms hw hk hw₁ hw₂ h hw' hs =>
    rw [← List.append_assoc]
    exact .members (List.forall_mem_append.mpr ⟨hp, hw⟩) hk hw₁ hw₂ h hw' hs

theorem Blank.cancel {w w' : Str} {c d : Char} (hw : Blank w) (hw' : Blank w')
    (hc : isBlank c = false) (hd : isBlank d = false) (h : w ++ c :: s = w' ++ d :: s') :
    c = d ∧ s = s' := by
  have := congrArg skipBlanks h
  rw [skipBlanks_append hw, skipBlanks_append hw', skipBlanks_cons hc, skipBlanks_cons hd] at this
  exact List.cons.inj this

theorem Spells.of_quote (h : Spells (.value v) ('"' :: s) r) : ∃ t, v = .str t ∧ StrText s t r := by
  generalize hs : '"' :: s = s' at h
  cases h with
  | num hn => exact absurd hs (jsonNumber_ne hn (by decide) (by decide))
  | str h =>
    cases hs
    exact ⟨_, rfl, h⟩
  | _ => cases hs

/-- The first member of an object whose text begins with a name and a string. -/
theorem Spells.first (hk : Plain key) (hp : Blank p)
    (h : Spells (.members ms) ('"' :: (key ++ '"' :: ':' :: (p ++ '"' :: s))) r) :
    ∃ t ms' r', ms = (key, .str t) :: ms' ∧ StrText s t r' := by
  have hparts {w k w₁ w₂ s₁ r₁ key' : Str} {v : Json} (hw : Blank w) (hw₁ : Blank w₁) (hw₂ : Blank w₂)
      (hk' : StrText k key' (w₁ ++ ':' :: (w₂ ++ s₁))) (hv : Spells (.value v) s₁ r₁)
      (hs : '"' :: (key ++ '"' :: ':' :: (p ++ '"' :: s)) = w ++ '"' :: k) :
      key' = key ∧ ∃ t, v = .str t ∧ StrText s t r₁ := by
    obtain ⟨-, rfl⟩ := Blank.cancel blank_nil hw (by decide) (by decide) hs
    obtain ⟨rfl, hrest⟩ := hk'.unique (hk.strText _)
    obtain ⟨-, hrest⟩ := Blank.cancel hw₁ blank_nil (by decide) (by decide) hrest
    obtain ⟨c, s₂, rfl, hc, -⟩ := hv.head
    obtain ⟨rfl, rfl⟩ := Blank.cancel hw₂ hp hc (by decide) hrest
    exact ⟨rfl, hv.of_quote⟩
  generalize hs : '"' :: (key ++ '"' :: ':' :: (p ++ '"' :: s)) = s' at h
  cases h with
  | member hw hk' hw₁ hw₂ hv hw' =>
    obtain ⟨rfl, t, rfl, ht⟩ := hparts hw hw₁ hw₂ hk' hv hs
    exact ⟨t, _, _, rfl, ht⟩
  | members hw hk' hw₁ hw₂ hv hw' _ =>
    obtain ⟨rfl, t, rfl, ht⟩ := hparts hw hw₁ hw₂ hk' hv hs
    exact ⟨t, _, _, rfl, ht⟩

theorem SpellsText.of_brace (h : SpellsText ('\x7b' :: s) v) :
    (∃ ms r, v = .obj ms ∧ Spells (.members ms) s r) ∨ ∃ w r, Blank w ∧ s = w ++ '\x7d' :: r := by
  obtain ⟨w, t, r, hs, hw, ht, -⟩ := h
  obtain ⟨c, t', rfl, hc, -⟩ := ht.head
  obtain ⟨rfl, rfl⟩ := Blank.cancel blank_nil hw (by decide) hc hs
  generalize ht' : '\x7b' :: s = s' at ht
  cases ht with
  | num hn => exact absurd ht' (jsonNumber_ne hn (by decide) (by decide))
  | objNil hw =>
    cases ht'
    exact .inr ⟨_, _, hw, rfl⟩
  | obj h =>
    cases ht'
    exact .inl ⟨_, _, rfl, h⟩
  | _ => cases ht'

/-- An object text that begins with a name and a string has that member. -/
theorem SpellsText.first (hk : Plain key) (hp : Blank p)
    (h : SpellsText ('\x7b' :: '"' :: (key ++ '"' :: ':' :: (p ++ '"' :: s))) v) :
    ∃ t r, (key, .str t) ∈ v.members ∧ StrText s t r := by
  rcases h.of_brace with ⟨ms, r, rfl, hms⟩ | ⟨w, r, hw, hs⟩
  · obtain ⟨t, ms', r', rfl, ht⟩ := hms.first hk hp
    exact ⟨t, r', List.mem_cons_self .., ht⟩
  · exact absurd (Blank.cancel blank_nil hw (by decide) (by decide) hs).1 (by decide)

end Rust
