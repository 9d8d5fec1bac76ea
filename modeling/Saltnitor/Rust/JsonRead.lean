import Saltnitor.Rust.JsonText

/-!
# Reading a JSON text

What `parseValue` finds the grammar derives, so `parseText` reads the texts of JSON, each with its
value, and no others (`parseText_eq_some`). The proof goes by the fuel, one lemma for each of the
three readers: the readers they call have less of it.
-/

namespace Rust

/-- Read a whole text. -/
def parseText (s : Str) : Option Json :=
  (parseValue (2 * s.length + 1) (skipBlanks s)).bind fun v =>
    if skipBlanks v.2 = [] then some v.1 else none

variable {s t r w : Str} {c : Char} {v : Json}

/-! ## Strings -/

theorem unicodeEscape_sound (h : unicodeEscape s = some (c, r)) : UnitText ('\\' :: 'u' :: s) c r := by
  obtain ⟨⟨hi, s'⟩, hhi, h⟩ := Option.bind_eq_some_iff.mp h
  simp only at h
  split_ifs at h with hhigh hlow
  · obtain ⟨r', hr', h⟩ := Option.bind_eq_some_iff.mp h
    obtain ⟨⟨lo, r''⟩, hlo, h⟩ := Option.bind_eq_some_iff.mp h
    obtain ⟨hlow, h⟩ := Option.ite_none_right_eq_some.mp h
    obtain ⟨rfl, rfl⟩ := Prod.mk.inj (Option.some.inj h)
    rw [isPrefixOf?_eq_some.mp hr'] at hhi
    exact .pair hhi hlo ⟨hhigh, hlow⟩
  · obtain ⟨rfl, rfl⟩ := Prod.mk.inj (Option.some.inj h)
    exact .unicode hhi ⟨by simpa using hhigh, by simpa using hlow⟩

theorem strUnit_sound (h : strUnit s = some (c, r)) : UnitText s c r := by
  unfold strUnit at h
  split at h
  · cases h
  · rename_i d s
    split at h
    · rename_i hd
      subst hd
      split at h
      · cases h
      · rename_i e s
        split at h
        · rename_i he
          subst he
          exact unicodeEscape_sound h
        · obtain ⟨c', hc, he⟩ := Option.map_eq_some_iff.mp h
          cases he
          exact .escape hc
    · rename_i hd
      split at h
      · rename_i hplain
        cases h
        exact .plain ⟨hplain.1, hplain.2, hd⟩
      · cases h

theorem parseString_sound {fuel : Nat} (h : parseString fuel s = some (t, r)) : StrText s t r := by
  induction fuel generalizing s t with
  | zero => cases h
  | succ fuel ih =>
    rw [parseString] at h
    split at h
    · rename_i hhead
      cases s with
      | nil => cases hhead
      | cons d s =>
        cases hhead
        cases h
        exact .close _
    · obtain ⟨⟨c, s'⟩, hc, h⟩ := Option.bind_eq_some_iff.mp h
      obtain ⟨⟨t', r'⟩, ht, he⟩ := Option.map_eq_some_iff.mp h
      cases he
      exact .unit (strUnit_sound hc) (ih ht)

/-! ## Values -/

theorem skipBlanks_spec (s : Str) : ∃ w, Blank w ∧ s = w ++ skipBlanks s :=
  ⟨s.takeWhile isBlank, fun _ hc => List.mem_takeWhile_imp hc, List.takeWhile_append_dropWhile.symm⟩

theorem expect_sound (h : expect c s = some r) : ∃ w, Blank w ∧ s = w ++ c :: r := by
  obtain ⟨w, hw, hs⟩ := skipBlanks_spec s
  unfold expect at h
  split at h
  · cases h
  · rename_i d r' hd
    split at h
    · rename_i hdc
      cases h
      rw [hd, hdc] at hs
      exact ⟨w, hw, hs⟩
    · cases h

theorem number_sound {n : ℚ} (h : jsonNumber (s.takeWhile isNumChar) = some n) :
    Spells (.value (.num n)) s (s.dropWhile isNumChar) := by
  have hhead : ∀ c ∈ (s.dropWhile isNumChar).head?, isNumChar c = false := by
    intro c hc
    have hnot := List.head?_dropWhile_not isNumChar s
    rw [Option.mem_def.mp hc] at hnot
    exact hnot
  have hspells := Spells.num h hhead
  rwa [List.takeWhile_append_dropWhile] at hspells

/-- What the three readers find with some fuel is derived. -/
structure Sound (fuel : Nat) : Prop where
  value : ∀ s v r, parseValue fuel s = some (v, r) → Spells (.value v) s r
  elems : ∀ s vs r, parseElems fuel s = some (vs, r) → Spells (.elems vs) s r
  members : ∀ s ms r, parseMembers fuel s = some (ms, r) → Spells (.members ms) s r

theorem Sound.parseValue {fuel : Nat} (ih : Sound fuel) (h : parseValue (fuel + 1) s = some (v, r)) :
    Spells (.value v) s r := by
  cases s with
  | nil => cases h
  | cons c s =>
    rw [Rust.parseValue] at h
    split_ifs at h with h₁ h₂ h₃ h₄ h₅ h₆
    · subst h₁
      obtain ⟨⟨t, r'⟩, ht, he⟩ := Option.map_eq_some_iff.mp h
      cases he
      exact .str (parseString_sound ht)
    · subst h₂
      split at h
      · rename_i r' hr
        cases h
        obtain ⟨w, hw, rfl⟩ := expect_sound hr
        exact .arrNil hw
      · obtain ⟨⟨vs, r'⟩, hvs, he⟩ := Option.map_eq_some_iff.mp h
        cases he
        exact .arr (ih.elems _ _ _ hvs)
    · subst h₃
      split at h
      · rename_i r' hr
        cases h
        obtain ⟨w, hw, rfl⟩ := expect_sound hr
        exact .objNil hw
      · obtain ⟨⟨ms, r'⟩, hms, he⟩ := Option.map_eq_some_iff.mp h
        cases he
        exact .obj (ih.members _ _ _ hms)
    · subst h₄
      obtain ⟨r', hr, he⟩ := Option.map_eq_some_iff.mp h
      cases he
      obtain rfl := isPrefixOf?_eq_some.mp hr
      exact .null _
    · subst h₅
      obtain ⟨r', hr, he⟩ := Option.map_eq_some_iff.mp h
      cases he
      obtain rfl := isPrefixOf?_eq_some.mp hr
      exact .yes _
    · subst h₆
      obtain ⟨r', hr, he⟩ := Option.map_eq_some_iff.mp h
      cases he
      obtain rfl := isPrefixOf?_eq_some.mp hr
      exact .no _
    · obtain ⟨n, hn, he⟩ := Option.map_eq_some_iff.mp h
      cases he
      exact number_sound hn

theorem Sound.parseElems {fuel : Nat} {vs : List Json} (ih : Sound fuel)
    (h : parseElems (fuel + 1) s = some (vs, r)) : Spells (.elems vs) s r := by
  rw [Rust.parseElems] at h
  obtain ⟨⟨v, s'⟩, hv, h⟩ := Option.bind_eq_some_iff.mp h
  obtain ⟨w, hw, hs⟩ := skipBlanks_spec s
  rw [hs]
  dsimp only at h
  split at h
  · rename_i r' hr
    cases h
    obtain ⟨w', hw', rfl⟩ := expect_sound hr
    exact .elem hw (ih.value _ _ _ hv) hw'
  · obtain ⟨r', hr, h⟩ := Option.bind_eq_some_iff.mp h
    obtain ⟨⟨vs, r''⟩, hvs, he⟩ := Option.map_eq_some_iff.mp h
    cases he
    obtain ⟨w', hw', rfl⟩ := expect_sound hr
    exact .elems hw (ih.value _ _ _ hv) hw' (ih.elems _ _ _ hvs)

theorem Sound.parseMembers {fuel : Nat} {ms : List (Str × Json)} (ih : Sound fuel)
    (h : parseMembers (fuel + 1) s = some (ms, r)) : Spells (.members ms) s r := by
  rw [Rust.parseMembers] at h
  obtain ⟨k, hk, h⟩ := Option.bind_eq_some_iff.mp h
  obtain ⟨⟨key, s₁⟩, hkey, h⟩ := Option.bind_eq_some_iff.mp h
  obtain ⟨s₂, hs₂, h⟩ := Option.bind_eq_some_iff.mp h
  obtain ⟨⟨v, s₃⟩, hv, h⟩ := Option.bind_eq_some_iff.mp h
  obtain ⟨w, hw, rfl⟩ := expect_sound hk
  obtain ⟨w₁, hw₁, rfl⟩ := expect_sound hs₂
  obtain ⟨w₂, hw₂, he⟩ := skipBlanks_spec s₂
  have hname := parseString_sound hkey
  rw [he] at hname
  dsimp only at h
  split at h
  · rename_i r' hr
    cases h
    obtain ⟨w', hw', rfl⟩ := expect_sound hr
    exact .member hw hname hw₁ hw₂ (ih.value _ _ _ hv) hw'
  · obtain ⟨r', hr, h⟩ := Option.bind_eq_some_iff.mp h
    obtain ⟨⟨ms, r''⟩, hms, he⟩ := Option.map_eq_some_iff.mp h
    cases he
    obtain ⟨w', hw', rfl⟩ := expect_sound hr
    exact .members hw hname hw₁ hw₂ (ih.value _ _ _ hv) hw' (ih.members _ _ _ hms)

theorem sound (fuel : Nat) : Sound fuel := by
  induction fuel with
  | zero =>
    refine ⟨fun s v r h => ?_, fun s vs r h => ?_, fun s ms r h => ?_⟩
    all_goals cases h
  | succ fuel ih => exact ⟨fun _ _ _ h => ih.parseValue h, fun _ _ _ h => ih.parseElems h,
      fun _ _ _ h => ih.parseMembers h⟩

/-- **The reader reads the texts of JSON, and nothing else.** -/
theorem parseText_eq_some : parseText s = some v ↔ SpellsText s v := by
  constructor
  · intro h
    obtain ⟨⟨v', r⟩, hv, h⟩ := Option.bind_eq_some_iff.mp h
    obtain ⟨w, hw, hs⟩ := skipBlanks_spec s
    obtain ⟨w', hw', hr⟩ := skipBlanks_spec r
    dsimp only at h
    split at h
    · rename_i hend
      cases h
      rw [hend, List.append_nil] at hr
      exact ⟨w, _, r, hs, hw, (sound _).value _ _ _ hv, hr ▸ hw'⟩
    · cases h
  · rintro ⟨w, t, r, rfl, hw, h, hr⟩
    have hend : skipBlanks r = [] := List.dropWhile_eq_nil_iff.mpr hr
    have hlen : 2 * t.length < 2 * (w ++ t).length + 1 := by
      rw [List.length_append]
      omega
    rw [parseText, skipBlanks_value hw h, h.parsed _ hlen, Option.bind_some, if_pos hend]

end Rust
