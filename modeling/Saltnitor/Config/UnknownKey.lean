import Saltnitor.Config.Closest

/-!
# Unknown keys

serde quotes the field and the known keys with backquotes and escapes none of them;
`humanize` cuts the sentence at every backquote. `Recovered` says what should be read off
it; `recovered_iff` says when it is: no backquote in the field or in a known key.
-/

namespace Saltnitor.Config

open Rust

/-! ## The sentence -/

def quoteKey (s : Str) : Str := backquote :: (s ++ [backquote])

/-- serde's `OneOf`. -/
def oneOf : List Str → Str
  | [k] => quoteKey k
  | [k, l] => quoteKey k ++ (" or " : Str) ++ quoteKey l
  | known => ("one of " : Str) ++ (", " : Str).intercalate (known.map quoteKey)

/-- serde's `Error::unknown_field`, from behind the first backquote. -/
def fieldThen (field : Str) (known : List Str) : Str :=
  field ++ backquote :: if known = [] then ", there are no fields"
    else (", expected " : Str) ++ oneOf known

def unknownFieldMessage (field : Str) (known : List Str) : Str :=
  ("unknown field `" : Str) ++ fieldThen field known

/-! ## What is read off it -/

/-- The field and the known keys, as `humanize` splits the sentence. -/
def splitField (rest : Str) : Str × List Str :=
  let (field, tail) := (splitOnce backquote rest).getD (rest, [])
  (field, everyOther ((tail.splitOn backquote).drop 1))

/-- The last segments of the path are the field. -/
def EndsIn (path field : Str) : Prop := path = field ∨ (("." : Str) ++ field) <:+ path

instance (path field : Str) : Decidable (EndsIn path field) := inferInstanceAs (Decidable (_ ∨ _))

/-- The field and the known keys are found again: in the sentence, and in what is shown of it. -/
structure Recovered (key field : Str) (known : List Str) : Prop where
  split : splitField (fieldThen field known) = (field, known)
  found : (humanize key (unknownFieldMessage field known)).found =
    ("unknown key `" : Str) ++ field ++ ("`" : Str)
  expected : (humanize key (unknownFieldMessage field known)).expected =
    if known = [] then ("no keys here" : Str) else ("one of " : Str) ++ (", " : Str).intercalate known
  hint : ∀ h, (humanize key (unknownFieldMessage field known)).hint = some h →
    ∃ k ∈ known, h = ("did you mean `" : Str) ++ k ++ ("`?" : Str)
  ends : EndsIn (humanize key (unknownFieldMessage field known)).key field
  once : (humanize key (unknownFieldMessage field known)).key = key ∨
    ¬ EndsIn key field ∧ (humanize key (unknownFieldMessage field known)).key = join key field

/-! ## The pieces -/

variable {field key rest : Str} {known : List Str}

theorem humanize_unknown (key field : Str) (known : List Str) :
    humanize key (unknownFieldMessage field known) = unknownField key (fieldThen field known) := by
  have h : List.isPrefixOf? ("unknown field `" : Str) (unknownFieldMessage field known) =
      some (fieldThen field known) := isPrefixOf?_eq_some.mpr rfl
  rw [humanize, h]

theorem unknownField_eq (key rest : Str) : unknownField key rest =
    { key := if EndsIn key (splitField rest).1 then key else join key (splitField rest).1
      expected := if (splitField rest).2 = [] then "no keys here"
        else ("one of " : Str) ++ (", " : Str).intercalate (splitField rest).2
      found := ("unknown key `" : Str) ++ (splitField rest).1 ++ ("`" : Str)
      hint := (closest (splitField rest).1 (splitField rest).2).map fun k =>
        ("did you mean `" : Str) ++ k ++ ("`?" : Str) } := rfl

theorem splitOn_quoteKey {lead k : Str} (hl : backquote ∉ lead) (hk : backquote ∉ k) (s : Str) :
    (lead ++ (quoteKey k ++ s)).splitOn backquote = lead :: k :: s.splitOn backquote := by
  rw [quoteKey, List.cons_append, List.append_assoc, List.splitOn_append_cons_self_of_not_mem hl,
    List.singleton_append, List.splitOn_append_cons_self_of_not_mem hk]

theorem everyOther_quoted {sep k : Str} (hs : backquote ∉ sep) (hk : ∀ l ∈ known, backquote ∉ l) :
    everyOther (k :: (known.flatMap fun l => sep ++ quoteKey l).splitOn backquote) = k :: known := by
  induction known generalizing k with
  | nil => rfl
  | cons l known ih =>
    obtain ⟨hl, hknown⟩ := List.forall_mem_cons.mp hk
    rw [List.flatMap_cons, List.append_assoc, splitOn_quoteKey hs hl, everyOther, ih hknown]

theorem intercalate_quoteKey (sep k : Str) (known : List Str) :
    sep.intercalate ((k :: known).map quoteKey) =
      quoteKey k ++ known.flatMap fun l => sep ++ quoteKey l := by
  induction known generalizing k with
  | nil => simp
  | cons l known ih =>
    rw [List.map_cons, List.map_cons, List.intercalate_cons_cons, ← List.map_cons, ih,
      List.flatMap_cons, List.append_assoc, List.append_assoc]

/-- The expectation is a lead, a quoted key, and more of them behind a separator. -/
theorem oneOf_eq (k : Str) (known : List Str) : ∃ lead sep : Str, backquote ∉ lead ∧
    backquote ∉ sep ∧ (", expected " : Str) ++ oneOf (k :: known) =
      lead ++ (quoteKey k ++ known.flatMap fun l => sep ++ quoteKey l) := by
  match known with
  | [] => exact ⟨", expected ", [], by decide, by decide, by simp [oneOf]⟩
  | [l] => exact ⟨", expected ", " or ", by decide, by decide, by simp [oneOf]⟩
  | l :: m :: known =>
    refine ⟨", expected one of ", ", ", by decide, by decide, ?_⟩
    have hmany : oneOf (k :: l :: m :: known) =
        ("one of " : Str) ++ (", " : Str).intercalate ((k :: l :: m :: known).map quoteKey) := rfl
    rw [hmany, intercalate_quoteKey]
    rfl

theorem splitField_append {tail : Str} (hf : backquote ∉ field) :
    splitField (field ++ backquote :: tail) =
      (field, everyOther ((tail.splitOn backquote).drop 1)) := by
  rw [splitField, splitOnce_append hf]
  rfl

theorem splitField_fieldThen (h : ∀ s ∈ field :: known, backquote ∉ s) :
    splitField (fieldThen field known) = (field, known) := by
  obtain ⟨hf, hk⟩ := List.forall_mem_cons.mp h
  rw [fieldThen, splitField_append hf]
  cases known with
  | nil =>
    have hnone : everyOther ((List.splitOn backquote (", there are no fields" : Str)).drop 1) = [] := by
      decide +kernel
    rw [if_pos rfl, hnone]
  | cons k known =>
    obtain ⟨hk, hknown⟩ := List.forall_mem_cons.mp hk
    obtain ⟨lead, sep, hlead, hsep, heq⟩ := oneOf_eq k known
    rw [if_neg (List.cons_ne_nil _ _), heq, splitOn_quoteKey hlead hk]
    exact congrArg _ (everyOther_quoted hsep hknown)

theorem mem_of_mem_everyOther {s : Str} {ss : List Str} (h : s ∈ everyOther ss) : s ∈ ss := by
  induction ss using everyOther.induct with
  | case1 => cases h
  | case2 s => exact h
  | case3 t u ss ih =>
    rw [everyOther] at h
    rcases List.mem_cons.mp h with rfl | h
    · exact List.mem_cons_self ..
    · exact List.mem_cons_of_mem _ (List.mem_cons_of_mem _ (ih h))

theorem not_mem_splitField (h : backquote ∈ rest) :
    ∀ s ∈ (splitField rest).1 :: (splitField rest).2, backquote ∉ s := by
  obtain ⟨field, tail, rfl, hf⟩ := List.eq_append_cons_of_mem h
  rw [splitField_append hf]
  refine List.forall_mem_cons.mpr ⟨hf, fun s hm => ?_⟩
  exact not_mem_of_mem_splitOn (List.mem_of_mem_drop (mem_of_mem_everyOther hm))

theorem endsIn_join (key field : Str) : EndsIn (join key field) field := by
  unfold join
  split
  · exact .inl rfl
  · exact .inr ⟨key, (List.append_assoc ..).symm⟩

theorem recovered_of_split (key : Str) (h : splitField (fieldThen field known) = (field, known)) :
    Recovered key field known := by
  have hd := (humanize_unknown key field known).trans (unknownField_eq key (fieldThen field known))
  rw [h] at hd
  refine ⟨h, by rw [hd], by rw [hd], fun hint hh => ?_, ?_, ?_⟩
  · rw [hd] at hh
    obtain ⟨k, hk, rfl⟩ := Option.map_eq_some_iff.mp hh
    obtain ⟨-, before, after, rfl, -, -⟩ := nearest_of_closest hk
    exact ⟨k, List.mem_append_right _ (List.mem_cons_self ..), rfl⟩
  · rw [hd]
    dsimp only
    split
    · assumption
    · exact endsIn_join key field
  · rw [hd]
    dsimp only
    split
    · exact .inl rfl
    · exact .inr ⟨‹_›, rfl⟩

/-- **The field and the known keys are recovered if and only if none of them has a backquote.** -/
theorem recovered_iff (key field : Str) (known : List Str) :
    Recovered key field known ↔ ∀ s ∈ field :: known, backquote ∉ s := by
  constructor
  · intro h
    have hmem : backquote ∈ fieldThen field known :=
      List.mem_append_right _ (List.mem_cons_self ..)
    have hcut := not_mem_splitField hmem
    rwa [h.split] at hcut
  · exact fun h => recovered_of_split key (splitField_fieldThen h)

/-- In a table that knows one key, `[process]`: an unknown key with a backquote is reported as `a`,
under a path that goes on behind it, with a hint that names no key. -/
theorem not_recovered_backquote :
    ¬ Recovered "process.a`b" "a`b" ["term_grace_ms"] ∧
      humanize "process.a`b" (unknownFieldMessage "a`b" ["term_grace_ms"]) =
        { key := "process.a`b.a", expected := "one of , expected , ", found := "unknown key `a`"
          hint := some ("did you mean ``?" : Str) } := by
  have hd : humanize "process.a`b" (unknownFieldMessage "a`b" ["term_grace_ms"]) =
      { key := "process.a`b.a", expected := "one of , expected , ", found := "unknown key `a`"
        hint := some ("did you mean ``?" : Str) } := by decide +kernel
  refine ⟨fun h => ?_, hd⟩
  have hfound := h.found
  rw [hd] at hfound
  exact absurd hfound (by decide +kernel)

end Saltnitor.Config
