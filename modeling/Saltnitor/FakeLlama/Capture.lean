import Saltnitor.FakeLlama.HomeSpelling
import Saltnitor.FakeLlama.Record
import Saltnitor.Rust.JsonRead
import Saltnitor.Rust.Utf8

/-!
# Saved captures

`capture` takes home paths out of the text of an answer, then reads it and masks its secrets. What
is saved is the masked value of the answer without home paths exactly if the text is `Sanitizable`
(`saved_iff_sanitizable`), which an escape at the wrong place can keep it from
(`saved_escaped_slash`): the pass over the text does not know of escapes.
-/

namespace Saltnitor.FakeLlama

open Rust

/-! ## What is saved -/

/-- `serde_json::from_str`: a JSON text has a value if it is within the limits of the reader, which
are on nesting and numbers, and of the members of one name the last is kept. -/
structure Reader where
  read : Str → Option Json
  within : Json → Prop
  within_mapStr : ∀ f v, within (v.mapStr f) ↔ within v
  read_eq_some : ∀ s w, read s = some w ↔ ∃ v, SpellsText s v ∧ within v ∧ w = v.asMap

/-- A reader whose only limit is on nesting, as in `serde_json` it is 128. -/
def Reader.nesting (limit : Nat) : Reader where
  read s := (parseText s).bind fun v => if v.depth < limit then some v.asMap else none
  within v := v.depth < limit
  within_mapStr f v := by rw [Json.depth_mapStr]
  read_eq_some s w := by
    simp only [Option.bind_eq_some_iff, Option.ite_none_right_eq_some, Option.some.injEq,
      parseText_eq_some, @eq_comm _ w]

/-- The file of an endpoint: a printed value, or what the server sent. -/
inductive Saved where
  | value (v : Json)
  | text (t : Str)

/-- What `capture` saves of the body of an answer. -/
def saved (read : Str → Option Json) (body : List UInt8) : Saved :=
  let text := sanitizeHome (fromUtf8Lossy body)
  match read text with
  | some v => .value (redact v)
  | none => .text text

/-! ## What the mask leaves -/

/-- A secret flag with its value. -/
def hasFlag (s : Str) : Bool := secretFlags.any fun f => (f ++ ['=']).isPrefixOf s

mutual

/-- The names, and the strings that `redact` leaves, as they are spelled. -/
def shown : Json → List Str
  | .obj ms => shownMembers ms
  | .arr xs => shownItems false xs
  | .str b => [b]
  | _ => []

def shownMembers : List (Str × Json) → List Str
  | [] => []
  | m :: ms => shownMember m ++ shownMembers ms

def shownMember : Str × Json → List Str
  | (key, x) => key :: if x.isStr && redactKeys.contains (unescaped key) then [] else shown x

def shownItems : Bool → List Json → List Str
  | _, [] => []
  | maskNext, x :: xs =>
    match x with
    | .str b =>
      (if maskNext || hasFlag (unescaped b) then [] else [b]) ++
        shownItems (!maskNext && secretFlags.contains (unescaped b)) xs
    | x => shown x ++ shownItems false xs

end

def shownItem (maskNext : Bool) : Json → List Str
  | .str b => if maskNext || hasFlag (unescaped b) then [] else [b]
  | x => shown x

variable {v x y : Json} {ms : List (Str × Json)} {xs : List Json} {mask : Bool} {b s t w : Str}

theorem shownMembers_eq : shownMembers ms = ms.flatMap shownMember := by
  induction ms with
  | nil => rfl
  | cons m ms ih => rw [shownMembers, ih, List.flatMap_cons]

theorem shownItems_cons : shownItems mask (x :: xs) =
    shownItem mask x ++ shownItems (masksNext mask (x.mapStr unescaped)) xs := by
  rw [shownItems.eq_def]
  cases x with
  | arr xs =>
    rw [Json.mapStr_arr]
    rfl
  | obj ms =>
    rw [Json.mapStr_obj]
    rfl
  | _ => rfl

/-! ## Words that home paths are not part of -/

/-- `s` is `t` up to a slash, where `s` has a dollar sign, or all of it. -/
def Marks (t s : Str) : Prop := s = t ∨ ∃ p t' s', t = p ++ '/' :: t' ∧ s = p ++ '$' :: s'

theorem marks_withoutHome (t : Str) : Marks t (withoutHome t) := by
  rcases first_home t with h | ⟨p, user, q, -, rfl, h⟩
  · exact .inl h
  · rw [h, homePath_cons, placeholder_cons]
    exact .inr ⟨p, _, _, rfl, rfl⟩

theorem Legible.marks (hl : Legible b) (h : WellSpelled b) :
    Marks (unescaped b) (unescaped (withoutHome b)) := by
  rcases hl.first with hb | ⟨a, s, user, r, ha, rfl, hb, hr⟩
  · rw [hb]
    exact .inl rfl
  · obtain ⟨t, ht, hz⟩ := ha.of_append h
    obtain ⟨l, q, rfl, -⟩ := body_homePath hz
    rw [ht, hb, (ha.append (plain_placeholder.body.append hr.wellSpelled)).unescaped, homePath_cons,
      placeholder_cons]
    exact .inr ⟨s, _, _, rfl, rfl⟩

/-- A word without slash and dollar sign. -/
def Unmarked (w : Str) : Prop := '/' ∉ w ∧ '$' ∉ w

instance (w : Str) : Decidable (Unmarked w) := inferInstanceAs (Decidable (_ ∧ _))

theorem Marks.prefix_iff (h : Marks t s) (hw : Unmarked w) : w <+: s ↔ w <+: t := by
  rcases h with rfl | ⟨p, t, s, rfl, rfl⟩
  · rfl
  · constructor
    · exact fun h => (Rewrite.prefix_append_cons hw.2 h).trans (List.prefix_append ..)
    · exact fun h => (Rewrite.prefix_append_cons hw.1 h).trans (List.prefix_append ..)

theorem Marks.eq_iff (h : Marks t s) (hw : Unmarked w) : s = w ↔ t = w := by
  rcases h with rfl | ⟨p, t, s, rfl, rfl⟩
  · rfl
  · constructor
    · rintro rfl
      exact absurd (List.mem_append_right _ (List.mem_cons_self ..)) hw.2
    · rintro rfl
      exact absurd (List.mem_append_right _ (List.mem_cons_self ..)) hw.1

theorem Marks.contains {words : List Str} (hwords : ∀ w ∈ words, Unmarked w) (h : Marks t s) :
    words.contains s = words.contains t := by
  rw [Bool.eq_iff_iff, List.contains_iff_mem, List.contains_iff_mem]
  constructor
  · intro hm
    rwa [(h.eq_iff (hwords s hm)).mp rfl]
  · intro hm
    rwa [(h.eq_iff (hwords t hm)).mpr rfl]

theorem unmarked_flags : ∀ f ∈ secretFlags, Unmarked f ∧ Unmarked (f ++ ['=']) := by decide +kernel

theorem Marks.hasFlag (h : Marks t s) : hasFlag s = hasFlag t := by
  rw [Bool.eq_iff_iff, FakeLlama.hasFlag, FakeLlama.hasFlag, List.any_eq_true, List.any_eq_true]
  refine exists_congr fun f => and_congr_right fun hf => ?_
  rw [List.isPrefixOf_iff_prefix, List.isPrefixOf_iff_prefix, h.prefix_iff (unmarked_flags f hf).2]

theorem unmarked_keys : ∀ k ∈ redactKeys, Unmarked k := by decide +kernel

/-! ## Masking two values of one spelling -/

theorem isStr_mapStr (f : Str → Str) (x : Json) : (x.mapStr f).isStr = x.isStr := by
  cases x with
  | arr xs => rw [Json.mapStr_arr]; rfl
  | obj ms => rw [Json.mapStr_obj]; rfl
  | _ => rfl

theorem isStr_asMap (x : Json) : x.asMap.isStr = x.isStr := by
  cases x with
  | arr xs => rw [Json.asMap_arr]; rfl
  | obj ms => rw [Json.asMap_obj]; rfl
  | _ => rfl

theorem masksNext_asMap (mask : Bool) (x : Json) : masksNext mask x.asMap = masksNext mask x := by
  cases x with
  | arr xs => rw [Json.asMap_arr]; rfl
  | obj ms => rw [Json.asMap_obj]; rfl
  | _ => rfl

theorem masksNext_mapStr {f : Str → Str} (mask : Bool) (hf : ∀ b ∈ x.strings, Marks (unescaped b) (f b)) :
    masksNext mask (x.mapStr f) = masksNext mask (x.mapStr unescaped) := by
  cases x with
  | str b =>
    have h := (hf b (List.mem_singleton_self _)).contains fun w hw => (unmarked_flags w hw).1
    rw [Json.mapStr_str, Json.mapStr_str, masksNext, masksNext, h]
  | arr xs => rw [Json.mapStr_arr, Json.mapStr_arr]; rfl
  | obj ms => rw [Json.mapStr_obj, Json.mapStr_obj]; rfl
  | _ => rfl

theorem hasFlag_iff : hasFlag s = true ↔ ∃ flag ∈ secretFlags, ∃ value, s = flag ++ '=' :: value := by
  rw [hasFlag, List.any_eq_true]
  refine exists_congr fun flag => and_congr_right fun _ => ?_
  rw [List.isPrefixOf_iff_prefix]
  constructor
  · rintro ⟨value, rfl⟩
    exact ⟨value, List.append_assoc ..⟩
  · rintro ⟨value, rfl⟩
    exact ⟨value, List.append_assoc ..⟩

theorem hideValue_flag {flag value : Str} (h : flag ∈ secretFlags) :
    hideValue (flag ++ '=' :: value) = flag ++ '=' :: marker := by
  rcases hideValue_cases (flag ++ '=' :: value) with ⟨flag', h', value', he, hv⟩ | ⟨hno, -⟩
  · rw [hv, (flag_append_inj h h' he).1]
  · exact absurd rfl (hno flag h value)

theorem hideValue_eq_iff (hs : Marks w s) (ht : Marks w t) :
    hideValue s = hideValue t ↔ hasFlag w = true ∨ s = t := by
  rcases hideValue_cases s with ⟨flag, hf, value, rfl, -⟩ | ⟨hno, he⟩
  · have hpre : flag ++ ['='] <+: flag ++ '=' :: value := ⟨value, List.append_assoc ..⟩
    rw [hs.prefix_iff (unmarked_flags flag hf).2] at hpre
    obtain ⟨value', hw⟩ := hpre
    obtain ⟨value'', rfl⟩ := (ht.prefix_iff (unmarked_flags flag hf).2).mpr ⟨value', hw⟩
    rw [List.append_assoc] at hw ⊢
    have hflag : hasFlag w = true := hasFlag_iff.mpr ⟨flag, hf, value', hw.symm⟩
    exact iff_of_true ((hideValue_flag hf).trans (hideValue_flag hf).symm) (.inl hflag)
  · have hflag : hasFlag w ≠ true := by
      rw [← hs.hasFlag, Ne, hasFlag_iff]
      rintro ⟨flag, hf, value, h⟩
      exact hno flag hf value h
    have ht' : hideValue t = t := by
      rcases hideValue_cases t with ⟨flag, hf, value, rfl, -⟩ | ⟨-, he⟩
      · exact absurd (ht.hasFlag.symm.trans (hasFlag_iff.mpr ⟨flag, hf, value, rfl⟩)) hflag
      · exact he
    rw [he, ht', or_iff_right hflag]

theorem redactItem_of_not_str (h : x.isStr = false) (mask : Bool) : redactItem mask x = redact x := by
  cases x with
  | str s => cases h
  | _ => rfl

theorem shownItem_of_not_str (h : x.isStr = false) (mask : Bool) : shownItem mask x = shown x := by
  cases x with
  | str s => cases h
  | _ => rfl

theorem distinct_str (s : Str) : (Json.str s).Distinct := Json.distinct_leaf (fun _ => rfl) (by rintro _ ⟨⟩)

section Masking

variable {f g : Str → Str}

/-- The values of one spelling, read in two ways, are saved as the same. -/
def SavedAlike (f g : Str → Str) (x : Json) : Prop := redact (x.mapStr f).asMap = redact (x.mapStr g)

/-- They are exactly if they agree on what is not masked and every name is there once. -/
def Told (f g : Str → Str) (x : Json) : Prop :=
  SavedAlike f g x ↔ (∀ b ∈ shown x, f b = g b) ∧ (x.mapStr g).Distinct

theorem redactItem_eq_iff (hf : ∀ b ∈ x.strings, Marks (unescaped b) (f b))
    (hg : ∀ b ∈ x.strings, Marks (unescaped b) (g b))
    (hx : Told f g x) (mask : Bool) :
    redactItem mask (x.mapStr f).asMap = redactItem mask (x.mapStr g) ↔
      (∀ b ∈ shownItem mask x, f b = g b) ∧ (x.mapStr g).Distinct := by
  cases hs : x.isStr with
  | false =>
    rw [redactItem_of_not_str (by rw [isStr_asMap, isStr_mapStr, hs]),
      redactItem_of_not_str (by rw [isStr_mapStr, hs]), shownItem_of_not_str hs]
    exact hx
  | true =>
    cases x with
    | str b =>
      have hmem : b ∈ (Json.str b).strings := List.mem_singleton_self _
      rw [Json.mapStr_str, Json.mapStr_str, Json.asMap_str, redactItem, redactItem,
        and_iff_left (distinct_str _), shownItem, Json.str.injEq]
      cases mask with
      | true => exact iff_of_true rfl (List.forall_mem_nil _)
      | false =>
        rw [if_neg Bool.false_ne_true, if_neg Bool.false_ne_true, hideValue_eq_iff (hf b hmem) (hg b hmem)]
        cases hasFlag (unescaped b) with
        | true => exact iff_of_true (.inl rfl) (List.forall_mem_nil _)
        | false => simp
    | _ => cases hs

theorem redactItems_eq_iff (hf : ∀ b ∈ (Json.arr xs).strings, Marks (unescaped b) (f b))
    (hg : ∀ b ∈ (Json.arr xs).strings, Marks (unescaped b) (g b))
    (hx : ∀ x ∈ xs, Told f g x) (mask : Bool) :
    redactItems mask (xs.map fun x => (x.mapStr f).asMap) = redactItems mask (xs.map (Json.mapStr g)) ↔
      (∀ b ∈ shownItems mask xs, f b = g b) ∧ ∀ x ∈ xs, (x.mapStr g).Distinct := by
  rw [Json.strings_arr] at hf hg
  induction xs generalizing mask with
  | nil => exact iff_of_true rfl ⟨List.forall_mem_nil _, List.forall_mem_nil _⟩
  | cons x xs ih =>
    rw [List.flatMap_cons, List.forall_mem_append] at hf hg
    obtain ⟨hx, hxs⟩ := List.forall_mem_cons.mp hx
    rw [List.map_cons, List.map_cons, redactItems_cons, redactItems_cons, List.cons.injEq,
      redactItem_eq_iff hf.1 hg.1 hx, masksNext_asMap, masksNext_mapStr mask hf.1,
      masksNext_mapStr mask hg.1, ih hf.2 hg.2 hxs, shownItems_cons, List.forall_mem_append,
      List.forall_mem_cons, and_and_and_comm]

theorem redactMember_eq_iff {m : Str × Json} (hf : ∀ b ∈ m.1 :: m.2.strings, Marks (unescaped b) (f b))
    (hx : Told f g m.2) :
    redactMember (f m.1, (m.2.mapStr f).asMap) = redactMember (g m.1, m.2.mapStr g) ↔
      (∀ b ∈ shownMember m, f b = g b) ∧ (m.2.mapStr g).Distinct := by
  obtain ⟨key, x⟩ := m
  rw [redactMember, redactMember, Prod.mk.injEq, shownMember, List.forall_mem_cons, and_assoc]
  refine and_congr_right fun hkey => ?_
  dsimp only at hkey hx ⊢
  rw [isStr_asMap, isStr_mapStr, isStr_mapStr, ← hkey,
    (hf key (List.mem_cons_self ..)).contains unmarked_keys]
  cases hmask : x.isStr && redactKeys.contains (unescaped key) with
  | false => exact hx
  | true =>
    cases x with
    | str b => exact iff_of_true rfl ⟨List.forall_mem_nil _, distinct_str _⟩
    | _ => cases hmask

theorem redactMembers_eq_iff (hf : ∀ b ∈ (Json.obj ms).strings, Marks (unescaped b) (f b))
    (hx : ∀ m ∈ ms, Told f g m.2) :
    (Json.lastMembers (ms.map fun m => (f m.1, (m.2.mapStr f).asMap))).map redactMember =
        (ms.map fun m => (g m.1, m.2.mapStr g)).map redactMember ↔
      (∀ b ∈ shownMembers ms, f b = g b) ∧
        (Json.obj (ms.map fun m => (g m.1, m.2.mapStr g))).Distinct := by
  have hmembers : (ms.map fun m => (f m.1, (m.2.mapStr f).asMap)).map redactMember =
      (ms.map fun m => (g m.1, m.2.mapStr g)).map redactMember ↔
        ∀ m ∈ ms, (∀ b ∈ shownMember m, f b = g b) ∧ (m.2.mapStr g).Distinct := by
    rw [List.map_map, List.map_map, List.map_inj_left]
    rw [Json.strings_obj] at hf
    exact forall₂_congr fun m hm =>
      redactMember_eq_iff (fun b hb => hf b (List.mem_flatMap_of_mem hm hb)) (hx m hm)
  have hkeys (h : ∀ m ∈ ms, f m.1 = g m.1) :
      (ms.map fun m => (f m.1, (m.2.mapStr f).asMap)).map Prod.fst =
        (ms.map fun m => (g m.1, m.2.mapStr g)).map Prod.fst := by
    rw [List.map_map, List.map_map]
    exact List.map_congr_left h
  have hkey {m : Str × Json} (h : ∀ b ∈ shownMember m, f b = g b) : f m.1 = g m.1 := by
    obtain ⟨key, x⟩ := m
    exact h key (List.mem_cons_self ..)
  rw [Json.distinct_obj, shownMembers_eq]
  constructor
  · intro h
    have hlen := congrArg List.length h
    simp only [List.length_map] at hlen
    have hnodup := Json.nodup_of_length_lastMembers (by rw [hlen, List.length_map])
    rw [Json.lastMembers_eq_self hnodup] at h
    have h := hmembers.mp h
    refine ⟨fun b hb => ?_, ?_, ?_⟩
    · obtain ⟨m, hm, hb⟩ := List.mem_flatMap.mp hb
      exact (h m hm).1 b hb
    · rwa [← hkeys fun m hm => hkey (h m hm).1]
    · rintro _ hm'
      obtain ⟨m, hm, rfl⟩ := List.mem_map.mp hm'
      exact (h m hm).2
  · rintro ⟨hshown, hnodup, hdistinct⟩
    have hshown (m) (hm : m ∈ ms) (b) (hb : b ∈ shownMember m) : f b = g b :=
      hshown b (List.mem_flatMap_of_mem hm hb)
    rw [← hkeys fun m hm => hkey (hshown m hm)] at hnodup
    rw [Json.lastMembers_eq_self hnodup, hmembers]
    exact fun m hm => ⟨hshown m hm, hdistinct _ (List.mem_map_of_mem hm)⟩

/-- Two ways to read a spelling are saved as the same where they agree on what is not masked, and
the names are distinct. -/
theorem told_of_marks (x : Json) (hf : ∀ b ∈ x.strings, Marks (unescaped b) (f b))
    (hg : ∀ b ∈ x.strings, Marks (unescaped b) (g b)) : Told f g x := by
  induction x using Json.induct with
  | str b =>
    have hsaved : SavedAlike f g (.str b) ↔ f b = g b := Iff.of_eq (Json.str.injEq ..)
    rw [Told, hsaved, Json.mapStr_str, and_iff_left (distinct_str _), show shown (.str b) = [b] from rfl,
      List.forall_mem_singleton]
  | arr xs ih =>
    have hx (x) (hx : x ∈ xs) : Told f g x := by
      refine ih x hx (fun b hb => hf b ?_) fun b hb => hg b ?_
      all_goals
        rw [Json.strings_arr]
        exact List.mem_flatMap_of_mem hx hb
    rw [Told, SavedAlike, Json.mapStr_arr, Json.mapStr_arr, Json.asMap_arr, redact, redact, Json.arr.injEq,
      List.map_map, Json.distinct_arr, List.forall_mem_map]
    exact redactItems_eq_iff hf hg hx false
  | obj ms ih =>
    have hx (m) (hm : m ∈ ms) : Told f g m.2 := by
      refine ih m hm (fun b hb => hf b ?_) fun b hb => hg b ?_
      all_goals
        rw [Json.strings_obj]
        exact List.mem_flatMap_of_mem hm (List.mem_cons_of_mem _ hb)
    rw [Told, SavedAlike, Json.mapStr_obj, Json.mapStr_obj, Json.asMap_obj, redact, redact, Json.obj.injEq,
      List.map_map, redactMembers_eq, redactMembers_eq]
    exact redactMembers_eq_iff hf hx
  | _ =>
    refine iff_of_true rfl ⟨List.forall_mem_nil _, ?_⟩
    exact Json.distinct_leaf (fun _ => rfl) (by rintro _ ⟨⟩)

end Masking

/-! ## Sanitizing first -/

/-- A string that holds the placeholder from the start, and the passes over it and over its spelling
go side by side. -/
def Coincides (b : Str) : Prop := placeholder <:+: unescaped b ∧ Together b (unescaped b)

/-- Sanitizing the text spelled `x` comes to the same as sanitizing its value: the reader takes it,
every string stays one, what is not masked is rewritten alike, and no two names become one. -/
structure Sanitizable (R : Reader) (x : Json) : Prop where
  within : R.within (x.mapStr unescaped)
  legible : ∀ b ∈ x.strings, Legible b
  aligned : ∀ b ∈ shown x, Aligned b (unescaped b) ∨ Coincides b
  distinct : ((x.mapStr unescaped).mapStr withoutHome).Distinct

theorem shownItem_subset (mask : Bool) (x : Json) : ∀ b ∈ shownItem mask x, b ∈ shown x := by
  cases x with
  | str b =>
    intro c hc
    rw [shownItem] at hc
    split at hc
    · cases hc
    · exact hc
  | _ => exact fun _ hb => hb

theorem mem_shownItems (h : b ∈ shownItems mask xs) : ∃ x ∈ xs, b ∈ shown x := by
  induction xs generalizing mask with
  | nil => cases h
  | cons x xs ih =>
    rw [shownItems_cons, List.mem_append] at h
    rcases h with h | h
    · exact ⟨x, List.mem_cons_self .., shownItem_subset mask x b h⟩
    · obtain ⟨y, hy, hb⟩ := ih h
      exact ⟨y, List.mem_cons_of_mem _ hy, hb⟩

theorem mem_shownMember {m : Str × Json} (h : b ∈ shownMember m) : b = m.1 ∨ b ∈ shown m.2 := by
  obtain ⟨key, x⟩ := m
  rw [shownMember, List.mem_cons] at h
  refine h.imp_right fun h => ?_
  split at h
  · cases h
  · exact h

theorem shown_subset (x : Json) : ∀ b ∈ shown x, b ∈ x.strings := by
  induction x using Json.induct with
  | str b => exact fun _ hb => hb
  | arr xs ih =>
    intro b hb
    obtain ⟨x, hx, hb⟩ := mem_shownItems hb
    rw [Json.strings_arr]
    exact List.mem_flatMap_of_mem hx (ih x hx b hb)
  | obj ms ih =>
    intro b hb
    rw [shown, shownMembers_eq] at hb
    obtain ⟨m, hm, hb⟩ := List.mem_flatMap.mp hb
    rw [Json.strings_obj]
    exact List.mem_flatMap_of_mem hm (List.mem_cons.mpr ((mem_shownMember hb).imp_right (ih m hm b)))
  | _ => exact List.forall_mem_nil _

variable {R : Reader} {text : Str}

/-- Only an escape can hide a home path from the pass, or make one up. -/
theorem sanitizable_of_plain (R : Reader) (hw : R.within x) (hx : ∀ b ∈ x.strings, Plain b)
    (hd : (x.mapStr withoutHome).Distinct) : Sanitizable R x := by
  have hread : x.mapStr unescaped = x := Json.mapStr_eq_self fun b hb => (hx b hb).body.unescaped
  refine ⟨?_, fun b hb => (aligned_self (hx b hb)).legible, fun b hb => .inl ?_, ?_⟩
  · rwa [hread]
  · have hb := hx b (shown_subset x b hb)
    rw [hb.body.unescaped]
    exact aligned_self hb
  · rwa [hread]

/-- What the reader makes of the sanitized text. -/
theorem read_sanitizeHome (h : SpelledText text x) : R.read (sanitizeHome text) = some y ↔
    R.within (x.mapStr unescaped) ∧ (∀ b ∈ x.strings, Legible b) ∧
      y = (x.mapStr (unescaped ∘ withoutHome)).asMap := by
  have hspelled (hl : ∀ b ∈ x.strings, Legible b) :
      SpellsText (withoutHome text) (x.mapStr (unescaped ∘ withoutHome)) := by
    rw [← Json.mapStr_mapStr]
    exact spellsText_iff.mpr ⟨_, h.map keepsOutside_withoutHome fun b hb => (hl b hb).wellSpelled, rfl⟩
  have hwithin : R.within (x.mapStr (unescaped ∘ withoutHome)) ↔ R.within (x.mapStr unescaped) := by
    rw [R.within_mapStr, R.within_mapStr]
  rw [sanitizeHome_eq, R.read_eq_some]
  constructor
  · rintro ⟨v, hv, hw, rfl⟩
    have hl (b) (hb : b ∈ x.strings) : Legible b := by
      refine (legible_iff (h.wellSpelled b hb)).mp ?_
      refine h.of_value keepsOutside_withoutHome hv (fun b hb hrun => ?_) b hb
      exact ((legible_or hb).resolve_right hrun).wellSpelled
    rw [hv.unique (hspelled hl)] at hw ⊢
    exact ⟨hwithin.mp hw, hl, rfl⟩
  · rintro ⟨hw, hl, rfl⟩
    exact ⟨_, hspelled hl, hwithin.mpr hw, rfl⟩

/-- The two orders of sanitizing and reading are saved alike. -/
theorem savedAlike_withoutHome (h : SpelledText text x) (hl : ∀ b ∈ x.strings, Legible b) :
    SavedAlike (unescaped ∘ withoutHome) (withoutHome ∘ unescaped) x ↔
      (∀ b ∈ shown x, unescaped (withoutHome b) = withoutHome (unescaped b)) ∧
        ((x.mapStr unescaped).mapStr withoutHome).Distinct := by
  rw [Json.mapStr_mapStr]
  exact told_of_marks x (fun b hb => (hl b hb).marks (h.wellSpelled b hb)) fun b _ => marks_withoutHome _

theorem saved_bytes (read : Str → Option Json) (text : Str) (v : Json) :
    saved read (bytes text) = .value v ↔ ∃ y, read (sanitizeHome text) = some y ∧ redact y = v := by
  rw [saved, lossy_bytes]
  cases read (sanitizeHome text) <;> simp

/-- A string is rewritten as what it reads as exactly if it is aligned, or a coincidence. -/
theorem rewritten_iff (hl : Legible b) (h : WellSpelled b) :
    unescaped (withoutHome b) = withoutHome (unescaped b) ↔ Aligned b (unescaped b) ∨ Coincides b := by
  constructor
  · intro he
    have hbody := hl.wellSpelled
    rw [WellSpelled, he] at hbody
    by_cases hp : placeholder <:+: unescaped b
    · exact .inr ⟨hp, (together_iff hl).mp hbody⟩
    · exact .inl (aligned_of_body hl h hp hbody)
  · rintro (ha | hc)
    · exact ha.body.unescaped
    · exact hc.2.body.unescaped

/-- **A capture is saved without home paths exactly if its text is sanitizable.** -/
theorem saved_iff_sanitizable (R : Reader) {text : Str} {v : Json} (h : SpellsText text v) :
    saved R.read (bytes text) = .value (redact (v.mapStr withoutHome)) ↔
      ∃ x, SpelledText text x ∧ Sanitizable R x := by
  have hshown {x : Json} (hx : SpelledText text x) (hl : ∀ b ∈ x.strings, Legible b) :
      (∀ b ∈ shown x, unescaped (withoutHome b) = withoutHome (unescaped b)) ↔
        ∀ b ∈ shown x, Aligned b (unescaped b) ∨ Coincides b :=
    forall₂_congr fun b hb =>
      rewritten_iff (hl b (shown_subset x b hb)) (hx.wellSpelled b (shown_subset x b hb))
  rw [saved_bytes]
  constructor
  · rintro ⟨y, hy, he⟩
    obtain ⟨x, hx, rfl⟩ := spellsText_iff.mp h
    obtain ⟨hwithin, hl, rfl⟩ := (read_sanitizeHome hx).mp hy
    rw [Json.mapStr_mapStr] at he
    obtain ⟨hsame, hdistinct⟩ := (savedAlike_withoutHome hx hl).mp he
    exact ⟨x, hx, hwithin, hl, (hshown hx hl).mp hsame, hdistinct⟩
  · rintro ⟨x, hx, hs⟩
    obtain rfl := h.unique (spellsText_iff.mpr ⟨x, hx, rfl⟩)
    refine ⟨_, (read_sanitizeHome hx).mpr ⟨hs.within, hs.legible, rfl⟩, ?_⟩
    rw [Json.mapStr_mapStr]
    exact (savedAlike_withoutHome hx hs.legible).mpr ⟨(hshown hx hs.legible).mpr hs.aligned, hs.distinct⟩

/-- Escapes do no harm where no home path begins: in the name, and behind it. -/
theorem saved_escaped_name :
    saved (Reader.nesting 128).read (bytes "\"/home/\\u0061l/x\\/y\"") =
      .value (redact ((Json.str "/home/al/x/y").mapStr withoutHome)) := by
  have hbody : Body "/home/\\u0061l/x\\/y" "/home/al/x/y" :=
    strText_append_iff.mp (@parseString_sound _ _ [] 20 (by decide +kernel))
  have hrest : Body "x\\/y" "x/y" :=
    strText_append_iff.mp (@parseString_sound _ _ [] 20 (by decide +kernel))
  have hy : Aligned ['y'] ['y'] :=
    @Aligned.glyph ['y'] [] [] 'y' (.plain (by decide)) (by decide +kernel) (by decide +kernel) .nil
  have hslash : Aligned ['\\', '/', 'y'] ['/', 'y'] :=
    @Aligned.glyph ['\\', '/'] _ _ '/' (.escape rfl) (by decide +kernel) (by decide +kernel) hy
  have hx : Aligned ['x', '\\', '/', 'y'] ['x', '/', 'y'] :=
    @Aligned.glyph ['x'] _ _ 'x' (.plain (by decide)) (by decide +kernel) (by decide +kernel) hslash
  have haligned : Aligned "/home/\\u0061l/x\\/y" "/home/al/x/y" :=
    .home (by decide +kernel) (by decide +kernel) hrest hx
  have hspelled : SpelledText "\"/home/\\u0061l/x\\/y\"" (.str "/home/\\u0061l/x\\/y") :=
    ⟨[], _, [], rfl, blank_nil, .str hbody.wellSpelled, blank_nil⟩
  refine (saved_iff_sanitizable (Reader.nesting 128) (spellsText_iff.mpr ⟨_, hspelled, ?_⟩)).mpr
    ⟨_, hspelled, show 0 < 128 by decide, ?_, ?_, distinct_str _⟩
  · exact congrArg Json.str hbody.unescaped.symm
  · exact List.forall_mem_singleton.mpr haligned.legible
  · rw [← hbody.unescaped] at haligned
    exact List.forall_mem_singleton.mpr (.inl haligned)

/-- A home path with its slashes escaped is saved as it was. -/
theorem saved_escaped_slash :
    SpellsText "\"\\/home\\/alice\\/x\"" (.str "/home/alice/x") ∧ (Json.str "/home/alice/x").Distinct ∧
      ∀ R : Reader,
        (R.within (.str "/home/alice/x") →
          saved R.read (bytes "\"\\/home\\/alice\\/x\"") = .value (.str "/home/alice/x")) ∧
        saved R.read (bytes "\"\\/home\\/alice\\/x\"") ≠
          .value (redact ((Json.str "/home/alice/x").mapStr withoutHome)) := by
  have hspells : SpellsText "\"\\/home\\/alice\\/x\"" (.str "/home/alice/x") :=
    ⟨[], _, [], rfl, blank_nil, .str (@parseString_sound _ _ [] 20 (by decide +kernel)), blank_nil⟩
  have hkept : sanitizeHome "\"\\/home\\/alice\\/x\"" = "\"\\/home\\/alice\\/x\"" := by decide +kernel
  refine ⟨hspells, distinct_str _, fun R => ⟨fun hw => ?_, fun h => ?_⟩⟩
  · rw [saved_bytes, hkept]
    exact ⟨_, (R.read_eq_some _ _).mpr ⟨_, hspells, hw, rfl⟩, rfl⟩
  · rw [saved_bytes, hkept] at h
    obtain ⟨y, hy, he⟩ := h
    obtain ⟨v, hv, -, rfl⟩ := (R.read_eq_some _ _).mp hy
    rw [hv.unique hspells] at he
    exact absurd (Json.str.inj he) (by decide +kernel)

end Saltnitor.FakeLlama
