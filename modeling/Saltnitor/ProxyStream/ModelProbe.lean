import Saltnitor.ProxyStream.Body
import Saltnitor.Rust.JsonText

/-!
# The model probe

`visitMap` is the visitor that looks for `model` at the top of a body and skips everything else.
What `serde_json` hands it is an argument, an `Access`; `Presents` is what it promises for a text:
the members in order, each with its value. `validateChatBody_reader` puts the visitor behind
`validateChatBody`, and `deserialize_presents` says that it finds the last `model`.
-/

namespace Saltnitor.ProxyStream

open Rust

/-! ## The visitor -/

/-- A member as the map access hands it out: its name, its value as a `Value`, and as `IgnoredAny`. -/
structure Entry where
  key : Str
  value : Except Str Json
  ignored : Except Str Unit

/-- What `deserialize_map` finds. -/
inductive Access where
  /-- An object: the members there are, then the end of the object and of the text, or an error. -/
  | map (entries : List Entry) (finish : Except Str Unit)
  /-- Something else, or nothing. -/
  | invalidType (e : Str)

abbrev Deserializer := List UInt8 → Access

namespace ModelProbe

/-- `visit_map`, with the model found so far. -/
def visitMap (finish : Except Str Unit) : List Entry → Option Json → Except Str (Option Json)
  | [], model => finish.map fun _ => model
  | m :: ms, model =>
    if m.key = ("model" : Str) then m.value.bind fun v => visitMap finish ms (some v)
    else m.ignored.bind fun _ => visitMap finish ms model

def deserialize : Access → Except Str (Option Json)
  | .map entries finish => visitMap finish entries none
  | .invalidType e => .error e

def validateChatBody (de : Deserializer) (body : List UInt8) : Except ApiError Str :=
  match deserialize (de body) with
  | .error e =>
    .error { code := .requestInvalid, message := ("body must be a JSON object: " : Str) ++ e }
  | .ok (some (.str m)) =>
    if m ≠ [] then .ok m
    else .error { code := .requestInvalid, message := "'model' must be a non-empty string" }
  | .ok (some _) =>
    .error { code := .requestInvalid, message := "'model' must be a non-empty string" }
  | .ok none => .error { code := .requestInvalid, message := "missing 'model' in request body" }

/-! ## The reader behind it -/

/-- The members the visitor goes through, the skipped ones without their values. -/
def readMembers (finish : Except Str Unit) : List Entry → Except Str (List (Str × Json))
  | [] => finish.map fun _ => []
  | m :: ms =>
    if m.key = ("model" : Str) then
      m.value.bind fun v => (readMembers finish ms).map ((m.key, v) :: ·)
    else m.ignored.bind fun _ => (readMembers finish ms).map ((m.key, .null) :: ·)

def reader (de : Deserializer) : ObjectReader := fun body =>
  match de body with
  | .map entries finish => readMembers finish entries
  | .invalidType e => .error e

theorem visitMap_eq (finish : Except Str Unit) (ms : List Entry) (model : Option Json) :
    visitMap finish ms model = (readMembers finish ms).map fun l =>
      l.foldl (fun found m => if m.1 = ("model" : Str) then some m.2 else found) model := by
  induction ms generalizing model with
  | nil => cases finish <;> rfl
  | cons m ms ih =>
    rw [visitMap, readMembers]
    split
    · rename_i hk
      cases m.value with
      | error e => rfl
      | ok v =>
        simp only [Except.bind, ih]
        cases readMembers finish ms with
        | error e => rfl
        | ok l => simp only [Except.map, List.foldl_cons, hk, if_true]
    · rename_i hk
      cases m.ignored with
      | error e => rfl
      | ok _ =>
        simp only [Except.bind, ih]
        cases readMembers finish ms with
        | error e => rfl
        | ok l => simp only [Except.map, List.foldl_cons, hk, if_false]

theorem visitMap_none (finish : Except Str Unit) (ms : List Entry) :
    visitMap finish ms none = (readMembers finish ms).map (Json.lastOf "model") :=
  visitMap_eq finish ms none

/-- `validateChatBody` with the visitor's reader is the probe. -/
theorem validateChatBody_reader (de : Deserializer) (body : List UInt8) :
    ProxyStream.validateChatBody (reader de) body = validateChatBody de body := by
  unfold ProxyStream.validateChatBody validateChatBody reader deserialize
  cases de body with
  | invalidType e => rfl
  | map entries finish =>
    simp only [visitMap_none]
    cases readMembers finish entries with
    | error e => rfl
    | ok l =>
      simp only [Except.map]
      cases Json.lastOf "model".toList l with
      | none => rfl
      | some v => cases v <;> rfl

end ModelProbe

/-! ## What `serde_json` promises -/

/-- A value `serde_json` builds: at most so many levels deep, and every number in it one it takes. -/
inductive Holdable (takes : ℚ → Prop) : Nat → Json → Prop
  | null (n : Nat) : Holdable takes n .null
  | bool (n : Nat) (b : Bool) : Holdable takes n (.bool b)
  | str (n : Nat) (s : Str) : Holdable takes n (.str s)
  | num (n : Nat) {q : ℚ} (h : takes q) : Holdable takes n (.num q)
  | arr {n : Nat} {vs : List Json} (h : ∀ v ∈ vs, Holdable takes n v) : Holdable takes (n + 1) (.arr vs)
  | obj {n : Nat} {ms : List (Str × Json)} (h : ∀ m ∈ ms, Holdable takes n m.2) :
      Holdable takes (n + 1) (.obj ms)

/-- Nested at most so many levels. -/
def Nested (n : Nat) (v : Json) : Prop := Holdable (fun _ => True) n v

/-- An entry is its member: the name is decoded, a value nested within the limit is skipped, and one
that can be held is read, a string as its text and nothing else as a string. -/
structure Entry.Presents (takes : ℚ → Prop) (limit : Nat) (m : Str × Json) (e : Entry) : Prop where
  key : e.key = m.1
  ignored : Nested limit m.2 → e.ignored = .ok ()
  value : Holdable takes limit m.2 → ∃ w, e.value = .ok w ∧ ∀ t, w = .str t ↔ m.2 = .str t

/-- The members of an object in order, and the end; nothing of what is no object. -/
inductive Presents (takes : ℚ → Prop) (limit : Nat) : Json → Access → Prop
  | obj {ms : List (Str × Json)} {es : List Entry}
      (h : List.Forall₂ (Entry.Presents takes limit) ms es) :
      Presents takes limit (.obj ms) (.map es (.ok ()))
  | other {v : Json} (e : Str) (h : ∀ ms, v ≠ .obj ms) : Presents takes limit v (.invalidType e)

namespace ModelProbe

variable {takes : ℚ → Prop} {limit : Nat} {ms : List (Str × Json)} {es : List Entry} {v : Json}
  {a : Access}

/-- Both are absent, or the same text, or neither is a text. -/
structure Alike (o o' : Option Json) : Prop where
  none : o = .none ↔ o' = .none
  str : ∀ t, o = some (.str t) ↔ o' = some (.str t)

theorem visitMap_presents (h : List.Forall₂ (Entry.Presents takes limit) ms es)
    (hnested : ∀ m ∈ ms, Nested limit m.2)
    (hheld : ∀ m ∈ ms, m.1 = ("model" : Str) → Holdable takes limit m.2) {o o' : Option Json}
    (ho : Alike o o') : ∃ r, visitMap (.ok ()) es o = .ok r ∧
      Alike r (ms.foldl (fun found m => if m.1 = ("model" : Str) then some m.2 else found) o') := by
  induction h generalizing o o' with
  | nil => exact ⟨o, rfl, ho⟩
  | @cons m e ms es hm _ ih =>
    obtain ⟨hnested₁, hnested⟩ := List.forall_mem_cons.mp hnested
    obtain ⟨hheld₁, hheld⟩ := List.forall_mem_cons.mp hheld
    rw [visitMap, hm.key, List.foldl_cons]
    by_cases hk : m.1 = ("model" : Str)
    · obtain ⟨w, hw, hstr⟩ := hm.value (hheld₁ hk)
      rw [if_pos hk, if_pos hk, hw]
      refine ih hnested hheld ⟨by simp, fun t => ?_⟩
      rw [Option.some.injEq, Option.some.injEq, hstr t]
    · rw [if_neg hk, if_neg hk, hm.ignored hnested₁]
      exact ih hnested hheld ho

/-- The probe finds the last `model` of an object, and no other value has one. -/
theorem deserialize_presents (h : Presents takes limit v a) (hnested : ∀ m ∈ v.members, Nested limit m.2)
    (hheld : ∀ m ∈ v.members, m.1 = ("model" : Str) → Holdable takes limit m.2) :
    (∃ o, deserialize a = .ok o ∧ Alike o (v.member "model")) ∨
      (∃ e, deserialize a = .error e) ∧ v.member "model" = none := by
  cases h with
  | obj h => exact .inl (visitMap_presents h hnested hheld ⟨Iff.rfl, fun _ => Iff.rfl⟩)
  | other e hv =>
    refine .inr ⟨⟨e, rfl⟩, ?_⟩
    cases v with
    | obj ms => exact absurd rfl (hv ms)
    | _ => rfl

theorem validate_of_ok {de : Deserializer} {body : List UInt8} {o : Option Json}
    (h : deserialize (de body) = .ok o) (m : Str) :
    validateChatBody de body = .ok m ↔ o = some (.str m) ∧ m ≠ [] := by
  unfold validateChatBody
  rw [h]
  cases o with
  | none => simp
  | some v =>
    cases v with
    | str s =>
      by_cases hs : s = []
      · subst hs
        simp
      · simp only [ne_eq, hs, not_false_eq_true, if_true, Except.ok.injEq, Option.some.injEq,
          Json.str.injEq]
        exact ⟨fun h => ⟨h, h ▸ hs⟩, And.left⟩
    | _ => simp

theorem validate_presents {de : Deserializer} {body : List UInt8} (h : Presents takes limit v (de body))
    (hnested : ∀ m ∈ v.members, Nested limit m.2)
    (hheld : ∀ m ∈ v.members, m.1 = ("model" : Str) → Holdable takes limit m.2) (m : Str) :
    validateChatBody de body = .ok m ↔ v.member "model" = some (.str m) ∧ m ≠ [] := by
  rcases deserialize_presents h hnested hheld with ⟨o, ho, halike⟩ | ⟨⟨e, he⟩, hnone⟩
  · rw [validate_of_ok ho, halike.str m]
  · unfold validateChatBody
    rw [he, hnone]
    simp

theorem code_of_validate {de : Deserializer} {body : List UInt8} {e : ApiError}
    (h : validateChatBody de body = .error e) : e.code = .requestInvalid :=
  code_of_validateChatBody ((validateChatBody_reader de body).trans h)

end ModelProbe

end Saltnitor.ProxyStream
