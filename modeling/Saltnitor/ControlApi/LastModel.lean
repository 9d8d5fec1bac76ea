import Mathlib.Tactic.Linarith
import Saltnitor.ControlApi.Chat
import Saltnitor.ProxyStream.ModelProbe
import Saltnitor.Rust.JsonQuote

/-!
# The model a text names

`ReadsLast` says of a JSON text that the probe admits just the model a last-wins reader takes from
it, and that a chat with that body ensures this model and forwards those bytes. It holds where
`serde_json` can hold the values of the top-level `model` members (`readsLast`): a number out of
range in one of them is an error even if a later member replaces it (`not_readsLast_overflow`).
-/

namespace Saltnitor.ControlApi

open Rust Http ProxyStream

/-- The text is `v`, for every reader, and the probe takes the last `model` of it. -/
structure ReadsLast (de : Deserializer) (text : Str) (v : Json) : Prop where
  only : ∀ w, SpellsText text w → w = v
  admits : ∀ m, ModelProbe.validateChatBody de (bytes text) = .ok m ↔
    v.member "model" = some (.str m) ∧ m ≠ []
  refuses : (∀ m, v.member "model" = some (.str m) → m = []) →
    ∃ e, ModelProbe.validateChatBody de (bytes text) = .error e ∧ e.code = .requestInvalid
  /-- What a chat forwards are these bytes, after the ensure of that model. -/
  forwards : ∀ api env rid headers body up, env.read = ModelProbe.reader de →
    body.chunks.flatten = bytes text → .chat up ∈ (hChat api env rid headers body).2 →
    up.body = bytes text ∧ ∃ m, v.member "model" = some (.str m) ∧ m ≠ [] ∧
      (hChat api env rid headers body).2 =
        (ensure api env.ensure .none { profile := m }).2 ++ [.chat up]

/-- A finite double, once rounded. -/
def FitsDouble (q : ℚ) : Prop := |q| < 2 ^ 1024 - 2 ^ 970

variable {takes : ℚ → Prop} {limit : Nat} {de : Deserializer} {text : Str} {v : Json}

/-- A chat that sends the client's bytes has read the model in them and ensured it. -/
theorem chat_of_reader {api : Api} {env : ChatEnv} {rid : Str} {headers : HeaderMap} {body : BodyStream}
    {up : Outgoing} (hread : env.read = ModelProbe.reader de)
    (hup : .chat up ∈ (hChat api env rid headers body).2) :
    up.body = body.chunks.flatten ∧
      ∃ m, ModelProbe.validateChatBody de body.chunks.flatten = .ok m ∧
        (hChat api env rid headers body).2 =
          (ensure api env.ensure .none { profile := m }).2 ++ [.chat up] := by
  rcases ready_or_failsAt api env headers body with ⟨m, prof, h⟩ | ⟨step, h⟩
  swap
  · exact absurd hup ((hChat_failsAt h).no_chat up)
  have hm : ModelProbe.validateChatBody de body.chunks.flatten = .ok m := by
    rw [← ModelProbe.validateChatBody_reader, ← hread]
    exact validateChatBody_eq_ok.mpr h.accepted.2
  rw [hChat_ready h] at hup ⊢
  rcases List.mem_append.mp hup with hup | hup
  · exact absurd hup (chat_not_mem_ensure _ up)
  obtain ⟨_, hsent, ⟨⟩⟩ := Option.map_eq_some_iff.mp (Option.mem_toList.mp hup)
  refine ⟨(body_of_forward hsent).2.1, m, hm, ?_⟩
  rw [hsent]
  rfl

/-- **The last model wins** in every text whose `model` values `serde_json` can hold. -/
theorem readsLast (htext : SpellsText text v) (hnested : Nested (limit + 1) v)
    (hheld : ∀ m ∈ v.members, m.1 = ("model" : Str) → Holdable takes limit m.2)
    (h : Presents takes limit v (de (bytes text))) : ReadsLast de text v := by
  have hmembers : ∀ m ∈ v.members, Nested limit m.2 := by
    cases hnested with
    | obj hms => exact hms
    | _ => exact List.forall_mem_nil _
  have hadmits := ModelProbe.validate_presents h hmembers hheld
  refine ⟨fun w hw => hw.unique htext, hadmits, fun hnone => ?_, ?_⟩
  · cases hv : ModelProbe.validateChatBody de (bytes text) with
    | ok m =>
      obtain ⟨hm, hne⟩ := (hadmits m).mp hv
      exact absurd (hnone m hm) hne
    | error e => exact ⟨e, rfl, ModelProbe.code_of_validate hv⟩
  · intro api env rid headers body up hread hbody hup
    obtain ⟨hsame, m, hm, heffects⟩ := chat_of_reader hread hup
    rw [hbody] at hsame hm
    obtain ⟨hmember, hne⟩ := (hadmits m).mp hm
    exact ⟨hsame, m, hmember, hne, heffects⟩

theorem spells_modelA : Spells (.members [("model", .str "A")]) ("\"model\":\"A\"\x7d" : Str) [] := by
  have hmodel : Plain ("model" : Str) := by decide
  have hname : Plain ("A" : Str) := by decide
  have hlast := Spells.last hmodel blank_nil (hname.spells ['\x7d'])
  exact hlast

theorem presents_modelA : Entry.Presents FitsDouble 126 ("model", .str "A")
    ⟨"model", .ok (.str "A"), .ok ()⟩ :=
  ⟨rfl, fun _ => rfl, fun _ => ⟨_, rfl, fun _ => Iff.rfl⟩⟩

/-- Two members of the name: the second counts. -/
theorem readsLast_twice : ReadsLast
    (fun _ => .map [⟨"model", .ok .null, .ok ()⟩, ⟨"model", .ok (.str "A"), .ok ()⟩] (.ok ()))
    ("\x7b\"model\":null,\"model\":\"A\"\x7d" : Str)
    (.obj [("model", .null), ("model", .str "A")]) := by
  have hmodel : Plain ("model" : Str) := by decide
  have hfirst := Spells.next hmodel blank_nil (.null _) spells_modelA
  have hnull : Entry.Presents FitsDouble 126 ("model", .null) ⟨"model", .ok .null, .ok ()⟩ :=
    ⟨rfl, fun _ => rfl, fun _ => ⟨_, rfl, fun t => Iff.rfl⟩⟩
  refine readsLast ⟨[], _, [], rfl, blank_nil, .obj hfirst, blank_nil⟩ (.obj ?_) ?_
    (.obj (.cons hnull (.cons presents_modelA .nil)))
  · exact List.forall_mem_cons.mpr ⟨.null _, List.forall_mem_singleton.mpr (.str ..)⟩
  · exact List.forall_mem_cons.mpr
      ⟨fun _ => .null _, List.forall_mem_singleton.mpr fun _ => .str ..⟩

/-! ## A number out of range -/

def overflowText : Str := "\x7b\"model\":1e999,\"model\":\"A\"\x7d"

def overflowValue : Json := .obj [("model", .num (10 ^ 999)), ("model", .str "A")]

/-- What `serde_json` makes of `overflowText`: the first value is an error, though it can be skipped. -/
def overflowReader : Deserializer := fun _ =>
  .map [⟨"model", .error "number out of range at line 1 column 14", .ok ()⟩,
    ⟨"model", .ok (.str "A"), .ok ()⟩] (.ok ())

theorem jsonNumber_overflow : jsonNumber ("1e999" : Str) = some (10 ^ 999) := by
  have hdecimal : parseDecimal ("1e999" : Str) = some (scale10 1 999) := by decide +kernel
  have hnumber : jsonNumber ("1e999" : Str) = parseDecimal ("1e999" : Str) := by
    simp [jsonNumber]
  rw [hnumber, hdecimal]
  simp [scale10]

theorem spells_overflow : SpellsText overflowText overflowValue := by
  have hmodel : Plain ("model" : Str) := by decide
  have hfirst :=
    Spells.next hmodel blank_nil (.num jsonNumber_overflow (by rintro _ ⟨⟩; rfl)) spells_modelA
  exact ⟨[], _, [], rfl, blank_nil, .obj hfirst, blank_nil⟩

theorem not_fitsDouble_overflow : ¬ FitsDouble (10 ^ 999) := by
  have hlarge : (2 : ℚ) ^ 1024 ≤ 10 ^ 999 := calc
    (2 : ℚ) ^ 1024 = 4 ^ 512 := by rw [show (4 : ℚ) = 2 ^ 2 by norm_num, ← pow_mul]
    _ ≤ 10 ^ 512 := pow_le_pow_left₀ (by norm_num) (by norm_num) _
    _ ≤ 10 ^ 999 := pow_le_pow_right₀ (by norm_num) (by norm_num)
  have hpos : (0 : ℚ) < 2 ^ 970 := by positivity
  rw [FitsDouble, abs_of_pos (by positivity), not_lt]
  exact (sub_lt_self _ hpos).le.trans hlarge

theorem presents_overflow (bs : List UInt8) : Presents FitsDouble 126 overflowValue (overflowReader bs) := by
  have hfirst : Entry.Presents FitsDouble 126 ("model", .num (10 ^ 999))
      ⟨"model", .error "number out of range at line 1 column 14", .ok ()⟩ := by
    refine ⟨rfl, fun _ => rfl, fun h => ?_⟩
    cases h with
    | num _ h => exact absurd h not_fitsDouble_overflow
  exact .obj (.cons hfirst (.cons presents_modelA .nil))

theorem nested_overflow : Nested 127 overflowValue := by
  refine .obj (List.forall_mem_cons.mpr ⟨.num _ trivial, List.forall_mem_singleton.mpr (.str ..)⟩)

/-- A JSON text whose last `model` is `A`, and is refused. -/
theorem not_readsLast_overflow : SpellsText overflowText overflowValue ∧ Nested 127 overflowValue ∧
    Presents FitsDouble 126 overflowValue (overflowReader (bytes overflowText)) ∧
    ¬ ReadsLast overflowReader overflowText overflowValue := by
  refine ⟨spells_overflow, nested_overflow, presents_overflow _, fun h => ?_⟩
  have hadmitted := (h.admits ("A" : Str)).mpr ⟨rfl, by decide⟩
  cases hadmitted

end Saltnitor.ControlApi
