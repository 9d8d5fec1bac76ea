import Saltnitor.ControlApi.Ensure

/-!
# The router's model list

A router says in `/v1/models` which of its models are loaded, in one of two
shapes; `modelsBody` is how the repository's fake router writes the list. The program
reads one shape only. Where the list is read right, ensuring a model the router
holds ends at the probe.
-/

/-! ## The fake router -/

namespace Saltnitor.FakeLlama

open Rust

/-- How the list reports load state. -/
inductive ModelsShape where
  /-- `"status": {"value": "loaded"}`. -/
  | statusObject
  /-- `"status": "loaded"`. -/
  | legacy
  deriving DecidableEq

/-- What the list is made of. -/
structure Shared where
  /-- The ids of the scenario's models. -/
  models : List Str
  modelsShape : ModelsShape
  loaded : List Str

namespace Shared

def status (shape : ModelsShape) (state : Str) : Json :=
  match shape with
  | .statusObject => .obj [("value", .str state)]
  | .legacy => .str state

def entry (st : Shared) (id : Str) : Json :=
  .obj [("id", .str id), ("object", .str "model"), ("owned_by", .str "llamacpp"),
    ("status", status st.modelsShape (if st.loaded.contains id then "loaded" else "unloaded"))]

def modelsBody (st : Shared) : Json :=
  .obj [("object", .str "list"), ("data", .arr (st.models.map st.entry))]

/-- The models in the list that are loaded. -/
def loadedIds (st : Shared) : List Str := st.models.filter fun id => st.loaded.contains id

end Shared

end Saltnitor.FakeLlama

namespace Saltnitor.ControlApi

open Rust Http ProxyStream FakeLlama

/-! ## Reading the list -/

theorem entryLoaded_entry (st : Shared) (id : Str) :
    entryLoaded (st.entry id) = (st.modelsShape == .legacy && st.loaded.contains id) := by
  have hstatus : entryLoaded (st.entry id) = ((Shared.status st.modelsShape
      (if st.loaded.contains id then "loaded" else "unloaded")).asStr ==
      some ("loaded" : Str)) := rfl
  rw [hstatus]
  cases st.modelsShape with
  | statusObject => rfl
  | legacy => cases st.loaded.contains id <;> decide

theorem routerLoaded_modelsBody (st : Shared) :
    routerLoaded (some st.modelsBody) =
      if st.modelsShape = .legacy then st.loadedIds.filter (· ≠ []) else [] := by
  have hlist : routerLoaded (some st.modelsBody) = (st.models.map st.entry).filterMap fun m =>
      let id := (m.index "id").asStr.getD []
      if entryLoaded m && id ≠ [] then some id else none := rfl
  have hid (id : Str) : ((st.entry id).index "id").asStr.getD [] = id := rfl
  rw [hlist, List.filterMap_map, Shared.loadedIds, List.filter_filter]
  simp only [Function.comp_def, hid, entryLoaded_entry]
  cases st.modelsShape with
  | statusObject => simp
  | legacy =>
    rw [if_pos rfl, ← List.filterMap_eq_filter]
    refine List.filterMap_congr fun id _ => ?_
    rw [BEq.rfl, Bool.true_and, Bool.and_comm, Option.guard]

/-! ## Ensuring what is held -/

/-- The list is read as it is meant, and ensuring a profile that is loaded ends at the probe,
whatever the host reports. -/
structure ReadsList (st : Shared) : Prop where
  reads : routerLoaded (some st.modelsBody) = st.loadedIds
  resident : ∀ (api : Api) (env : EnsureEnv) (sink : ProgressSink) (req : EnsureRequest)
    (prof : ProfileMeta), api.profile req.profile = some prof → req.profile ∈ st.loadedIds →
    env.models = some st.modelsBody →
    ensure api env sink req = (.alreadyResident req.profile api.inferEndpoint,
      sink.emit (.received req.profile req.profile) ++ [.probe (modelsRequest api)])

/-- The shape is the one the program knows and no loaded model is called nothing, or no model is
loaded. -/
def Readable (st : Shared) : Prop :=
  st.modelsShape = .legacy ∧ [] ∉ st.loadedIds ∨ st.loadedIds = []

theorem reads_iff (st : Shared) :
    routerLoaded (some st.modelsBody) = st.loadedIds ↔ Readable st := by
  rw [routerLoaded_modelsBody, Readable]
  cases st.modelsShape with
  | statusObject =>
    rw [if_neg (by decide)]
    exact ⟨fun h => .inr h.symm, fun h => h.elim (fun h => nomatch h.1) Eq.symm⟩
  | legacy =>
    rw [if_pos rfl, List.filter_eq_self]
    constructor
    · exact fun h => .inl ⟨rfl, fun hmem => by simpa using h [] hmem⟩
    · rintro (⟨-, h⟩ | h) id hid
      · exact decide_eq_true fun he => h (he ▸ hid)
      · rw [h] at hid
        cases hid

/-- **What the fake router writes is read right** exactly in the older shape, or when there is
nothing to read. -/
theorem readsList_iff (st : Shared) : ReadsList st ↔ Readable st := by
  refine ⟨fun h => (reads_iff st).mp h.reads, fun h => ?_⟩
  have hreads := (reads_iff st).mpr h
  refine ⟨hreads, fun api env sink req prof hp hmem hm => ?_⟩
  have hres : req.profile ∈ routerLoaded env.models := by rw [hm, hreads]; exact hmem
  rw [ensure_known req hp, ensureLocked_resident req hres]

/-- `A` is loaded and says so in the current shape. -/
theorem not_readsList_statusObject :
    ¬ ReadsList { models := ["A"], modelsShape := .statusObject, loaded := ["A"] } := by
  intro h
  have := h.reads
  revert this
  decide

end Saltnitor.ControlApi
