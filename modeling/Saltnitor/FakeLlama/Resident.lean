import Saltnitor.FakeLlama.Engine
import Saltnitor.Rust.JsonPrint

/-!
# Which models are loaded

`asks` is what one request wants of the loaded models: a chat and a load bring one in, an unload
takes one out, and nothing else touches them. The list the stand-in keeps is the queue of `Fifo`
(`handle_loaded`), so after any requests it holds what came in last (`serves_run`), and says so.
-/

namespace Saltnitor.FakeLlama

open Rust Http

/-! ## The queue -/

theorem dropOldest_eq (max : Nat) (l : List Str) : Engine.dropOldest max l = l.rtake max := by
  induction l with
  | nil => simp [Engine.dropOldest, List.rtake]
  | cons m l ih =>
    rw [Engine.dropOldest]
    split
    · rename_i hlt
      have hle : max ≤ l.length := by rw [List.length_cons] at hlt; omega
      rw [ih, List.rtake, List.rtake, List.length_cons, Nat.succ_sub hle, List.drop_succ_cons]
    · rename_i hge
      rw [Recent.rtake_of_le (by omega)]

variable {st : Engine} {sc : Scenario}

namespace Engine

theorem loaded_load (st : Engine) (id : Str) :
    (st.load id).loaded = Fifo.step st.scenario.maxLoaded st.loaded (.load id) := by
  have hmem : (st.loaded.any (· == id)) = true ↔ id ∈ st.loaded := by simp
  rw [load, Fifo.step]
  by_cases h : id ∈ st.loaded
  · rw [if_pos h, if_pos (hmem.mpr h)]
  · rw [if_neg h, if_neg (mt hmem.mp h)]
    cases hmax : st.scenario.maxLoaded with
    | none => rfl
    | some max => exact dropOldest_eq max _

theorem loaded_unload (st : Engine) (id : Str) :
    (st.unload id).loaded = Fifo.step st.scenario.maxLoaded st.loaded (.unload id) := by
  rw [Fifo.step]
  refine List.filter_congr fun m _ => ?_
  by_cases h : m = id <;> simp [h]

theorem scenario_load (st : Engine) (id : Str) : (st.load id).scenario = st.scenario := by
  unfold load
  split <;> rfl

theorem events_load (st : Engine) (id : Str) : (st.load id).events = st.events := by
  unfold load
  split <;> rfl

end Engine

/-! ## What a request wants -/

def Scenario.known (sc : Scenario) (id : Str) : Bool :=
  sc.models.isEmpty || sc.models.any (·.id == id)

/-- A command for the model that is named, if it is known. -/
def Scenario.wants (sc : Scenario) (cmd : Str → Fifo.Cmd Str) : Option Str → List (Fifo.Cmd Str)
  | none => []
  | some id => if sc.known id then [cmd id] else []

section Asks

variable (read : Str → Option Json) (sc : Scenario) (req : Request)

/-- The model the body names. -/
def named : Option Str := ((bodyJson read req).index "model").asStr

/-- What a request wants of the loaded models. -/
def asks : List (Fifo.Cmd Str) :=
  if req.method.asStr = "POST" then
    match sc.routes (routeKey req) with
    | some (.chunks _ _) =>
      if req.uri.path = Engine.chatPath then [.load ((named read req).getD "fake")] else []
    | some _ => []
    | none =>
      if req.uri.path = "/models/load" ∨ req.uri.path = Engine.chatPath then
        sc.wants .load (named read req)
      else if req.uri.path = "/models/unload" then sc.wants .unload (named read req)
      else []
  else []

end Asks

/-- What a step does: the commands, and nothing else. -/
structure Engine.Takes (st st' : Engine) (cmds : List (Fifo.Cmd Str)) : Prop where
  loaded : st'.loaded = Fifo.run st.scenario.maxLoaded st.loaded cmds
  scenario : st'.scenario = st.scenario
  events : st'.events = st.events

namespace Engine

theorem takes_nothing (st : Engine) : st.Takes st [] := ⟨rfl, rfl, rfl⟩

theorem takes_load (st : Engine) (id : Str) : st.Takes (st.load id) [.load id] :=
  ⟨st.loaded_load id, st.scenario_load id, st.events_load id⟩

theorem takes_unload (st : Engine) (id : Str) : st.Takes (st.unload id) [.unload id] :=
  ⟨st.loaded_unload id, rfl, rfl⟩

theorem takes_loadUnload (st : Engine) (json : Json) (load : Bool) :
    st.Takes (st.loadUnload json load).1
      (st.scenario.wants (if load then .load else .unload) (json.index "model").asStr) := by
  unfold loadUnload
  cases (json.index "model").asStr with
  | none => exact takes_nothing st
  | some id =>
    rw [Scenario.wants]
    dsimp only
    rw [show st.known id = st.scenario.known id from rfl]
    cases st.scenario.known id with
    | false => exact takes_nothing st
    | true =>
      cases load with
      | false => exact takes_unload st id
      | true => exact takes_load st id

theorem takes_chat (st : Engine) (json : Json) :
    st.Takes (st.chat json).1 (st.scenario.wants .load (json.index "model").asStr) := by
  unfold chat
  cases (json.index "model").asStr with
  | none => exact takes_nothing st
  | some id =>
    rw [Scenario.wants]
    dsimp only
    rw [show st.known id = st.scenario.known id from rfl]
    cases st.scenario.known id with
    | false => exact takes_nothing st
    | true =>
      show Takes st (if (json.index "stream").asBool.getD false = true then _ else _ : Engine × Reply).1 _
      split
      · exact takes_load st id
      · exact takes_load st id

/-- A fault that sends chunks loads the model of a chat, whichever it is. -/
theorem takes_applyFault (st : Engine) (fault : Fault) (method path : Str) (json : Json) :
    st.Takes (st.applyFault fault method path json).1
      (match fault with
        | .chunks _ _ =>
          if method = "POST" ∧ path = chatPath then [.load ((json.index "model").asStr.getD "fake")]
          else []
        | _ => []) := by
  cases fault with
  | chunks items delayMs =>
    by_cases hchat : method = "POST" ∧ path = chatPath
    · have hb : (decide (method = "POST".toList) && decide (path = chatPath)) = true := by simpa using hchat
      simp only [applyFault, hb, Bool.true_and, if_true, if_pos hchat]
      split
      · exact takes_load ..
      · exact takes_load ..
    · have hb : (decide (method = "POST".toList) && decide (path = chatPath)) = false := by simpa using hchat
      simp only [applyFault, hb, Bool.false_and, Bool.false_eq_true, if_false, if_neg hchat]
      exact takes_nothing st
  | status code body => exact takes_nothing st
  | hangBeforeHeaders => exact takes_nothing st
  | crashAfter chunks =>
    unfold applyFault
    dsimp only
    split
    · exact takes_nothing st
    · exact takes_nothing st
  | malformed =>
    unfold applyFault
    dsimp only
    split
    · exact takes_nothing st
    · exact takes_nothing st
  | rawChunks items delayMs code contentType headers => exact takes_nothing st

theorem takes_route (st : Engine) {method path : Str} {json : Json} :
    st.Takes (st.route method path json).1
      (if method = "POST" then
        if path = "/models/load" ∨ path = chatPath then
          st.scenario.wants .load (json.index "model").asStr
        else if path = "/models/unload" then
          st.scenario.wants .unload (json.index "model").asStr
        else []
      else []) := by
  have hget : ("GET".toList : Str) ≠ "POST" := by decide
  have hunload : ¬ (("/models/unload".toList : Str) = "/models/load".toList ∨
      ("/models/unload".toList : Str) = chatPath) := by decide +kernel
  by_cases hpost : method = "POST"
  · subst hpost
    simp only [route, hget.symm, false_and, if_false, true_and, if_true]
    by_cases h1 : path = "/models/load".toList
    · rw [if_pos h1, if_pos (.inl h1)]
      exact takes_loadUnload st json true
    rw [if_neg h1]
    by_cases h2 : path = "/models/unload".toList
    · subst h2
      rw [if_pos rfl, if_neg hunload, if_pos rfl]
      exact takes_loadUnload st json false
    rw [if_neg h2]
    by_cases h3 : path = chatPath
    · rw [if_pos h3, if_pos (.inr h3)]
      exact takes_chat st json
    · rw [if_neg h3, if_neg (not_or.mpr ⟨h1, h3⟩), if_neg h2]
      exact takes_nothing st
  · simp only [route, hpost, false_and, if_false]
    repeat' split
    all_goals exact takes_nothing st

end Engine

/-! ## Requests -/

section Requests

variable {read : Str → Option Json}

/-- **One request**: it is recorded, and the loaded models change as it asks. -/
theorem handle_takes (st : Engine) (fs : Fs) (req : Request) :
    (st.record (requestRecord req)).Takes (st.handle read fs req).1 (asks read st.scenario req) := by
  unfold Engine.handle asks
  dsimp only
  rw [show (st.record (requestRecord req)).scenario = st.scenario from rfl]
  cases hfault : st.scenario.routes (routeKey req) with
  | some fault =>
    have h := (st.record (requestRecord req)).takes_applyFault fault req.method.asStr req.uri.path
      (bodyJson read req)
    refine cast (congrArg _ ?_) h
    cases fault <;> simp [named, ite_and]
  | none =>
    dsimp only
    split
    · rename_i reply hreply
      have hget : req.method.asStr = "GET".toList := by
        by_contra hne
        rw [if_neg hne] at hreply
        cases hreply
      rw [if_neg (by rw [hget]; decide)]
      exact Engine.takes_nothing _
    · exact Engine.takes_route _

/-- What a run of requests asks for, in order. -/
def asked (read : Str → Option Json) (sc : Scenario) (reqs : List (Fs × Request)) : List (Fifo.Cmd Str) :=
  reqs.flatMap fun r => asks read sc r.2

theorem run_takes (st : Engine) (reqs : List (Fs × Request)) :
    (st.run read reqs).loaded = Fifo.run st.scenario.maxLoaded st.loaded (asked read st.scenario reqs) ∧
      (st.run read reqs).scenario = st.scenario ∧
      (st.run read reqs).events = st.events ++ reqs.map fun r => requestRecord r.2 := by
  induction reqs generalizing st with
  | nil => exact ⟨rfl, rfl, (List.append_nil _).symm⟩
  | cons r reqs ih =>
    have h := @handle_takes read st r.1 r.2
    obtain ⟨hloaded, hscenario, hevents⟩ := ih (st.handle read r.1 r.2).1
    have hsc : (st.handle read r.1 r.2).1.scenario = st.scenario := h.scenario
    rw [hsc] at hloaded hscenario
    refine ⟨hloaded.trans ?_, hscenario, hevents.trans ?_⟩
    · rw [h.loaded]
      exact (List.foldl_append ..).symm
    · rw [h.events, List.map_cons, Engine.record, List.append_assoc]
      rfl

end Requests

/-- The list of `/v1/models` when `held` are loaded. -/
def modelList (sc : Scenario) (held : Str → Bool) : Json :=
  .obj [("object", .str "list"), ("data", .arr (sc.models.map fun m =>
    .obj [("id", .str m.id), ("object", .str "model"), ("owned_by", .str "llamacpp"),
      ("status", Shared.status sc.modelsShape (if held m.id then "loaded" else "unloaded"))]))]

variable {read : Str → Option Json} {reqs : List (Fs × Request)}

/-- The stand-in keeps what came in last: what is loaded is what the requests asked for, the
oldest dropped first; the list of models says so; and every request is recorded. -/
structure Serves (read : Str → Option Json) (sc : Scenario) (reqs : List (Fs × Request))
    (held : Fifo.Stamped Str) (st : Engine) : Prop where
  rep : Fifo.Rep st.loaded held
  bounded : ∀ max ∈ sc.maxLoaded, st.loaded.length ≤ Nat.max max (Engine.new sc).loaded.length
  recorded : st.events = reqs.map fun r => requestRecord r.2
  listed : ∀ (fs : Fs) (req : Request), req.method = .get →
    req.uri.path = "/models" ∨ req.uri.path = "/v1/models" → sc.routes (routeKey req) = none →
    sc.replayFrom = none →
    (st.handle read fs req).2 = jsonResp 200 (modelList sc fun id => (held.since id).isSome)

theorem modelsBody_shared (st : Engine) {held : Str → Bool} (h : ∀ id, id ∈ st.loaded ↔ held id = true) :
    st.shared.modelsBody = modelList st.scenario held := by
  have hid (id : Str) : st.loaded.contains id = held id := by
    rw [Bool.eq_iff_iff, List.contains_iff_mem, h]
  simp only [Shared.modelsBody, Engine.shared, modelList, List.map_map, Function.comp_def,
    Shared.entry, hid]

/-- The list of models, where nothing stands in for it. -/
theorem handle_models (st : Engine) (fs : Fs) {req : Request} (hget : req.method = .get)
    (hpath : req.uri.path = "/models" ∨ req.uri.path = "/v1/models")
    (hroute : st.scenario.routes (routeKey req) = none) (hreplay : st.scenario.replayFrom = none) :
    (st.handle read fs req).2 = jsonResp 200 st.shared.modelsBody := by
  have hmethod : req.method.asStr = "GET".toList := by rw [hget]; rfl
  have hhealth : req.uri.path ≠ "/health".toList := by
    rcases hpath with h | h
    · rw [h]; decide +kernel
    · rw [h]; decide +kernel
  unfold Engine.handle
  dsimp only
  rw [show (st.record (requestRecord req)).scenario = st.scenario from rfl, hroute, hmethod]
  dsimp only
  rw [if_pos rfl, Engine.replay, show (st.record (requestRecord req)).scenario = st.scenario from rfl,
    hreplay]
  show (Engine.route _ _ _ _).2 = _
  rw [Engine.route, if_neg (fun h => hhealth h.2), if_pos ⟨rfl, hpath⟩]
  rfl

/-- A chat for a known model that asks for no stream. -/
theorem handle_chat (st : Engine) (fs : Fs) {req : Request} {id : Str} (hpost : req.method = .post)
    (hpath : req.uri.path = Engine.chatPath) (hroute : st.scenario.routes (routeKey req) = none)
    (hnamed : named read req = some id) (hknown : st.scenario.known id = true)
    (hstream : ((bodyJson read req).index "stream").asBool = none) :
    (st.handle read fs req).2 = jsonResp 200 (completion id st.chatItems.flatten) := by
  have hmethod : req.method.asStr = "POST".toList := by rw [hpost]; rfl
  have hpost : "POST".toList ≠ "GET".toList := by decide
  have hother : Engine.chatPath ≠ "/models/load".toList ∧ Engine.chatPath ≠ "/models/unload".toList := by
    decide +kernel
  unfold named at hnamed
  unfold Engine.handle
  dsimp only
  rw [show (st.record (requestRecord req)).scenario = st.scenario from rfl, hroute, hmethod, hpath]
  dsimp only
  rw [if_neg hpost]
  dsimp only
  rw [Engine.route, if_neg (fun h => hpost h.1), if_neg (fun h => hpost h.1),
    if_neg (fun h => hother.1 h.2), if_neg (fun h => hother.2 h.2), if_neg (fun h => hpost h.1),
    if_neg (fun h => hpost h.1), if_pos ⟨rfl, rfl⟩, Engine.chat, hnamed]
  dsimp only
  rw [show (st.record (requestRecord req)).known id = st.scenario.known id from rfl, hknown, hstream]
  rw [if_neg (by decide), if_neg (by decide), Engine.chatItems, Engine.scenario_load]
  rfl

/-- **After any requests the stand-in has loaded what came in last.** -/
theorem serves_run (read : Str → Option Json) (sc : Scenario)
    (hdistinct : ((sc.models.filter (·.loaded)).map (·.id)).Nodup) (reqs : List (Fs × Request)) :
    Serves read sc reqs
      ((Fifo.Stamped.ofList (Engine.new sc).loaded).run sc.maxLoaded (asked read sc reqs))
      ((Engine.new sc).run read reqs) := by
  obtain ⟨hloaded, hscenario, hevents⟩ := @run_takes read (Engine.new sc) reqs
  have hrep := Fifo.rep_run sc.maxLoaded (Fifo.rep_ofList hdistinct) (asked read sc reqs)
  rw [show Fifo.run sc.maxLoaded ((sc.models.filter (·.loaded)).map (·.id)) (asked read sc reqs) =
    ((Engine.new sc).run read reqs).loaded from hloaded.symm] at hrep
  refine ⟨hrep, fun max hmax => ?_, hevents.trans (List.nil_append _), ?_⟩
  · rw [hloaded]
    exact Fifo.length_run_le hmax ..
  · intro fs req hget hpath hroute hreplay
    rw [handle_models _ fs hget hpath (by rw [hscenario]; exact hroute)
      (by rw [hscenario]; exact hreplay), modelsBody_shared _ fun id => hrep.mem id, hscenario]
    rfl

/-- `A` is loaded, and there is room for one. -/
def oneOfTwo : Scenario where
  modelsShape := .legacy
  maxLoaded := some 1
  models := [⟨"A", true⟩, ⟨"B", false⟩]

/-- The warm request of the service. -/
def warmFor (id : Str) : Request where
  method := .post
  uri := ⟨Engine.chatPath, none⟩
  body := { chunks := [bytes (ControlApi.warmBody id)] }

theorem serves_run_second :
    let reqs := [(fun _ _ => none, warmFor "A"), (fun _ _ => none, warmFor "B")]
    ((Engine.new oneOfTwo).run readText reqs).loaded = ["B"] ∧
      Serves readText oneOfTwo reqs
        ((Fifo.Stamped.ofList ["A".toList]).run (some 1) (asked readText oneOfTwo reqs))
        ((Engine.new oneOfTwo).run readText reqs) :=
  ⟨by decide +kernel, serves_run readText oneOfTwo (by decide) _⟩

end Saltnitor.FakeLlama
