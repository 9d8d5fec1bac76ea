import Saltnitor.ControlApi.Interleave
import Saltnitor.FakeLlama.Capture
import Saltnitor.FakeLlama.Resident
import Saltnitor.Hotswap

/-!
# The service and the stand-in together

`Loop.step` interleaves `ensure` calls as `step` does, but what the router answers is what the
stand-in answers: the probe hears its list of models, and the warm request loads in it. `LoopInv`
joins the ghosts of the service to what the stand-in holds; it is kept by every step. So what the
service announces is what was loaded, in order, and nothing is loaded that is there already.
-/

namespace Saltnitor.ControlApi

open Rust Http FakeLlama

/-! ## The HTTP client -/

/-- What the client makes of an answer, beside reading JSON. -/
structure Client where
  read : Str → Option Json
  /-- How a status prints. -/
  shown : Nat → Str
  timedOut : Str
  /-- The connection was closed before an answer. -/
  closed : Str

/-- A request as the router gets it: the path is what follows the base. -/
def arrives (api : Api) (out : Outgoing) : Request where
  method := out.method
  uri := ⟨out.url.drop api.routerBase.length, none⟩
  headers := out.headers
  body := { chunks := [out.body] }

namespace Client

variable (client : Client)

/-- An answer as JSON; a value is printed and read back. -/
def heard : Reply → Option Json
  | .json _ v => some v
  | .text _ _ body => client.read body
  | .bytes _ _ body => (fromUtf8 body).bind client.read
  | .stream _ pieces _ none => client.read pieces.flatten
  | .raw _ _ _ items _ => client.read items.flatten
  | .stream _ _ _ (some _) | .hangs | .panics => none

def status : Reply → WarmReply
  | .json code _ | .text code _ _ | .bytes code _ _ | .raw code _ _ _ _ => .ok ⟨code, client.shown code⟩
  | .stream .. => .ok ⟨200, client.shown 200⟩
  | .hangs => .error client.timedOut
  | .panics => .error client.closed

end Client

/-! ## Steps -/

structure Loop where
  world : World
  engine : Engine

/-- The steps of a call that do not meet the router. -/
inductive Quiet where
  | lookup
  | acquire
  | judge (t : Telemetry)
  | warm
  | announce
  | finish

def Quiet.act : Quiet → Act
  | lookup => .lookup
  | acquire => .acquire
  | judge t => .judge t
  | warm => .warm
  | announce => .announce
  | finish => .finish

inductive LoopLabel where
  | call (req : EnsureRequest)
  | quiet (i : Nat) (a : Quiet)
  | probe (i : Nat)
  | answer (i : Nat) (loadMs : Nat)

namespace Loop

def init (sc : Scenario) : Loop := { world := .init none, engine := .new sc }

def step (api : Api) (client : Client) (fs : Fs) (st : Loop) : LoopLabel → Option Loop
  | .call req => (ControlApi.step api st.world (.call req false)).map fun w => { st with world := w }
  | .quiet i a => (ControlApi.step api st.world (.act i a.act)).map fun w => { st with world := w }
  | .probe i =>
    let r := st.engine.handle client.read fs (arrives api (modelsRequest api))
    (ControlApi.step api st.world (.act i (.probe (client.heard r.2)))).map fun w =>
      { world := w, engine := r.1 }
  | .answer i loadMs =>
    (st.world.calls[i]?).bind fun c =>
      (warmRequest api c.req.profile).bind fun out =>
        let r := st.engine.handle client.read fs (arrives api out)
        (ControlApi.step api st.world (.act i (.answer (client.status r.2) loadMs none))).map fun w =>
          { world := w, engine := r.1 }

end Loop

/-- A stand-in for the router of this service: it has the service's profiles, lists them in the
shape the service knows, has room for one, and nothing stands in for its answers. The names are
plain, and the client takes the warm request. -/
structure Matches (R : Reader) (api : Api) (sc : Scenario) : Prop where
  legacy : sc.modelsShape = .legacy
  room : sc.maxLoaded ≠ some 0
  noFault : sc.routes "GET /v1/models" = none ∧ sc.routes "POST /v1/chat/completions" = none
  noReplay : sc.replayFrom = none
  listed : ∀ id prof, api.profile id = some prof → id ∈ sc.models.map (·.id)
  plain : ∀ id prof, api.profile id = some prof → id ≠ [] ∧ Plain id
  within : ∀ id prof, api.profile id = some prof → R.within (Hotswap.warmPayload id)
  bearer : (warmHeaders api.inferBearer).isSome = true

/-! ## The two requests -/

variable {R : Reader} {api : Api} {sc : Scenario} {client : Client} {fs : Fs} {st : Engine} {id : Str}
  {prof : ProfileMeta}

theorem drop_routerBase (api : Api) (path : Str) :
    (api.routerBase ++ path).drop api.routerBase.length = path := List.drop_left ..

/-- The probe hears which of the listed models are loaded, and changes nothing. -/
theorem Matches.probe (client : Client) (fs : Fs) (h : Matches R api sc) (hsc : st.scenario = sc)
    (hid : api.profile id = some prof) :
    let r := st.handle client.read fs (arrives api (modelsRequest api))
    r.1.loaded = st.loaded ∧ r.1.scenario = sc ∧
      (id ∈ routerLoaded (client.heard r.2) ↔ id ∈ st.loaded) := by
  intro r
  have hpath : (arrives api (modelsRequest api)).uri.path = "/v1/models".toList :=
    drop_routerBase api _
  have hkey : routeKey (arrives api (modelsRequest api)) = "GET /v1/models".toList := by
    rw [routeKey, hpath]
    rfl
  have htakes := @handle_takes client.read st fs (arrives api (modelsRequest api))
  have hasks : asks client.read st.scenario (arrives api (modelsRequest api)) = [] :=
    if_neg (by decide : ¬ Method.get.asStr = "POST".toList)
  rw [hasks] at htakes
  have hreply : r.2 = jsonResp 200 st.shared.modelsBody :=
    handle_models st fs rfl (.inr hpath) (by rw [hkey, hsc]; exact h.noFault.1)
      (by rw [hsc]; exact h.noReplay)
  refine ⟨htakes.loaded, htakes.scenario.trans hsc, ?_⟩
  have hmodels : id ∈ st.shared.models := by
    have := h.listed id prof hid
    rwa [← hsc] at this
  have hshape : st.shared.modelsShape = .legacy := by
    rw [show st.shared.modelsShape = st.scenario.modelsShape from rfl, hsc, h.legacy]
  rw [hreply, show client.heard (jsonResp 200 st.shared.modelsBody) = some st.shared.modelsBody from rfl,
    routerLoaded_modelsBody, if_pos hshape, List.mem_filter, Shared.loadedIds, List.mem_filter,
    List.contains_iff_mem]
  simp only [hmodels, true_and, decide_eq_true_eq, and_iff_left (h.plain id prof hid).1]
  rfl

theorem asMap_warmPayload (id : Str) : (Hotswap.warmPayload id).asMap = Hotswap.warmPayload id := by
  rfl

theorem Matches.warm (fs : Fs) (h : Matches R api sc) (hread : client.read = R.read) (hsc : st.scenario = sc)
    (hid : api.profile id = some prof) {out : Outgoing} (hout : warmRequest api id = some out) :
    let r := st.handle client.read fs (arrives api out)
    r.1.loaded = Fifo.step sc.maxLoaded st.loaded (.load id) ∧ r.1.scenario = sc ∧
      warmResult (client.status r.2) = .ok () := by
  intro r
  obtain ⟨headers, -, rfl⟩ := Option.map_eq_some_iff.mp hout
  have hpath := drop_routerBase api ("/v1/chat/completions" : Str)
  set req := arrives api { method := .post, url := api.chatUrl, headers, body := bytes (warmBody id) }
    with hreq
  have hpath : req.uri.path = Engine.chatPath := hpath
  have hkey : routeKey req = "POST /v1/chat/completions".toList := by
    rw [routeKey, hpath]
    rfl
  have hjson : bodyJson client.read req = Hotswap.warmPayload id := by
    have htext : R.read (warmBody id) = some (Hotswap.warmPayload id) :=
      (R.read_eq_some _ _).mpr ⟨_, Hotswap.spellsText_warmBody (h.plain id prof hid).2,
        h.within id prof hid, (asMap_warmPayload id).symm⟩
    have hbytes : toBytes req.body = bytes (warmBody id) := List.flatten_singleton
    rw [bodyJson, hbytes, fromUtf8_bytes, hread, Option.bind_some, htext, Option.getD_some]
  have hnamed : named client.read req = some id := by rw [named, hjson]; rfl
  have hstream : ((bodyJson client.read req).index "stream").asBool = none := by rw [hjson]; rfl
  have hknown : st.scenario.known id = true := by
    obtain ⟨m, hm, he⟩ := List.mem_map.mp (h.listed id prof hid)
    rw [hsc, Scenario.known, List.any_eq_true.mpr ⟨m, hm, by simpa using he⟩, Bool.or_true]
  have hroute : st.scenario.routes (routeKey req) = none := by rw [hsc, hkey]; exact h.noFault.2
  have hasks : asks client.read st.scenario req = [.load id] := by
    rw [asks, if_pos (by rfl), hroute]
    dsimp only
    rw [if_pos (.inr hpath), hnamed, Scenario.wants, if_pos hknown]
  have htakes := @handle_takes client.read st fs req
  rw [hasks] at htakes
  refine ⟨?_, htakes.scenario.trans hsc, ?_⟩
  · rw [← hsc]
    exact htakes.loaded
  · rw [show r.2 = _ from handle_chat st fs rfl hpath hroute hnamed hknown hstream]
    rfl

/-! ## The invariant -/

/-- What a call knows of the loaded models while it holds the lock; no load has failed. -/
def Call.Sees (loaded : List Str) (c : Call) : Prop :=
  match c.phase with
  | .probed _ | .admitted _ | .warming _ => c.req.profile ∉ loaded
  | .warmed .. | .announced .. => loaded.getLast? = some c.req.profile
  | _ => True

/-- An outcome that is true of what is loaded. -/
def EnsureOutcome.TrueOf (loaded : List Str) : EnsureOutcome → Prop
  | .loaded m .. => loaded.getLast? = some m
  | .alreadyResident m _ => m ∈ loaded
  | .oom _ | .bad _ => True
  | .err _ => False

/-- What the stand-in holds after these loads. -/
def loadedAfter (sc : Scenario) (models : List Str) : List Str :=
  Fifo.run sc.maxLoaded (Engine.new sc).loaded (models.map .load)

structure LoopInv (api : Api) (sc : Scenario) (st : Loop) : Prop where
  events : EventInv st.world
  follows : ∀ c ∈ st.world.calls, c.Follows api
  scenario : st.engine.scenario = sc
  loaded : st.engine.loaded = loadedAfter sc st.world.successes
  fresh : ∀ before m after, st.world.successes = before ++ m :: after → m ∉ loadedAfter sc before
  sees : ∀ c ∈ st.world.calls, c.Sees st.engine.loaded

/-- What a step does to the call that moves, and to what is loaded. -/
structure LoopMove (sc : Scenario) (st t : Loop) (c d : Call) : Prop where
  sees : d.Sees t.engine.loaded
  returns : c.outcome = none → ∀ o, d.outcome = some o → o.TrueOf t.engine.loaded
  scenario : t.engine.scenario = sc
  loads : (t.engine.loaded = st.engine.loaded ∧ t.world.successes = st.world.successes) ∨
    (c.critical = true ∧ ∃ id, id ∉ st.engine.loaded ∧
      t.engine.loaded = Fifo.step sc.maxLoaded st.engine.loaded (.load id) ∧
      t.world.successes = st.world.successes ++ [id])

variable {s t : Loop} {w w' : World} {c d : Call} {i : Nat} {l l' : List Str}

theorem sees_of_not_critical (hc : c.critical = false) : c.Sees l := by
  unfold Call.critical at hc
  unfold Call.Sees
  split
  all_goals first | trivial | (rename_i hp; rw [hp] at hc; cases hc)

theorem Move.sees_quiet {a : Quiet} (hm : Move api w i c a.act w')
    (hb : (warmHeaders api.inferBearer).isSome = true) (hs : c.Sees l) :
    ∃ d, w'.calls = w.calls.set i d ∧ w'.successes = w.successes ∧ d.Sees l ∧
      ∀ o, d.outcome = some o → o.TrueOf l := by
  unfold Call.Sees at hs
  cases a with
  | lookup =>
    cases hm with
    | unknown hp hn => exact ⟨_, rfl, rfl, trivial, fun o ho => Option.some.inj ho ▸ trivial⟩
    | found hp hn => exact ⟨_, rfl, rfl, trivial, fun o ho => nomatch ho⟩
  | acquire =>
    cases hm with
    | acquire hp hl => exact ⟨_, rfl, rfl, trivial, fun o ho => nomatch ho⟩
  | judge t =>
    cases hm with
    | refuse hp ha => exact ⟨_, rfl, rfl, trivial, fun o ho => Option.some.inj ho ▸ trivial⟩
    | passed hp ha =>
      rw [hp] at hs
      exact ⟨_, rfl, rfl, hs, fun o ho => nomatch ho⟩
  | warm =>
    cases hm with
    | unsent hp hw =>
      rw [warmRequest, Option.map_eq_none_iff] at hw
      rw [hw] at hb
      cases hb
    | sent hp hw =>
      rw [hp] at hs
      exact ⟨_, rfl, rfl, hs, fun o ho => nomatch ho⟩
  | announce =>
    cases hm with
    | announce hp =>
      rw [hp] at hs
      exact ⟨_, rfl, rfl, hs, fun o ho => nomatch ho⟩
  | finish =>
    cases hm with
    | finish hp =>
      rw [hp] at hs
      exact ⟨_, rfl, rfl, trivial, fun o ho => Option.some.inj ho ▸ hs⟩

theorem known_of_critical (hc : c.critical = true) (hf : c.Follows api) :
    ∃ prof, api.profile c.req.profile = some prof := by
  unfold Call.critical Phase.critical at hc
  unfold Call.Follows at hf
  split at hc
  · rw [‹c.phase = _›] at hf
    exact ⟨_, hf⟩
  · rw [‹c.phase = _›] at hf
    exact ⟨_, hf.1⟩
  · rw [‹c.phase = _›] at hf
    exact ⟨_, hf.choose_spec.choose_spec.choose_spec.choose_spec.1⟩
  · rw [‹c.phase = _›] at hf
    exact ⟨_, hf.1.choose_spec.choose_spec.choose_spec.choose_spec.1⟩
  · rw [‹c.phase = _›] at hf
    exact ⟨_, hf.1.choose_spec.choose_spec.choose_spec.choose_spec.1⟩
  · rw [‹c.phase = _›] at hf
    exact ⟨_, hf.1.choose_spec.choose_spec.choose_spec.choose_spec.1⟩
  · cases hc

/-- **What a step of the loop does.** -/
theorem Loop.step_cases (h : Matches R api sc) (hread : client.read = R.read) (hi : LoopInv api sc s)
    {l : LoopLabel} (hs : Loop.step api client fs s l = some t) :
    ∃ wl, ControlApi.step api s.world wl = some t.world ∧
      ((∃ req, wl = .call req false ∧ t.engine = s.engine) ∨
        ∃ i a c d, wl = .act i a ∧ s.world.calls[i]? = some c ∧
          t.world.calls = s.world.calls.set i d ∧ LoopMove sc s t c d) := by
  have hsees {i : Nat} {c : Call} (hc : s.world.calls[i]? = some c) : c.Sees s.engine.loaded :=
    hi.sees c (List.mem_of_getElem? hc)
  have hfollows {i : Nat} {c : Call} (hc : s.world.calls[i]? = some c) : c.Follows api :=
    hi.follows c (List.mem_of_getElem? hc)
  cases l with
  | call req =>
    unfold Loop.step at hs
    obtain ⟨w, hw, rfl⟩ := Option.map_eq_some_iff.mp hs
    exact ⟨_, hw, .inl ⟨req, rfl, rfl⟩⟩
  | quiet i a =>
    unfold Loop.step at hs
    obtain ⟨w, hw, rfl⟩ := Option.map_eq_some_iff.mp hs
    obtain ⟨c, hc, hn⟩ := Option.bind_eq_some_iff.mp hw
    obtain ⟨d, hcalls, hsucc, hd, hret⟩ := (move_of_next hn).sees_quiet h.bearer (hsees hc)
    exact ⟨_, hw, .inr ⟨i, _, c, d, rfl, hc, hcalls, hd, fun _ => hret, hi.scenario, .inl ⟨rfl, hsucc⟩⟩⟩
  | probe i =>
    unfold Loop.step at hs
    obtain ⟨w, hw, rfl⟩ := Option.map_eq_some_iff.mp hs
    obtain ⟨c, hc, hn⟩ := Option.bind_eq_some_iff.mp hw
    suffices hd : ∃ d, w.calls = s.world.calls.set i d ∧ LoopMove sc s ⟨w, _⟩ c d by
      obtain ⟨d, hcalls, hmove⟩ := hd
      exact ⟨_, hw, .inr ⟨i, _, c, d, rfl, hc, hcalls, hmove⟩⟩
    have hm := move_of_next hn
    have hprobe (prof : ProfileMeta) (hp : api.profile c.req.profile = some prof) :=
      h.probe client fs hi.scenario hp
    cases hm with
    | @resident prof _ hp hr =>
      have hf := hfollows hc
      rw [Call.Follows, hp] at hf
      obtain ⟨hloaded, hsc, hiff⟩ := hprobe prof hf
      refine ⟨_, rfl, trivial, fun _ o ho => ?_, hsc, .inl ⟨hloaded, rfl⟩⟩
      cases ho
      show c.req.profile ∈ _
      rw [hloaded]
      exact hiff.mp hr
    | @absent prof _ hp hr =>
      have hf := hfollows hc
      rw [Call.Follows, hp] at hf
      obtain ⟨hloaded, hsc, hiff⟩ := hprobe prof hf
      refine ⟨_, rfl, ?_, fun _ o ho => (by cases ho), hsc, .inl ⟨hloaded, rfl⟩⟩
      show c.req.profile ∉ _
      rw [hloaded]
      exact mt hiff.mpr hr
  | answer i loadMs =>
    unfold Loop.step at hs
    obtain ⟨c, hc, hs⟩ := Option.bind_eq_some_iff.mp hs
    obtain ⟨out, hout, hs⟩ := Option.bind_eq_some_iff.mp hs
    obtain ⟨w, hw, rfl⟩ := Option.map_eq_some_iff.mp hs
    obtain ⟨c', hc', hn⟩ := Option.bind_eq_some_iff.mp hw
    cases hc.symm.trans hc'
    suffices hd : ∃ d, w.calls = s.world.calls.set i d ∧ LoopMove sc s ⟨w, _⟩ c d by
      obtain ⟨d, hcalls, hmove⟩ := hd
      exact ⟨_, hw, .inr ⟨i, _, c, d, rfl, hc, hcalls, hmove⟩⟩
    have hm := move_of_next hn
    have hcrit : c.critical = true := by
      rw [Call.critical]
      cases hm with
      | loaded hp _ => rw [hp]; rfl
      | failed hp _ => rw [hp]; rfl
    obtain ⟨prof, hprof⟩ := known_of_critical hcrit (hfollows hc)
    obtain ⟨hloaded, hsc, hok⟩ := h.warm fs hread hi.scenario hprof hout
    cases hm with
    | loaded hp hr =>
      have hfresh := hsees hc
      rw [Call.Sees, hp] at hfresh
      refine ⟨_, rfl, ?_, fun _ o ho => (by cases ho), hsc, .inr ⟨hcrit, _, hfresh, hloaded, rfl⟩⟩
      show List.getLast? _ = some c.req.profile
      rw [hloaded, Fifo.step, if_neg hfresh, Fifo.getLast?_trim h.room]
    | failed hp hr => cases hok.symm.trans hr

theorem loadedAfter_concat (sc : Scenario) (models : List Str) (id : Str) :
    loadedAfter sc (models ++ [id]) = Fifo.step sc.maxLoaded (loadedAfter sc models) (.load id) := by
  rw [loadedAfter, List.map_append, Fifo.run, List.foldl_append]
  rfl

theorem follows_step {wl : Label} (h : ∀ c ∈ w.calls, c.Follows api)
    (hs : ControlApi.step api w wl = some w') : ∀ c ∈ w'.calls, c.Follows api := by
  rcases ControlApi.step_cases hs with ⟨req, chat, -, rfl⟩ | ⟨i, a, d, -, hd, hm⟩
  · exact Pool.forall_concat h trivial
  · obtain ⟨e, he, -, hfol⟩ := Follows.move (h d (List.mem_of_getElem? hd)) hm
    rw [he]
    exact Pool.forall_set h hfol

theorem LoopInv.step (h : Matches R api sc) (hread : client.read = R.read) (hi : LoopInv api sc s)
    {l : LoopLabel} (hs : Loop.step api client fs s l = some t) : LoopInv api sc t := by
  obtain ⟨wl, hw, hcases⟩ := Loop.step_cases h hread hi hs
  have hevents := hi.events.step hw
  have hfollows := follows_step hi.follows hw
  rcases hcases with ⟨req, rfl, he⟩ | ⟨i, a, c, d, rfl, hc, hcalls, hm⟩
  · have hworld := Option.some.inj hw
    have hsucc : t.world.successes = s.world.successes := by rw [← hworld]
    refine ⟨hevents, hfollows, ?_, ?_, ?_, ?_⟩
    · rw [he, hi.scenario]
    · rw [he, hsucc, hi.loaded]
    · rw [hsucc]
      exact hi.fresh
    · rw [he, ← hworld]
      exact Pool.forall_concat hi.sees trivial
  · refine ⟨hevents, hfollows, hm.scenario, ?_, ?_, ?_⟩
    · rcases hm.loads with ⟨hl, hsucc⟩ | ⟨-, id, hid, hl, hsucc⟩
      · rw [hl, hsucc, hi.loaded]
      · rw [hl, hsucc, hi.loaded, loadedAfter_concat]
    · rcases hm.loads with ⟨hl, hsucc⟩ | ⟨-, id, hid, hl, hsucc⟩
      · rw [hsucc]
        exact hi.fresh
      · intro before m after he
        rw [hsucc] at he
        rcases List.eq_nil_or_concat after with rfl | ⟨after, x, rfl⟩
        · obtain ⟨rfl, hlast⟩ := List.append_inj' he rfl
          cases hlast
          rwa [← hi.loaded]
        · rw [List.concat_eq_append, ← List.cons_append, ← List.append_assoc] at he
          exact hi.fresh before m after (List.append_inj' he rfl).1
    · rw [hcalls]
      rcases hm.loads with ⟨hl, -⟩ | ⟨hcrit, id, hid, hl, -⟩
      · rw [hl]
        exact Pool.forall_set hi.sees (hl ▸ hm.sees)
      · -- nobody else is in the critical section
        intro e he
        obtain ⟨j, hj⟩ := List.mem_iff_getElem?.mp he
        rcases Pool.getElem?_set_cases hj with ⟨-, rfl⟩ | ⟨hij, hj⟩
        · exact hm.sees
        · refine sees_of_not_critical ?_
          by_contra hecrit
          exact hij (Pool.Guarded.unique hi.events.lock hj hc (by simpa using hecrit) hcrit)

theorem LoopInv.init : LoopInv api sc (.init sc) where
  events := .init none
  follows := List.forall_mem_nil _
  scenario := rfl
  loaded := rfl
  fresh before m after he := by
    rcases before with _ | ⟨b, before⟩
    · cases he
    · cases he
  sees := List.forall_mem_nil _

/-! ## What the service says of the router -/

/-- The loads of the service are what the stand-in holds, none of them of a model that was there,
and when no call holds the lock they are what was announced: the last announcement is of the
newest model. -/
structure InStep (sc : Scenario) (st : Loop) : Prop where
  loaded : st.engine.loaded = loadedAfter sc st.world.successes
  fresh : ∀ before m after, st.world.successes = before ++ m :: after → m ∉ loadedAfter sc before
  announced : st.world.lock = none → st.world.events = st.world.successes
  newest : st.world.lock = none → ∀ m ∈ st.world.events.getLast?, st.engine.loaded.getLast? = some m

/-- A warm request is for a model that is not loaded, and a call returns what is true then. -/
def Sound (api : Api) (client : Client) (fs : Fs) (st : Loop) (l : LoopLabel) : Prop :=
  ∀ t, Loop.step api client fs st l = some t →
    (∀ (i : Nat) (c : Call), l = .quiet i .warm → st.world.calls[i]? = some c →
      c.req.profile ∉ st.engine.loaded) ∧
    ∀ (i : Nat) (c d : Call) (o : EnsureOutcome), st.world.calls[i]? = some c → c.outcome = none →
      t.world.calls[i]? = some d → d.outcome = some o → o.TrueOf t.engine.loaded

theorem LoopInv.inStep (h : Matches R api sc) (hi : LoopInv api sc s) : InStep sc s := by
  have hannounced (hl : s.world.lock = none) : s.world.events = s.world.successes := by
    rw [hi.events.inOrder, World.holder, hl, Option.bind_none, Option.bind_none, Option.toList_none,
      List.append_nil]
  refine ⟨hi.loaded, hi.fresh, hannounced, fun hl m hm => ?_⟩
  rw [hannounced hl, Option.mem_def, List.getLast?_eq_some_iff] at hm
  obtain ⟨before, hm⟩ := hm
  have hfresh := hi.fresh before m [] hm
  rw [hi.loaded, hm, loadedAfter_concat, Fifo.step, if_neg hfresh, Fifo.getLast?_trim h.room]

theorem LoopInv.sound (h : Matches R api sc) (hread : client.read = R.read) (hi : LoopInv api sc s)
    (l : LoopLabel) : Sound api client fs s l := by
  intro t hs
  constructor
  · rintro i c rfl hc
    unfold Loop.step at hs
    obtain ⟨w, hw, -⟩ := Option.map_eq_some_iff.mp hs
    obtain ⟨c', hc', hn⟩ := Option.bind_eq_some_iff.mp hw
    cases hc.symm.trans hc'
    have hsees := hi.sees c (List.mem_of_getElem? hc)
    unfold Call.Sees at hsees
    cases move_of_next hn with
    | unsent hp _ => rwa [hp] at hsees
    | sent hp _ => rwa [hp] at hsees
  · intro i c d o hc hnone hd ho
    obtain ⟨wl, hw, ⟨req, rfl, -⟩ | ⟨j, a, c', d', rfl, hc', hcalls, hm⟩⟩ := Loop.step_cases h hread hi hs
    · rw [← Option.some.inj hw] at hd
      rcases Pool.getElem?_concat_cases hd with hd | ⟨-, rfl⟩
      · cases hc.symm.trans hd
        cases hnone.symm.trans ho
      · cases ho
    · rw [hcalls] at hd
      rcases Pool.getElem?_set_cases hd with ⟨rfl, rfl⟩ | ⟨-, hd⟩
      · cases hc.symm.trans hc'
        exact hm.returns hnone o ho
      · cases hc.symm.trans hd
        cases hnone.symm.trans ho

/-- **The service and the stand-in stay in step**, however the calls are interleaved. -/
theorem loop_inStep (h : Matches R api sc) (hread : client.read = R.read) {ls : List LoopLabel}
    (hr : Machine.run (Loop.step api client fs) (.init sc) ls = some s) :
    InStep sc s ∧ Machine.Along (Loop.step api client fs) (Sound api client fs) (.init sc) ls := by
  have hstep (s : Loop) (l : LoopLabel) (t : Loop) (hi : LoopInv api sc s)
      (hs : Loop.step api client fs s l = some t) : LoopInv api sc t := hi.step h hread hs
  refine ⟨(Machine.run_inv hstep hr .init).inStep h, ?_⟩
  exact Machine.along_of_inv (C := fun _ _ => True) (fun s l t hi _ => hstep s l t hi)
    (fun s l hi _ => hi.sound h hread l) (Machine.along_of_forall (fun _ _ _ => trivial) _) .init

/-! A stand-in with room for one of the two models. -/

def pairReader : Reader := .nesting 128

def pairClient : Client := ⟨pairReader.read, fun code => toDec code, "timed out", "closed"⟩

theorem profile_pair (h : pairApi.profile id = some prof) : id = "A".toList ∨ id = "B".toList := by
  by_contra hne
  rw [not_or] at hne
  have hA : (id == "A".toList) = false := by simpa using hne.1
  have hB : (id == "B".toList) = false := by simpa using hne.2
  rw [Api.profile, pairApi, List.lookup_cons, hA, List.lookup_cons, hB] at h
  cases h

theorem matches_pair : Matches pairReader pairApi oneOfTwo where
  legacy := rfl
  room := by decide
  noFault := ⟨rfl, rfl⟩
  noReplay := rfl
  listed id prof h := by
    rcases profile_pair h with rfl | rfl
    · decide
    · decide
  plain id prof h := by
    rcases profile_pair h with rfl | rfl
    · decide
    · decide
  within id prof h := by
    rcases profile_pair h with rfl | rfl
    · show Json.depth _ < 128
      decide +kernel
    · show Json.depth _ < 128
      decide +kernel
  bearer := rfl

/-- Two calls, the second between the first one's steps. -/
def pairSteps : List LoopLabel :=
  [.call ⟨"A", none⟩, .call ⟨"B", none⟩, .quiet 1 .lookup, .quiet 0 .lookup, .quiet 0 .acquire,
    .probe 0, .quiet 1 .acquire, .probe 1, .quiet 1 (.judge card24), .quiet 1 .warm, .answer 1 5,
    .quiet 1 .announce, .quiet 1 .finish]

/-- `A` is there, then `B` takes its place. -/
theorem loop_inStep_pair : ∃ s, Machine.run (Loop.step pairApi pairClient fun _ _ => none)
      (.init oneOfTwo) pairSteps = some s ∧
    s.engine.loaded = ["B".toList] ∧ s.world.events = ["B".toList] ∧ InStep oneOfTwo s := by
  have hrun : ((Machine.run (Loop.step pairApi pairClient fun _ _ => none) (.init oneOfTwo)
      pairSteps).map fun s => (s.engine.loaded, s.world.events)) =
        some (["B".toList], ["B".toList]) := by
    decide +kernel
  obtain ⟨s, hs, he⟩ := Option.map_eq_some_iff.mp hrun
  obtain ⟨hloaded, hevents⟩ := Prod.mk.inj he
  exact ⟨s, hs, hloaded, hevents, (loop_inStep matches_pair rfl hs).1⟩

end Saltnitor.ControlApi
