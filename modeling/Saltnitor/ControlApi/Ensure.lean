import Saltnitor.ControlApi.Footprint
import Saltnitor.ProxyStream.Forward

/-!
# Ensure

`ensure` makes a profile the router's resident model: look the profile up, ask
the router what is loaded, ask the oracle, send a one-token warm request. What
the router and the host answer is the argument `EnsureEnv`; what the call sends,
logs and announces is its list of effects, in order.
-/

namespace Saltnitor.ControlApi

open Rust Http ProxyStream

/-! ## The service -/

/-- The state every handler shares; `routerBase` is a URL the HTTP client accepts. -/
structure Api where
  profiles : List (Str × ProfileMeta)
  routerBase : Str
  inferBearer : Option Str
  reserves : Reserves
  limits : ProxyLimits
  profiles_nodup : (profiles.map Prod.fst).Nodup

def Api.profile (api : Api) (id : Str) : Option ProfileMeta := api.profiles.lookup id

def Api.inferEndpoint (api : Api) : Str := api.routerBase ++ ("/v1" : Str)

def Api.chatUrl (api : Api) : Str := api.routerBase ++ ("/v1/chat/completions" : Str)

/-! ## The router's answers -/

/-- An HTTP status and how it prints. -/
structure Status where
  code : Nat
  shown : Str
  deriving DecidableEq

def Status.isSuccess (s : Status) : Bool := 200 ≤ s.code && s.code < 300

/-- An entry of the model list that reports itself loaded. -/
def entryLoaded (m : Json) : Bool :=
  (m.index "loaded").asBool.getD false || (m.index "state").asStr == some "loaded".toList ||
    (m.index "status").asStr == some "loaded".toList

/-- The models the router reports as loaded; none when it gives no JSON. -/
def routerLoaded (reply : Option Json) : List Str :=
  match (reply.getD .null).index "data" with
  | .arr entries => entries.filterMap fun m =>
      let id := (m.index "id").asStr.getD []
      if entryLoaded m && id ≠ [] then some id else none
  | _ => []

def modelsRequest (api : Api) : Outgoing where
  method := .get
  url := api.routerBase ++ ("/v1/models" : Str)
  headers := []
  body := []

/-- The one-token request, as text. -/
def warmBody (preset : Str) : Str :=
  ("\x7b\"model\":\"" : Str) ++ preset ++
    ("\",\"messages\":[\x7b\"role\":\"user\",\"content\":\"warmup\"\x7d],\"max_tokens\":1\x7d" : Str)

def warmHeaders (bearer : Option Str) : Option HeaderMap :=
  let headers := HeaderMap.append [] .contentType .applicationJson
  match bearer with
  | none => some headers
  | some tok =>
    (HeaderValue.fromStr (("Bearer " : Str) ++ tok)).map (headers.append .authorization)

/-- `none` when the bearer is no header value. -/
def warmRequest (api : Api) (preset : Str) : Option Outgoing :=
  (warmHeaders api.inferBearer).map fun headers =>
    { method := .post, url := api.chatUrl, headers, body := bytes (warmBody preset) }

/-- A warm request's answer: the status, or the client's error. -/
abbrev WarmReply := Except Str Status

def warmResult : WarmReply → Except Str Unit
  | .ok s => if s.isSuccess then .ok () else .error (("router returned " : Str) ++ s.shown)
  | .error e => .error e

/-- The result and the request that was sent, if one could be built. -/
def warmLoad (api : Api) (preset : Str) (reply : WarmReply) : Except Str Unit × Option Outgoing :=
  match warmRequest api preset with
  | none => (.error "builder error", none)
  | some r => (warmResult reply, some r)

/-! ## Outcomes and effects -/

structure EnsureRequest where
  profile : Str
  force : Option Bool := none
  deriving DecidableEq

inductive EnsureOutcome where
  | loaded (model endpoint : Str) (loadMs : Nat) (vramEstimateGb : Option F64)
  | alreadyResident (model endpoint : Str)
  | oom (i : OomInfo)
  | bad (e : Str)
  | err (e : Str)
  deriving DecidableEq

inductive Stage where
  | received (profile model : Str)
  | oracleOk (vramEstimateGb : F64)
  | loading (model : Str)
  | done (status model endpoint : Str) (loadMs : Option Nat) (vramEstimateGb : Option F64)
  | oom (detail : Str)
  | error (detail : Str)
  deriving DecidableEq

inductive ProgressSink where
  | none
  | chan
  deriving DecidableEq

inductive Effect where
  /-- A frame for the client that watches. -/
  | stage (s : Stage)
  | probe (r : Outgoing)
  | warm (r : Outgoing)
  | chat (r : Outgoing)
  | activeModelSet (model : Str)
  | logLine (l : Str)

def ProgressSink.emit : ProgressSink → Stage → List Effect
  | .none, _ => []
  | .chan, s => [.stage s]

/-- What one call meets on its way. -/
structure EnsureEnv where
  /-- The router's model list, when it answers with JSON. -/
  models : Option Json
  telemetry : Telemetry
  warm : WarmReply
  loadMs : Nat

/-! ## The call -/

/-- The last component of a path. -/
def basename (s : Str) : Str :=
  match ((s.splitOn '/').filter fun c => c ≠ [] ∧ c ≠ ['.']).getLast? with
  | none => s
  | some c => if c = ['.', '.'] then s else c

/-- The oracle's word, or the request's: the estimate to go on with, or the refusal. -/
def oracleGate (sink : ProgressSink) (force : Option Bool) :
    Except OomInfo (F64 × F64) → Except OomInfo (F64 × List Effect)
  | .ok (v, _) => .ok (v, sink.emit (.oracleOk v))
  | .error info =>
    if force.getD false then
      .ok (info.needVramGb, [.logLine ">>> ENSURE: oracle predicted tight fit, FORCED by request"])
    else .error info

/-- What is said before the warm request. -/
def announceLoading (sink : ProgressSink) (profile : Str) (prof : ProfileMeta) : List Effect :=
  sink.emit (.loading profile) ++
    [.logLine ((">>> ENSURE: loading preset [" : Str) ++ profile ++ ("] (" : Str) ++
      basename prof.model ++ (")" : Str))]

/-- What is said after it. -/
def announceLoaded (profile : Str) (loadMs : Nat) : List Effect :=
  [.activeModelSet profile,
    .logLine ((">>> ENSURE: [" : Str) ++ profile ++ ("] resident & warm in " : Str) ++
      toDec loadMs ++ (" ms" : Str))]

/-- The warm request and what follows it. -/
def load (api : Api) (env : EnsureEnv) (sink : ProgressSink) (profile : Str) (prof : ProfileMeta)
    (estVram : F64) : EnsureOutcome × List Effect :=
  let loading := announceLoading sink profile prof
  match warmLoad api profile env.warm with
  | (.error e, sent) =>
    (.err (("router load failed: " : Str) ++ e), loading ++ (sent.map .warm).toList)
  | (.ok (), sent) =>
    (.loaded profile api.inferEndpoint env.loadMs (some estVram),
      loading ++ (sent.map .warm).toList ++ announceLoaded profile env.loadMs)

/-- From the probe to the end: what runs under the lock. -/
def ensureLocked (api : Api) (env : EnsureEnv) (sink : ProgressSink) (req : EnsureRequest)
    (prof : ProfileMeta) : EnsureOutcome × List Effect :=
  let probe := Effect.probe (modelsRequest api)
  if (routerLoaded env.models).contains req.profile then
    (.alreadyResident req.profile api.inferEndpoint, [probe])
  else
    match oracleGate sink req.force (oracle api.reserves env.telemetry prof) with
    | .error info => (.oom info, [probe])
    | .ok (estVram, said) =>
      let (outcome, effects) := load api env sink req.profile prof estVram
      (outcome, probe :: said ++ effects)

def ensure (api : Api) (env : EnsureEnv) (sink : ProgressSink) (req : EnsureRequest) :
    EnsureOutcome × List Effect :=
  match api.profile req.profile with
  | none => (.bad (("unknown profile '" : Str) ++ req.profile ++ ("'" : Str)), [])
  | some prof =>
    let (outcome, effects) := ensureLocked api env sink req prof
    (outcome, sink.emit (.received req.profile req.profile) ++ effects)

/-! ## How a call ends -/

section Endings

variable {api : Api} {env : EnsureEnv} {sink : ProgressSink} (req : EnsureRequest)
  {prof : ProfileMeta}

theorem ensure_unknown (h : api.profile req.profile = none) : ensure api env sink req =
    (.bad (("unknown profile '" : Str) ++ req.profile ++ ("'" : Str)), []) := by
  simp only [ensure, h]

theorem ensure_known (h : api.profile req.profile = some prof) : ensure api env sink req =
    ((ensureLocked api env sink req prof).1,
      sink.emit (.received req.profile req.profile) ++ (ensureLocked api env sink req prof).2) := by
  simp only [ensure, h]

theorem ensureLocked_resident (h : req.profile ∈ routerLoaded env.models) :
    ensureLocked api env sink req prof =
      (.alreadyResident req.profile api.inferEndpoint, [.probe (modelsRequest api)]) := by
  rw [ensureLocked, if_pos (List.contains_iff_mem.mpr h)]

theorem ensureLocked_refused (h : req.profile ∉ routerLoaded env.models) {info : OomInfo}
    (ha : oracleGate sink req.force (oracle api.reserves env.telemetry prof) = .error info) :
    ensureLocked api env sink req prof = (.oom info, [.probe (modelsRequest api)]) := by
  rw [ensureLocked, if_neg (mt List.contains_iff_mem.mp h)]
  simp only [ha]

theorem ensureLocked_admitted (h : req.profile ∉ routerLoaded env.models) {v : F64}
    {said : List Effect}
    (ha : oracleGate sink req.force (oracle api.reserves env.telemetry prof) = .ok (v, said)) :
    ensureLocked api env sink req prof =
      ((load api env sink req.profile prof v).1,
        .probe (modelsRequest api) :: said ++ (load api env sink req.profile prof v).2) := by
  rw [ensureLocked, if_neg (mt List.contains_iff_mem.mp h)]
  simp only [ha]

/-- The warm request went out and was answered with success. -/
def Warmed (api : Api) (env : EnsureEnv) (profile : Str) (r : Outgoing) : Prop :=
  warmRequest api profile = some r ∧ warmResult env.warm = .ok ()

theorem load_warmed {profile : Str} {v : F64} {r : Outgoing} (h : Warmed api env profile r) :
    load api env sink profile prof v =
      (.loaded profile api.inferEndpoint env.loadMs (some v),
        announceLoading sink profile prof ++ [.warm r] ++ announceLoaded profile env.loadMs) := by
  simp [load, warmLoad, h.1, h.2]

variable (sink prof) in
/-- Without a warm request that succeeds the call ends in an error. -/
theorem load_failed {profile : Str} (v : F64) (h : ¬ ∃ r, Warmed api env profile r) :
    ∃ e, load api env sink profile prof v = (.err e,
      announceLoading sink profile prof ++ ((warmRequest api profile).map .warm).toList) := by
  cases hw : warmRequest api profile with
  | none => exact ⟨_, by simp [load, warmLoad, hw]; rfl⟩
  | some r =>
    cases hr : warmResult env.warm with
    | ok u => exact absurd ⟨r, hw, hr⟩ h
    | error e => exact ⟨_, by simp [load, warmLoad, hw, hr]; rfl⟩

theorem chat_not_mem_emit (up : Outgoing) (s : Stage) : .chat up ∉ sink.emit s := by
  cases sink <;> simp [ProgressSink.emit]

theorem chat_not_mem_load {profile : Str} {v : F64} (up : Outgoing) :
    .chat up ∉ (load api env sink profile prof v).2 := by
  by_cases h : ∃ r, Warmed api env profile r
  · obtain ⟨r, h⟩ := h
    simp [load_warmed h, announceLoading, announceLoaded, chat_not_mem_emit]
  · obtain ⟨e, he⟩ := load_failed sink prof v h
    simp [he, announceLoading, chat_not_mem_emit]

/-- Ensuring sends no chat request. -/
theorem chat_not_mem_ensure (up : Outgoing) : .chat up ∉ (ensure api env sink req).2 := by
  cases hp : api.profile req.profile with
  | none => simp [ensure_unknown req hp]
  | some prof =>
    rw [ensure_known req hp]
    by_cases hr : req.profile ∈ routerLoaded env.models
    · simp [ensureLocked_resident req hr, chat_not_mem_emit]
    cases ha : oracleGate sink req.force (oracle api.reserves env.telemetry prof) with
    | error info => simp [ensureLocked_refused req hr ha, chat_not_mem_emit]
    | ok a =>
      have hsaid : .chat up ∉ a.2 := by
        unfold oracleGate at ha
        split at ha
        · cases ha
          exact chat_not_mem_emit up _
        · split at ha
          · cases ha
            simp
          · cases ha
      simp [ensureLocked_admitted req hr ha, chat_not_mem_emit, chat_not_mem_load, hsaid]

end Endings

end Saltnitor.ControlApi
