import Saltnitor.Auth
import Saltnitor.ControlApi.Chat

/-!
# The service

`serve` is the whole stack: the request-id layer around the auth layer around
the routes. axum's extractors and its own answers are parameters. One id goes
through all of it: `serve_carriesId` says where it ends up, for every request and
every way out.
-/

namespace Saltnitor.ControlApi

open Rust Http ProxyStream

/-! ## What a request meets -/

/-- Why `Json<T>` rejects a body. -/
structure JsonRejection where
  status : Nat
  text : Str

structure ServiceEnv where
  minted : Uuid7
  /-- The clock of the auth log, in nanoseconds. -/
  now : Nat
  chat : ChatEnv
  /-- `Json<EnsureRequest>`. -/
  json : Request → Except JsonRejection EnsureRequest
  /-- `Query<EnsureRequest>`, or the text of its rejection. -/
  query : Uri → Except Str EnsureRequest
  /-- What axum answers for a method that a route does not take. -/
  notAllowed : Response
  /-- `Extension<RequestId>` without the id layer. -/
  noExtension : Response

def jsonResponse (v : Json) : Response where
  status := 200
  headers := HeaderMap.append [] .contentType .applicationJson
  payload := .json v

/-! ## Ensure over HTTP -/

structure EnsureResponse where
  status : Str
  model : Str
  endpoint : Str
  loadMs : Option Nat := none
  vramEstimateGb : Option F64 := none
  detail : Option Str := none

/-- Absent options are left out. -/
def EnsureResponse.json (r : EnsureResponse) : Json :=
  let fixed : List (Str × Json) :=
    [("status", .str r.status), ("model", .str r.model), ("endpoint", .str r.endpoint)]
  .obj (fixed ++ (r.loadMs.map fun n => (("load_ms" : Str), Json.num n)).toList ++
    (r.vramEstimateGb.map fun v => (("vram_estimate_gb" : Str), Json.ofF64 v)).toList ++
    (r.detail.map fun d => (("detail" : Str), Json.str d)).toList)

def jsonRejection (rej : JsonRejection) : ApiError where
  code := if rej.status = 413 then .payloadTooLarge else .requestInvalid
  message := rej.text

/-- An extractor's error carries the id when the id layer ran. -/
def withRequestId (e : ApiError) (rid : Option Str) : ApiError :=
  match rid with
  | some id => e.withRequestId id
  | none => e

def ensureAnswer (rid profile : Str) : EnsureOutcome → Response
  | .loaded model endpoint loadMs vramEstimateGb =>
    jsonResponse (EnsureResponse.json
      { status := "loaded", model, endpoint, loadMs := some loadMs, vramEstimateGb })
  | .alreadyResident model endpoint =>
    jsonResponse (EnsureResponse.json { status := "already_resident", model, endpoint })
  | .oom i => ((oracleRejected (("need " : Str) ++ i.shown) i).withRequestId rid).intoResponse
  | .bad e => ((unknownModel profile e).withRequestId rid).intoResponse
  | .err e => ((loadFailed e).withRequestId rid).intoResponse

def hEnsure (api : Api) (env : ServiceEnv) (rid : Str) (req : Request) : Response × List Effect :=
  match env.json req with
  | .error rej => ((withRequestId (jsonRejection rej) req.requestId).intoResponse, [])
  | .ok r =>
    let (outcome, effects) := ensure api env.chat.ensure .none r
    (ensureAnswer rid r.profile outcome, effects)

def Stage.fromOutcome : EnsureOutcome → Stage
  | .loaded model endpoint loadMs vram => .done "loaded" model endpoint (some loadMs) vram
  | .alreadyResident model endpoint => .done "already_resident" model endpoint none none
  | .oom i => .oom (("need " : Str) ++ i.shown ++ ("; pass force=true" : Str))
  | .bad e | .err e => .error e

def Stage.json : Stage → Json
  | .received profile model =>
    .obj [("stage", .str "received"), ("profile", .str profile), ("model", .str model)]
  | .oracleOk v => .obj [("stage", .str "oracle_ok"), ("vram_estimate_gb", .ofF64 v)]
  | .loading model => .obj [("stage", .str "loading"), ("model", .str model)]
  | .done status model endpoint loadMs vram =>
    .obj [("stage", .str "done"), ("status", .str status), ("model", .str model),
      ("endpoint", .str endpoint), ("load_ms", (loadMs.map fun n => Json.num n).getD .null),
      ("vram_estimate_gb", (vram.map Json.ofF64).getD .null)]
  | .oom detail => .obj [("stage", .str "oom"), ("detail", .str detail)]
  | .error detail => .obj [("stage", .str "error"), ("detail", .str detail)]

/-- The frames a watching client is sent. -/
def stagesOf (effects : List Effect) : List Stage :=
  effects.filterMap fun
    | .stage s => some s
    | _ => none

def hEnsureStream (api : Api) (env : ServiceEnv) (req : Request) : Response × List Effect :=
  match env.query req.uri with
  | .error text =>
    ((withRequestId { code := .requestInvalid, message := text } req.requestId).intoResponse, [])
  | .ok r =>
    let (outcome, effects) := ensure api env.chat.ensure .chan r
    let frames := stagesOf effects ++ [Stage.fromOutcome outcome]
    ({ status := 200
       headers := HeaderMap.append [] .contentType .eventStream
       payload := .events (frames.map Stage.json) }, effects)

/-! ## The other handlers -/

def hHealth : Response := jsonResponse (.obj [("status", .str "ok")])

def hModels (api : Api) : Response :=
  jsonResponse (.obj [("object", .str "list"), ("data", .arr (api.profiles.map fun p =>
    .obj [("id", .str p.1), ("object", .str "model"), ("owned_by", .str "saltnitor")]))])

def hStatus (api : Api) (env : ServiceEnv) : Response × List Effect :=
  let t := env.chat.ensure.telemetry
  (jsonResponse (.obj [
    ("resident_models", .arr ((routerLoaded env.chat.ensure.models).map .str)),
    ("endpoint", .str api.inferEndpoint),
    ("vram_used_gb", .ofF64 (round1 (vramUsedGb t))),
    ("vram_total_gb", .ofF64 (round1 (vramTotalGb t))),
    ("ram_free_gb", .ofF64 (round1 (freeRamGb t))),
    ("profiles", .arr (api.profiles.map fun p => .str p.1))]), [.probe (modelsRequest api)])

def hNotSupported (rid : Str) (uri : Uri) : Response :=
  (ApiError.withRequestId { code := .endpointNotSupported
                            message := uri.path ++ (" is not supported" : Str) } rid).intoResponse

/-! ## The routes -/

inductive Handler where
  | health
  | models
  | status
  | chat
  | ensure
  | ensureStream
  deriving DecidableEq

/-- The one method a route is registered for. -/
def Handler.method : Handler → Method
  | .health | .models | .status | .ensureStream => .get
  | .chat | .ensure => .post

def handlerFor (path : Str) : Option Handler :=
  if path = "/healthz".toList then some .health
  else if path = "/v1/models".toList then some .models
  else if path = "/v1/status".toList then some .status
  else if path = "/v1/chat/completions".toList then some .chat
  else if path = "/v1/ensure".toList then some .ensure
  else if path = "/v1/ensure/stream".toList then some .ensureStream
  else none

/-- `Extension<RequestId>`: a handler that needs the id fails without the id layer. -/
def extension (env : ServiceEnv) (req : Request) (h : Str → Response × List Effect) :
    Response × List Effect :=
  match req.requestId with
  | some rid => h rid
  | none => (env.noExtension, [])

def Handler.run (api : Api) (env : ServiceEnv) (req : Request) : Handler → Response × List Effect
  | .health => (hHealth, [])
  | .models => (hModels api, [])
  | .status => hStatus api env
  | .chat => extension env req fun rid => hChat api env.chat rid req.headers req.body
  | .ensure => extension env req fun rid => hEnsure api env rid req
  | .ensureStream => hEnsureStream api env req

/-- axum's routing: a GET route takes HEAD too. -/
def dispatch (api : Api) (env : ServiceEnv) (req : Request) : Response × List Effect :=
  match handlerFor req.uri.path with
  | none => extension env req fun rid => (hNotSupported rid req.uri, [])
  | some h =>
    if req.method = h.method ∨ req.method = .head ∧ h.method = .get then h.run api env req
    else (env.notAllowed, [])

/-- Every route of the policy table has a handler, for the method the table lists. -/
theorem handlerFor_of_policy : ∀ r ∈ Auth.policy,
    ∃ h, handlerFor r.path = some h ∧ r.methods = [h.method] := by
  decide

/-! ## The layers -/

def authLayer (auth : Auth.AuthState) (api : Api) (env : ServiceEnv) (req : Request) :
    Response × Auth.AuthState × List Effect :=
  match Auth.middleware auth env.now req with
  | (auth, log, .refuse e) => (e.intoResponse, auth, log.map .logLine)
  | (auth, log, .pass req) =>
    let (response, effects) := dispatch api env req
    (response, auth, log.map .logLine ++ effects)

def serve (auth : Auth.AuthState) (api : Api) (env : ServiceEnv) (req : Request) :
    Response × Auth.AuthState × List Effect :=
  requestIdMiddleware env.minted (authLayer auth api env) req

/-! ## The id -/

/-- Every JSON error object in the payload names the request. -/
def ErrorsCarry (rid : Str) (p : Payload) : Prop :=
  ∀ v e, p = .json v → v.member "error" = some e → ApiError.envelopeId v = some rid

/-- An answer that has no id of its own or this one, names it in its errors and sends it on. -/
structure Carries (rid : Str) (out : Response × List Effect) : Prop where
  response : out.1.headers.getAll .xRequestId = [] ∨
    (out.1.headers.getAll .xRequestId).map HeaderValue.bytes = [bytes rid]
  errors : ErrorsCarry rid out.1.payload
  upstream : ∀ up, .chat up ∈ out.2 →
    (up.headers.getAll .xRequestId).map HeaderValue.bytes = [bytes rid]

variable {api : Api} {env : ServiceEnv} {auth : Auth.AuthState} {req : Request} {rid : Str}

theorem xRequestId_intoResponse (e : ApiError) :
    e.intoResponse.headers.getAll .xRequestId = [] := by
  have hc : HeaderName.contentType ≠ .xRequestId := by decide
  have hr : HeaderName.retryAfter ≠ .xRequestId := by decide
  unfold ApiError.intoResponse
  split <;> simp [HeaderMap.append, hc, hr]

theorem carries_envelope {r : Response} {code : ErrorCode} {effects : List Effect}
    (h : r.IsEnvelope code rid) (hno : ∀ up, .chat up ∉ effects) : Carries rid (r, effects) := by
  obtain ⟨e, -, hid, rfl⟩ := h
  refine ⟨.inl (xRequestId_intoResponse e), ?_, fun up hup => absurd hup (hno up)⟩
  rintro v err ⟨⟩ -
  rw [ApiError.envelopeId_body, hid]

theorem carries_json {v : Json} {effects : List Effect} (h : v.member "error" = none)
    (hno : ∀ up, .chat up ∉ effects) : Carries rid (jsonResponse v, effects) := by
  have hc : HeaderName.contentType ≠ .xRequestId := by decide
  refine ⟨.inl (by simp [jsonResponse, HeaderMap.append, hc]), ?_, fun up hup => absurd hup (hno up)⟩
  rintro _ e ⟨⟩ he
  rw [h] at he
  cases he

theorem carries_relay (limits : ProxyLimits) (up : UpstreamResponse) {effects : List Effect}
    (hno : ∀ up, .chat up ∉ effects) : Carries rid (relayResponse rid limits up, effects) := by
  unfold relayResponse
  cases hv : HeaderValue.fromStr rid with
  | none => exact carries_envelope (isEnvelope _ rid) hno
  | some v =>
    refine ⟨.inr ?_, ?_, fun up hup => absurd hup (hno up)⟩
    · simp [HeaderMap.append, getAll_forwardableResponseHeaders, HeaderValue.fromStr_bytes hv]
    · rintro _ _ ⟨⟩

theorem carries_forward (url : Str) (bearer : Option Str) (headers : HeaderMap)
    (body : List UInt8) (limits : ProxyLimits) (reply : Except SendFailure UpstreamResponse)
    {effects : List Effect} (hno : ∀ up, .chat up ∉ effects) :
    Carries rid ((forward url bearer headers body rid limits reply).1,
      effects ++ ((forward url bearer headers body rid limits reply).2.map .chat).toList) := by
  have hresp : Carries rid ((forward url bearer headers body rid limits reply).1, effects) := by
    unfold forward
    split
    · exact carries_envelope (isEnvelope _ rid) hno
    · cases reply with
      | error e => exact carries_envelope (isEnvelope _ rid) hno
      | ok up => exact carries_relay limits up hno
  refine ⟨hresp.response, hresp.errors, fun up hup => ?_⟩
  rcases List.mem_append.mp hup with hup | hup
  · exact absurd hup (hno up)
  · obtain ⟨_, hsent, ⟨⟩⟩ := Option.map_eq_some_iff.mp (Option.mem_toList.mp hup)
    exact xRequestId_upstream (body_of_forward hsent).1

theorem carries_hChat (chat : ChatEnv) (headers : HeaderMap) (body : BodyStream) :
    Carries rid (hChat api chat rid headers body) := by
  rcases ready_or_failsAt api chat headers body with ⟨m, prof, h⟩ | ⟨step, h⟩
  · rw [hChat_ready h]
    exact carries_forward _ _ _ _ _ _ fun up => chat_not_mem_ensure _ up
  · have ht : TurnedAway step rid (hChat api chat rid headers body) := hChat_failsAt h
    exact carries_envelope ht.envelope ht.no_chat

theorem isEnvelope_withRequestId (e : ApiError) :
    (withRequestId e (some rid)).intoResponse.IsEnvelope e.code rid := isEnvelope e rid

theorem carries_ensureAnswer (profile : Str) (o : EnsureOutcome) {effects : List Effect}
    (hno : ∀ up, .chat up ∉ effects) : Carries rid (ensureAnswer rid profile o, effects) := by
  cases o with
  | loaded model endpoint ms v =>
    refine carries_json ?_ hno
    cases v <;> simp [EnsureResponse.json, Json.member, Json.lastOf]
  | alreadyResident model endpoint =>
    refine carries_json ?_ hno
    simp [EnsureResponse.json, Json.member, Json.lastOf]
  | oom i => exact carries_envelope (isEnvelope _ rid) hno
  | bad e => exact carries_envelope (isEnvelope _ rid) hno
  | err e => exact carries_envelope (isEnvelope _ rid) hno

theorem carries_hEnsure (hid : req.requestId = some rid) :
    Carries rid (hEnsure api env rid req) := by
  unfold hEnsure
  cases env.json req with
  | error rej =>
    rw [hid]
    exact carries_envelope (isEnvelope_withRequestId _) (by simp)
  | ok r => exact carries_ensureAnswer _ _ fun up => chat_not_mem_ensure r up

theorem carries_hEnsureStream (hid : req.requestId = some rid) :
    Carries rid (hEnsureStream api env req) := by
  unfold hEnsureStream
  cases env.query req.uri with
  | error text =>
    simp only [hid]
    exact carries_envelope (isEnvelope_withRequestId _) (by simp)
  | ok r =>
    have hc : HeaderName.contentType ≠ .xRequestId := by decide
    refine ⟨.inl (by simp [HeaderMap.append, hc]), ?_, fun up hup => ?_⟩
    · rintro _ _ ⟨⟩
    · exact absurd hup (chat_not_mem_ensure r up)

theorem carries_run (h : Handler) (hid : req.requestId = some rid) :
    Carries rid (h.run api env req) := by
  cases h with
  | health => exact carries_json rfl (by simp)
  | models => exact carries_json rfl (by simp)
  | status => exact carries_json rfl (by simp)
  | chat =>
    simp only [Handler.run, extension, hid]
    exact carries_hChat env.chat req.headers req.body
  | ensure =>
    simp only [Handler.run, extension, hid]
    exact carries_hEnsure hid
  | ensureStream => exact carries_hEnsureStream hid

theorem requestId_passed : (Auth.passed auth req).requestId = req.requestId := by
  unfold Auth.passed
  split <;> rfl

theorem requestId_refusal (hid : req.requestId = some rid) :
    (Auth.refusal req).requestId = some rid := by
  simp only [Auth.refusal, Auth.withId, hid]
  rfl

variable (api env) in
/-- A refused request reaches no handler: nothing but log lines comes of it. -/
theorem authLayer_refused (h : ¬ Auth.Admitted auth req) : ∃ log : List Str,
    (authLayer auth api env req).1 = (Auth.refusal req).intoResponse ∧
      (authLayer auth api env req).2.2 = log.map .logLine := by
  unfold authLayer
  have hm := Auth.middleware_cases auth env.now req
  generalize Auth.middleware auth env.now req = out at hm ⊢
  obtain ⟨state, log, outcome⟩ := out
  rcases hm with ⟨ha, -⟩ | ⟨-, ho, -⟩ | ⟨-, -, ho, -⟩
  · exact absurd ha h
  · cases ho
    exact ⟨log, rfl, rfl⟩
  · cases ho
    exact ⟨log, rfl, rfl⟩

variable (api env) in
theorem authLayer_admitted (h : Auth.Admitted auth req) : ∃ log : List Str,
    (authLayer auth api env req).1 = (dispatch api env (Auth.passed auth req)).1 ∧
      (authLayer auth api env req).2.2 =
        log.map .logLine ++ (dispatch api env (Auth.passed auth req)).2 := by
  unfold authLayer
  have hm := Auth.middleware_cases auth env.now req
  generalize Auth.middleware auth env.now req = out at hm ⊢
  obtain ⟨state, log, outcome⟩ := out
  rcases hm with ⟨-, ho⟩ | ⟨hr, -, -⟩ | ⟨-, ha, -⟩
  · cases ho
    exact ⟨log, rfl, rfl⟩
  · obtain ⟨r, hroute, -⟩ := h
    exact absurd hroute (hr r)
  · exact absurd h ha

variable (api env) in
/-- An admitted request is answered by its route's handler: the fallback and the method check of
the routes never see one. -/
theorem dispatch_admitted (h : Auth.Admitted auth req) : ∃ handler,
    handlerFor req.uri.path = some handler ∧ req.method = handler.method ∧
      dispatch api env (Auth.passed auth req) = handler.run api env (Auth.passed auth req) := by
  obtain ⟨r, ⟨hmem, hpath, hmethod⟩, -⟩ := h
  obtain ⟨handler, hh, hm⟩ := handlerFor_of_policy r hmem
  rw [hpath] at hh
  have heq : req.method = handler.method := by
    rw [hm] at hmethod
    exact List.mem_singleton.mp hmethod
  have hp : (Auth.passed auth req).uri.path = req.uri.path := by
    unfold Auth.passed Auth.stripQueryToken
    split
    · cases req.uri.query <;> rfl
    · rfl
  have hq : (Auth.passed auth req).method = req.method := by
    unfold Auth.passed
    split <;> rfl
  refine ⟨handler, hh, heq, ?_⟩
  rw [dispatch, hp, hh]
  exact if_pos (.inl (hq.trans heq))

theorem carries_authLayer (hid : req.requestId = some rid) :
    Carries rid ((authLayer auth api env req).1, (authLayer auth api env req).2.2) := by
  by_cases h : Auth.Admitted auth req
  · obtain ⟨log, hr, he⟩ := authLayer_admitted api env h
    obtain ⟨handler, -, -, hrun⟩ := dispatch_admitted api env h
    have hc : Carries rid (dispatch api env (Auth.passed auth req)) := by
      rw [hrun]
      exact carries_run handler (requestId_passed.trans hid)
    rw [hr, he]
    exact ⟨hc.response, hc.errors, fun up hup => hc.upstream up (by simpa using hup)⟩
  · obtain ⟨log, hr, he⟩ := authLayer_refused api env h
    rw [hr, he]
    exact carries_envelope ⟨_, rfl, requestId_refusal hid, rfl⟩ (by simp)

/-- `[A-Za-z0-9._-]{1,128}`. -/
def WellFormed (s : Str) : Prop :=
  1 ≤ s.length ∧ s.length ≤ 128 ∧ ∀ c ∈ s, c.isAlphanum = true ∨ c = '.' ∨ c = '_' ∨ c = '-'

/-- The first `X-Request-Id` where it is a well-formed text, the minted id otherwise. -/
def IsIdOf (minted : Uuid7) (req : Request) (id : Str) : Prop :=
  (∃ v, req.headers.get .xRequestId = some v ∧ v.toStr = some id ∧ WellFormed id) ∨
    (∀ v s, req.headers.get .xRequestId = some v → v.toStr = some s → ¬ WellFormed s) ∧
      id = minted.text

theorem isId_iff {s : Str} : isId s = true ↔ WellFormed s := by
  simp [isId, isIdChar, WellFormed, and_assoc, or_assoc]

theorem isIdOf_chosenId (minted : Uuid7) (req : Request) :
    IsIdOf minted req (chosenId minted req) := by
  unfold chosenId
  cases hg : (req.headers.get .xRequestId).bind HeaderValue.toStr with
  | none =>
    refine .inr ⟨fun v s hv hs => ?_, rfl⟩
    rw [hv, Option.bind_some, hs] at hg
    cases hg
  | some s =>
    obtain ⟨v, hv, hs⟩ := Option.bind_eq_some_iff.mp hg
    by_cases hid : isId s = true
    · refine .inl ⟨v, hv, ?_, ?_⟩
      · rw [requestIdFor, if_pos hid, hs]
      · rw [requestIdFor, if_pos hid]
        exact isId_iff.mp hid
    · refine .inr ⟨fun v' s' hv' hs' hw => ?_, by rw [requestIdFor, if_neg hid]⟩
      rw [hv] at hv'
      cases hv'
      rw [hs] at hs'
      cases hs'
      exact hid (isId_iff.mpr hw)

/-- **One id goes through every layer and every way out.** -/
theorem serve_carriesId (auth : Auth.AuthState) (api : Api) (env : ServiceEnv) (req : Request) :
    ∃ id, IsIdOf env.minted req id ∧
      ((serve auth api env req).1.headers.getAll .xRequestId).map HeaderValue.bytes =
        [bytes id] ∧
      (∀ up, .chat up ∈ (serve auth api env req).2.2 →
        (up.headers.getAll .xRequestId).map HeaderValue.bytes = [bytes id]) ∧
      ∀ v e, (serve auth api env req).1.payload = .json v → v.member "error" = some e →
        ApiError.envelopeId v = some id := by
  obtain ⟨v, -, hb, req', hreq, hs⟩ := requestIdMiddleware_eq env.minted (authLayer auth api env) req
  have hc : Carries (chosenId env.minted req)
      ((authLayer auth api env req').1, (authLayer auth api env req').2.2) :=
    carries_authLayer (by rw [hreq])
  refine ⟨chosenId env.minted req, isIdOf_chosenId env.minted req, ?_⟩
  rw [serve, hs]
  refine ⟨?_, hc.upstream, hc.errors⟩
  rw [HeaderMap.getAll_orInsert_self]
  split
  · rename_i hk
    exact hc.response.resolve_left (HeaderMap.containsKey_iff.mp hk)
  · rw [List.map_singleton, hb]

end Saltnitor.ControlApi
