import Saltnitor.Auth.Audit
import Saltnitor.ControlApi.Interleave
import Saltnitor.ControlApi.Stream

/-!
# What comes of a credential

`masked` takes the values of `Authorization` out of a request. A handler answers the masked request as
it answers the request (`dispatch_masked`), and the layers read a credential only to decide. So two
daemons with other tokens, that decide alike on requests with other credentials, answer, send and log
the same (`credentials_blind`).
-/

namespace Saltnitor.ControlApi

open Rust Http ProxyStream

/-! ## Requests without their credentials -/

/-- All values of `Authorization` are the same. -/
def maskField (f : HeaderName × HeaderValue) : HeaderName × HeaderValue :=
  if f.1 = .authorization then (f.1, .one) else f

def maskHeaders (h : HeaderMap) : HeaderMap := h.map maskField

def masked (req : Request) : Request := { req with headers := maskHeaders req.headers }

section Headers

variable {h : HeaderMap} {f : HeaderName × HeaderValue} {n : HeaderName} {v : HeaderValue}

@[simp] theorem maskField_fst : (maskField f).1 = f.1 := by
  unfold maskField
  split <;> rfl

theorem maskField_of_ne (hne : f.1 ≠ .authorization) : maskField f = f := if_neg hne

theorem getAll_maskHeaders (hne : n ≠ .authorization) : (maskHeaders h).getAll n = h.getAll n := by
  rw [maskHeaders, HeaderMap.getAll, List.filterMap_map, HeaderMap.getAll]
  refine List.filterMap_congr fun f _ => ?_
  rw [Function.comp_apply, maskField_fst]
  by_cases hf : f.1 = n
  · rw [if_pos hf, if_pos hf, maskField_of_ne (hf ▸ hne)]
  · rw [if_neg hf, if_neg hf]

theorem get_maskHeaders (hne : n ≠ .authorization) : (maskHeaders h).get n = h.get n := by
  rw [HeaderMap.get, getAll_maskHeaders hne, HeaderMap.get]

theorem containsKey_maskHeaders : (maskHeaders h).containsKey n = h.containsKey n := by
  rw [maskHeaders, HeaderMap.containsKey, List.any_map, HeaderMap.containsKey]
  simp [Function.comp_def]

theorem maskHeaders_insert (hne : n ≠ .authorization) :
    maskHeaders (h.insert n v) = (maskHeaders h).insert n v := by
  have hn : maskField (n, v) = (n, v) := maskField_of_ne hne
  induction h with
  | nil => exact congrArg (· :: []) hn
  | cons f h ih =>
    have hcons : maskHeaders (f :: h) = maskField f :: maskHeaders h := rfl
    rw [hcons, HeaderMap.insert, HeaderMap.insert, maskField_fst]
    by_cases hf : f.1 = n
    · rw [if_pos hf, if_pos hf, maskHeaders, List.map_cons, hn, maskHeaders, List.filter_map]
      simp [Function.comp_def]
    · rw [if_neg hf, if_neg hf, ← ih]
      rfl

theorem contentLength_maskHeaders : contentLength (maskHeaders h) = contentLength h := by
  rw [contentLength, get_maskHeaders (by decide), contentLength]

/-- The credentials of a client are not forwarded. -/
theorem forwardable_maskHeaders :
    forwardableRequestHeaders (maskHeaders h) = forwardableRequestHeaders h := by
  have hconn : connectionValue (maskHeaders h) = connectionValue h := by
    rw [connectionValue, get_maskHeaders (by decide), connectionValue]
  unfold forwardableRequestHeaders
  dsimp only
  rw [hconn, maskHeaders, List.filter_map]
  simp only [Function.comp_def, maskField_fst]
  refine (List.map_congr_left fun f hf => maskField_of_ne ?_).trans (List.map_id _)
  intro hauth
  have hkept := (List.mem_filter.mp hf).2
  rw [hauth] at hkept
  have hcred : clientCredentials.contains HeaderName.authorization.text = true := by decide
  rw [hcred] at hkept
  simp at hkept

theorem upstreamHeaders_maskHeaders (bearer : Option Str) (id : Str) :
    upstreamHeaders bearer (maskHeaders h) id = upstreamHeaders bearer h id := by
  rw [upstreamHeaders, forwardable_maskHeaders, upstreamHeaders]

end Headers

/-! ## The handlers -/

/-- `Json<EnsureRequest>` reads the type and the body of a request, not its credentials. -/
def JsonBlind (env : ServiceEnv) : Prop := ∀ req, env.json (masked req) = env.json req

variable {api : Api} {env : ServiceEnv} {auth auth' : Auth.AuthState} {req req' : Request}

theorem hChat_masked (env : ChatEnv) (rid : Str) (headers : HeaderMap) (body : BodyStream) :
    hChat api env rid (maskHeaders headers) body = hChat api env rid headers body := by
  unfold hChat forward
  simp only [contentLength_maskHeaders, upstreamHeaders_maskHeaders]

theorem dispatch_masked (hjson : JsonBlind env) : dispatch api env (masked req) = dispatch api env req := by
  have hensure (rid : Str) : hEnsure api env rid (masked req) = hEnsure api env rid req := by
    unfold hEnsure
    rw [hjson]
    rfl
  have hrun (handler : Handler) : handler.run api env (masked req) = handler.run api env req := by
    cases handler with
    | chat =>
      unfold Handler.run extension
      simp only [masked, hChat_masked]
    | ensure =>
      unfold Handler.run extension
      simp only [hensure]
      rfl
    | _ => rfl
  unfold dispatch
  rw [show (masked req).uri.path = req.uri.path from rfl]
  cases handlerFor req.uri.path with
  | none => rfl
  | some handler =>
    dsimp only
    rw [hrun]
    rfl

/-! ## The layers -/

/-- What a refused request leaves: the state and the lines of the log. -/
def turnedAway (auth : Auth.AuthState) (now : Nat) (req : Request) : Auth.AuthState × List Str :=
  match Auth.policyFor req.uri.path with
  | none => (auth, [])
  | some policy =>
    if req.method ∈ policy.methods then
      auth.logFailure now req.peer req.method req.uri.path
        (if req.headers.containsKey .authorization then "invalid credentials" else "no credentials")
    else (auth, [])

theorem middleware_pass {now : Nat} (h : Auth.Admitted auth req) :
    Auth.middleware auth now req = (auth, [], .pass (Auth.passed auth req)) := by
  obtain ⟨r, hr, hc⟩ := h
  obtain ⟨hp, hm⟩ := Auth.routed_iff.mp hr
  have hd := Auth.RoutePolicy.decide_eq (p := Auth.presented auth req) (Auth.scope_ne_admin r hr.1) hm
  rw [if_pos (Auth.credentialed_iff.mp hc)] at hd
  simp only [Auth.middleware, hp, hd, Auth.passed]

theorem middleware_refuse {now : Nat} (h : ¬ Auth.Admitted auth req) : Auth.middleware auth now req =
    ((turnedAway auth now req).1, (turnedAway auth now req).2, .refuse (Auth.refusal req)) := by
  cases hp : Auth.policyFor req.uri.path with
  | none => simp only [Auth.middleware, Auth.refusal, turnedAway, hp]
  | some r =>
    by_cases hm : req.method ∈ r.methods
    · have hr : Auth.Routed req r := Auth.routed_iff.mpr ⟨hp, hm⟩
      have hc : ¬ Auth.Credentialed auth req r := fun hc => h ⟨r, hr, hc⟩
      have hd := Auth.RoutePolicy.decide_eq (p := Auth.presented auth req) (Auth.scope_ne_admin r hr.1) hm
      rw [if_neg (mt Auth.credentialed_iff.mpr hc)] at hd
      simp only [Auth.middleware, Auth.refusal, turnedAway, hp, hd, if_pos hm]
    · have hd : r.decide req.method (Auth.presented auth req) = .error .endpointNotSupported := by
        rw [Auth.RoutePolicy.decide, if_pos (by simpa using hm)]
      simp only [Auth.middleware, Auth.refusal, turnedAway, hp, hd, if_neg hm]

/-- Two requests to two daemons: but for credentials they are the same, and they are decided alike. -/
structure Alike (auth auth' : Auth.AuthState) (req req' : Request) : Prop where
  method : req'.method = req.method
  headers : maskHeaders req'.headers = maskHeaders req.headers
  /-- A `token=` that is valid is taken away. -/
  uri : (Auth.passed auth' req').uri = (Auth.passed auth req).uri
  body : req'.body = req.body
  requestId : req'.requestId = req.requestId
  peer : req'.peer = req.peer
  decided : Auth.Admitted auth' req' ↔ Auth.Admitted auth req

theorem path_passed : (Auth.passed auth req).uri.path = req.uri.path := by
  unfold Auth.passed Auth.stripQueryToken
  split
  · cases req.uri.query <;> rfl
  · rfl

theorem passed_eq : Auth.passed auth req = { req with uri := (Auth.passed auth req).uri } := by
  unfold Auth.passed
  split <;> rfl

theorem Alike.path (h : Alike auth auth' req req') : req'.uri.path = req.uri.path := by
  have hpath := congrArg Uri.path h.uri
  rwa [path_passed, path_passed] at hpath

theorem Alike.seen (h : Alike auth auth' req req') :
    masked (Auth.passed auth' req') = masked (Auth.passed auth req) := by
  have hpassed : Auth.passed auth req = { req with uri := (Auth.passed auth req).uri } := passed_eq
  rw [passed_eq, hpassed, masked, masked, h.method, h.headers, h.uri, h.body, h.requestId, h.peer]

theorem Alike.refusal (h : Alike auth auth' req req') : Auth.refusal req' = Auth.refusal req := by
  unfold Auth.refusal Auth.withId
  rw [h.path, h.method, h.requestId]

theorem Alike.turnedAway (h : Alike auth auth' req req') (hlast : auth'.lastFailure = auth.lastFailure)
    (now : Nat) : (turnedAway auth' now req').2 = (turnedAway auth now req).2 ∧
      ∃ last, (ControlApi.turnedAway auth' now req').1 = { auth' with lastFailure := last } ∧
        (ControlApi.turnedAway auth now req).1 = { auth with lastFailure := last } := by
  have hkey : req'.headers.containsKey .authorization = req.headers.containsKey .authorization := by
    rw [← containsKey_maskHeaders, h.headers, containsKey_maskHeaders]
  obtain ⟨token, allow, last⟩ := auth
  obtain ⟨token', allow', last'⟩ := auth'
  obtain rfl : last' = last := hlast
  unfold ControlApi.turnedAway Auth.AuthState.logFailure
  rw [h.path, h.method, h.peer, hkey]
  split
  · exact ⟨rfl, _, rfl, rfl⟩
  · split
    · dsimp only
      split
      · exact ⟨rfl, _, rfl, rfl⟩
      · split
        · exact ⟨rfl, _, rfl, rfl⟩
        · exact ⟨rfl, _, rfl, rfl⟩
    · exact ⟨rfl, _, rfl, rfl⟩

/-- The states differ in their token alone, and two daemons in them have answered and sent the same. -/
def SameOut (auth auth' : Auth.AuthState) (out out' : Response × Auth.AuthState × List Effect) : Prop :=
  out'.1 = out.1 ∧ out'.2.2 = out.2.2 ∧ ∃ last, out'.2.1 = { auth' with lastFailure := last } ∧
    out.2.1 = { auth with lastFailure := last }

theorem authLayer_alike (h : Alike auth auth' req req') (hlast : auth'.lastFailure = auth.lastFailure)
    (hjson : JsonBlind env) :
    SameOut auth auth' (authLayer auth api env req) (authLayer auth' api env req') := by
  unfold authLayer
  by_cases ha : Auth.Admitted auth req
  · rw [middleware_pass ha, middleware_pass (h.decided.mpr ha)]
    have hsame : dispatch api env (Auth.passed auth' req') = dispatch api env (Auth.passed auth req) := by
      rw [← dispatch_masked hjson, h.seen, dispatch_masked hjson]
    dsimp only
    rw [hsame]
    exact ⟨rfl, rfl, auth.lastFailure, by rw [← hlast], rfl⟩
  · rw [middleware_refuse ha, middleware_refuse (mt h.decided.mp ha)]
    obtain ⟨hlog, last, hauth', hauth⟩ := h.turnedAway hlast env.now
    dsimp only
    rw [h.refusal, hlog]
    exact ⟨rfl, rfl, last, hauth', hauth⟩

/-! ## The id -/

theorem get_insert {h : HeaderMap} {n m : HeaderName} {v : HeaderValue} (hne : n ≠ m) :
    (h.insert n v).get m = h.get m := by
  rw [HeaderMap.get, HeaderMap.getAll_insert_ne hne, HeaderMap.get]

theorem admitted_withId {id : Str} {value : HeaderValue} :
    Auth.Admitted auth { req with headers := req.headers.insert .xRequestId value, requestId := some id } ↔
      Auth.Admitted auth req := by
  have hbearer (t : Str) : Auth.PresentsBearer (req.headers.insert .xRequestId value) t ↔
      Auth.PresentsBearer req.headers t := by
    rw [Auth.PresentsBearer, Auth.PresentsBearer, get_insert (by decide)]
  refine exists_congr fun r => and_congr_right fun _ => ?_
  exact or_congr_right (or_congr_right (exists_congr fun t => and_congr_right fun _ =>
    or_congr_left (hbearer t)))

theorem Alike.chosenId (h : Alike auth auth' req req') (minted : Uuid7) :
    ProxyStream.chosenId minted req' = ProxyStream.chosenId minted req := by
  have hid : req'.headers.get .xRequestId = req.headers.get .xRequestId := by
    rw [← get_maskHeaders (by decide), h.headers, get_maskHeaders (by decide)]
  rw [ProxyStream.chosenId, hid, ProxyStream.chosenId]

theorem Alike.withId (h : Alike auth auth' req req') (id : Str) (v : HeaderValue) :
    Alike auth auth' { req with headers := req.headers.insert .xRequestId v, requestId := some id }
      { req' with headers := req'.headers.insert .xRequestId v, requestId := some id } where
  method := h.method
  headers := by
    rw [maskHeaders_insert (by decide), maskHeaders_insert (by decide), h.headers]
  uri := by
    have huri (a : Auth.AuthState) (r : Request) :
        (Auth.passed a { r with headers := r.headers.insert .xRequestId v, requestId := some id }).uri =
          (Auth.passed a r).uri := by
      have hq : Auth.queryValid a { r with headers := r.headers.insert .xRequestId v, requestId := some id } =
        Auth.queryValid a r := rfl
      rw [Auth.passed, Auth.passed, hq]
      split <;> rfl
    rw [huri, huri, h.uri]
  body := h.body
  requestId := rfl
  peer := h.peer
  decided := by rw [admitted_withId, admitted_withId, h.decided]

theorem serve_alike (h : Alike auth auth' req req') (hlast : auth'.lastFailure = auth.lastFailure)
    (hjson : JsonBlind env) : SameOut auth auth' (serve auth api env req) (serve auth' api env req') := by
  obtain ⟨v, hv, -, req₁, hreq, hs⟩ := requestIdMiddleware_eq env.minted (authLayer auth api env) req
  obtain ⟨v', hv', -, req₂, hreq', hs'⟩ := requestIdMiddleware_eq env.minted (authLayer auth' api env) req'
  rw [h.chosenId] at hv' hreq'
  obtain rfl : v' = v := Option.some.inj (hv'.symm.trans hv)
  have halike : Alike auth auth' req₁ req₂ := by
    rw [hreq, hreq']
    exact h.withId _ _
  obtain ⟨hresp, heff, hstate⟩ :
      SameOut auth auth' (authLayer auth api env req₁) (authLayer auth' api env req₂) :=
    authLayer_alike halike hlast hjson
  rw [serve, serve, hs, hs']
  exact ⟨by rw [hresp], heff, hstate⟩

/-! ## A run -/

/-- The requests of a daemon, one after another, with what each meets: the answers, and what is logged
and sent. -/
def served (api : Api) : Auth.AuthState → List (ServiceEnv × Request) → List (Response × List Effect)
  | _, [] => []
  | auth, x :: xs =>
    let (response, auth, effects) := serve auth api x.1 x.2
    (response, effects) :: served api auth xs

theorem Alike.later (h : Alike auth auth' req req') (last : Str → Option Nat) :
    Alike { auth with lastFailure := last } { auth' with lastFailure := last } req req' :=
  ⟨h.method, h.headers, h.uri, h.body, h.requestId, h.peer, h.decided⟩

/-- **A credential decides, and does nothing else**: two daemons whose tokens decide alike on two runs of
requests, the same but for their credentials, answer, log and send the same. -/
theorem credentials_blind {xs ys : List (ServiceEnv × Request)}
    (h : List.Forall₂ (fun x y => y.1 = x.1 ∧ JsonBlind x.1 ∧ Alike auth auth' x.2 y.2) xs ys)
    (hlast : auth'.lastFailure = auth.lastFailure) : served api auth' ys = served api auth xs := by
  suffices hall : ∀ last, served api { auth' with lastFailure := last } ys =
      served api { auth with lastFailure := last } xs by
    rw [show auth' = { auth' with lastFailure := auth.lastFailure } by rw [← hlast]]
    exact hall auth.lastFailure
  induction h with
  | nil => exact fun _ => rfl
  | @cons x y xs ys hxy _ ih =>
    obtain ⟨henv, hjson, halike⟩ := hxy
    intro last
    obtain ⟨hresp, heff, last', hauth', hauth⟩ : SameOut _ _ (serve _ api x.1 x.2) (serve _ api x.1 y.2) :=
      serve_alike (halike.later last) rfl hjson
    rw [served, served, henv]
    dsimp only
    rw [hresp, heff, hauth', hauth]
    exact congrArg _ (ih last')

/-- Two daemons with tokens of their own: each lists its models for its token, and no other. -/
theorem credentials_blind_tokens :
    let auth (token : Str) : Auth.AuthState := { token := some token, allowQueryToken := false }
    let env : ServiceEnv :=
      { minted := sampleUuid, now := 0, json := fun _ => .error ⟨415, ""⟩, query := fun _ => .error ""
        notAllowed := ⟨405, [], .text ""⟩, noExtension := ⟨500, [], .text ""⟩
        chat := { read := fun _ => .error "", ensure := ⟨none, card24, .error "", 0⟩
                  upstream := .error .timeout } }
    let req (v : HeaderValue) : Request :=
      { method := .get, uri := ⟨"/v1/models", none⟩, headers := [(.authorization, v)] }
    let key : HeaderValue := ⟨bytes "Bearer key", by decide⟩
    let other : HeaderValue := ⟨bytes "Bearer other", by decide⟩
    served pairApi (auth "other") [(env, req other), (env, req key)] =
      served pairApi (auth "key") [(env, req key), (env, req other)] := by
  intro auth env req key other
  have hjson : JsonBlind env := fun _ => rfl
  have hadmitted (a : Auth.AuthState) (r : Request) (code : Option ErrorCode)
      (h : Auth.decision a 0 r = code) : Auth.Admitted a r ↔ code = none := by
    rw [← h, Auth.decision_eq_none_iff]
  have hpair (v v' : HeaderValue) (code : Option ErrorCode) (h : Auth.decision (auth "key") 0 (req v) = code)
      (h' : Auth.decision (auth "other") 0 (req v') = code) :
      Alike (auth "key") (auth "other") (req v) (req v') :=
    ⟨rfl, rfl, rfl, rfl, rfl, rfl, (hadmitted _ _ _ h').trans (hadmitted _ _ _ h).symm⟩
  refine credentials_blind (.cons ⟨rfl, hjson, hpair key other none ?_ ?_⟩
    (.cons ⟨rfl, hjson, hpair other key (some .authRequired) ?_ ?_⟩ .nil)) rfl
  all_goals decide +kernel

end Saltnitor.ControlApi
