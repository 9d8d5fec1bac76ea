import Saltnitor.Error
import Mathlib.Data.List.Basic

/-!
# Authentication

One layer guards the whole router: `middleware` looks the path up in the policy
table, checks the method, then the credential, and passes the request on or
refuses it with an envelope. `Admitted` says who should pass; `middleware_exact`
says exactly they do, and what everyone else is told.
-/

namespace Saltnitor.Auth

open Rust Http

/-! ## The policy table -/

inductive RouteAuth where
  | «public»
  | required
  deriving DecidableEq

inductive Scope where
  | none
  | inference
  | admin
  deriving DecidableEq

structure RoutePolicy where
  path : Str
  methods : List Method
  auth : RouteAuth
  scope : Scope
  /-- `?token=` is accepted here, on GET, when `allowQueryToken` is on. -/
  queryTokenCompat : Bool
  deriving DecidableEq

def policy : List RoutePolicy := [
  { path := "/healthz", methods := [.get], auth := .public, scope := .none,
    queryTokenCompat := false },
  { path := "/v1/models", methods := [.get], auth := .required, scope := .inference,
    queryTokenCompat := false },
  { path := "/v1/status", methods := [.get], auth := .required, scope := .inference,
    queryTokenCompat := false },
  { path := "/v1/chat/completions", methods := [.post], auth := .required, scope := .inference,
    queryTokenCompat := false },
  { path := "/v1/ensure", methods := [.post], auth := .required, scope := .inference,
    queryTokenCompat := false },
  { path := "/v1/ensure/stream", methods := [.get], auth := .required, scope := .inference,
    queryTokenCompat := true }]

def policyFor (path : Str) : Option RoutePolicy := policy.find? fun p => p.path == path

/-- What the request presented. -/
structure Presented where
  tokenConfigured : Bool
  bearerValid : Bool
  queryValid : Bool
  allowQuery : Bool
  isGet : Bool
  deriving DecidableEq

/-- The policy decision. -/
def RoutePolicy.decide (policy : RoutePolicy) (method : Method) (p : Presented) :
    Except ErrorCode Unit :=
  if !policy.methods.contains method then .error .endpointNotSupported
  else if policy.auth == .public || !p.tokenConfigured then .ok ()
  else
    let viaQuery := policy.queryTokenCompat && p.allowQuery && p.isGet && p.queryValid
    if !(p.bearerValid || viaQuery) then .error .authRequired
    else
      match policy.scope with
      | .none | .inference => .ok ()
      | .admin => .error .authForbidden

/-! ## Credentials -/

def bearerFromHeader (value : Str) : Option Str :=
  match splitOnce ' ' value with
  | none => none
  | some (scheme, rest) =>
    if !eqIgnoreAsciiCase scheme "bearer" then none
    else
      let t := rest.dropWhile (· == ' ')
      if t.isEmpty then none else some t

def tokenMatches (expected : Option Str) (presented : Str) : Bool :=
  match expected with
  | some e => bytes e == bytes presented
  | none => false

def queryToken (uri : Uri) : Option Str :=
  uri.query.bind fun q => (q.splitOn '&').findSome? (List.isPrefixOf? ("token=" : Str))

/-- The same URI without `token=`. -/
def stripQueryToken (uri : Uri) : Uri :=
  match uri.query with
  | none => uri
  | some q =>
    let kept := (q.splitOn '&').filter fun kv => !List.isPrefixOf ("token=" : Str) kv
    { uri with query := if kept.isEmpty then none else some (['&'].intercalate kept) }

/-! ## The layer -/

structure AuthState where
  token : Option Str
  allowQueryToken : Bool
  /-- When a failure of each IP was last logged, in nanoseconds. -/
  lastFailure : Str → Option Nat := fun _ => none

/-- At most one line per peer per second. -/
def AuthState.logFailure (auth : AuthState) (now : Nat) (peer : Option Peer) (method : Method)
    (path reason : Str) : AuthState × List Str :=
  let line (shown : Str) : Str :=
    ("auth: 401 listener=loopback peer=" : Str) ++ shown ++ (" " : Str) ++ method.asStr ++
      (" " : Str) ++ path ++ (" (" : Str) ++ reason ++ (")" : Str)
  match peer with
  | none => (auth, [line "unknown"])
  | some p =>
    if (auth.lastFailure p.ip).any fun t => now - t < 10 ^ 9 then (auth, [])
    else
      ({ auth with lastFailure := fun ip => if ip = p.ip then some now else auth.lastFailure ip },
        [line p.shown])

/-- The layer passes a request on or answers it. -/
inductive Outcome where
  | pass (req : Request)
  | refuse (e : ApiError)

def bearerValid (auth : AuthState) (req : Request) : Bool :=
  (((req.headers.get .authorization).bind HeaderValue.toStr).bind bearerFromHeader).any
    (tokenMatches auth.token)

def queryValid (auth : AuthState) (req : Request) : Bool :=
  (queryToken req.uri).any (tokenMatches auth.token)

def presented (auth : AuthState) (req : Request) : Presented where
  tokenConfigured := auth.token.isSome
  bearerValid := bearerValid auth req
  queryValid := queryValid auth req
  allowQuery := auth.allowQueryToken
  isGet := req.method == .get

/-- Every envelope carries the request id when the id layer ran. -/
def withId (req : Request) (e : ApiError) : ApiError :=
  match req.requestId with
  | some id => e.withRequestId id
  | none => e

def middleware (auth : AuthState) (now : Nat) (req : Request) : AuthState × List Str × Outcome :=
  let path := req.uri.path
  match policyFor path with
  | none =>
    (auth, [], .refuse (withId req
      { code := .endpointNotSupported, message := path ++ (" is not supported" : Str) }))
  | some policy =>
    match policy.decide req.method (presented auth req) with
    | .ok () =>
      (auth, [], .pass (if queryValid auth req then { req with uri := stripQueryToken req.uri }
        else req))
    | .error .authRequired =>
      let reason : Str :=
        if req.headers.containsKey .authorization then "invalid credentials" else "no credentials"
      let (auth, log) := auth.logFailure now req.peer req.method path reason
      (auth, log, .refuse (withId req
        { code := .authRequired, message := "missing or invalid credentials" }))
    | .error .authForbidden =>
      (auth, [], .refuse (withId req
        { code := .authForbidden, message := "this credential lacks the required scope" }))
    | .error code =>
      (auth, [], .refuse (withId req
        { code, message := req.method.asStr ++ (" " : Str) ++ path ++
          (" is not supported" : Str) }))

/-! ## Who should pass -/

/-- `value` is the word bearer, one or more spaces, and `token`. -/
def CarriesBearer (value token : Str) : Prop :=
  ∃ scheme n, value = scheme ++ List.replicate (n + 1) ' ' ++ token ∧
    toAsciiLowercase scheme = ("bearer" : Str) ∧ token ≠ [] ∧ token.head? ≠ some ' '

/-- The first `Authorization` value is text and carries `token`. -/
def PresentsBearer (h : HeaderMap) (token : Str) : Prop :=
  ∃ v value, h.get .authorization = some v ∧ v.toStr = some value ∧ CarriesBearer value token

/-- The first `token=` parameter of the raw query is `token`. -/
def PresentsQuery (uri : Uri) (token : Str) : Prop :=
  ∃ q before after, uri.query = some q ∧
    q.splitOn '&' = before ++ (("token=" : Str) ++ token) :: after ∧
    ∀ kv ∈ before, ¬ ("token=" : Str) <+: kv

/-- A route of the policy table with this path and method. -/
def Routed (req : Request) (r : RoutePolicy) : Prop :=
  r ∈ policy ∧ r.path = req.uri.path ∧ req.method ∈ r.methods

/-- The route is public, no token is configured, or the token is presented in an allowed way. -/
def Credentialed (auth : AuthState) (req : Request) (r : RoutePolicy) : Prop :=
  r.auth = .public ∨ auth.token = none ∨
    ∃ t, auth.token = some t ∧ (PresentsBearer req.headers t ∨
      auth.allowQueryToken = true ∧ r.queryTokenCompat = true ∧ req.method = .get ∧
        PresentsQuery req.uri t)

def Admitted (auth : AuthState) (req : Request) : Prop :=
  ∃ r, Routed req r ∧ Credentialed auth req r

/-! ## The credential checks -/

theorem dropWhile_replicate_append {c : Char} {n : Nat} {t : Str} :
    (List.replicate n c ++ t).dropWhile (· == c) = t.dropWhile (· == c) :=
  List.dropWhile_append_of_pos fun d hd => by simp [List.eq_of_mem_replicate hd]

theorem eq_replicate_append_dropWhile (c : Char) (s : Str) :
    ∃ n, s = List.replicate n c ++ s.dropWhile (· == c) := by
  induction s with
  | nil => exact ⟨0, rfl⟩
  | cons d s ih =>
    by_cases hd : d = c
    · obtain ⟨n, hn⟩ := ih
      refine ⟨n + 1, ?_⟩
      rw [List.dropWhile_cons_of_pos (by simp [hd]), List.replicate_succ, List.cons_append, ← hn, hd]
    · exact ⟨0, by rw [List.dropWhile_cons_of_neg (by simp [hd])]; rfl⟩

theorem head?_dropWhile_ne (c : Char) (s : Str) : (s.dropWhile (· == c)).head? ≠ some c := by
  intro h
  have := List.head?_dropWhile_not (· == c) s
  rw [h] at this
  simp at this

theorem CarriesBearer.of_parts {scheme rest : Str}
    (hb : toAsciiLowercase scheme = ("bearer" : Str)) (he : rest.dropWhile (· == ' ') ≠ []) :
    CarriesBearer (scheme ++ ' ' :: rest) (rest.dropWhile (· == ' ')) := by
  obtain ⟨n, hn⟩ := eq_replicate_append_dropWhile ' ' rest
  refine ⟨scheme, n, ?_, hb, he, head?_dropWhile_ne ' ' rest⟩
  rw [List.replicate_succ, List.append_assoc, List.cons_append, ← hn]

theorem bearerFromHeader_eq_some {value token : Str} :
    bearerFromHeader value = some token ↔ CarriesBearer value token := by
  have hword : toAsciiLowercase ("bearer" : Str) = ("bearer" : Str) := by decide
  constructor
  · intro h
    unfold bearerFromHeader at h
    split at h
    · cases h
    · rename_i scheme rest hs
      split at h
      · cases h
      · rename_i hb
        rw [Bool.not_eq_true', Bool.not_eq_false, eqIgnoreAsciiCase_iff, hword] at hb
        dsimp only at h
        split at h
        · cases h
        · rename_i he
          cases h
          rw [(splitOnce_eq_some.mp hs).1]
          exact CarriesBearer.of_parts hb (by simpa using he)
  · rintro ⟨scheme, n, rfl, hb, hne, hhead⟩
    have hsp : ' ' ∉ scheme := fun hm => by
      have : Char.toLower ' ' ∈ toAsciiLowercase scheme := List.mem_map_of_mem hm
      rw [hb] at this
      exact absurd this (by decide)
    have hdrop : token.dropWhile (· == ' ') = token := by
      cases token with
      | nil => rfl
      | cons c token => exact List.dropWhile_cons_of_neg (by simpa using hhead)
    have hsplit : splitOnce ' ' (scheme ++ List.replicate (n + 1) ' ' ++ token) =
        some (scheme, List.replicate n ' ' ++ token) := by
      rw [List.replicate_succ, List.append_assoc, List.cons_append]
      exact splitOnce_append hsp
    have hbear : eqIgnoreAsciiCase scheme "bearer" = true :=
      eqIgnoreAsciiCase_iff.mpr (hb.trans hword.symm)
    simp only [bearerFromHeader, hsplit, hbear, dropWhile_replicate_append, hdrop]
    rw [if_neg (by decide), if_neg (by simpa using hne)]

theorem tokenMatches_iff {expected : Option Str} {presented : Str} :
    tokenMatches expected presented = true ↔ expected = some presented := by
  cases expected with
  | none => simp [tokenMatches]
  | some e => simp [tokenMatches, bytes_inj]

theorem any_tokenMatches {expected found : Option Str} :
    found.any (tokenMatches expected) = true ↔ ∃ t, expected = some t ∧ found = some t := by
  cases found with
  | none => simp
  | some p => simp [tokenMatches_iff]

theorem bearerValid_iff {auth : AuthState} {req : Request} :
    bearerValid auth req = true ↔ ∃ t, auth.token = some t ∧ PresentsBearer req.headers t := by
  rw [bearerValid, any_tokenMatches]
  simp only [Option.bind_eq_some_iff, bearerFromHeader_eq_some, PresentsBearer]
  refine exists_congr fun t => and_congr_right fun _ => ⟨?_, ?_⟩
  · rintro ⟨value, ⟨v, hv, hs⟩, hc⟩
    exact ⟨v, value, hv, hs, hc⟩
  · rintro ⟨v, value, hv, hs, hc⟩
    exact ⟨value, ⟨v, hv, hs⟩, hc⟩

theorem queryToken_eq_some {uri : Uri} {token : Str} :
    queryToken uri = some token ↔ PresentsQuery uri token := by
  simp only [queryToken, Option.bind_eq_some_iff, List.findSome?_eq_some_iff, isPrefixOf?_eq_some,
    isPrefixOf?_eq_none, PresentsQuery]
  constructor
  · rintro ⟨q, hq, before, kv, after, hs, rfl, hb⟩
    exact ⟨q, before, after, hq, hs, hb⟩
  · rintro ⟨q, before, after, hq, hs, hb⟩
    exact ⟨q, hq, before, _, after, hs, rfl, hb⟩

theorem queryValid_iff {auth : AuthState} {req : Request} :
    queryValid auth req = true ↔ ∃ t, auth.token = some t ∧ PresentsQuery req.uri t := by
  simp only [queryValid, any_tokenMatches, queryToken_eq_some]

/-! ## The decision -/

theorem policy_path_inj : ∀ a ∈ policy, ∀ b ∈ policy, a.path = b.path → a = b := by decide

theorem policyFor_eq_some {path : Str} {r : RoutePolicy} :
    policyFor path = some r ↔ r ∈ policy ∧ r.path = path := by
  constructor
  · intro h
    exact ⟨List.mem_of_find?_eq_some h, by simpa using List.find?_some h⟩
  · rintro ⟨hr, rfl⟩
    cases hf : policyFor r.path with
    | none => simpa using List.find?_eq_none.mp hf r hr
    | some q =>
      have hp : q.path = r.path := by simpa using List.find?_some hf
      rw [policy_path_inj q (List.mem_of_find?_eq_some hf) r hr hp]

theorem scope_ne_admin : ∀ r ∈ policy, r.scope ≠ .admin := by decide

/-- Where the method is listed and no admin scope is asked for, the credential decides. -/
theorem RoutePolicy.decide_eq {policy : RoutePolicy} {method : Method} {p : Presented}
    (hs : policy.scope ≠ .admin) (hm : method ∈ policy.methods) :
    policy.decide method p =
      if policy.auth = .public ∨ p.tokenConfigured = false ∨ p.bearerValid = true ∨
          p.allowQuery = true ∧ policy.queryTokenCompat = true ∧ p.isGet = true ∧
            p.queryValid = true
      then .ok () else .error .authRequired := by
  obtain ⟨path, methods, need, scope, compat⟩ := policy
  obtain ⟨configured, bearer, query, allow, get⟩ := p
  have hscope : (match scope with
      | .none | .inference => (.ok () : Except ErrorCode Unit)
      | .admin => .error .authForbidden) = .ok () := by
    cases scope with
    | none => rfl
    | inference => rfl
    | admin => exact absurd rfl hs
  simp only [RoutePolicy.decide, hscope]
  simp only at hm
  rw [if_neg (by simpa using hm)]
  cases need <;> cases configured <;> cases bearer <;> cases compat <;> cases allow <;>
    cases get <;> cases query <;> rfl

theorem credentialed_iff {auth : AuthState} {req : Request} {r : RoutePolicy} :
    Credentialed auth req r ↔ r.auth = .public ∨ (presented auth req).tokenConfigured = false ∨
      (presented auth req).bearerValid = true ∨ (presented auth req).allowQuery = true ∧
        r.queryTokenCompat = true ∧ (presented auth req).isGet = true ∧
          (presented auth req).queryValid = true := by
  simp only [presented, bearerValid_iff, queryValid_iff, Credentialed, beq_iff_eq,
    Option.isSome_eq_false_iff, Option.isNone_iff_eq_none]
  refine or_congr_right (or_congr_right ⟨?_, ?_⟩)
  · rintro ⟨t, ht, hb | ⟨ha, hc, hg, hq⟩⟩
    · exact .inl ⟨t, ht, hb⟩
    · exact .inr ⟨ha, hc, hg, t, ht, hq⟩
  · rintro (⟨t, ht, hb⟩ | ⟨ha, hc, hg, t, ht, hq⟩)
    · exact ⟨t, ht, .inl hb⟩
    · exact ⟨t, ht, .inr ⟨ha, hc, hg, hq⟩⟩

/-! ## The layer's answer -/

section Layer

variable {auth : AuthState} {now : Nat} {req : Request}

/-- What the layer says of a request it does not pass. -/
def refusal (req : Request) : ApiError :=
  withId req <|
    match policyFor req.uri.path with
    | none =>
      { code := .endpointNotSupported, message := req.uri.path ++ (" is not supported" : Str) }
    | some r =>
      if req.method ∈ r.methods then
        { code := .authRequired, message := "missing or invalid credentials" }
      else
        { code := .endpointNotSupported, message := req.method.asStr ++ (" " : Str) ++
            req.uri.path ++ (" is not supported" : Str) }

/-- The request as the handler sees it. -/
def passed (auth : AuthState) (req : Request) : Request :=
  if queryValid auth req then { req with uri := stripQueryToken req.uri } else req

theorem routed_iff {r : RoutePolicy} :
    Routed req r ↔ policyFor req.uri.path = some r ∧ req.method ∈ r.methods := by
  rw [Routed, policyFor_eq_some, and_assoc]

theorem middleware_unrouted (h : ∀ r, ¬ Routed req r) :
    (middleware auth now req).2.2 = .refuse (refusal req) := by
  cases hp : policyFor req.uri.path with
  | none => simp only [middleware, refusal, hp]
  | some r =>
    have hm : req.method ∉ r.methods := fun hm => h r (routed_iff.mpr ⟨hp, hm⟩)
    have hd : r.decide req.method (presented auth req) = .error .endpointNotSupported := by
      rw [RoutePolicy.decide, if_pos (by simpa using hm)]
    simp only [middleware, refusal, hp, hd, if_neg hm]

theorem middleware_admitted {r : RoutePolicy} (hr : Routed req r)
    (hc : Credentialed auth req r) : (middleware auth now req).2.2 = .pass (passed auth req) := by
  obtain ⟨hp, hm⟩ := routed_iff.mp hr
  have hd := RoutePolicy.decide_eq (p := presented auth req) (scope_ne_admin r hr.1) hm
  rw [if_pos (credentialed_iff.mp hc)] at hd
  simp only [middleware, hp, hd, passed]

theorem middleware_uncredentialed {r : RoutePolicy} (hr : Routed req r)
    (hc : ¬ Credentialed auth req r) :
    (middleware auth now req).2.2 = .refuse (refusal req) := by
  obtain ⟨hp, hm⟩ := routed_iff.mp hr
  have hd := RoutePolicy.decide_eq (p := presented auth req) (scope_ne_admin r hr.1) hm
  rw [if_neg (mt credentialed_iff.mpr hc)] at hd
  simp only [middleware, refusal, hp, hd, if_pos hm]

theorem middleware_cases (auth : AuthState) (now : Nat) (req : Request) :
    (Admitted auth req ∧ (middleware auth now req).2.2 = .pass (passed auth req)) ∨
    ((∀ r, ¬ Routed req r) ∧ (middleware auth now req).2.2 = .refuse (refusal req) ∧
      (refusal req).code = .endpointNotSupported) ∨
    ((∃ r, Routed req r) ∧ ¬ Admitted auth req ∧
      (middleware auth now req).2.2 = .refuse (refusal req) ∧
      (refusal req).code = .authRequired) := by
  have hcode (e : ApiError) : (withId req e).code = e.code := by unfold withId; split <;> rfl
  by_cases hr : ∃ r, Routed req r
  · obtain ⟨r, hr⟩ := hr
    obtain ⟨hp, hm⟩ := routed_iff.mp hr
    by_cases hc : Credentialed auth req r
    · exact .inl ⟨⟨r, hr, hc⟩, middleware_admitted hr hc⟩
    · refine .inr (.inr ⟨⟨r, hr⟩, ?_, middleware_uncredentialed hr hc, ?_⟩)
      · rintro ⟨q, hq, hcq⟩
        have : some q = some r := (routed_iff.mp hq).1.symm.trans hp
        cases this
        exact hc hcq
      · simp only [refusal, hcode, hp, if_pos hm]
  · push Not at hr
    refine .inr (.inl ⟨hr, middleware_unrouted hr, ?_⟩)
    rw [refusal, hcode]
    cases hp : policyFor req.uri.path with
    | none => rfl
    | some r => exact congrArg _ (if_neg fun hm => hr r (routed_iff.mpr ⟨hp, hm⟩))

/-- The same request with other headers and another raw query. -/
def withCredentials (req : Request) (h : HeaderMap) (q : Option Str) : Request :=
  { req with headers := h, uri := { req.uri with query := q } }

theorem routed_withCredentials {h : HeaderMap} {q : Option Str} {r : RoutePolicy} :
    Routed (withCredentials req h q) r ↔ Routed req r := Iff.rfl

/-- Off the query-compatible route the query is no credential. -/
theorem admitted_query {q : Option Str} (hr : ∀ r, Routed req r → r.queryTokenCompat = false) :
    Admitted auth (withCredentials req req.headers q) ↔ Admitted auth req := by
  refine exists_congr fun r => and_congr_right fun hrr => ?_
  have hc : r.queryTokenCompat ≠ true := by
    rw [hr r (routed_withCredentials.mp hrr)]
    exact Bool.false_ne_true
  refine or_congr_right (or_congr_right (exists_congr fun t => and_congr_right fun _ => ?_))
  exact or_congr_right ⟨fun h => absurd h.2.1 hc, fun h => absurd h.2.1 hc⟩

/-- How a request is decided: `none` passes it, a code refuses it. -/
def decision (auth : AuthState) (now : Nat) (req : Request) : Option ErrorCode :=
  match (middleware auth now req).2.2 with
  | .pass _ => none
  | .refuse e => some e.code

theorem decision_unrouted (h : ∀ r, ¬ Routed req r) :
    decision auth now req = some .endpointNotSupported := by
  rcases middleware_cases auth now req with ⟨⟨r, hr, -⟩, -⟩ | ⟨-, hm, hc⟩ | ⟨⟨r, hr⟩, -⟩
  · exact absurd hr (h r)
  · rw [decision, hm, ← hc]
  · exact absurd hr (h r)

theorem decision_refused (h : ∃ r, Routed req r) (ha : ¬ Admitted auth req) :
    decision auth now req = some .authRequired := by
  rcases middleware_cases auth now req with ⟨h', -⟩ | ⟨h', -⟩ | ⟨-, -, hm, hc⟩
  · exact absurd h' ha
  · exact absurd h (not_exists.mpr h')
  · rw [decision, hm, ← hc]

theorem decision_admitted (h : Admitted auth req) : decision auth now req = none := by
  rcases middleware_cases auth now req with ⟨-, hm⟩ | ⟨h', -⟩ | ⟨-, h', -⟩
  · rw [decision, hm]
  · obtain ⟨r, hr, -⟩ := h
    exact absurd hr (h' r)
  · exact absurd h h'

theorem decision_eq_none_iff : decision auth now req = none ↔ Admitted auth req := by
  refine ⟨fun hd => by_contra fun ha => ?_, decision_admitted⟩
  by_cases hr : ∃ r, Routed req r
  · rw [decision_refused hr ha] at hd
    cases hd
  · rw [decision_unrouted (not_exists.mp hr)] at hd
    cases hd

theorem decision_congr {req' : Request} (hr : ∀ r, Routed req r ↔ Routed req' r)
    (ha : Admitted auth req ↔ Admitted auth req') :
    decision auth now req = decision auth now req' := by
  by_cases had : Admitted auth req
  · rw [decision_admitted had, decision_admitted (ha.mp had)]
  · by_cases hex : ∃ r, Routed req r
    · obtain ⟨r, hrr⟩ := hex
      rw [decision_refused ⟨r, hrr⟩ had, decision_refused ⟨r, (hr r).mp hrr⟩ (mt ha.mpr had)]
    · rw [decision_unrouted (not_exists.mp hex),
        decision_unrouted fun r hrr => hex ⟨r, (hr r).mpr hrr⟩]

end Layer

/-- **The layer passes exactly the admitted requests.** The others get 404 when no route has the
path and method, whatever credentials they carry, and 401 otherwise; off the query-compatible
route the query decides nothing. -/
theorem middleware_exact (auth : AuthState) (now : Nat) (req : Request) :
    (decision auth now req = none ↔ Admitted auth req) ∧
    ((∀ r, ¬ Routed req r) → ∀ auth' now' h q,
      (decision auth' now' (withCredentials req h q)).map ErrorCode.rendered = some 404) ∧
    ((∃ r, Routed req r) → ¬ Admitted auth req →
      (decision auth now req).map ErrorCode.rendered = some 401) ∧
    ((∀ r, Routed req r → r.queryTokenCompat = false) → ∀ q,
      decision auth now (withCredentials req req.headers q) = decision auth now req) := by
  refine ⟨decision_eq_none_iff, fun h auth' now' hd q => ?_, fun h ha => ?_, fun h q => ?_⟩
  · have hu : decision auth' now' (withCredentials req hd q) = some .endpointNotSupported :=
      decision_unrouted h
    rw [hu]
    rfl
  · rw [decision_refused h ha]
    rfl
  · exact decision_congr (fun r => routed_withCredentials) (admitted_query h)

end Saltnitor.Auth
