import Saltnitor.ProxyStream.Body
import Saltnitor.ProxyStream.Headers

/-!
# Forwarding and request ids

`forward` hands a body to the runtime and relays what comes back;
`requestIdMiddleware` is the outermost layer, which chooses the one id of a
request. What the runtime answers is an argument, and so is the UUIDv7 a fresh
id is taken from.
-/

namespace Saltnitor.ProxyStream

open Rust Http

/-! ## Responses -/

inductive Payload where
  | json (v : Json)
  /-- The upstream body behind `AbortOnError`. -/
  | relay (upstream : Nat → InnerPoll) (requestId : Str) (idle : Duration)
  /-- Server-sent events, one a value. -/
  | events (frames : List Json)
  /-- An answer of axum's own. -/
  | text (s : Str)

structure Response where
  status : Nat
  headers : HeaderMap
  payload : Payload

end ProxyStream

namespace ApiError

open ProxyStream Http

def intoResponse (e : ApiError) : Response where
  status := e.code.rendered
  headers := HeaderMap.append [] .contentType .applicationJson ++
    if e.code = .modelBusy then HeaderMap.append [] .retryAfter .one else []
  payload := .json e.body

end ApiError

namespace ProxyStream

open Rust Http

/-- The envelope of an error with this code, for the request with this id. -/
def Response.IsEnvelope (r : Response) (code : ErrorCode) (id : Str) : Prop :=
  ∃ e : ApiError, e.code = code ∧ e.requestId = some id ∧ r = e.intoResponse

theorem isEnvelope (e : ApiError) (id : Str) :
    (e.withRequestId id).intoResponse.IsEnvelope e.code id := ⟨e.withRequestId id, rfl, rfl, rfl⟩

theorem Response.IsEnvelope.status {r : Response} {code : ErrorCode} {id : Str}
    (h : r.IsEnvelope code id) : r.status = code.rendered := by
  obtain ⟨e, rfl, -, rfl⟩ := h
  rfl

/-! ## The forwarded request -/

/-- Why there is no upstream response. -/
inductive SendFailure where
  /-- `first_byte_ms` went by. -/
  | firstByte
  | timeout
  | connection (text : Str)

structure UpstreamResponse where
  status : Nat
  headers : HeaderMap
  body : Nat → InnerPoll

def sendError : SendFailure → ApiError
  | .firstByte =>
    { code := .upstreamTimeout
      message := "no response headers from the runtime within first_byte_ms" }
  | .timeout =>
    { code := .upstreamTimeout
      message := "the runtime did not answer within the configured timeout" }
  | .connection text =>
    { code := .runtimeUnhealthy
      message := ("runtime connection failed before response headers: " : Str) ++ text }

/-- The upstream response as it goes downstream. -/
def relayResponse (requestId : Str) (limits : ProxyLimits) (up : UpstreamResponse) : Response :=
  match HeaderValue.fromStr requestId with
  | some v =>
    { status := up.status
      headers := (forwardableResponseHeaders up.headers).append .xRequestId v
      payload := .relay up.body requestId limits.idle }
  | none =>
    ({ code := .runtimeUnhealthy
       message := "could not relay the runtime response: failed to parse header value" :
      ApiError }.withRequestId requestId).intoResponse

/-- The response, and the request that was sent if one could be built. -/
def forward (url : Str) (upstreamBearer : Option Str) (reqHeaders : HeaderMap) (body : List UInt8)
    (requestId : Str) (limits : ProxyLimits) (reply : Except SendFailure UpstreamResponse) :
    Response × Option Outgoing :=
  match upstreamHeaders upstreamBearer reqHeaders requestId with
  | none =>
    (((sendError (.connection "builder error")).withRequestId requestId).intoResponse, none)
  | some headers =>
    let response := match reply with
      | .error e => ((sendError e).withRequestId requestId).intoResponse
      | .ok up => relayResponse requestId limits up
    (response, some { method := .post, url, headers, body })

/-! ## Request ids -/

def isIdChar (c : Char) : Bool := c.isAlphanum || c == '.' || c == '_' || c == '-'

/-- `^[A-Za-z0-9._-]{1,128}$`. -/
def isId (s : Str) : Bool := 1 ≤ s.length && s.length ≤ 128 && s.all isIdChar

/-- The text of a version 7 UUID. -/
structure Uuid7 where
  text : Str
  length_eq : text.length = 36
  shape : ∀ i, i < 36 → ∀ c, text[i]? = some c →
    if i = 8 ∨ i = 13 ∨ i = 18 ∨ i = 23 then c = '-'
    else if i = 14 then c = '7'
    else if i = 19 then c ∈ "89ab".toList
    else c ∈ "0123456789abcdef".toList

/-- Keep a well-formed incoming id; otherwise the minted one. -/
def requestIdFor (incoming : Option Str) (minted : Uuid7) : Str :=
  match incoming with
  | some s => if isId s then s else minted.text
  | none => minted.text

/-- The id of a request: its first `X-Request-Id`, if that is a well-formed id. -/
def chosenId (minted : Uuid7) (req : Request) : Str :=
  requestIdFor ((req.headers.get .xRequestId).bind HeaderValue.toStr) minted

/-- The id goes on the request, into its extensions and, unless one is there, on the response. -/
def requestIdMiddleware {α : Type*} (minted : Uuid7) (next : Request → Response × α)
    (req : Request) : Response × α :=
  let id := chosenId minted req
  match HeaderValue.fromStr id with
  | some v =>
    let (resp, a) := next
      { req with headers := req.headers.insert .xRequestId v, requestId := some id }
    ({ resp with headers := resp.headers.orInsert .xRequestId v }, a)
  | none => next req

/-! ## Ids as header values -/

theorem encode_ascii : ∀ n < 127, 32 ≤ n →
    ∀ b ∈ String.utf8EncodeChar (Char.ofNat n), isValueByte b = true := by decide +kernel

theorem isIdChar_range {c : Char} (h : isIdChar c = true) : 32 ≤ c.toNat ∧ c.toNat < 127 := by
  have heq (d : Char) (hd : 32 ≤ d.toNat ∧ d.toNat < 127) (h : c = d) :
      32 ≤ c.toNat ∧ c.toNat < 127 := h ▸ hd
  simp only [isIdChar, Bool.or_eq_true, beq_iff_eq] at h
  rcases h with ((halnum | h) | h) | h
  · have hranges : (c.isUpper = true ∨ c.isLower = true) ∨ c.isDigit = true := by
      rw [← Bool.or_eq_true, ← Bool.or_eq_true]
      exact halnum
    rcases hranges with (h | h) | h
    · have hr : 65 ≤ c.toNat ∧ c.toNat ≤ 90 := of_decide_eq_true h
      omega
    · have hr : 97 ≤ c.toNat ∧ c.toNat ≤ 122 :=
        (Bool.and_eq_true_iff.mp h).imp of_decide_eq_true of_decide_eq_true
      omega
    · have hr : 48 ≤ c.toNat ∧ c.toNat ≤ 57 :=
        (Bool.and_eq_true_iff.mp h).imp of_decide_eq_true of_decide_eq_true
      omega
  all_goals exact heq _ (by decide) h

theorem fromStr_ascii {s : Str} (h : ∀ c ∈ s, 32 ≤ c.toNat ∧ c.toNat < 127) :
    ∃ v, HeaderValue.fromStr s = some v ∧ v.bytes = bytes s := by
  have hb : ∀ b ∈ Rust.bytes s, isValueByte b = true := by
    intro b hb
    obtain ⟨c, hc, hbc⟩ := List.mem_flatMap.mp hb
    rw [← Char.ofNat_toNat c] at hbc
    exact encode_ascii c.toNat (h c hc).2 (h c hc).1 b hbc
  exact ⟨_, dif_pos hb, rfl⟩

theorem Uuid7.isId (u : Uuid7) : isId u.text = true := by
  have hchar : ∀ c ∈ u.text, isIdChar c = true := by
    intro c hc
    obtain ⟨i, hi⟩ := List.mem_iff_getElem?.mp hc
    have hlt : i < 36 := u.length_eq ▸ (List.getElem?_eq_some_iff.mp hi).1
    have hs := u.shape i hlt c hi
    split at hs
    · rw [hs]; decide
    · split at hs
      · rw [hs]; decide
      · split at hs
        · exact (by decide : ∀ c ∈ "89ab".toList, isIdChar c = true) c hs
        · exact (by decide : ∀ c ∈ "0123456789abcdef".toList, isIdChar c = true) c hs
  simpa [ProxyStream.isId, u.length_eq] using hchar

theorem isId_requestIdFor (incoming : Option Str) (minted : Uuid7) :
    isId (requestIdFor incoming minted) = true := by
  unfold requestIdFor
  cases incoming with
  | none => exact minted.isId
  | some s =>
    dsimp only
    split
    · assumption
    · exact minted.isId

theorem fromStr_isId {s : Str} (h : isId s = true) :
    ∃ v, HeaderValue.fromStr s = some v ∧ v.bytes = bytes s := by
  refine fromStr_ascii fun c hc => isIdChar_range ?_
  simp only [isId, Bool.and_eq_true] at h
  exact List.all_eq_true.mp h.2 c hc

/-- The layer passes the id on and puts it on the response unless that has one. -/
theorem requestIdMiddleware_eq {α : Type*} (minted : Uuid7) (next : Request → Response × α)
    (req : Request) : ∃ v, HeaderValue.fromStr (chosenId minted req) = some v ∧
      v.bytes = bytes (chosenId minted req) ∧
      ∃ req', req' = { req with headers := req.headers.insert .xRequestId v
                                requestId := some (chosenId minted req) } ∧
        requestIdMiddleware minted next req =
          ({ (next req').1 with headers := (next req').1.headers.orInsert .xRequestId v },
            (next req').2) := by
  obtain ⟨v, hv, hb⟩ := fromStr_isId (isId_requestIdFor
    ((req.headers.get .xRequestId).bind HeaderValue.toStr) minted)
  refine ⟨v, hv, hb, _, rfl, ?_⟩
  have hv' : HeaderValue.fromStr (chosenId minted req) = some v := hv
  simp only [requestIdMiddleware, hv']

/-! ## Ids on what is forwarded -/

theorem getAll_forwardableResponseHeaders (h : HeaderMap) :
    HeaderMap.getAll (forwardableResponseHeaders h) .xRequestId = [] := by
  rw [HeaderMap.getAll_eq_nil]
  intro f hf hn
  have hf := (List.mem_filter.mp hf).2
  simp only [Bool.and_eq_true, Bool.not_eq_true', bne_iff_ne] at hf
  exact hf.2 (congrArg HeaderName.text hn)

theorem xRequestId_upstream {bearer : Option Str} {req up : HeaderMap} {id : Str}
    (h : upstreamHeaders bearer req id = some up) :
    (up.getAll .xRequestId).map HeaderValue.bytes = [bytes id] := by
  have hreq : HeaderMap.getAll (forwardableRequestHeaders req) .xRequestId = [] :=
    getAll_forwardableRequestHeaders (.inr rfl)
  have hauth : HeaderName.authorization ≠ .xRequestId := by decide
  obtain ⟨v, hv, h⟩ := Option.bind_eq_some_iff.mp h
  rw [← HeaderValue.fromStr_bytes hv]
  cases bearer with
  | none =>
    cases h
    simp [HeaderMap.append, hreq]
  | some b =>
    obtain ⟨w, -, rfl⟩ := Option.map_eq_some_iff.mp h
    simp [HeaderMap.append, hreq, hauth]

end ProxyStream

end Saltnitor
