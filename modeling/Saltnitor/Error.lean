import Saltnitor.Http
import Saltnitor.Rust.Json

/-!
# Error envelopes

The catalog of error codes with their status, kind and name, and `ApiError`,
the one shape every daemon-generated HTTP error has.
-/

namespace Saltnitor

open Rust Http

inductive ErrorCode where
  | authRequired
  | authForbidden
  | requestInvalid
  | payloadTooLarge
  | endpointNotSupported
  | modelNotFound
  | modelBusy
  | oracleRejected
  | runtimeNotFound
  | runtimeCapabilityMissing
  | runtimeStartFailed
  | runtimeUnhealthy
  | upstreamTimeout
  | upstreamStreamAborted
  | gpuOom
  | processChanged
  | processProtected
  | validationRequired
  | benchmarkFailed
  | shuttingDown
  | configInvalid
  | internal
  deriving DecidableEq, Repr

namespace ErrorCode

/-- `none` for `upstreamStreamAborted`: the headers are already sent. -/
def status : ErrorCode → Option Nat
  | authRequired => some 401
  | authForbidden | processProtected => some 403
  | requestInvalid => some 400
  | payloadTooLarge => some 413
  | endpointNotSupported | modelNotFound => some 404
  | modelBusy | runtimeNotFound | gpuOom | shuttingDown => some 503
  | oracleRejected => some 507
  | runtimeCapabilityMissing | configInvalid => some 422
  | runtimeStartFailed | runtimeUnhealthy => some 502
  | upstreamTimeout => some 504
  | upstreamStreamAborted => none
  | processChanged | validationRequired => some 409
  | benchmarkFailed | internal => some 500

def kind : ErrorCode → Str
  | authRequired => "authentication_error"
  | authForbidden | processProtected => "permission_error"
  | requestInvalid | payloadTooLarge | endpointNotSupported | modelNotFound
  | runtimeCapabilityMissing | processChanged | validationRequired | configInvalid =>
    "invalid_request_error"
  | modelBusy | oracleRejected | runtimeNotFound | runtimeStartFailed | runtimeUnhealthy
  | upstreamTimeout | upstreamStreamAborted | gpuOom | benchmarkFailed | shuttingDown
  | internal => "server_error"

def asStr : ErrorCode → Str
  | authRequired => "AUTH_REQUIRED"
  | authForbidden => "AUTH_FORBIDDEN"
  | requestInvalid => "REQUEST_INVALID"
  | payloadTooLarge => "PAYLOAD_TOO_LARGE"
  | endpointNotSupported => "ENDPOINT_NOT_SUPPORTED"
  | modelNotFound => "MODEL_NOT_FOUND"
  | modelBusy => "MODEL_BUSY"
  | oracleRejected => "ORACLE_REJECTED"
  | runtimeNotFound => "RUNTIME_NOT_FOUND"
  | runtimeCapabilityMissing => "RUNTIME_CAPABILITY_MISSING"
  | runtimeStartFailed => "RUNTIME_START_FAILED"
  | runtimeUnhealthy => "RUNTIME_UNHEALTHY"
  | upstreamTimeout => "UPSTREAM_TIMEOUT"
  | upstreamStreamAborted => "UPSTREAM_STREAM_ABORTED"
  | gpuOom => "GPU_OOM"
  | processChanged => "PROCESS_CHANGED"
  | processProtected => "PROCESS_PROTECTED"
  | validationRequired => "VALIDATION_REQUIRED"
  | benchmarkFailed => "BENCHMARK_FAILED"
  | shuttingDown => "SHUTTING_DOWN"
  | configInvalid => "CONFIG_INVALID"
  | internal => "INTERNAL"

/-- The status a rendered error carries. -/
def rendered (c : ErrorCode) : Nat := c.status.getD 500

theorem rendered_bounds (c : ErrorCode) : 400 ≤ c.rendered ∧ c.rendered < 600 := by
  cases c <;> decide

end ErrorCode

structure ApiError where
  code : ErrorCode
  message : Str
  details : Option Json := none
  requestId : Option Str := none

namespace ApiError

def withRequestId (e : ApiError) (id : Str) : ApiError := { e with requestId := some id }

def body (e : ApiError) : Json :=
  .obj [("error", .obj [
    ("code", .str e.code.asStr), ("message", .str e.message), ("type", .str e.code.kind),
    ("details", e.details.getD .null), ("request_id", .ofOption e.requestId)])]

/-- `error.request_id` of an envelope. -/
def envelopeId (body : Json) : Option Str :=
  (body.member "error").bind fun e => (e.member "request_id").bind Json.asStr

theorem envelopeId_body (e : ApiError) : envelopeId e.body = e.requestId := by
  cases e with
  | mk code message details id => cases id <;> rfl

end ApiError

end Saltnitor
