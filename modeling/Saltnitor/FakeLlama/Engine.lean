import Saltnitor.ControlApi.ModelList
import Saltnitor.FakeLlama.Manifest
import Saltnitor.Http
import Saltnitor.Interrogate.Sse
import Saltnitor.Lib.Fifo

/-!
# The stand-in of the router

`handle` answers one request: it is recorded, then a fault of its route decides, then a replayed
capture, then the surface of the router. A request takes the lock of the loaded models once at
most, so requests that overlap do what they do in the order of those locks, and a run is a list.
-/

namespace Saltnitor.FakeLlama

open Rust Http Interrogate

/-! ## Scenarios -/

structure ModelSpec where
  id : Str
  loaded : Bool := false
  deriving DecidableEq

inductive Fault where
  | status (code : Nat) (body : Str)
  | chunks (items : List Str) (delayMs : Nat)
  | hangBeforeHeaders
  | crashAfter (chunks : Nat)
  | malformed
  | rawChunks (items : List Str) (delayMs : Nat) (code : Nat) (contentType : Str)
      (headers : List (Str × Str))
  deriving DecidableEq

structure Scenario where
  modelsShape : ModelsShape := .statusObject
  /-- Loading beyond this evicts the oldest. -/
  maxLoaded : Option Nat := none
  chatChunks : Option (List Str) := none
  /-- The directory of a capture, by its path. -/
  replayFrom : Option Str := none
  models : List ModelSpec := []
  /-- Faults by `METHOD /path`. -/
  routes : Str → Option Fault := fun _ => none

/-! ## State -/

/-- What the recorder keeps, without the times. -/
inductive Record where
  | request (method path query : Str) (headers : List (Str × Str)) (hasAuthorization : Bool)
      (body : Str)
  | disconnect (path : Str)
  | crash
  | chunkSent (path : Str) (index : Nat)
  deriving DecidableEq

/-- `Shared`; the streams that are open have a state of their own. -/
structure Engine where
  scenario : Scenario
  loaded : List Str
  events : List Record

namespace Engine

def new (scenario : Scenario) : Engine where
  scenario
  loaded := (scenario.models.filter (·.loaded)).map (·.id)
  events := []

/-- `while l.len() > max { l.remove(0) }` -/
def dropOldest (max : Nat) : List Str → List Str
  | [] => []
  | m :: l => if max < (m :: l).length then dropOldest max l else m :: l

def load (st : Engine) (id : Str) : Engine :=
  if st.loaded.any (· == id) then st
  else
    let l := st.loaded ++ [id]
    { st with loaded := match st.scenario.maxLoaded with
        | some max => dropOldest max l
        | none => l }

def unload (st : Engine) (id : Str) : Engine := { st with loaded := st.loaded.filter (· != id) }

def known (st : Engine) (id : Str) : Bool :=
  st.scenario.models.isEmpty || st.scenario.models.any (·.id == id)

def record (st : Engine) (r : Record) : Engine := { st with events := st.events ++ [r] }

/-- What `models_body` reads. -/
def shared (st : Engine) : Shared where
  models := st.scenario.models.map (·.id)
  modelsShape := st.scenario.modelsShape
  loaded := st.loaded

end Engine

/-! ## Answers -/

inductive Reply where
  | json (status : Nat) (v : Json)
  | text (status : Nat) (contentType body : Str)
  | bytes (status : Nat) (contentType : Str) (body : List UInt8)
  /-- No headers are ever sent. -/
  | hangs
  /-- The connection is closed without an answer. -/
  | panics
  /-- The pieces of `stream_body`. -/
  | stream (contentType : Str) (pieces : List Str) (delayMs : Nat) (crashAfter : Option Nat)
  /-- The pieces of `raw_stream`. -/
  | raw (status : Nat) (contentType : Str) (headers : List (Str × Str)) (items : List Str)
      (delayMs : Nat)

/-- `StatusCode::from_u16(code).unwrap_or(default)` -/
def statusOr (default code : Nat) : Nat := if 100 ≤ code ∧ code < 1000 then code else default

/-- Whether a builder takes the field. -/
def isField (f : Str × Str) : Bool := (HeaderName.fromText f.1).isSome && (HeaderValue.fromStr f.2).isSome

/-- The response of a builder, which panics where it has not taken a field. -/
def expectValid (fields : List (Str × Str)) (reply : Reply) : Reply :=
  if fields.all isField then reply else .panics

def jsonResp (code : Nat) (v : Json) : Reply := .json (statusOr 500 code) v

def textResp (code : Nat) (contentType body : Str) : Reply := .text (statusOr 500 code) contentType body

def errorBody (code : Nat) (message kind : Str) : Json :=
  .obj [("error", .obj [("code", .num code), ("message", .str message), ("type", .str kind)])]

def notFound : Reply := jsonResp 404 (errorBody 404 "File Not Found" "not_found_error")

def completion (model content : Str) : Json :=
  .obj [("id", .str "chatcmpl-fake"), ("object", .str "chat.completion"), ("model", .str model),
    ("choices", .arr [.obj [("index", .num 0),
      ("message", .obj [("role", .str "assistant"), ("content", .str content)]),
      ("finish_reason", .str "stop")]]),
    ("usage", .obj [("prompt_tokens", .num 1), ("completion_tokens", .num 1), ("total_tokens", .num 2)])]

namespace Engine

def chatItems (st : Engine) : List Str := st.scenario.chatChunks.getD ["Hello", " from", " fake"]

def metricsBody (st : Engine) : Str :=
  ("# HELP llamacpp:requests_processing Number of requests processing.\n" : Str) ++
    ("# TYPE llamacpp:requests_processing gauge\nllamacpp:requests_processing 0\n" : Str) ++
    ("llamacpp:models_loaded " : Str) ++ toDec st.loaded.length ++ ("\n" : Str)

def modelNotFound (id : Str) : Str := ("model '" : Str) ++ id ++ ("' not found" : Str)

def loadUnload (st : Engine) (body : Json) (load : Bool) : Engine × Reply :=
  match (body.index "model").asStr with
  | none => (st, jsonResp 400 (errorBody 400 "missing 'model'" "invalid_request_error"))
  | some id =>
    if !st.known id then (st, jsonResp 404 (errorBody 404 (modelNotFound id) "not_found_error"))
    else (if load then st.load id else st.unload id, jsonResp 200 (.obj [("success", .bool true)]))

def chat (st : Engine) (body : Json) : Engine × Reply :=
  match (body.index "model").asStr with
  | none => (st, jsonResp 400 (errorBody 400 "missing 'model'" "invalid_request_error"))
  | some model =>
    if !st.known model then
      (st, jsonResp 400 (errorBody 400 (modelNotFound model) "invalid_request_error"))
    else
      let st := st.load model
      if (body.index "stream").asBool.getD false then
        (st, .stream "text/event-stream" (ssePieces model st.chatItems true) 0 none)
      else (st, jsonResp 200 (completion model st.chatItems.flatten))

def chatPath : Str := "/v1/chat/completions"

def applyFault (st : Engine) (fault : Fault) (method path : Str) (json : Json) : Engine × Reply :=
  let isChat : Bool := method = "POST" && path = chatPath
  let stream := (json.index "stream").asBool.getD false
  let model := (json.index "model").asStr.getD "fake"
  match fault with
  | .status code body =>
    let ct : Str :=
      if (body.dropWhile isWhitespace).head? = some '\x7b' then "application/json" else "text/plain"
    (st, textResp code ct body)
  | .hangBeforeHeaders => (st, .hangs)
  | .chunks items delayMs =>
    if isChat && stream then
      (st.load model, .stream "text/event-stream" (ssePieces model items true) delayMs none)
    else if isChat then (st.load model, jsonResp 200 (completion model items.flatten))
    else (st, .stream "application/octet-stream" items delayMs none)
  | .crashAfter chunks =>
    if isChat then
      (st, .stream "text/event-stream" (ssePieces model st.chatItems false) 0 (some chunks))
    else (st, .stream "application/octet-stream" st.chatItems 0 (some chunks))
  | .rawChunks items delayMs code contentType headers =>
    (st, expectValid (("content-type", contentType) :: headers)
      (.raw (statusOr 200 code) contentType headers items delayMs))
  | .malformed =>
    if isChat && stream then
      (st, textResp 200 "text/event-stream"
        "data: \x7b\"choices\":[\x7b\"delta\":\x7b\"content\":\"x\"\n\n")
    else (st, textResp 200 "application/json" "\x7b\"object\":\"list\",\"data\":[")

def route (st : Engine) (method path : Str) (json : Json) : Engine × Reply :=
  if method = "GET" ∧ path = "/health" then (st, jsonResp 200 (.obj [("status", .str "ok")]))
  else if method = "GET" ∧ (path = "/models" ∨ path = "/v1/models") then
    (st, jsonResp 200 st.shared.modelsBody)
  else if method = "POST" ∧ path = "/models/load" then st.loadUnload json true
  else if method = "POST" ∧ path = "/models/unload" then st.loadUnload json false
  else if method = "GET" ∧ path = "/metrics" then
    (st, textResp 200 "text/plain; version=0.0.4" st.metricsBody)
  else if method = "GET" ∧ path = "/slots" then
    (st, jsonResp 200 (.arr [.obj [("id", .num 0), ("is_processing", .bool false)]]))
  else if method = "POST" ∧ path = chatPath then st.chat json
  else (st, notFound)

end Engine

/-! ## A request -/

/-- The directories that can be replayed, by their paths. -/
abbrev Fs := Str → Dir

/-- `to_bytes(body, usize::MAX).unwrap_or_default()` -/
def toBytes (body : BodyStream) : List UInt8 := if body.fails then [] else body.chunks.flatten

/-- `Recorder::request`: every header but the credential, the last value of a name. -/
def requestRecord (req : Request) : Record :=
  let kept := (req.headers.filter fun f => f.1 ≠ .authorization).map fun f =>
    (f.1.text, f.2.toStr.getD [])
  .request req.method.asStr req.uri.path (req.uri.query.getD []) (Json.lastMembers kept)
    (req.headers.containsKey .authorization) (fromUtf8Lossy (toBytes req.body))

/-- The key of a route's fault. -/
def routeKey (req : Request) : Str := req.method.asStr ++ ' ' :: req.uri.path

section Handle

-- `serde_json::from_str`
variable (read : Str → Option Json)

/-- `serde_json::from_slice(&body).unwrap_or(Value::Null)` -/
def bodyJson (req : Request) : Json := ((fromUtf8 (toBytes req.body)).bind read).getD .null

def Engine.replay (st : Engine) (fs : Fs) (path : Str) : Option Reply := do
  let dir ← st.scenario.replayFrom
  let (status, ct, bytes) ← replayFile read (fs dir) path
  some (expectValid [("content-type", ct)] (.bytes (statusOr 200 status) ct bytes))

def Engine.handle (st : Engine) (fs : Fs) (req : Request) : Engine × Reply :=
  let st := st.record (requestRecord req)
  let json := bodyJson read req
  match st.scenario.routes (routeKey req) with
  | some fault => st.applyFault fault req.method.asStr req.uri.path json
  | none =>
    match if req.method.asStr = "GET" then st.replay read fs req.uri.path else none with
    | some reply => (st, reply)
    | none => st.route req.method.asStr req.uri.path json

/-- Requests one after the other, each with the files as they are then. -/
def Engine.run (st : Engine) (reqs : List (Fs × Request)) : Engine :=
  reqs.foldl (fun st r => (st.handle read r.1 r.2).1) st

end Handle

end Saltnitor.FakeLlama
