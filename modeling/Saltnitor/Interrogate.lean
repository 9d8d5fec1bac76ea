import Saltnitor.Lib.Framing
import Saltnitor.Main.Loop
import Saltnitor.Rust.JsonQuote
import Saltnitor.Rust.Utf8

/-!
# The interrogator

`strike` sends one request and shows the answer as it arrives: `receive` decodes
every piece, takes the lines that are complete out of a buffer and shows the
content of their events. `metricsFromTranscript` goes over the whole answer
again when it has ended. The JSON parser, the HTTP client and the clock are
outside.
-/

namespace Saltnitor.Interrogate

open Rust Main

/-! ## Metrics -/

/-- What the deck gets, and how many events had content. -/
structure Metrics extends Main.Metrics where
  contentChunks : Nat
  deriving DecidableEq

/-- `Metrics::default()` -/
def Metrics.unavailable : Metrics where
  ttftMs := none
  ppTps := none
  tgTps := none
  source := .unavailable
  contentChunks := 0

/-- `timings.{prompt_n, prompt_ms, predicted_n, predicted_ms}` as PP and TG tokens a second. -/
def parseTimings (chunk : Json) : Option (F64 × F64) := do
  let t ← chunk.member "timings"
  let rate (n ms : Str) : Option F64 := do
    let n ← (← t.member n).asF64
    let ms ← (← t.member ms).asF64
    if 0 < ms then some ((F64.divBy (.fin n) ms).mul (.fin 1000)) else none
  let pp ← rate "prompt_n" "prompt_ms"
  let tg ← rate "predicted_n" "predicted_ms"
  some (pp, tg)

section Reader

-- `serde_json::from_str`
variable (fromStr : Str → Except Str Json)

/-- What a line carries, except the end mark. -/
def dataOf (line : Str) : Option Str :=
  (List.isPrefixOf? ("data: " : Str) line).filter fun d => d != ("[DONE]" : Str)

/-- Whether an event has a piece of the answer. -/
def hasContent (v : Json) : Bool :=
  ((((v.index "choices").item 0).index "delta").member "content").bind Json.asStr |>.isSome

/-- The event on a line, as the metrics find it. -/
def eventOf (line : Str) : Option Json := (dataOf line).bind fun d => (fromStr d).toOption

def metricsFromTranscript (transcript : Str) (ttftMs genElapsedMs : Option Nat) : Metrics :=
  let events := (lines transcript).filterMap (eventOf fromStr)
  let contentChunks := events.countP hasContent
  match (events.filterMap parseTimings).getLast?, genElapsedMs with
  | some (pp, tg), _ =>
    { ttftMs, ppTps := some pp, tgTps := some tg, source := .measured, contentChunks }
  | none, some ms =>
    if 0 < ms ∧ 0 < contentChunks then
      { ttftMs, ppTps := none, contentChunks
        tgTps := some ((F64.divBy (.fin contentChunks) ms).mul (.fin 1000))
        source := .estimated }
    else { Metrics.unavailable with ttftMs, contentChunks }
  | none, none => { Metrics.unavailable with ttftMs, contentChunks }

/-! ## The answer as it arrives -/

/-- The deck has one line: a line feed is shown as a sign. -/
def showLineFeeds (content : Str) : Str :=
  content.flatMap fun c => if c = '\n' then (" ⏎ " : Str) else [c]

/-- What is shown of a line, which still has its line feed. -/
def shownOf (line : Str) : Option Str := do
  let data ← List.isPrefixOf? ("data: " : Str) (trim line)
  let json ← (fromStr data).toOption
  let content ← ((((json.index "choices").item 0).index "delta").index "content").asStr
  some (showLineFeeds content)

structure Received where
  transcript : Str
  buffer : Str
  shown : List Str

/-- One piece of the body. The lines it completes leave the buffer. -/
def Received.push (r : Received) (piece : List UInt8) : Received :=
  let text := fromUtf8Lossy piece
  let (done, buffer) := Framing.feed '\n' r.buffer text
  { transcript := r.transcript ++ text
    buffer := buffer
    shown := r.shown ++ done.filterMap fun l => shownOf fromStr (l ++ ['\n']) }

def receive (pieces : List (List UInt8)) : Received :=
  pieces.foldl (Received.push fromStr) ⟨[], [], []⟩

/-! ## The strike -/

structure StatusCode where
  code : Nat
  /-- As it is printed: the code and its name. -/
  text : Str

def StatusCode.isSuccess (s : StatusCode) : Bool := 200 ≤ s.code && s.code < 300

/-- `serde_json::from_slice` -/
def fromSlice (body : List UInt8) : Option Json :=
  (fromUtf8 body).bind fun text => (fromStr text).toOption

/-- `error.code: error.message` from an error envelope, else the first part of the raw body. -/
def describeErrorBody (status : StatusCode) (body : List UInt8) : Str :=
  let envelope := fromSlice fromStr body
  let field (k : Str) : Option Str := envelope.bind fun v => ((v.index "error").index k).asStr
  match field "code", field "message" with
  | some code, some message =>
    status.text ++ (": " : Str) ++ code ++ (": " : Str) ++ message
  | none, some message => status.text ++ (": " : Str) ++ message
  | _, _ =>
    let text := trim (fromUtf8Lossy body)
    if text = [] then status.text ++ (" with an empty body" : Str)
    else status.text ++ (": " : Str) ++ text.take 200

end Reader

/-- A request of the client; its body is sent as JSON text. -/
structure Post where
  url : Str
  contentType : Str
  authorization : Option Str
  body : Json

inductive Sent where
  | unreachable (e : Str)
  /-- A body whose pieces came before its end, or before the error that ended it. -/
  | answered (status : StatusCode) (pieces : List (List UInt8)) (aborted : Option Str)

structure Outside where
  fromStr : Str → Except Str Json
  send : Post → Sent
  /-- From the start to the first piece. -/
  ttftMs : Nat
  /-- From the first piece to the end. -/
  elapsedMs : Nat

/-- An error event and the end of the deck. -/
def fail (message status : Str) : List Event :=
  [.error "interrogator" message, .apiStreamEnd Metrics.unavailable.toMetrics status]

/-- `insert` of an object; another value has no members. -/
def insertMember (key : Str) (v : Json) : Json → Json
  | .obj members => .obj (members.filter (fun m => m.1 != key) ++ [(key, v)])
  | other => other

def requestOf (controlPort : Nat) (bearer : Option Str) (payload : Json) : Post where
  url := ("http://127.0.0.1:" : Str) ++ toDec controlPort ++ ("/v1/chat/completions" : Str)
  contentType := "application/json"
  authorization := bearer.map fun b => ("Bearer " : Str) ++ b
  body := insertMember "timings_per_token" (.bool true) (insertMember "stream" (.bool true) payload)

section Strike

variable (o : Outside)

/-- What the pieces of a body measure. -/
def metricsOf (pieces : List (List UInt8)) : Metrics :=
  let first : Option Nat := if pieces = [] then none else some o.ttftMs
  metricsFromTranscript o.fromStr (receive o.fromStr pieces).transcript first
    (first.map fun _ => o.elapsedMs)

/-- The events of a successful answer. -/
def streamEvents (status : StatusCode) (pieces : List (List UInt8)) (aborted : Option Str) :
    List Event :=
  let start : List Event := if pieces = [] then [] else [.apiStreamStart o.ttftMs]
  let shown := (receive o.fromStr pieces).shown.map Event.apiStreamChunk
  let metrics := (metricsOf o pieces).toMetrics
  match aborted with
  | some e =>
    start ++ shown ++ [.error "interrogator" (("stream aborted before the end: " : Str) ++ e),
      .apiStreamEnd metrics (status.text ++ (" aborted" : Str))]
  | none => start ++ shown ++ [.apiStreamEnd metrics status.text]

/-- The events of one strike, in order. -/
def strike (controlPort : Nat) (bearer : Option Str) (payload : Str) : List Event :=
  match o.fromStr payload with
  | .error e => fail (("payload is not valid JSON: " : Str) ++ e) "n/a"
  | .ok body =>
    match o.send (requestOf controlPort bearer body) with
    | .unreachable e =>
      fail (("cannot reach saltnitor on port " : Str) ++ toDec controlPort ++ (": " : Str) ++ e)
        "n/a"
    | .answered status pieces aborted =>
      if status.isSuccess then streamEvents o status pieces aborted
      else
        let body := if aborted = none then pieces.flatten else []
        fail (describeErrorBody o.fromStr status body) status.text

end Strike

/-- The texts the deck shows. -/
def shownTexts (events : List Event) : List Str :=
  events.filterMap fun | .apiStreamChunk token => some token | _ => none

/-! ## What is received -/

section Receive

variable {fromStr : Str → Except Str Json}

theorem foldl_push (pieces : List (List UInt8)) (r : Received) :
    pieces.foldl (Received.push fromStr) r =
      let texts := pieces.map fromUtf8Lossy
      { transcript := r.transcript ++ texts.flatten
        buffer := (Framing.feedAll '\n' r.buffer texts).2
        shown := r.shown ++ (Framing.feedAll '\n' r.buffer texts).1.filterMap
          fun l => shownOf fromStr (l ++ ['\n']) } := by
  induction pieces generalizing r with
  | nil => simp [Framing.feedAll]
  | cons p ps ih =>
    rw [List.foldl_cons, ih]
    simp [Received.push, Framing.feedAll, List.filterMap_append]

theorem receive_eq (pieces : List (List UInt8)) :
    receive fromStr pieces =
      let text := (pieces.map fromUtf8Lossy).flatten
      { transcript := text
        buffer := Framing.pending '\n' text
        shown := (Framing.frames '\n' text).filterMap fun l => shownOf fromStr (l ++ ['\n']) } := by
  rw [receive, foldl_push]
  dsimp only
  rw [Framing.feedAll_eq List.not_mem_nil]
  simp only [List.nil_append]

theorem shownTexts_streamEvents (o : Outside) (status : StatusCode) (pieces : List (List UInt8))
    (aborted : Option Str) :
    shownTexts (streamEvents o status pieces aborted) = (receive o.fromStr pieces).shown := by
  have hshown (ts : List Str) : shownTexts (ts.map Event.apiStreamChunk) = ts := by
    induction ts with
    | nil => rfl
    | cons t ts ih => exact congrArg (t :: ·) ih
  have happ (as bs : List Event) : shownTexts (as ++ bs) = shownTexts as ++ shownTexts bs :=
    List.filterMap_append ..
  have hstart (b : Prop) [Decidable b] :
      shownTexts (if b then [] else [.apiStreamStart o.ttftMs]) = [] := by
    split <;> rfl
  cases aborted with
  | none => rw [streamEvents, happ, happ, hshown, hstart]; simp [shownTexts]
  | some e => rw [streamEvents, happ, happ, hshown, hstart]; simp [shownTexts]

end Receive

/-! ## Pieces that cut no character -/

/-- Every piece is a text. -/
def Whole (pieces : List (List UInt8)) : Prop := ∀ p ∈ pieces, (fromUtf8 p).isSome = true

instance (pieces : List (List UInt8)) : Decidable (Whole pieces) :=
  inferInstanceAs (Decidable (∀ p ∈ pieces, _))

theorem whole_iff {pieces : List (List UInt8)} :
    Whole pieces ↔ ∃ ts : List Str, pieces = ts.map bytes := by
  constructor
  · intro h
    induction pieces with
    | nil => exact ⟨[], rfl⟩
    | cons p ps ih =>
      obtain ⟨hp, hps⟩ := List.forall_mem_cons.mp h
      obtain ⟨t, ht⟩ := Option.isSome_iff_exists.mp hp
      obtain ⟨ts, rfl⟩ := ih hps
      exact ⟨t :: ts, by rw [fromUtf8_eq_some.mp ht, List.map_cons]⟩
  · rintro ⟨ts, rfl⟩ p hp
    obtain ⟨t, -, rfl⟩ := List.mem_map.mp hp
    rw [fromUtf8_bytes, Option.isSome_some]

/-- A text arrives as itself if and only if no piece ends inside a character. -/
theorem transcript_eq_iff {fromStr : Str → Except Str Json} {s : Str} {pieces : List (List UInt8)}
    (h : pieces.flatten = bytes s) :
    (receive fromStr pieces).transcript = s ↔ Whole pieces := by
  rw [receive_eq, whole_iff]
  exact lossy_pieces h

theorem strike_eq {o : Outside} {controlPort : Nat} {bearer : Option Str} {payload : Str}
    {body : Json} (hbody : o.fromStr payload = .ok body) {status : StatusCode}
    {pieces : List (List UInt8)} {aborted : Option Str}
    (hsend : o.send (requestOf controlPort bearer body) = .answered status pieces aborted)
    (hok : status.isSuccess = true) :
    strike o controlPort bearer payload = streamEvents o status pieces aborted := by
  unfold strike
  rw [hbody]
  dsimp only
  rw [hsend]
  dsimp only
  rw [if_pos hok]

theorem shownTexts_strike_congr (o : Outside) (controlPort : Nat) (bearer : Option Str)
    (payload : Str) (status : StatusCode) (aborted : Option Str) {ps qs : List (List UInt8)}
    (h : (receive o.fromStr ps).shown = (receive o.fromStr qs).shown) :
    shownTexts (strike { o with send := fun _ => .answered status ps aborted } controlPort bearer
        payload) =
      shownTexts (strike { o with send := fun _ => .answered status qs aborted } controlPort bearer
        payload) := by
  unfold strike
  dsimp only
  cases o.fromStr payload with
  | error e => rfl
  | ok body =>
    dsimp only
    split
    · rw [shownTexts_streamEvents, shownTexts_streamEvents]
      exact h
    · rfl

theorem metricsFromTranscript_nil (fromStr : Str → Except Str Json) (ttft elapsed : Option Nat) :
    metricsFromTranscript fromStr [] ttft elapsed = { Metrics.unavailable with ttftMs := ttft } := by
  have hl : lines [] = [] := by decide
  unfold metricsFromTranscript
  rw [hl]
  cases elapsed with
  | none => rfl
  | some ms => exact if_neg fun h => Nat.lt_irrefl 0 h.2

/-- The rates are a matter of the text alone: a body without pieces has no time and no text. -/
theorem metricsOf_congr (o : Outside) {ps qs : List (List UInt8)}
    (h : (receive o.fromStr ps).transcript = (receive o.fromStr qs).transcript) :
    (metricsOf o ps).contentChunks = (metricsOf o qs).contentChunks ∧
      (metricsOf o ps).ppTps = (metricsOf o qs).ppTps ∧
      (metricsOf o ps).tgTps = (metricsOf o qs).tgTps := by
  have hnil {ps : List (List UInt8)} (hps : (receive o.fromStr ps).transcript = []) :
      metricsOf o ps = { Metrics.unavailable with
        ttftMs := if ps = [] then none else some o.ttftMs } := by
    rw [metricsOf, hps, metricsFromTranscript_nil]
  by_cases he : (receive o.fromStr ps).transcript = []
  · rw [hnil he, hnil (h ▸ he)]
    exact ⟨rfl, rfl, rfl⟩
  · have hne {ps : List (List UInt8)} (hps : (receive o.fromStr ps).transcript ≠ []) : ps ≠ [] := by
      rintro rfl
      exact hps rfl
    have : metricsOf o ps = metricsOf o qs := by
      rw [metricsOf, metricsOf, h, if_neg (hne he), if_neg (hne (h ▸ he))]
    rw [this]
    exact ⟨rfl, rfl, rfl⟩

/-- **The answer is read as itself if and only if no piece ends inside a character, and then how it
was cut makes no difference.** -/
theorem chunking_independent (o : Outside) (controlPort : Nat) (bearer : Option Str)
    (payload : Str) (status : StatusCode) (aborted : Option Str) {s : Str}
    {ps qs : List (List UInt8)} (hps : ps.flatten = bytes s) (hqs : qs.flatten = bytes s) :
    ((receive o.fromStr ps).transcript = s ↔ Whole ps) ∧
      (Whole ps → Whole qs →
        shownTexts (strike { o with send := fun _ => .answered status ps aborted } controlPort
            bearer payload) =
          shownTexts (strike { o with send := fun _ => .answered status qs aborted } controlPort
            bearer payload) ∧
        (metricsOf o ps).contentChunks = (metricsOf o qs).contentChunks ∧
        (metricsOf o ps).ppTps = (metricsOf o qs).ppTps ∧
        (metricsOf o ps).tgTps = (metricsOf o qs).tgTps) := by
  refine ⟨transcript_eq_iff hps, fun hwp hwq => ?_⟩
  have htext : (receive o.fromStr ps).transcript = (receive o.fromStr qs).transcript := by
    rw [(transcript_eq_iff hps).mpr hwp, (transcript_eq_iff hqs).mpr hwq]
  have hshown : (receive o.fromStr ps).shown = (receive o.fromStr qs).shown := by
    simp only [receive_eq] at htext ⊢
    rw [htext]
  exact ⟨shownTexts_strike_congr o controlPort bearer payload status aborted hshown,
    metricsOf_congr o htext⟩

/-! ### A body that is cut -/

/-- An event with nothing but content. -/
def delta (content : Str) : Json :=
  .obj [("choices", .arr [.obj [("delta", .obj [("content", .str content)])]])]

def deltaHead : Str := "\x7b\"choices\":[\x7b\"delta\":\x7b\"content\":\""

def deltaTail : Str := "\"\x7d\x7d]\x7d"

def deltaText (content : Str) : Str := deltaHead ++ content ++ deltaTail

/-- A parser of these events and of nothing else. -/
def readDelta (text : Str) : Except Str Json :=
  match List.isPrefixOf? deltaHead (text.rdropWhile isBlank) with
  | none => .error "unexpected text"
  | some rest =>
    let content := rest.take (rest.length - deltaTail.length)
    if rest = content ++ deltaTail ∧ Plain content then .ok (delta content)
    else .error "unexpected text"

/-- An endpoint that answers everything with these pieces. -/
def answering (pieces : List (List UInt8)) : Outside where
  fromStr := readDelta
  send _ := .answered ⟨200, "200 OK"⟩ pieces none
  ttftMs := 5
  elapsedMs := 100

/-- One event, its only character of two bytes. -/
def oneEvent : Str := ("data: " : Str) ++ deltaText ['é'] ++ ['\n']

theorem chunking_independent_oneEvent :
    let ps := [bytes oneEvent]
    let qs := [bytes (oneEvent.take 3), bytes (oneEvent.drop 3)]
    (ps.flatten = bytes oneEvent ∧ qs.flatten = bytes oneEvent ∧ Whole ps ∧ Whole qs) ∧
      shownTexts (strike (answering ps) 11435 none (deltaText ['x'])) =
        shownTexts (strike (answering qs) 11435 none (deltaText ['x'])) := by
  have h : let ps := [bytes oneEvent]
      let qs := [bytes (oneEvent.take 3), bytes (oneEvent.drop 3)]
      ps.flatten = bytes oneEvent ∧ qs.flatten = bytes oneEvent ∧ Whole ps ∧ Whole qs := by
    decide +kernel
  exact ⟨h, ((chunking_independent (answering []) 11435 none (deltaText ['x']) ⟨200, "200 OK"⟩ none
    h.1 h.2.1).2 h.2.2.1 h.2.2.2).1⟩

/-- The end of a piece inside the character shows two signs in its place. -/
theorem chunking_dependent :
    let ps := [bytes oneEvent]
    let qs := [(bytes oneEvent).take 40, (bytes oneEvent).drop 40]
    ps.flatten = bytes oneEvent ∧ qs.flatten = bytes oneEvent ∧
      shownTexts (strike (answering ps) 11435 none (deltaText ['x'])) = [['é']] ∧
      shownTexts (strike (answering qs) 11435 none (deltaText ['x'])) =
        [['\uFFFD', '\uFFFD']] := by
  decide +kernel

end Saltnitor.Interrogate
