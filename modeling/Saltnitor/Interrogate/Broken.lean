import Saltnitor.FakeLlama.Resident
import Saltnitor.FakeLlama.Streams
import Saltnitor.Interrogate.Sse
import Saltnitor.ProxyStream.Abort

/-!
# A stream that breaks off

The stand-in streams its events, the daemon relays them through `AbortOnError`, and `strike` shows
them on the deck. Wherever the stream breaks, the deck shows the items whose line has arrived whole
and says that the stream was aborted; it ends without saying so only when every item is shown
(`strike_relayed`). What the stand-in's client receives of a chat is such a stream
(`delivers_streamBody`), whatever fault the scenario has for it (`pieces_of_handle`).
-/

namespace Saltnitor.Interrogate

open Rust Main ProxyStream FakeLlama

/-! ## What has arrived -/

section

variable {fromStr : Str → Except Str Json} {model : Str} {items : List Str} {t : Str}

/-- Of the first `n` lines, every other one is an item. -/
theorem shown_take_sseLines (h : ∀ c ∈ items, fromStr (eventText model c) = .ok (event model c))
    (hdone : (fromStr ("[DONE]" : Str)).toOption = none) (n : Nat) :
    ((sseLines model items).take n).filterMap (fun l => shownOf fromStr (l ++ ['\n'])) =
      (items.take ((n + 1) / 2)).map onOneLine := by
  induction items generalizing n with
  | nil =>
    have hend : ∀ l ∈ (sseLines model []).take n, shownOf fromStr (l ++ ['\n']) = none := by
      intro l hl
      rcases List.mem_cons.mp (List.mem_of_mem_take hl) with rfl | hl
      · exact shownOf_done hdone
      · rw [List.mem_singleton.mp hl]
        exact shownOf_nil
    rw [List.filterMap_eq_nil_iff.mpr hend, List.take_nil, List.map_nil]
  | cons c items ih =>
    obtain ⟨hc, hitems⟩ := List.forall_mem_cons.mp h
    have hlines : sseLines model (c :: items) =
        (("data: " : Str) ++ eventText model c) :: [] :: sseLines model items := rfl
    rw [hlines]
    rcases n with _ | _ | n
    · rfl
    · rw [List.take_succ_cons, List.take_zero, List.filterMap_cons, shownOf_event hc]
      rfl
    · rw [List.take_succ_cons, List.take_succ_cons, List.filterMap_cons, shownOf_event hc,
        List.filterMap_cons, shownOf_nil, ih hitems, show (n + 1 + 1 + 1) / 2 = (n + 1) / 2 + 1 by omega,
        List.take_succ_cons, List.map_cons]

theorem shown_of_prefix (h : ∀ c ∈ items, fromStr (eventText model c) = .ok (event model c))
    (hdone : (fromStr ("[DONE]" : Str)).toOption = none) (ht : t <+: (ssePieces model items true).flatten)
    {pieces : List (List UInt8)} (hpieces : pieces.flatten = bytes t) (hwhole : Whole pieces) :
    (receive fromStr pieces).shown = (items.take ((t.count '\n' + 1) / 2)).map onOneLine := by
  have htext : (receive fromStr pieces).transcript = t := (transcript_eq_iff hpieces).mpr hwhole
  rw [receive_eq] at htext ⊢
  dsimp only at htext ⊢
  rw [htext, Framing.frames_of_prefix ht, (frames_ssePieces model items).1, shown_take_sseLines h hdone]

theorem count_ssePieces (model : Str) (items : List Str) :
    (ssePieces model items true).flatten.count '\n' = 2 * items.length + 2 := by
  rw [← Framing.length_frames, (frames_ssePieces model items).1, sseLines]
  induction items with
  | nil => rfl
  | cons c items ih =>
    simp only [List.flatMap_cons, List.length_append, List.length_cons, List.length_nil] at ih ⊢
    omega

end

/-! ## The relay -/

/-- A body that delivers the first part of a text, and ends only behind all of it. -/
structure Delivers (upstream : Nat → InnerPoll) (text : Str) : Prop where
  chunks : ∀ n, (upstreamChunks upstream n).flatten <+: bytes text
  ended : ∀ n, upstream n = .ended → (∀ j < n, upstream j ≠ .error) →
    (upstreamChunks upstream n).flatten = bytes text

/-- Poll `n` is the one at which a client of the body stops. -/
def StopsAt (out : Nat → Polled) (n : Nat) : Prop :=
  ((out n).item = .error ∨ (out n).item = .ended) ∧
    ∀ j < n, (out j).item ≠ .error ∧ (out j).item ≠ .ended

/-- What the deck shows of a stream of these items of which `received` has arrived. -/
structure Displays (items : List Str) (received : List UInt8) (status : StatusCode) (broken : Bool)
    (events : List Event) : Prop where
  shown : ∃ t, received = bytes t ∧
    shownTexts events = (items.take ((t.count '\n' + 1) / 2)).map onOneLine
  whole : broken = false → shownTexts events = items.map onOneLine
  last : ∃ metrics, events.getLast? =
    some (.apiStreamEnd metrics (status.text ++ if broken then " aborted".toList else []))

section Relay

variable {upstream : Nat → InnerPoll} {requestId : Str} {idle : Duration} {created : Instant}
  {now : Nat → Instant} {n : Nat} {text : Str}

/-- Up to the poll at which a client stops, the wrapper yields the chunks of the upstream. -/
theorem yielded_of_stopsAt (h : StopsAt (relay upstream requestId idle created now) n) :
    yielded (relay upstream requestId idle created now) n = upstreamChunks upstream n ∧
      ((relay upstream requestId idle created now n).item = .ended →
        upstream n = .ended ∧ ∀ j < n, upstream j ≠ .error) := by
  rcases relay_cases upstream idle created now n with hlive | hfail | ⟨k, hk, hfail⟩
  · refine ⟨yielded_live fun j hj => hlive j hj.le, fun he => ⟨?_, fun j hj hu => hlive j hj.le (.inl hu)⟩⟩
    rw [relay_live hlive] at he
    cases hu : upstream n with
    | ended => rfl
    | _ => rw [hu] at he; cases he
  · refine ⟨yielded_live hfail.2, fun he => ?_⟩
    rw [relay_firstFailure hfail] at he
    cases he
  · exact absurd (relay_item_error_iff.mpr hfail) (h.2 k hk).1

theorem getLast?_streamEvents (o : Outside) (status : StatusCode) (pieces : List (List UInt8))
    (aborted : Option Str) : ∃ metrics, (streamEvents o status pieces aborted).getLast? =
      some (.apiStreamEnd metrics (status.text ++ if aborted.isSome then " aborted".toList else [])) := by
  refine ⟨(metricsOf o pieces).toMetrics, ?_⟩
  cases aborted with
  | none =>
    rw [streamEvents, List.getLast?_concat]
    show _ = some (Event.apiStreamEnd _ (status.text ++ []))
    rw [List.append_nil]
  | some e =>
    rw [streamEvents, List.getLast?_append]
    rfl

theorem strike_relayed {o : Outside} {model : Str} {items : List Str}
    (hread : ∀ c ∈ items, o.fromStr (eventText model c) = .ok (event model c))
    (hdone : (o.fromStr ("[DONE]" : Str)).toOption = none)
    (hup : Delivers upstream (ssePieces model items true).flatten)
    (hstop : StopsAt (relay upstream requestId idle created now) n) {pieces : List (List UInt8)}
    (hpieces : pieces.flatten = (yielded (relay upstream requestId idle created now) n).flatten)
    (hwhole : Whole pieces) {controlPort : Nat} {bearer : Option Str} {payload : Str} {body : Json}
    (hbody : o.fromStr payload = .ok body) {status : StatusCode} (hok : status.isSuccess = true) {e : Str}
    (hsend : o.send (requestOf controlPort bearer body) = .answered status pieces
      (if (relay upstream requestId idle created now n).item = .error then some e else none)) :
    Displays items (upstreamChunks upstream n).flatten status
      ((relay upstream requestId idle created now n).item = .error)
      (strike o controlPort bearer payload) := by
  obtain ⟨hyielded, hended⟩ := yielded_of_stopsAt hstop
  set out := relay upstream requestId idle created now
  obtain ⟨ts, hts⟩ := whole_iff.mp hwhole
  have hflat : pieces.flatten = bytes ts.flatten := by rw [hts, bytes_flatten]
  have hpre : ts.flatten <+: (ssePieces model items true).flatten := by
    obtain ⟨rest, hrest⟩ := hup.chunks n
    rw [← hyielded, ← hpieces, hflat] at hrest
    have hdecode := fromUtf8_append ts.flatten rest
    rw [hrest, fromUtf8_bytes] at hdecode
    obtain ⟨r, -, hr⟩ := Option.map_eq_some_iff.mp hdecode.symm
    exact ⟨r, hr⟩
  have hshown := shown_of_prefix hread hdone hpre hflat hwhole
  rw [strike_eq hbody hsend hok]
  refine ⟨⟨ts.flatten, by rw [← hyielded, ← hpieces, hflat], ?_⟩, fun hbroken => ?_, ?_⟩
  · rw [shownTexts_streamEvents, hshown]
  · have hne : (out n).item ≠ .error := by simpa using hbroken
    obtain ⟨hu, herr⟩ := hended (hstop.1.resolve_left hne)
    have hall := hup.ended n hu herr
    rw [← hyielded, ← hpieces, hflat, bytes_inj] at hall
    rw [shownTexts_streamEvents, hshown, hall, count_ssePieces, List.take_of_length_le (by omega)]
  · obtain ⟨metrics, hlast⟩ := getLast?_streamEvents o status pieces
      (if (out n).item = .error then some e else none)
    refine ⟨metrics, hlast.trans ?_⟩
    by_cases he : (out n).item = .error
    · rw [if_pos he, decide_eq_true he]
      rfl
    · rw [if_neg he, decide_eq_false he]
      rfl

/-! ## From the stand-in to the deck -/

/-- The texts among the items of the channel. -/
def texts (cs : List Chunk) : List Str :=
  cs.filterMap fun
    | .piece text => some text
    | .failed => none

/-- A body as a client of the stand-in polls it, in whatever parts and with whatever waits. -/
structure Carries (upstream : Nat → InnerPoll) (st : StreamBody) : Prop where
  chunks : ∀ n, (upstreamChunks upstream n).flatten <+: bytes (texts st.pipe.received).flatten
  /-- The connection does not end where it breaks. -/
  ended : ∀ n, upstream n = .ended → (∀ j < n, upstream j ≠ .error) →
    st.pipe.ended = true ∧ .failed ∉ st.pipe.received ∧
      (upstreamChunks upstream n).flatten = bytes (texts st.pipe.received).flatten

theorem texts_pieces (pieces : List Str) : texts (pieces.map .piece) = pieces := by
  rw [texts, List.filterMap_map]
  exact List.filterMap_some

theorem texts_outgoing (crashAfter : Option Nat) (pieces : List Str) :
    texts (outgoing crashAfter 0 pieces) = pieces.take (crashAfter.getD pieces.length) := by
  rw [outgoing_eq]
  cases crashAfter with
  | none => exact (texts_pieces pieces).trans List.take_length.symm
  | some k =>
    refine List.filterMap_append.trans ?_
    exact (List.append_nil _).trans (texts_pieces _)

theorem prefixed_bytes {s t : Str} (h : s <+: t) : bytes s <+: bytes t := by
  obtain ⟨r, rfl⟩ := h
  exact ⟨bytes r, (bytes_append s r).symm⟩

theorem prefixed_flatten {ss ts : List Str} (h : ss <+: ts) : ss.flatten <+: ts.flatten := by
  obtain ⟨rs, rfl⟩ := h
  exact ⟨rs.flatten, List.flatten_append.symm⟩

variable {path : Str} {mode : CrashMode} {sent : List Str} {crashAfter : Option Nat}
  {ls : List BodyLabel} {st : StreamBody}

theorem crashAfter_of_whole (hwhole : st.pipe.received = outgoing crashAfter 0 sent)
    (hfailed : .failed ∉ st.pipe.received) : crashAfter = none := by
  rw [hwhole, outgoing_eq] at hfailed
  cases crashAfter with
  | none => rfl
  | some k => exact absurd (List.mem_append_right _ (List.mem_singleton_self _)) hfailed

/-- The stand-in's client receives the first part of the text, and an end only behind all of it. -/
theorem delivers_streamBody {text : Str}
    (hr : Machine.run (StreamBody.step path mode) (.start sent crashAfter) ls = some st)
    (hc : Carries upstream st) (hpre : sent.flatten <+: text)
    (hall : crashAfter = none → sent.flatten = text) : Delivers upstream text where
  chunks n := by
    refine ((hc.chunks n).trans (prefixed_bytes (prefixed_flatten ?_))).trans (prefixed_bytes hpre)
    have hsent := ((bodyInv_run hr).streams.received).filterMap fun
      | Chunk.piece text => some text
      | .failed => none
    refine (hsent.trans ?_)
    show texts (outgoing crashAfter 0 sent) <+: sent
    rw [texts_outgoing]
    exact List.take_prefix _ _
  ended n hn hj := by
    obtain ⟨hend, hfailed, hbytes⟩ := hc.ended n hn hj
    have hwhole := (bodyInv_run hr).streams.whole hend
    have hnone := crashAfter_of_whole hwhole hfailed
    have htake : sent.take (crashAfter.getD sent.length) = sent := by
      rw [hnone]
      exact List.take_length
    rw [hbytes, hwhole, texts_outgoing, htake, hall hnone]

/-- The items of a streamed chat, under a fault of its route or none. -/
def streamed (engine : Engine) : Option Fault → List Str
  | some (.chunks items _) => items
  | _ => engine.chatItems

section Chat

variable (read : Str → Option Json) (engine : Engine) (req : Http.Request)

/-- The model that a streamed chat names. -/
def chatModel : Str := ((bodyJson read req).index "model").asStr.getD "fake"

/-- What it is to stream. -/
def chatStream : List Str := streamed engine (engine.scenario.routes (routeKey req))

end Chat

theorem chatItems_load (engine : Engine) (id : Str) : (engine.load id).chatItems = engine.chatItems := by
  rw [Engine.chatItems, Engine.chatItems, engine.scenario_load]

theorem pieces_of_chat {engine : Engine} {json : Json} {ct : Str} {delayMs : Nat}
    (h : (engine.chat json).2 = .stream ct sent delayMs crashAfter) :
    sent = ssePieces ((json.index "model").asStr.getD "fake") engine.chatItems crashAfter.isNone := by
  unfold Engine.chat at h
  split at h
  · cases h
  · rename_i model hmodel
    rw [hmodel, Option.getD_some]
    split at h
    · cases h
    · dsimp only at h
      split at h
      · cases h
        rw [chatItems_load]
        rfl
      · cases h

theorem pieces_of_route (engine : Engine) {json : Json} {ct : Str} {delayMs : Nat}
    (h : (engine.route "POST" Engine.chatPath json).2 = .stream ct sent delayMs crashAfter) :
    sent = ssePieces ((json.index "model").asStr.getD "fake") engine.chatItems crashAfter.isNone := by
  have hget (p : Prop) : ¬ (("POST".toList : Str) = "GET".toList ∧ p) := fun hp => absurd hp.1 (by decide)
  have hload : Engine.chatPath ≠ "/models/load".toList := by decide +kernel
  have hunload : Engine.chatPath ≠ "/models/unload".toList := by decide +kernel
  rw [Engine.route, if_neg (hget _), if_neg (hget _), if_neg (fun hp => hload hp.2),
    if_neg (fun hp => hunload hp.2), if_neg (hget _), if_neg (hget _), if_pos ⟨rfl, rfl⟩] at h
  exact pieces_of_chat h

theorem pieces_of_applyFault {engine : Engine} {fault : Fault} {json : Json} {ct : Str} {delayMs : Nat}
    (h : (engine.applyFault fault "POST" Engine.chatPath json).2 = .stream ct sent delayMs crashAfter) :
    sent = ssePieces ((json.index "model").asStr.getD "fake") (streamed engine (some fault))
      crashAfter.isNone := by
  have hchat : (decide (("POST".toList : Str) = "POST".toList) &&
      decide (Engine.chatPath = Engine.chatPath)) = true := by decide
  unfold Engine.applyFault at h
  cases fault with
  | status code body => cases h
  | hangBeforeHeaders => cases h
  | crashAfter chunks =>
    dsimp only at h
    rw [if_pos hchat] at h
    cases h
    rfl
  | chunks items delayMs =>
    dsimp only at h
    split at h
    · cases h
      rfl
    · cases h
  | malformed =>
    dsimp only at h
    split at h
    · cases h
    · cases h
  | rawChunks items delayMs code contentType headers =>
    dsimp only [expectValid] at h
    split at h
    · cases h
    · cases h

/-- However the scenario has a chat streamed, the pieces are events of items. -/
theorem pieces_of_handle {read : Str → Option Json} {engine : Engine} {fs : Fs} {req : Http.Request}
    {ct : Str} {delayMs : Nat} (hpost : req.method = .post) (hpath : req.uri.path = Engine.chatPath)
    (h : (engine.handle read fs req).2 = .stream ct sent delayMs crashAfter) :
    sent = ssePieces (chatModel read req) (chatStream engine req) crashAfter.isNone := by
  have hmethod : req.method.asStr = "POST".toList := by rw [hpost]; rfl
  unfold Engine.handle at h
  dsimp only at h
  rw [hmethod, hpath, if_neg (by decide),
    show (engine.record (requestRecord req)).scenario = engine.scenario from rfl] at h
  unfold chatStream
  cases hr : engine.scenario.routes (routeKey req) with
  | some fault =>
    rw [hr] at h
    exact (pieces_of_applyFault h).trans (by cases fault <;> rfl)
  | none =>
    rw [hr] at h
    exact pieces_of_route (engine.record (requestRecord req)) h

/-- **However a stream breaks off, the deck shows what arrived and says so**; one that the stand-in
breaks off always does. -/
theorem strike_streamBody {o : Outside} {read : Str → Option Json} {engine : Engine} {fs : Fs}
    {req : Http.Request} (hpost : req.method = .post) (hpath : req.uri.path = Engine.chatPath) {ct : Str}
    {delayMs : Nat} (hreply : (engine.handle read fs req).2 = .stream ct sent delayMs crashAfter)
    (hread : ∀ c ∈ chatStream engine req,
      o.fromStr (eventText (chatModel read req) c) = .ok (event (chatModel read req) c))
    (hdone : (o.fromStr ("[DONE]" : Str)).toOption = none)
    (hr : Machine.run (StreamBody.step Engine.chatPath mode) (.start sent crashAfter) ls = some st)
    (hc : Carries upstream st)
    (hstop : StopsAt (relay upstream requestId idle created now) n) {pieces : List (List UInt8)}
    (hpieces : pieces.flatten = (yielded (relay upstream requestId idle created now) n).flatten)
    (hwhole : Whole pieces) {controlPort : Nat} {bearer : Option Str} {payload : Str} {body : Json}
    (hbody : o.fromStr payload = .ok body) {status : StatusCode} (hok : status.isSuccess = true) {e : Str}
    (hsend : o.send (requestOf controlPort bearer body) = .answered status pieces
      (if (relay upstream requestId idle created now n).item = .error then some e else none)) :
    Displays (chatStream engine req) (upstreamChunks upstream n).flatten status
        ((relay upstream requestId idle created now n).item = .error)
        (strike o controlPort bearer payload) ∧
      (crashAfter.isSome = true → (relay upstream requestId idle created now n).item = .error) := by
  have hsent := pieces_of_handle hpost hpath hreply
  have hdelivers :
      Delivers upstream (ssePieces (chatModel read req) (chatStream engine req) true).flatten := by
    refine delivers_streamBody hr hc ?_ fun hnone => ?_
    · rw [hsent]
      refine prefixed_flatten ?_
      cases crashAfter with
      | none => exact List.prefix_rfl
      | some k =>
        rw [ssePieces, ssePieces]
        exact (List.prefix_append_right_inj _).mpr (List.nil_prefix)
    · rw [hsent, hnone]
      rfl
  refine ⟨strike_relayed hread hdone hdelivers hstop hpieces hwhole hbody hok hsend, fun hcrash => ?_⟩
  refine hstop.1.resolve_right fun hended => ?_
  obtain ⟨hu, hj⟩ := (yielded_of_stopsAt hstop).2 hended
  obtain ⟨hend, hfailed, -⟩ := hc.ended n hu hj
  have hnone := crashAfter_of_whole ((bodyInv_run hr).streams.whole hend) hfailed
  rw [hnone] at hcrash
  cases hcrash

/-- The second of two items is never sent: the deck shows the first and says `aborted`. -/
theorem strike_streamBody_crash :
    let items : List Str := ["a", "b"]
    let payload : Str := "\x7b\"model\":\"m\",\"stream\":true\x7d"
    let engine := Engine.new { routes := fun _ => some (.crashAfter 1), chatChunks := some items }
    let req : Http.Request :=
      { method := .post, uri := ⟨Engine.chatPath, none⟩, body := { chunks := [bytes payload] } }
    let first := (ssePieces ['m'] items true).take 1
    let upstream : Nat → InnerPoll
      | 0 => .chunk (bytes first.flatten)
      | _ => .error
    let o : Outside :=
      { answering (first.map bytes) with
        fromStr := fun t => if t = payload then .ok (.obj [("model", .str ['m']), ("stream", .bool true)])
          else readEvents ['m'] items t
        send := fun _ => .answered ⟨200, "200 OK"⟩ (first.map bytes) (some "closed") }
    Displays (chatStream engine req) (upstreamChunks upstream 1).flatten ⟨200, "200 OK"⟩ true
      (strike o 11435 none payload) := by
  intro items payload engine req first upstream o
  have hmodel : chatModel readText req = ['m'] := by decide +kernel
  have hother (t : Str) (h : t ≠ payload) : o.fromStr t = readEvents ['m'] items t := if_neg h
  have hread (c : Str) (hc : c ∈ items) : o.fromStr (eventText ['m'] c) = .ok (event ['m'] c) := by
    have hne : ∀ c ∈ items, eventText ['m'] c ≠ payload ∧
        (items.find? fun d => eventText ['m'] d == eventText ['m'] c) = some c := by
      decide +kernel
    rw [hother _ (hne c hc).1]
    exact readEvents_eq (hne c hc).2
  have hdone : (o.fromStr ("[DONE]" : Str)).toOption = none := by
    have hnone : (items.find? fun c => eventText ['m'] c == ("[DONE]" : Str)) = none := by
      decide +kernel
    rw [hother _ (by decide +kernel), readEvents, hnone]
    rfl
  have hreply : (engine.handle readText (fun _ _ => none) req).2 =
      .stream "text/event-stream" (ssePieces (chatModel readText req) items false) 0 (some 1) := rfl
  rw [hmodel] at hreply
  obtain ⟨st, hst, hreceived⟩ := Option.map_eq_some_iff.mp
    (show ((Machine.run (StreamBody.step Engine.chatPath .dropConnection)
      (.start (ssePieces ['m'] items false) (some 1)) [.pipe .send, .crash, .pipe .recv, .pipe .send]).map
        fun st => st.pipe.received) = some [.piece first.flatten] by decide +kernel)
  have hlater (n : Nat) : upstreamChunks upstream (n + 1) = [bytes first.flatten] :=
    (Machine.collect_of_none (Nat.succ_le_succ (Nat.zero_le n)) fun j hj _ => by
      obtain ⟨j, rfl⟩ := Nat.exists_eq_add_of_le hj
      rw [Nat.add_comm]
      rfl).trans rfl
  have hc : Carries upstream st :=
    { chunks := fun n => by
        rw [hreceived]
        cases n with
        | zero => exact List.nil_prefix
        | succ n => exact (hlater n) ▸ List.prefix_iff_eq_append.mpr (by simp [texts])
      ended := fun n hn _ => by
        rcases n with _ | n <;> cases hn }
  have hstop : StopsAt (relay upstream "r" (secs 30) 0 fun _ => 0) 1 :=
    ⟨.inl (by decide +kernel), fun j hj => by
      rw [Nat.lt_one_iff.mp hj]
      decide +kernel⟩
  have hitem : (relay upstream "r" (secs 30) 0 (fun _ => 0) 1).item = .error := by decide +kernel
  have hpieces : (first.map bytes).flatten =
      (yielded (relay upstream "r" (secs 30) 0 fun _ => 0) 1).flatten := rfl
  have hok : StatusCode.isSuccess ⟨200, "200 OK"⟩ = true := by decide
  have hsend : o.send (requestOf 11435 none (.obj [("model", .str ['m']), ("stream", .bool true)])) =
      .answered ⟨200, "200 OK"⟩ (first.map bytes)
        (if (relay upstream "r" (secs 30) 0 (fun _ => 0) 1).item = .error then some "closed" else none) := by
    rw [if_pos hitem]
  have h := (strike_streamBody rfl rfl hreply (by rw [hmodel]; exact hread) hdone hst hc hstop hpieces
    (whole_iff.mpr ⟨_, rfl⟩) (if_pos rfl) hok hsend).1
  rw [decide_eq_true hitem] at h
  exact h

end Relay

end Saltnitor.Interrogate
