import Saltnitor.Interrogate.Lines

/-!
# An event stream is read back

`ssePieces` is the stream of the router's stand-in: one event for each item of
content, each printed as JSON on a `data: ` line of its own with an empty line
behind it, then the end mark. `strike_ssePieces`: whatever the items are, and
however the stream is cut between characters, the deck shows each item once, in
order and on one line, and the metrics count them. JSON's printer and its parser are taken to be
inverse on these events.
-/

namespace Saltnitor.Interrogate

open Rust Main

/-! ## The stream -/

/-- An event with one item of content; the members of an object are in the order of their names. -/
def event (model content : Str) : Json :=
  .obj [("choices", .arr [.obj [("delta", .obj [("content", .str content)]),
      ("finish_reason", .null), ("index", .num 0)]]),
    ("id", .str "chatcmpl-fake"), ("model", .str model), ("object", .str "chat.completion.chunk")]

def eventHead : Str := "\x7b\"choices\":[\x7b\"delta\":\x7b\"content\":"

def eventMiddle : Str :=
  "\x7d,\"finish_reason\":null,\"index\":0\x7d],\"id\":\"chatcmpl-fake\",\"model\":"

def eventTail : Str := ",\"object\":\"chat.completion.chunk\"\x7d"

/-- The event as `serde_json` prints it. -/
def eventText (model content : Str) : Str :=
  eventHead ++ quote content ++ eventMiddle ++ quote model ++ eventTail

def ssePieces (model : Str) (items : List Str) (done : Bool) : List Str :=
  (items.map fun c => ("data: " : Str) ++ eventText model c ++ ("\n\n" : Str)) ++
    if done then [("data: [DONE]\n\n" : Str)] else []

example : ssePieces "m" [("a\"\n" : Str)] false =
    [("data: \x7b\"choices\":[\x7b\"delta\":\x7b\"content\":\"a\\\"\\n\"\x7d," : Str) ++
      ("\"finish_reason\":null,\"index\":0\x7d],\"id\":\"chatcmpl-fake\",\"model\":\"m\"," : Str) ++
      ("\"object\":\"chat.completion.chunk\"\x7d\n\n" : Str)] := by
  decide +kernel

/-! ## Its lines -/

/-- The lines of the stream, without their line feeds. -/
def sseLines (model : Str) (items : List Str) : List Str :=
  (items.flatMap fun c => [("data: " : Str) ++ eventText model c, []]) ++
    [("data: [DONE]" : Str), []]

theorem ssePieces_eq (model : Str) (items : List Str) :
    (ssePieces model items true).flatten = (sseLines model items).flatMap (· ++ ['\n']) := by
  rw [ssePieces, sseLines, List.flatten_append, List.flatMap_append, List.flatMap_assoc]
  congr 1
  induction items with
  | nil => rfl
  | cons c items ih =>
    rw [List.map_cons, List.flatten_cons, ih, List.flatMap_cons]
    congr 1
    simp

theorem newline_not_mem_parts : '\n' ∉ eventHead ∧ '\n' ∉ eventMiddle ∧ '\n' ∉ eventTail := by
  decide +kernel

theorem getLast?_eventTail : eventTail.getLast? = some '}' := by decide +kernel

theorem newline_not_mem_eventText (model content : Str) : '\n' ∉ eventText model content := by
  obtain ⟨hhead, hmiddle, htail⟩ := newline_not_mem_parts
  have hcontent := newline_not_mem_quote content
  have hmodel := newline_not_mem_quote model
  simp only [eventText, List.mem_append, hhead, hmiddle, htail, hcontent, hmodel, or_self,
    not_false_eq_true]

theorem getLast?_eventText (model content : Str) : (eventText model content).getLast? = some '}' := by
  rw [eventText, List.getLast?_append, getLast?_eventTail]
  rfl

theorem newline_not_mem_sseLines {model : Str} {items : List Str} {l : Str}
    (h : l ∈ sseLines model items) : '\n' ∉ l := by
  rw [sseLines, List.mem_append, List.mem_flatMap] at h
  rcases h with ⟨c, -, h⟩ | h
  · rcases List.mem_cons.mp h with rfl | h
    · rw [List.mem_append, not_or]
      exact ⟨by decide +kernel, newline_not_mem_eventText model c⟩
    · rw [List.mem_singleton.mp h]
      exact List.not_mem_nil
  · revert h l
    decide +kernel

theorem frames_ssePieces (model : Str) (items : List Str) :
    Framing.frames '\n' (ssePieces model items true).flatten = sseLines model items ∧
      Framing.pending '\n' (ssePieces model items true).flatten = [] := by
  have h := Framing.frames_flatMap (c := '\n')
    (fun l (hl : l ∈ sseLines model items) => newline_not_mem_sseLines hl) []
  rw [List.append_nil, ← ssePieces_eq] at h
  rw [h.1, h.2]
  exact ⟨List.append_nil _, rfl⟩

/-! ## Its events -/

theorem content_event (model content : Str) :
    ((((event model content).index "choices").item 0).index "delta").index "content" =
      .str content := by
  rfl

theorem hasContent_event (model content : Str) : hasContent (event model content) = true := by
  rw [hasContent_eq, content_event]
  rfl

theorem rdropWhile_eventText (model content : Str) :
    (eventText model content).rdropWhile isWhitespace = eventText model content := by
  rw [List.rdropWhile_eq_self_iff]
  intro hne hw
  have hlast := getLast?_eventText model content
  rw [List.getLast?_eq_some_getLast hne, Option.some.injEq] at hlast
  rw [hlast] at hw
  exact absurd hw (by decide)

theorem eventText_ne_nil (model content : Str) : eventText model content ≠ [] := by
  intro h
  have hlast := getLast?_eventText model content
  rw [h] at hlast
  cases hlast

theorem eventText_ne_done (model content : Str) : eventText model content ≠ ("[DONE]" : Str) := by
  intro h
  have hlast := getLast?_eventText model content
  rw [h] at hlast
  exact absurd hlast (by decide +kernel)

/-- A text on one line, with ` ⏎ ` for each line feed. -/
def onOneLine (text : Str) : Str := text.flatMap fun c => if c = '\n' then (" ⏎ " : Str) else [c]

example : onOneLine "a\nb\n" = (("a ⏎ b ⏎ ") : Str) := by decide

theorem showLineFeeds_eq (content : Str) : showLineFeeds content = onOneLine content := rfl

section

variable {fromStr : Str → Except Str Json} {model content : Str}

theorem shownOf_event (h : fromStr (eventText model content) = .ok (event model content)) :
    shownOf fromStr (("data: " : Str) ++ eventText model content ++ ['\n']) =
      some (onOneLine content) := by
  have hne : (eventText model content).rdropWhile isWhitespace ≠ [] := by
    rw [rdropWhile_eventText]
    exact eventText_ne_nil model content
  have htrim : trim (("data: " : Str) ++ eventText model content ++ ['\n']) =
      ("data: " : Str) ++ eventText model content := by
    rw [trim_concat (by decide), trim_dataLine hne, rdropWhile_eventText]
  rw [shownOf, htrim, isPrefixOf?_eq_some.mpr rfl]
  simp only [Option.bind_eq_bind, Option.bind_some, h, Except.toOption, content_event, Json.asStr,
    showLineFeeds_eq]

theorem shownOf_done (h : (fromStr ("[DONE]" : Str)).toOption = none) :
    shownOf fromStr (("data: [DONE]" : Str) ++ ['\n']) = none := by
  have hdata : List.isPrefixOf? ("data: " : Str) (trim (("data: [DONE]" : Str) ++ ['\n'])) =
      some ("[DONE]" : Str) := by decide +kernel
  rw [shownOf, hdata]
  simp only [Option.bind_eq_bind, Option.bind_some, h, Option.bind_none]

theorem shownOf_nil : shownOf fromStr ([] ++ ['\n']) = none := by
  have hdata : List.isPrefixOf? ("data: " : Str) (trim ([] ++ ['\n'])) = none := by decide +kernel
  rw [shownOf, hdata]
  rfl

theorem counts_event (h : fromStr (eventText model content) = .ok (event model content)) :
    counts fromStr (("data: " : Str) ++ eventText model content) = true := by
  have hdata : dataOf (("data: " : Str) ++ eventText model content) =
      some (eventText model content) := by
    rw [dataOf, isPrefixOf?_eq_some.mpr rfl, Option.filter_some]
    exact if_pos (by simpa using eventText_ne_done model content)
  rw [counts, eventOf, hdata, Option.bind_some, h]
  exact hasContent_event model content

theorem counts_other : counts fromStr [] = false ∧ counts fromStr ("data: [DONE]" : Str) = false := by
  have hnil : dataOf [] = none := by decide +kernel
  have hdone : dataOf ("data: [DONE]" : Str) = none := by decide +kernel
  rw [counts, counts, eventOf, eventOf, hnil, hdone]
  exact ⟨rfl, rfl⟩

theorem chompCr_dataLine :
    chompCr (("data: " : Str) ++ eventText model content) =
      ("data: " : Str) ++ eventText model content := by
  refine if_neg ?_
  rw [List.getLast?_append, getLast?_eventText]
  decide

variable {items : List Str}

theorem shown_sseLines (h : ∀ c ∈ items, fromStr (eventText model c) = .ok (event model c))
    (hdone : (fromStr ("[DONE]" : Str)).toOption = none) :
    (sseLines model items).filterMap (fun l => shownOf fromStr (l ++ ['\n'])) =
      items.map onOneLine := by
  rw [sseLines, List.filterMap_append]
  have hend : [("data: [DONE]" : Str), []].filterMap (fun l => shownOf fromStr (l ++ ['\n'])) = [] := by
    simp only [List.filterMap_cons, shownOf_done hdone, shownOf_nil, List.filterMap_nil]
  rw [hend, List.append_nil]
  induction items with
  | nil => rfl
  | cons c items ih =>
    obtain ⟨hc, hitems⟩ := List.forall_mem_cons.mp h
    simp only [List.flatMap_cons, List.filterMap_append, ih hitems, List.map_cons,
      List.filterMap_cons, shownOf_event hc, shownOf_nil, List.filterMap_nil, List.singleton_append]

theorem countP_sseLines (h : ∀ c ∈ items, fromStr (eventText model c) = .ok (event model c)) :
    ((sseLines model items).map chompCr).countP (counts fromStr) = items.length := by
  have hnil : ¬ counts fromStr [] = true := by rw [counts_other.1]; exact Bool.false_ne_true
  have hdone : ¬ counts fromStr ("data: [DONE]" : Str) = true := by
    rw [counts_other.2]; exact Bool.false_ne_true
  have hcr : chompCr ("data: [DONE]" : Str) = ("data: [DONE]" : Str) := by decide +kernel
  have hcr' : chompCr [] = [] := rfl
  rw [sseLines, List.map_append, List.countP_append]
  have hend : ([("data: [DONE]" : Str), []].map chompCr).countP (counts fromStr) = 0 := by
    rw [List.map_cons, List.map_singleton, hcr, hcr', List.countP_cons_of_neg hdone,
      List.countP_cons_of_neg hnil, List.countP_nil]
  rw [hend, Nat.add_zero]
  induction items with
  | nil => rfl
  | cons c items ih =>
    obtain ⟨hc, hitems⟩ := List.forall_mem_cons.mp h
    rw [List.flatMap_cons, List.map_append, List.countP_append, ih hitems, List.map_cons,
      List.map_singleton, chompCr_dataLine, hcr', List.countP_cons_of_pos (counts_event hc),
      List.countP_cons_of_neg hnil, List.countP_nil, List.length_cons]
    omega

end

/-- **The stream is read back**: every item once, in order, on one line, and counted. -/
theorem strike_ssePieces {o : Outside} {model : Str} {items : List Str}
    (hread : ∀ c ∈ items, o.fromStr (eventText model c) = .ok (event model c))
    (hdone : (o.fromStr ("[DONE]" : Str)).toOption = none) {controlPort : Nat}
    {bearer : Option Str} {payload : Str} {body : Json} (hbody : o.fromStr payload = .ok body)
    {status : StatusCode} {pieces : List (List UInt8)} {aborted : Option Str}
    (hsend : o.send (requestOf controlPort bearer body) = .answered status pieces aborted)
    (hok : status.isSuccess = true) (hwhole : Whole pieces)
    (hpieces : pieces.flatten = bytes (ssePieces model items true).flatten) :
    shownTexts (strike o controlPort bearer payload) = items.map onOneLine ∧
      (metricsOf o pieces).contentChunks = items.length := by
  have htext : (receive o.fromStr pieces).transcript = _ := (transcript_eq_iff hpieces).mpr hwhole
  obtain ⟨hframes, hpending⟩ := frames_ssePieces model items
  constructor
  · have hshown : (receive o.fromStr pieces).shown = items.map onOneLine := by
      rw [receive_eq] at htext ⊢
      dsimp only at htext ⊢
      rw [htext, hframes, shown_sseLines hread hdone]
    rw [strike_eq hbody hsend hok, shownTexts_streamEvents, hshown]
  · rw [metricsOf, contentChunks_eq, htext, lines_eq, hframes, hpending, if_pos rfl,
      List.append_nil, countP_sseLines hread]

/-- A parser of the events of these items and of nothing else. -/
def readEvents (model : Str) (items : List Str) (text : Str) : Except Str Json :=
  match items.find? fun c => eventText model c == text with
  | some c => .ok (event model c)
  | none => .error "unexpected text"

theorem readEvents_eq {model content : Str} {items : List Str}
    (h : (items.find? fun c => eventText model c == eventText model content) = some content) :
    readEvents model items (eventText model content) = .ok (event model content) := by
  rw [readEvents, h]

/-- Items that look like the stream's own lines, cut inside the first one. -/
theorem strike_ssePieces_two :
    let items : List Str := ["data: [DONE]\n", "\"\\"]
    let text := (ssePieces ['m'] items true).flatten
    let pieces := [text.take 50, text.drop 50].map bytes
    let o : Outside :=
      { answering pieces with fromStr := readEvents ['m'] items }
    shownTexts (strike o 11435 none (eventText ['m'] "\"\\")) =
        [("data: [DONE] ⏎ " : Str), ("\"\\" : Str)] ∧
      (metricsOf o pieces).contentChunks = 2 := by
  intro items text pieces o
  have hread (c : Str) (hc : c ∈ items) : o.fromStr (eventText ['m'] c) = .ok (event ['m'] c) := by
    refine readEvents_eq ?_
    revert c
    decide +kernel
  have hdone : (items.find? fun c => eventText ['m'] c == ("[DONE]" : Str)) = none := by
    decide +kernel
  have hsend : o.send (requestOf 11435 none (event ['m'] "\"\\")) =
      .answered ⟨200, "200 OK"⟩ pieces none := rfl
  refine strike_ssePieces hread ?_ (hread "\"\\" (by simp [items])) hsend (by decide)
    (whole_iff.mpr ⟨_, rfl⟩) ?_
  · rw [show o.fromStr = readEvents ['m'] items from rfl, readEvents, hdone]
    rfl
  · rw [← bytes_flatten, List.flatten_cons, List.flatten_singleton, List.take_append_drop]

end Saltnitor.Interrogate
