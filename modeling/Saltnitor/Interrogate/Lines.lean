import Saltnitor.Interrogate

/-!
# Two readers of one answer

The deck shows a line when a line feed ends it, and trims it first. The metrics go
over `str::lines`, which has a last line without a line feed too, and trim nothing.
A line that is counted and ended is also shown (`shows_of_counts`), so the two
numbers differ by the lines that only trimming makes readable, and by an unended
last line: `shown_eq_counted_iff`.
-/

namespace Saltnitor.Interrogate

open Rust Main

/-- What the readers rely on in the JSON parser: blanks behind a value are skipped, other white
space there is an error, and nothing is no value. -/
structure JsonReader (fromStr : Str → Except Str Json) : Prop where
  blank : ∀ d c, isBlank c = true →
    (fromStr (d ++ [c])).toOption = (fromStr d).toOption
  space : ∀ d c, isWhitespace c = true → isBlank c = false →
    (fromStr (d ++ [c])).toOption = none
  nil : (fromStr []).toOption = none

section

variable {fromStr : Str → Except Str Json}

/-- The metrics count the line. -/
def counts (fromStr : Str → Except Str Json) (line : Str) : Bool :=
  (eventOf fromStr line).any hasContent

/-- The deck shows the line. -/
def shows (fromStr : Str → Except Str Json) (line : Str) : Bool :=
  (shownOf fromStr (line ++ ['\n'])).isSome

/-- The line is readable only when it is trimmed. -/
def onlyTrimmed (fromStr : Str → Except Str Json) (line : Str) : Bool :=
  shows fromStr line && !counts fromStr (chompCr line)

theorem lines_eq (s : Str) :
    lines s = (Framing.frames '\n' s).map chompCr ++
      if Framing.pending '\n' s = [] then [] else [Framing.pending '\n' s] := by
  rw [lines, Framing.splitOn_eq, List.dropLast_concat, List.getLast?_concat]
  by_cases h : Framing.pending '\n' s = [] <;> simp [h]

theorem contentChunks_eq (transcript : Str) (ttft elapsed : Option Nat) :
    (metricsFromTranscript fromStr transcript ttft elapsed).contentChunks =
      (lines transcript).countP (counts fromStr) := by
  have hcount : ((lines transcript).filterMap (eventOf fromStr)).countP hasContent =
      (lines transcript).countP (counts fromStr) := by
    rw [List.countP_filterMap]
    refine List.countP_congr fun l _ => ?_
    cases h : eventOf fromStr l <;> simp [counts, h]
  rw [← hcount]
  unfold metricsFromTranscript
  dsimp only
  split
  · rfl
  · split <;> rfl
  · rfl

/-! ## One line -/

theorem toOption_rdropWhile (hr : JsonReader fromStr) {d : Str} {v : Json}
    (h : (fromStr d).toOption = some v) :
    (fromStr (d.rdropWhile isWhitespace)).toOption = some v := by
  induction d using List.reverseRecOn with
  | nil => exact h
  | append_singleton d c ih =>
    by_cases hw : isWhitespace c = true
    · rw [List.rdropWhile_concat_pos _ _ _ hw]
      by_cases hb : isBlank c = true
      · exact ih ((hr.blank d c hb).symm.trans h)
      · rw [hr.space d c hw (by simpa using hb)] at h
        cases h
    · rw [List.rdropWhile_concat_neg _ _ _ hw]
      exact h

theorem trim_dataLine {d : Str} (h : d.rdropWhile isWhitespace ≠ []) :
    trim (("data: " : Str) ++ d) = ("data: " : Str) ++ d.rdropWhile isWhitespace := by
  have hhead : (("data: " : Str) ++ d).dropWhile isWhitespace = ("data: " : Str) ++ d :=
    dropWhile_eq_self fun c hc => by cases hc; decide
  rw [trim, trimMatches, hhead]
  induction d using List.reverseRecOn with
  | nil => exact absurd rfl h
  | append_singleton d c ih =>
    by_cases hw : isWhitespace c = true
    · rw [List.rdropWhile_concat_pos _ _ _ hw] at h ⊢
      rw [← List.append_assoc, List.rdropWhile_concat_pos _ _ _ hw]
      exact ih h (dropWhile_eq_self fun c hc => by cases hc; decide)
    · rw [List.rdropWhile_concat_neg _ _ _ hw, ← List.append_assoc,
        List.rdropWhile_concat_neg _ _ _ hw, List.append_assoc]

/-- The two ways the code asks for the content agree. -/
theorem hasContent_eq (v : Json) :
    hasContent v =
      ((((v.index "choices").item 0).index "delta").index "content").asStr.isSome := by
  rw [Json.asStr_index, hasContent]

theorem shows_eq (line : Str) :
    shows fromStr line =
      ((List.isPrefixOf? ("data: " : Str) (trim line)).bind fun d => (fromStr d).toOption).any
        hasContent := by
  have ht : trim (line ++ ['\n']) = trim line := trim_concat (by decide) line
  rw [shows, shownOf, ht]
  simp only [Option.bind_eq_bind]
  cases List.isPrefixOf? ("data: " : Str) (trim line) with
  | none => rfl
  | some d =>
    rw [Option.bind_some, Option.bind_some]
    cases (fromStr d).toOption with
    | none => rfl
    | some v =>
      rw [Option.bind_some, Option.any_some, hasContent_eq]
      generalize ((((v.index "choices").item 0).index "delta").index "content").asStr = content
      cases content <;> rfl

theorem counts_eq_true {line : Str} (h : counts fromStr line = true) :
    ∃ d v, line = ("data: " : Str) ++ d ∧ (fromStr d).toOption = some v ∧ hasContent v = true := by
  rw [counts, Option.any_eq_true, eventOf] at h
  obtain ⟨v, hv, hc⟩ := h
  obtain ⟨d, hd, hv⟩ := Option.bind_eq_some_iff.mp hv
  exact ⟨d, v, isPrefixOf?_eq_some.mp (Option.filter_eq_some_iff.mp hd).1, hv, hc⟩

theorem shows_of_counts (hr : JsonReader fromStr) {line : Str}
    (h : counts fromStr (chompCr line) = true) : shows fromStr line = true := by
  obtain ⟨d, v, hline, hv, hc⟩ := counts_eq_true h
  have hv := toOption_rdropWhile hr hv
  have hne : d.rdropWhile isWhitespace ≠ [] := by
    intro he
    rw [he, hr.nil] at hv
    cases hv
  have htrim : trim line = ("data: " : Str) ++ d.rdropWhile isWhitespace := by
    rw [← trim_chompCr, hline, trim_dataLine hne]
  rw [shows_eq, htrim, isPrefixOf?_eq_some.mpr rfl, Option.bind_some, hv, Option.any_some, hc]

/-! ## The whole answer -/

theorem length_shown (pieces : List (List UInt8)) :
    (receive fromStr pieces).shown.length =
      (Framing.frames '\n' (receive fromStr pieces).transcript).countP (shows fromStr) := by
  rw [receive_eq]
  dsimp only
  rw [List.length_filterMap_eq_countP]
  rfl

/-- Lines that are shown are counted, or readable only when trimmed. -/
theorem countP_shows (hr : JsonReader fromStr) (ls : List Str) :
    ls.countP (shows fromStr) =
      (ls.map chompCr).countP (counts fromStr) + ls.countP (onlyTrimmed fromStr) := by
  rw [List.countP_map]
  induction ls with
  | nil => rfl
  | cons l ls ih =>
    rw [List.countP_cons, List.countP_cons, List.countP_cons, ih, Function.comp_apply, onlyTrimmed]
    by_cases hc : counts fromStr (chompCr l) = true
    · rw [if_pos (shows_of_counts hr hc), if_pos hc, hc]
      simp
      omega
    · rw [if_neg hc]
      rw [Bool.not_eq_true] at hc
      rw [hc]
      cases shows fromStr l <;> simp
      omega

end

/-- **The deck shows as many pieces as the metrics count if and only if the lines that only
trimming makes readable make up for an unended last line that is counted.** -/
theorem shown_eq_counted_iff {o : Outside} (hr : JsonReader o.fromStr) {controlPort : Nat}
    {bearer : Option Str} {payload : Str} {body : Json} (hbody : o.fromStr payload = .ok body)
    {status : StatusCode} {pieces : List (List UInt8)}
    (hsend : o.send (requestOf controlPort bearer body) = .answered status pieces none)
    (hok : status.isSuccess = true) :
    let text := (receive o.fromStr pieces).transcript
    (shownTexts (strike o controlPort bearer payload)).length = (metricsOf o pieces).contentChunks ↔
      (Framing.frames '\n' text).countP (onlyTrimmed o.fromStr) =
        if counts o.fromStr (Framing.pending '\n' text) = true then 1 else 0 := by
  dsimp only
  have hpending (text : Str) : (if Framing.pending '\n' text = [] then []
        else [Framing.pending '\n' text]).countP (counts o.fromStr) =
      if counts o.fromStr (Framing.pending '\n' text) = true then 1 else 0 := by
    split
    · rename_i h
      rw [h]
      rfl
    · rw [List.countP_singleton]
  rw [strike_eq hbody hsend hok, shownTexts_streamEvents, length_shown, countP_shows hr, metricsOf,
    contentChunks_eq, lines_eq, List.countP_append, hpending]
  omega

theorem readDelta_eq_some {text : Str} {v : Json} (h : (readDelta text).toOption = some v) :
    ∃ content, text.rdropWhile isBlank = deltaText content := by
  rw [readDelta] at h
  split at h
  · cases h
  · rename_i rest hrest
    dsimp only at h
    split at h
    · rename_i hc
      exact ⟨_, by rw [isPrefixOf?_eq_some.mp hrest, deltaText, List.append_assoc, ← hc.1]⟩
    · cases h

theorem jsonReader_readDelta : JsonReader readDelta where
  blank d c hc := by
    rw [readDelta, readDelta, List.rdropWhile_concat_pos _ _ _ hc]
  space d c hw hb := by
    cases hv : (readDelta (d ++ [c])).toOption with
    | none => rfl
    | some v =>
      obtain ⟨content, ht⟩ := readDelta_eq_some hv
      rw [List.rdropWhile_concat_neg _ _ _ (by simp [hb])] at ht
      have hlast := congrArg List.getLast? ht
      have htail : deltaTail.getLast? = some '}' := by decide +kernel
      rw [List.getLast?_concat, deltaText, List.getLast?_append_of_ne_nil _ (by decide +kernel),
        htail] at hlast
      cases hlast
      exact absurd hw (by decide)
  nil := by decide +kernel

theorem shown_eq_counted_iff_oneEvent :
    (shownTexts (strike (answering [bytes oneEvent]) 11435 none (deltaText ['x']))).length =
        (metricsOf (answering [bytes oneEvent]) [bytes oneEvent]).contentChunks :=
  (shown_eq_counted_iff (o := answering [bytes oneEvent]) jsonReader_readDelta
    (show (answering [bytes oneEvent]).fromStr (deltaText ['x']) = .ok (delta ['x']) by rfl)
    (show (answering [bytes oneEvent]).send (requestOf 11435 none (delta ['x'])) =
      .answered ⟨200, "200 OK"⟩ [bytes oneEvent] none from rfl) (by decide)).mpr
    (by decide +kernel)

/-- The same event in a body whose only line is not ended, and indented. -/
theorem shown_ne_counted :
    let unended := [bytes oneEvent.dropLast]
    let indented := [bytes (' ' :: oneEvent)]
    ((shownTexts (strike (answering unended) 11435 none (deltaText ['x']))).length = 0 ∧
        (metricsOf (answering unended) unended).contentChunks = 1) ∧
      (shownTexts (strike (answering indented) 11435 none (deltaText ['x']))).length = 1 ∧
        (metricsOf (answering indented) indented).contentChunks = 0 := by
  decide +kernel

end Saltnitor.Interrogate
