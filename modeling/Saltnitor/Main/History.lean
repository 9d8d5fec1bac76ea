import Saltnitor.Lib.Repeats
import Saltnitor.Main.Deck

/-!
# The console's history

What is sent from the console is remembered, and saved when the loop ends, a line
for each entry; the next start loads the lines again. The load does not look at how
many there are, and an entry with a line feed makes several. `Saved` says what should
be saved and loaded; `history_saved_iff` says after which sessions it is.
-/

namespace Saltnitor.Main

open Rust App Process Tuner

/-! ## Saving and loading -/

/-- The history file when the loop has ended: an empty history leaves it as it is. -/
def savedFile (file : Option Str) (history : List Str) : Option Str :=
  if history = [] then file else some (List.intercalate ['\n'] history)

/-- An entry that is a line of its own: no line feed in it, and no carriage return at its end, the
last entry of all apart. -/
def Reloads (history : List Str) : Prop :=
  (∀ l ∈ history, '\n' ∉ l) ∧ ∀ l ∈ history.dropLast, l.getLast? ≠ some '\r'

variable {history : List Str}

theorem chompCr_eq_self_iff {l : Str} : chompCr l = l ↔ l.getLast? ≠ some '\r' := by
  unfold chompCr
  split
  · rename_i h
    refine iff_of_false (fun he => ?_) (not_not.mpr h)
    have hne : l ≠ [] := by
      rintro rfl
      cases h
    have := congrArg List.length he
    rw [List.length_dropLast] at this
    have := List.length_pos_iff.mpr hne
    omega
  · rename_i h
    exact iff_of_true rfl h

theorem lines_joined (hne : history ≠ []) (h : ∀ l ∈ history, '\n' ∉ l)
    (hlast : history.getLast hne ≠ []) :
    lines (List.intercalate ['\n'] history) = history.dropLast.map chompCr ++ [history.getLast hne] := by
  have hs : (List.intercalate ['\n'] history).splitOn '\n' = history :=
    List.splitOn_intercalate '\n' h hne
  unfold lines
  dsimp only
  rw [hs, List.getLast?_eq_some_getLast hne, Option.toList_some,
    List.filter_cons_of_pos (by simpa using hlast), List.filter_nil]

theorem map_chompCr_iff : history.map chompCr = history ↔ ∀ l ∈ history, l.getLast? ≠ some '\r' := by
  have hid : history.map id = history := List.map_id _
  conv_lhs => rhs; rw [← hid]
  rw [List.map_inj_left]
  exact forall₂_congr fun _ _ => chompCr_eq_self_iff

theorem loadHistory_joined (hne : history ≠ []) (hb : ∀ l ∈ history, trim l ≠ []) :
    loadHistory (some (List.intercalate ['\n'] history)) = history ↔ Reloads history := by
  have hmem : ∀ l ∈ loadHistory (some (List.intercalate ['\n'] history)), '\n' ∉ l := fun l hl =>
    not_mem_of_mem_lines (List.mem_of_mem_filter hl)
  have hload (h : ∀ l ∈ history, '\n' ∉ l) : loadHistory (some (List.intercalate ['\n'] history)) =
      history.dropLast.map chompCr ++ [history.getLast hne] := by
    have hlast : history.getLast hne ≠ [] := fun he => hb _ (List.getLast_mem hne) (by rw [he]; rfl)
    unfold loadHistory
    dsimp only
    rw [lines_joined hne h hlast]
    refine List.filter_eq_self.mpr fun l hl => decide_eq_true ?_
    rcases List.mem_append.mp hl with hl | hl
    · obtain ⟨l', hl', rfl⟩ := List.mem_map.mp hl
      rw [trim_chompCr]
      exact hb l' (List.dropLast_subset _ hl')
    · rw [List.mem_singleton.mp hl]
      exact hb _ (List.getLast_mem hne)
  constructor
  · intro he
    rw [he] at hmem
    rw [hload hmem] at he
    have hdrop := congrArg List.dropLast he
    rw [List.dropLast_concat] at hdrop
    exact ⟨hmem, map_chompCr_iff.mp hdrop⟩
  · rintro ⟨hline, hcr⟩
    rw [hload hline, map_chompCr_iff.mpr hcr, List.dropLast_append_getLast]

/-! ## What is remembered -/

/-- What a press of Enter in the interrogator sends, unless it is blank. -/
def State.sent (s : State) : Event → Option Str
  | .key k =>
    if s.reachesDeck = true ∧ s.onHotSwap = false ∧ k.key.code = .enter ∧
        trim s.console.consoleInput ≠ [] then
      some s.console.consoleInput
    else none
  | _ => none

namespace State

variable {fmtF32 : Float32 → Word} {s t u : State} {e : Event} {es : List Event}

/-- What is sent in the course of a run. -/
def sentAll (fmtF32 : Float32 → Word) : State → List Event → List Str
  | _, [] => []
  | s, e :: es =>
    (s.sent e).toList ++ match handle fmtF32 s e with
      | some t => sentAll fmtF32 t es
      | none => []

theorem history_enter {a b : App} (h : a.interrogatorKey .enter = some b) :
    b.consoleHistory = if trim a.consoleInput ≠ [] then
      Repeats.push 10 a.consoleHistory a.consoleInput else a.consoleHistory := by
  cases h
  split <;> rfl

theorem history_hotSwapKey (a : App) (k : App.Key) :
    (a.hotSwapKey k).consoleHistory = a.consoleHistory := by
  unfold hotSwapKey
  split <;> first | rfl | (split <;> rfl)

theorem history_modelsFetched (a : App) (models : List Str) :
    (a.modelsFetched models).consoleHistory = a.consoleHistory := by
  have hclamp (b : App) : b.clampDeck.consoleHistory = b.consoleHistory := by
    obtain ⟨i, hi⟩ := clampDeck_eq b
    rw [hi]
  unfold modelsFetched
  dsimp only
  rw [hclamp]
  split
  · rfl
  · split <;> rfl

/-- **What a turn does to the history.** -/
theorem history_handle (h : s.handle fmtF32 e = some t) : t.console.consoleHistory =
    (s.sent e).toList.foldl (Repeats.push 10) s.console.consoleHistory := by
  have hc := consoleTurn_handle h
  generalize t.console = a at hc ⊢
  cases hc with
  | hotSwap k hr hs =>
    rw [sent, if_neg fun hall => by rw [hs] at hall; cases hall.2.1]
    exact history_hotSwapKey ..
  | interrogator k a hr hs ha =>
    by_cases hc : k.key.code = .enter
    · rw [hc] at ha
      have hh := history_enter ha
      by_cases hb : trim s.console.consoleInput = []
      · rw [if_neg (not_not.mpr hb)] at hh
        rw [sent, if_neg fun hall => hall.2.2.2 hb]
        exact hh
      · rw [if_pos hb] at hh
        rw [sent, if_pos ⟨hr, hs, hc, hb⟩]
        exact hh
    · have hne : k.key.code.toConsole ≠ .enter := fun he => hc (toConsole_eq_enter he)
      rw [sent, if_neg fun hall => hc hall.2.2.1, (typed_interrogatorKey ha).history hne]
      rfl
  | aside k _ _ _ hr =>
    rw [sent, if_neg fun hall => by rw [hr] at hall; cases hall.1]
    rfl
  | draw f => split <;> rfl
  | fetched models => exact history_modelsFetched ..
  | report e he =>
    cases e with
    | key => cases he
    | _ => rfl

theorem history_run (h : Machine.run (handle fmtF32) s es = some t) : t.console.consoleHistory =
    (sentAll fmtF32 s es).foldl (Repeats.push 10) s.console.consoleHistory := by
  induction es generalizing s with
  | nil =>
    cases h
    rfl
  | cons e es ih =>
    obtain ⟨u, hu, hr⟩ := Machine.run_cons_eq_some.mp h
    rw [ih hr, history_handle hu, sentAll, hu, List.foldl_append]

theorem sentAll_not_blank (fmtF32 : Float32 → Word) (s : State) (es : List Event) :
    ∀ l ∈ sentAll fmtF32 s es, trim l ≠ [] := by
  induction es generalizing s with
  | nil => exact nofun
  | cons e es ih =>
    intro l hl
    rcases List.mem_append.mp hl with hl | hl
    · cases e with
      | key k =>
        rw [sent] at hl
        split at hl
        · rename_i hall
          cases List.mem_singleton.mp hl
          exact hall.2.2.2
        · cases hl
      | _ => cases hl
    · split at hl
      · exact ih _ l hl
      · cases hl

end State

/-! ## A session -/

/-- What should be there when the loop has ended: the ten most recent entries, equal neighbours taken
once, and a file that is loaded as just these. -/
structure Saved (file : Option Str) (sent history : List Str) : Prop where
  short : history.length ≤ 10
  recent : history = ((loadHistory file ++ sent).destutter (· ≠ ·)).rtake 10
  reload : loadHistory (savedFile file history) = history

/-- At most ten entries are loaded, and of those that are still among the last ten no neighbours
are equal; the ten most recent entries are lines of their own. -/
def Savable (file : Option Str) (sent : List Str) : Prop :=
  let loaded := loadHistory file
  loaded.length ≤ 10 ∧
    (loaded.rtake (10 - (Repeats.news loaded.getLast? sent).length)).IsChain (· ≠ ·) ∧
    Reloads (((loaded ++ sent).destutter (· ≠ ·)).rtake 10)

theorem loaded_not_blank (file : Option Str) : ∀ l ∈ loadHistory file, trim l ≠ [] := by
  intro l hl
  unfold loadHistory at hl
  split at hl
  · cases hl
  · exact of_decide_eq_true (List.mem_filter.mp hl).2

/-- Entries that were loaded or sent, and that are all gone only if none were loaded. -/
theorem loadHistory_savedFile {file : Option Str} {sent history : List Str}
    (hb : ∀ l ∈ sent, trim l ≠ []) (hnil : history = [] → loadHistory file = [])
    (hmem : ∀ l ∈ history, l ∈ loadHistory file ++ sent) :
    loadHistory (savedFile file history) = history ↔ Reloads history := by
  rw [savedFile]
  split
  · rename_i he
    rw [he, hnil he]
    exact iff_of_true rfl ⟨nofun, nofun⟩
  · rename_i hne
    refine loadHistory_joined hne fun l hl => ?_
    rcases List.mem_append.mp (hmem l hl) with hl | hl
    · exact loaded_not_blank file l hl
    · exact hb l hl

theorem saved_iff {file : Option Str} {sent : List Str} (hb : ∀ l ∈ sent, trim l ≠ []) :
    Saved file sent (sent.foldl (Repeats.push 10) (loadHistory file)) ↔ Savable file sent := by
  have hh : sent.foldl (Repeats.push 10) (loadHistory file) =
      (loadHistory file ++ Repeats.news (loadHistory file).getLast? sent).rtake
        (max 10 (loadHistory file).length) := Repeats.foldl_push (by omega)
  rw [hh]
  unfold Savable
  set loaded := loadHistory file
  by_cases hn : loaded.length ≤ 10
  · rw [max_eq_left hn]
    have hrecent : (loaded ++ Repeats.news loaded.getLast? sent).rtake 10 =
        ((loaded ++ sent).destutter (· ≠ ·)).rtake 10 ↔ _ := Repeats.rtake_news_iff
    have hnil (he : (loaded ++ Repeats.news loaded.getLast? sent).rtake 10 = []) : loaded = [] := by
      have := congrArg List.length he
      rw [Recent.length_rtake, List.length_append, List.length_nil] at this
      exact List.eq_nil_of_length_eq_zero (by omega)
    have hmem (l : Str) (hl : l ∈ (loaded ++ Repeats.news loaded.getLast? sent).rtake 10) :
        l ∈ loaded ++ sent :=
      List.mem_append.mpr ((List.mem_append.mp (Recent.rtake_suffix.subset hl)).imp_right
        (Repeats.news_sublist.subset ·))
    have hsame := loadHistory_savedFile hb hnil hmem
    constructor
    · rintro ⟨-, hr, hl⟩
      refine ⟨hn, hrecent.mp hr, ?_⟩
      rw [← hr]
      exact hsame.mp hl
    · rintro ⟨-, hc, hl⟩
      have hr := hrecent.mpr hc
      refine ⟨?_, hr, hsame.mpr ?_⟩
      · rw [Recent.length_rtake]
        exact min_le_left ..
      · rw [hr]
        exact hl
  · refine iff_of_false (fun h => ?_) fun h => hn h.1
    have := h.short
    rw [Recent.length_rtake, List.length_append] at this
    omega

namespace State

variable {fmtF32 : Float32 → Word} {es : List Event}

/-- **The history is saved and loaded as it should be** if and only if the session is savable. -/
theorem history_saved_iff (l : Launch) {t : State}
    (h : Machine.run (handle fmtF32) (.new l) es = some t) :
    Saved l.console.history (sentAll fmtF32 (.new l) es) t.console.consoleHistory ↔
      Savable l.console.history (sentAll fmtF32 (.new l) es) := by
  rw [history_run h]
  exact saved_iff (sentAll_not_blank fmtF32 (.new l) es)

end State

/-- The console is focused and sends its payload, then that of the first model found. -/
def sampleSession (model : Str) : List Event :=
  [.key (sampleKey (.char 'i')), .key (sampleKey .enter), .modelsFetched [model], .key (sampleKey .enter)]

/-- Started with a history file of `n` lines. -/
def historyLaunch (n : Nat) : Launch :=
  { sampleLaunch with console := { sampleLaunch.console with
      history := some ((List.range n).flatMap fun i => toDec i ++ ['\n']) } }

theorem history_saved_three :
    ∃ t, Machine.run (State.handle fmtOne) (.new (historyLaunch 3)) (sampleSession "a") = some t ∧
      Saved (historyLaunch 3).console.history
        (State.sentAll fmtOne (.new (historyLaunch 3)) (sampleSession "a")) t.console.consoleHistory := by
  have hrun : (Machine.run (State.handle fmtOne) (.new (historyLaunch 3)) (sampleSession "a")).isSome =
      true := by decide +kernel
  obtain ⟨t, ht⟩ := Option.isSome_iff_exists.mp hrun
  refine ⟨t, ht, (State.history_saved_iff (historyLaunch 3) ht).mpr ?_⟩
  unfold Savable Reloads
  decide +kernel

/-- A model id with a line feed makes two lines of its payload; a file of eleven lines stays one. -/
theorem not_history_saved :
    (∃ t, Machine.run (State.handle fmtOne) (.new sampleLaunch) (sampleSession "a\nb") = some t ∧
      ¬ Saved none (State.sentAll fmtOne (.new sampleLaunch) (sampleSession "a\nb"))
        t.console.consoleHistory) ∧
    ¬ Saved (historyLaunch 11).console.history [] (State.new (historyLaunch 11)).console.consoleHistory := by
  constructor
  · have hrun : (Machine.run (State.handle fmtOne) (.new sampleLaunch) (sampleSession "a\nb")).map
        (·.console.consoleHistory) = some [payloadFor "None", payloadFor "a\nb"] := by decide +kernel
    obtain ⟨t, ht, hh⟩ := Option.map_eq_some_iff.mp hrun
    refine ⟨t, ht, fun h => ?_⟩
    have hload := h.reload
    rw [hh] at hload
    exact absurd hload (by decide +kernel)
  · exact fun h => absurd h.short (by decide +kernel)

end Saltnitor.Main
