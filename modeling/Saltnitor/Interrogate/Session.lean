import Saltnitor.Interrogate
import Saltnitor.Lib.Mailbox
import Saltnitor.Main.Deck

/-!
# Strikes and the deck

Each Enter in the interrogator starts a strike of its own, and all strikes and all other tasks send to
the one channel of the loop. `Session` is the loop with that channel, and `session_tells` says what
the deck shows in any interleaving: what is told of the strikes since the last Enter, so of one strike
alone when the ones before it were over, and then its `verdict` in the end.
-/

namespace Saltnitor.Main

open Rust App Process Tuner

/-! ## What a turn tells -/

/-- Only a strike sends these. -/
def Event.ofDeck : Event → Bool
  | .apiStreamStart _ | .apiStreamChunk _ | .apiStreamEnd .. => true
  | .error source _ => decide (source = ("interrogator" : Str))
  | _ => false

def sending : Str := "Sending payload..."

/-- What becomes of the deck's text. -/
def deckStep (text : Str) : Event → Str
  | .apiStreamStart _ => []
  | .apiStreamChunk token => text ++ token
  | .error source message =>
    if source = ("interrogator" : Str) then
      (if text = sending then [] else text) ++ ("ERROR: " : Str) ++ message
    else text
  | _ => text

/-- The text after an Enter and these events. -/
def deckText (es : List Event) : Str := es.foldl deckStep sending

def Spawn.striking : Spawn → Option (Nat × Option Str × Str)
  | .console (.strike port bearer payload) => some (port, bearer, payload)
  | _ => none

def Effect.striking : App.Effect → Option (Nat × Option Str × Str)
  | .strike port bearer payload => some (port, bearer, payload)
  | _ => none

namespace State

/-- The strikes the last event started. -/
def strikes (s : State) : List (Nat × Option Str × Str) := s.spawned.filterMap Spawn.striking

variable {fmtF32 : Float32 → Word} {s t u : State} {e : Event} {code : KeyCode}

/-- The deck's text stays and no strike is started. -/
structure Still (s t : State) : Prop where
  text : t.console.lastApiResult = s.console.lastApiResult
  strikes : t.strikes = s.strikes
  effects : t.console.effects = s.console.effects

theorem Still.refl (s : State) : Still s s := ⟨rfl, rfl, rfl⟩

theorem Still.trans (h : Still s t) (h' : Still t u) : Still s u :=
  ⟨h'.text.trans h.text, h'.strikes.trans h.strikes, h'.effects.trans h.effects⟩

theorem still_spawn (s : State) {x : Spawn} (hx : x.striking = none) : Still s (s.spawn x) where
  text := rfl
  strikes := by
    show (s.spawned ++ [x]).filterMap Spawn.striking = _
    rw [List.filterMap_append, List.filterMap_cons_none hx, List.filterMap_nil, List.append_nil]
    rfl
  effects := rfl

theorem still_logSpawn (s : State) (line : Str) {x : Spawn} (hx : x.striking = none) :
    Still s ((s.addLog line).spawn x) := by
  refine .trans ?_ (still_spawn (s.addLog line) hx)
  exact ⟨rfl, rfl, rfl⟩

theorem still_inspectorKey (s : State) (pane : ProcPane) (opened : Except Errno Nat) (k : ProcKey) :
    Still s (s.inspectorKey pane opened k) := by
  cases k with
  | close | kill => unfold inspectorKey; dsimp only; split <;> exact ⟨rfl, rfl, rfl⟩
  | up | down | other => exact ⟨rfl, rfl, rfl⟩
  | terminate =>
    unfold inspectorKey
    dsimp only
    split
    · exact still_logSpawn s _ rfl
    · exact .refl s

theorem still_tunerKey (s : State) (code : KeyCode) : Still s (s.tunerKey fmtF32 code) := by
  have hadjust (right : Bool) : Still s (s.adjustTuner right) := by
    obtain ⟨ngl, apiKey, h⟩ := console_adjustTuner s right
    exact ⟨by rw [h], rfl, by rw [h]⟩
  unfold tunerKey
  split
  · exact ⟨rfl, rfl, rfl⟩
  · exact ⟨rfl, rfl, rfl⟩
  · exact ⟨rfl, rfl, rfl⟩
  · exact ⟨rfl, rfl, rfl⟩
  · split <;> exact ⟨rfl, rfl, rfl⟩
  · exact hadjust false
  · exact hadjust true
  · unfold applyTuner
    split
    · exact ⟨rfl, rfl, rfl⟩
    · split
      · exact ⟨rfl, rfl, rfl⟩
      · refine .trans ?_ (still_spawn _ rfl)
        exact ⟨rfl, rfl, rfl⟩
  · exact .refl s

theorem still_dashboardKey (s : State) (k : KeyInput) : Still s (s.dashboardKey k) := by
  unfold dashboardKey
  dsimp only
  split
  all_goals first
    | exact ⟨rfl, rfl, rfl⟩
    | exact still_logSpawn _ _ rfl
    | skip
  · split
    · exact still_logSpawn _ _ rfl
    · exact .refl s
  · split
    · exact still_logSpawn _ _ rfl
    · exact .refl s

theorem still_handleKey {k : KeyInput} (hr : s.reachesDeck = false)
    (h : s.handleKey fmtF32 k = some t) : Still s t := by
  unfold handleKey at h
  split at h
  · dsimp only at h
    split at h
    · cases h
      refine .trans ?_ (still_spawn _ rfl)
      exact ⟨rfl, rfl, rfl⟩
    · cases h
      exact ⟨rfl, rfl, rfl⟩
  · rename_i hp
    split at h
    · cases h
      exact still_inspectorKey ..
    · rename_i hi
      split at h
      · cases h
        exact still_tunerKey ..
      · rename_i ht
        split at h
        · rename_i hc
          have : s.reachesDeck = true := by simp [reachesDeck, reachesTuner, hp, hi, ht, hc]
          rw [hr] at this
          cases this
        · split at h
          · cases h
            unfold helpKey
            split <;> exact ⟨rfl, rfl, rfl⟩
          · split at h
            · cases h
              unfold searchKey
              split <;> exact ⟨rfl, rfl, rfl⟩
            · cases h
              exact still_dashboardKey ..

/-! ## Keys of the deck -/

theorem strikes_foldl_perform (s : State) (es : List App.Effect) :
    (es.foldl perform s).strikes = s.strikes ++ es.filterMap Effect.striking := by
  induction es generalizing s with
  | nil => exact (List.append_nil _).symm
  | cons e es ih =>
    rw [List.foldl_cons, ih]
    cases e with
    | log line => rfl
    | strike port bearer payload =>
      show (s.spawned ++ [_]).filterMap Spawn.striking ++ _ = _
      rw [List.filterMap_append, List.append_assoc]
      rfl
    | warmLoad host port apiKey inferBearer model =>
      have hstill : Still s (s.perform (.warmLoad host port apiKey inferBearer model)) :=
        still_spawn s rfl
      rw [hstill.strikes]
      rfl

theorem strikes_setConsole (s : State) (a : App) :
    (s.setConsole a).strikes = s.strikes ++ a.effects.filterMap Effect.striking :=
  strikes_foldl_perform ..

/-- Enter starts a strike; no other key of the interrogator asks for anything. -/
theorem interrogatorKey_asks {a b : App} {k : Key} (h : a.interrogatorKey k = some b) :
    b.lastApiResult = sending ∧
      b.effects = a.effects ++ [.strike a.controlPort a.clientBearer a.consoleInput] ∨
    b.lastApiResult = a.lastApiResult ∧ b.effects = a.effects := by
  cases k with
  | enter =>
    cases h
    left
    refine ⟨rfl, ?_⟩
    dsimp only
    split <;> rfl
  | up =>
    unfold interrogatorKey at h
    dsimp only at h
    split at h
    · obtain ⟨input, -, rfl⟩ := Option.map_eq_some_iff.mp h
      exact .inr ⟨rfl, rfl⟩
    · cases h
      exact .inr ⟨rfl, rfl⟩
  | down =>
    unfold interrogatorKey at h
    dsimp only at h
    split at h
    · split at h
      · cases h
        exact .inr ⟨rfl, rfl⟩
      · obtain ⟨input, -, rfl⟩ := Option.map_eq_some_iff.mp h
        exact .inr ⟨rfl, rfl⟩
    · cases h
      exact .inr ⟨rfl, rfl⟩
  | char c =>
    obtain ⟨input, -, rfl⟩ := Option.map_eq_some_iff.mp h
    exact .inr ⟨rfl, rfl⟩
  | backspace | delete =>
    unfold interrogatorKey at h
    dsimp only at h
    split at h
    · obtain ⟨input, -, rfl⟩ := Option.map_eq_some_iff.mp h
      exact .inr ⟨rfl, rfl⟩
    · cases h
      exact .inr ⟨rfl, rfl⟩
  | right | left =>
    cases h
    right
    split <;> exact ⟨rfl, rfl⟩
  | esc | other =>
    cases h
    exact .inr ⟨rfl, rfl⟩

theorem hotSwapKey_asks (a : App) (k : Key) : (a.hotSwapKey k).lastApiResult = a.lastApiResult ∧
    (a.hotSwapKey k).effects.filterMap Effect.striking = a.effects.filterMap Effect.striking := by
  unfold hotSwapKey
  split
  · exact ⟨rfl, rfl⟩
  · exact ⟨rfl, rfl⟩
  · exact ⟨rfl, rfl⟩
  · split
    · exact ⟨rfl, rfl⟩
    · exact ⟨rfl, by simp [App.setInput, Effect.striking]⟩
  · exact ⟨rfl, rfl⟩

theorem asks_modelsFetched (a : App) (models : List Str) :
    (a.modelsFetched models).lastApiResult = a.lastApiResult ∧
      (a.modelsFetched models).effects = a.effects := by
  have hclamp (b : App) : b.clampDeck.lastApiResult = b.lastApiResult ∧
      b.clampDeck.effects = b.effects := by
    obtain ⟨i, hi⟩ := App.clampDeck_eq b
    rw [hi]
    exact ⟨rfl, rfl⟩
  unfold App.modelsFetched
  dsimp only
  rw [(hclamp _).1, (hclamp _).2]
  cases models with
  | nil => exact ⟨rfl, rfl⟩
  | cons first rest =>
    dsimp only
    split <;> exact ⟨rfl, rfl⟩

/-! ## The turns -/

/-- What a turn does to the deck's text, and the strikes it starts. -/
inductive DeckTurn (s : State) (e : Event) (t : State) : Prop
  | tells (h : e.ofDeck = true) (ht : t.console.lastApiResult = deckStep s.console.lastApiResult e)
      (hs : t.strikes = [])
  | fires (h : e.ofDeck = false) (ht : t.console.lastApiResult = sending)
      (hs : t.strikes = [(s.console.controlPort, s.console.clientBearer, s.console.consoleInput)])
  | still (h : e.ofDeck = false) (ht : t.console.lastApiResult = s.console.lastApiResult)
      (hs : t.strikes = [])

theorem deckTurn_of_handleKey {k : KeyInput} (he : s.console.effects = [])
    (h : s.cleared.handleKey fmtF32 k = some t) :
    DeckTurn s (.key k) t ∧ t.console.effects = [] := by
  cases hr : s.reachesDeck with
  | false =>
    have hstill : Still s.cleared t := still_handleKey hr h
    exact ⟨.still rfl hstill.text hstill.strikes, hstill.effects.trans he⟩
  | true =>
    have hr : s.cleared.reachesDeck = true := hr
    rw [handleKey_deck hr] at h
    unfold consoleKey at h
    split at h
    · cases h
      obtain ⟨htext, heff⟩ := hotSwapKey_asks s.console k.key.code.toConsole
      refine ⟨.still rfl ?_ ?_, ?_⟩
      · rw [console_setConsole]
        exact htext
      · rw [strikes_setConsole]
        show [] ++ (s.console.hotSwapKey _).effects.filterMap _ = []
        rw [heff, he]
        rfl
      · rw [console_setConsole]
    · obtain ⟨a, ha, rfl⟩ := Option.map_eq_some_iff.mp h
      have ha : s.console.interrogatorKey k.key.code.toConsole = some a := ha
      rw [console_setConsole]
      refine ⟨?_, rfl⟩
      rcases interrogatorKey_asks ha with ⟨htext, heff⟩ | ⟨htext, heff⟩
      · refine .fires rfl ?_ ?_
        · rw [console_setConsole]
          exact htext
        · rw [strikes_setConsole, heff, he]
          rfl
      · refine .still rfl ?_ ?_
        · rw [console_setConsole]
          exact htext
        · rw [strikes_setConsole, heff, he]
          rfl

/-- **What a turn tells.** -/
theorem deckTurn_of_handle (he : s.console.effects = []) (h : s.handle fmtF32 e = some t) :
    DeckTurn s e t ∧ t.console.effects = [] := by
  unfold handle at h
  split at h
  · cases h
  have h : s.cleared.receive fmtF32 e = some t := h
  cases e with
  | key k => exact deckTurn_of_handleKey he h
  | draw f =>
    cases h
    have hconsole : (s.cleared.draw f).console = s.console ∨
        (s.cleared.draw f).console = s.console.drawDeck f.list := by
      have hdraw : (s.cleared.draw f).console =
        if f.deck ∧ s.bottomTabMode = 1 then s.console.drawDeck f.list else s.console := rfl
      rw [hdraw]
      split
      · exact .inr rfl
      · exact .inl rfl
    rcases hconsole with hc | hc
    · exact ⟨.still rfl (by rw [hc]) rfl, by rw [hc]; exact he⟩
    · exact ⟨.still rfl (by rw [hc, App.drawDeck]) rfl, by rw [hc]; exact he⟩
  | modelsFetched models =>
    cases h
    have hfetched := asks_modelsFetched s.console models
    exact ⟨.still rfl hfetched.1 rfl, hfetched.2.trans he⟩
  | error source message =>
    cases h
    by_cases hsource : source = ("interrogator" : Str)
    · have hdeck : (Event.error source message).ofDeck = true := decide_eq_true hsource
      refine ⟨.tells hdeck ?_ rfl, ?_⟩
      · show (showError s.console source message).lastApiResult = _
        rw [showError, deckStep, if_pos hsource, if_pos hsource]
        rfl
      · show (showError s.console source message).effects = []
        rw [showError, if_pos hsource]
        exact he
    · have hconsole : (s.cleared.error source message).console = s.console := if_neg hsource
      exact ⟨.still (decide_eq_false hsource) (by rw [hconsole]) rfl, by rw [hconsole]; exact he⟩
  | apiStreamStart ttftMs => cases h; exact ⟨.tells rfl rfl rfl, he⟩
  | apiStreamChunk token => cases h; exact ⟨.tells rfl rfl rfl, he⟩
  | apiStreamEnd m status => cases h; exact ⟨.tells rfl rfl rfl, he⟩
  | portAudit status => cases h; exact ⟨.still rfl rfl rfl, he⟩
  | hardwareUpdate => cases h; exact ⟨.still rfl rfl rfl, he⟩
  | logLine line => cases h; exact ⟨.still rfl rfl rfl, he⟩
  | activeModelSet m => cases h; exact ⟨.still rfl rfl rfl, he⟩
  | tick => cases h; exact ⟨.still rfl rfl rfl, he⟩

end State

end Saltnitor.Main

namespace Saltnitor.Interrogate

open Rust Main

/-! ## What a strike tells -/

def isEnd : Event → Bool
  | .apiStreamEnd .. => true
  | _ => false

/-- What the deck should show of a strike that is over. -/
def verdict (o : Outside) (controlPort : Nat) (bearer : Option Str) (payload : Str) : Str :=
  match o.fromStr payload with
  | .error e => ("ERROR: payload is not valid JSON: " : Str) ++ e
  | .ok body =>
    match o.send (requestOf controlPort bearer body) with
    | .unreachable e =>
      ("ERROR: cannot reach saltnitor on port " : Str) ++ toDec controlPort ++ (": " : Str) ++ e
    | .answered status pieces aborted =>
      if status.isSuccess then
        let text := if pieces = [] then sending else (receive o.fromStr pieces).shown.flatten
        match aborted with
        | none => text
        | some e =>
          -- an answer that reads as the notice is taken for it
          (if text = sending then [] else text) ++ ("ERROR: stream aborted before the end: " : Str) ++ e
      else ("ERROR: " : Str) ++
        describeErrorBody o.fromStr status (if aborted = none then pieces.flatten else [])

variable {o : Outside} {controlPort : Nat} {bearer : Option Str} {payload : Str}

theorem foldl_chunks (tokens : List Str) (text : Str) :
    (tokens.map Event.apiStreamChunk).foldl deckStep text = text ++ tokens.flatten := by
  induction tokens generalizing text with
  | nil => exact (List.append_nil text).symm
  | cons t ts ih =>
    rw [List.map_cons, List.foldl_cons, ih, List.flatten_cons, ← List.append_assoc]
    rfl

theorem receive_nil (fromStr : Str → Except Str Json) : (receive fromStr []).shown = [] := rfl

theorem deckText_fail (message status : Str) :
    deckText (fail message status) = ("ERROR: " : Str) ++ message := by
  show deckStep sending (.error "interrogator" message) = _
  rw [deckStep, if_pos rfl, if_pos rfl, List.nil_append]

theorem deckText_streamEvents (o : Outside) (status : StatusCode) (pieces : List (List UInt8))
    (aborted : Option Str) : deckText (streamEvents o status pieces aborted) =
      let text := if pieces = [] then sending else (receive o.fromStr pieces).shown.flatten
      match aborted with
      | none => text
      | some e =>
        (if text = sending then [] else text) ++ ("ERROR: stream aborted before the end: " : Str) ++ e := by
  have htext : deckText ((if pieces = [] then [] else [.apiStreamStart o.ttftMs]) ++
      (receive o.fromStr pieces).shown.map Event.apiStreamChunk) =
        if pieces = [] then sending else (receive o.fromStr pieces).shown.flatten := by
    rw [deckText, List.foldl_append, foldl_chunks]
    split
    · rename_i hp
      rw [hp, receive_nil]
      rfl
    · rfl
  unfold deckText at htext ⊢
  unfold streamEvents
  dsimp only
  cases aborted with
  | none =>
    dsimp only
    rw [List.foldl_append, htext]
    rfl
  | some e =>
    dsimp only
    rw [List.foldl_append, htext, List.foldl_cons, List.foldl_cons, List.foldl_nil]
    generalize (if pieces = [] then sending else _) = text
    show deckStep text (.error "interrogator" _) = _
    rw [deckStep, if_pos rfl, List.append_assoc, List.append_assoc]
    rfl

theorem deckText_strike (o : Outside) (controlPort : Nat) (bearer : Option Str) (payload : Str) :
    deckText (strike o controlPort bearer payload) = verdict o controlPort bearer payload := by
  unfold strike verdict
  cases o.fromStr payload with
  | error e => exact deckText_fail ..
  | ok body =>
    dsimp only
    cases o.send (requestOf controlPort bearer body) with
    | unreachable e => exact deckText_fail ..
    | answered status pieces aborted =>
      dsimp only
      split
      · exact deckText_streamEvents ..
      · exact deckText_fail ..

/-- The events of the deck, ended by the one end. -/
def Ended (es : List Event) : Prop :=
  ∃ told m status, es = told ++ [.apiStreamEnd m status] ∧
    ∀ e ∈ told, e.ofDeck = true ∧ isEnd e = false

theorem ofDeck_error (message : Str) : (Event.error "interrogator" message).ofDeck = true := by
  show decide (("interrogator" : Str) = ("interrogator" : Str)) = true
  exact decide_eq_true rfl

theorem ended_fail (message status : Str) : Ended (fail message status) :=
  ⟨[.error "interrogator" message], _, _, rfl, List.forall_mem_singleton.mpr ⟨ofDeck_error _, rfl⟩⟩

theorem ended_streamEvents (o : Outside) (status : StatusCode) (pieces : List (List UInt8))
    (aborted : Option Str) : Ended (streamEvents o status pieces aborted) := by
  have hstart : ∀ e ∈ (if pieces = [] then [] else [Event.apiStreamStart o.ttftMs]),
      e.ofDeck = true ∧ isEnd e = false := by
    split
    · exact List.forall_mem_nil _
    · exact List.forall_mem_singleton.mpr ⟨rfl, rfl⟩
  have hchunks : ∀ e ∈ (receive o.fromStr pieces).shown.map Event.apiStreamChunk,
      e.ofDeck = true ∧ isEnd e = false := by
    intro e he
    obtain ⟨t, -, rfl⟩ := List.mem_map.mp he
    exact ⟨rfl, rfl⟩
  cases aborted with
  | none => exact ⟨_, _, _, rfl, List.forall_mem_append.mpr ⟨hstart, hchunks⟩⟩
  | some e =>
    refine ⟨_ ++ [.error "interrogator" (("stream aborted before the end: " : Str) ++ e)],
      (metricsOf o pieces).toMetrics, status.text ++ (" aborted" : Str), ?_,
      List.forall_mem_append.mpr ⟨List.forall_mem_append.mpr ⟨hstart, hchunks⟩,
        List.forall_mem_singleton.mpr ⟨ofDeck_error _, rfl⟩⟩⟩
    rw [List.append_assoc _ [_]]
    rfl

theorem ended_strike (o : Outside) (controlPort : Nat) (bearer : Option Str) (payload : Str) :
    Ended (strike o controlPort bearer payload) := by
  unfold strike
  cases o.fromStr payload with
  | error e => exact ended_fail ..
  | ok body =>
    dsimp only
    cases o.send (requestOf controlPort bearer body) with
    | unreachable e => exact ended_fail ..
    | answered status pieces aborted =>
      dsimp only
      split
      · exact ended_streamEvents ..
      · exact ended_fail ..

/-- Of the beginning of such events the end is told when all is. -/
theorem Ended.count {es told : List Event} (h : Ended es) (hp : told <+: es) :
    told.countP isEnd ≤ 1 ∧ (told.countP isEnd = 1 ↔ told = es) := by
  obtain ⟨before, m, status, rfl, hbefore⟩ := h
  have hnone : before.countP isEnd = 0 := List.countP_eq_zero.mpr fun e he => by
    rw [(hbefore e he).2]
    decide
  rcases List.prefix_concat_iff.mp hp with rfl | hp
  · have hone : (before ++ [Event.apiStreamEnd m status]).countP isEnd = 1 := by
      rw [List.countP_append, hnone]
      rfl
    exact ⟨hone.le, iff_of_true hone rfl⟩
  · have hzero : told.countP isEnd = 0 := Nat.le_zero.mp (hnone ▸ hp.sublist.countP_le)
    refine ⟨by omega, iff_of_false (by omega) fun he => ?_⟩
    have hle := hp.length_le
    rw [he, List.length_append, List.length_singleton] at hle
    omega

theorem Ended.ofDeck {es : List Event} (h : Ended es) : ∀ e ∈ es, e.ofDeck = true := by
  obtain ⟨before, m, status, rfl, hbefore⟩ := h
  exact List.forall_mem_append.mpr
    ⟨fun e he => (hbefore e he).1, List.forall_mem_singleton.mpr rfl⟩

theorem deckStep_of_not {e : Event} (h : e.ofDeck = false) (text : Str) : deckStep text e = text := by
  cases e with
  | apiStreamStart | apiStreamChunk => cases h
  | error source message => exact if_neg (of_decide_eq_false h)
  | _ => rfl

theorem deckText_concat (es : List Event) (e : Event) : deckText (es ++ [e]) = deckStep (deckText es) e :=
  List.foldl_concat ..

/-! ## The session -/

/-- The loop with its channel, on which each strike is a sender. -/
structure Session where
  ui : State
  box : Mailbox.Box Event

/-- `mpsc::channel::<Event>(100)` -/
def eventPlaces : Nat := 100

namespace Session

inductive Label where
  /-- `terminal.draw` -/
  | draw (f : Frame)
  /-- A task that is no strike sends. -/
  | post (e : Event)
  /-- Strike `i` sends its next event. -/
  | send (i : Nat)
  /-- The loop takes an event; `o` is what a strike meets that the event starts. -/
  | recv (o : Outside)

def start (l : Launch) : Session := ⟨.new l, .empty⟩

/-- `tokio::spawn(interrogate::strike(..))`, for the strikes of one turn. -/
def launch (o : Outside) (strikes : List (Nat × Option Str × Str)) (b : Mailbox.Box Event) :
    Mailbox.Box Event :=
  strikes.foldl (fun b s => b.join (strike o s.1 s.2.1 s.2.2)) b

def step (fmtF32 : Float32 → Tuner.Word) (s : Session) : Label → Option Session
  | .draw f => (s.ui.handle fmtF32 (.draw f)).map fun ui => { s with ui := ui }
  | .post e =>
    if e.ofDeck then none else (s.box.post eventPlaces e).map fun box => { s with box := box }
  | .send i => (s.box.send eventPlaces i).map fun box => { s with box := box }
  | .recv o =>
    s.box.recv.bind fun r => (s.ui.handle fmtF32 r.1).map fun ui => ⟨ui, launch o ui.strikes r.2⟩

structure Inv (s : Session) : Prop where
  kept : Mailbox.Kept eventPlaces s.box
  asks : s.ui.console.effects = []
  scripts : ∀ t ∈ s.box.senders, ∃ o port bearer payload, t.script = strike o port bearer payload
  owned : ∀ x ∈ s.box.received ++ s.box.queue, x.2.ofDeck = x.1.isSome
  /-- The deck shows what has been told since the last strike was started. -/
  text : ∀ n t, s.box.senders.length = n + 1 → s.box.senders[n]? = some t →
    s.ui.console.lastApiResult = deckText ((s.box.received.drop t.joined).map (·.2))

variable {fmtF32 : Float32 → Tuner.Word} {l : Launch} {s s' : Session} {x : Label}
  {xs : List Label}

theorem Inv.start (l : Launch) : Inv (.start l) where
  kept := .empty _
  asks := rfl
  scripts := List.forall_mem_nil _
  owned := List.forall_mem_nil _
  text _ _ h := nomatch h

theorem Inv.draw (h : Inv s) {f : Frame} {ui : State} (hu : s.ui.handle fmtF32 (.draw f) = some ui) :
    Inv { s with ui := ui } := by
  obtain ⟨hturn, hasks⟩ := State.deckTurn_of_handle h.asks hu
  refine ⟨h.kept, hasks, h.scripts, h.owned, fun n t hn ht => ?_⟩
  cases hturn with
  | tells hd => cases hd
  | fires _ _ hs =>
    rw [State.strikes] at hs
    unfold State.handle at hu
    split at hu
    · cases hu
    · cases hu
      cases hs
  | still _ htext _ => exact htext.trans (h.text n t hn ht)

theorem Inv.post (h : Inv s) {e : Event} {box : Mailbox.Box Event} (he : e.ofDeck = false)
    (hb : s.box.post eventPlaces e = some box) : Inv { s with box := box } := by
  have hkept := h.kept.post hb
  obtain ⟨-, hbox⟩ := Option.ite_none_right_eq_some.mp hb
  cases hbox
  refine ⟨hkept, h.asks, h.scripts, fun x hx => ?_, h.text⟩
  rw [← List.append_assoc] at hx
  rcases List.mem_append.mp hx with hx | hx
  · exact h.owned x hx
  · rw [List.mem_singleton.mp hx]
    exact he

theorem Inv.send (h : Inv s) {i : Nat} {box : Mailbox.Box Event}
    (hb : s.box.send eventPlaces i = some box) : Inv { s with box := box } := by
  have hkept := h.kept.send hb
  obtain ⟨t, e, ht, he, -, rfl⟩ := Mailbox.send_eq_some hb
  obtain ⟨o, port, bearer, payload, hscript⟩ := h.scripts t (List.mem_of_getElem? ht)
  have hdeck : e.ofDeck = true :=
    (ended_strike o port bearer payload).ofDeck e (hscript ▸ List.mem_of_getElem? he)
  refine ⟨hkept, h.asks, ?_, fun x hx => ?_, fun n u hn hu => ?_⟩
  · exact Pool.forall_set h.scripts ⟨o, port, bearer, payload, hscript⟩
  · rw [← List.append_assoc] at hx
    rcases List.mem_append.mp hx with hx | hx
    · exact h.owned x hx
    · rw [List.mem_singleton.mp hx]
      exact hdeck
  · rw [List.length_set] at hn
    rcases Pool.getElem?_set_cases hu with ⟨rfl, rfl⟩ | ⟨-, hu⟩
    · exact h.text n t hn ht
    · exact h.text n u hn hu

theorem Inv.recv (h : Inv s) {o : Outside} {e : Event} {box : Mailbox.Box Event} {ui : State}
    (hb : s.box.recv = some (e, box)) (hu : s.ui.handle fmtF32 e = some ui) :
    Inv ⟨ui, launch o ui.strikes box⟩ := by
  have hkept := h.kept.recv hb
  obtain ⟨x, xs, hq, rfl, rfl⟩ := Mailbox.recv_eq_some hb
  obtain ⟨hturn, hasks⟩ := State.deckTurn_of_handle h.asks hu
  have howned : ∀ y ∈ s.box.received ++ [x] ++ xs, y.2.ofDeck = y.1.isSome := by
    rw [List.append_assoc, List.singleton_append, ← hq]
    exact h.owned
  -- without a new strike the deck goes on
  have hon (hs : ui.strikes = [])
      (ht : ui.console.lastApiResult = deckStep s.ui.console.lastApiResult x.2) :
      Inv ⟨ui, launch o ui.strikes { s.box with queue := xs, received := s.box.received ++ [x] }⟩ := by
    rw [hs]
    refine ⟨hkept, hasks, h.scripts, howned, fun n t hn hsend => ?_⟩
    have hle := h.kept.joined_le t (List.mem_of_getElem? hsend)
    show _ = deckText (((s.box.received ++ [x]).drop t.joined).map _)
    rw [ht, h.text n t hn hsend, List.drop_append_of_le_length hle, List.map_append, List.map_singleton,
      deckText_concat]
  cases hturn with
  | tells _ ht hs => exact hon hs ht
  | still hd ht hs => exact hon hs (ht.trans (deckStep_of_not hd _).symm)
  | fires _ ht hs =>
    rw [hs]
    refine ⟨hkept.join _, hasks, ?_, howned, fun n t hn hsend => ?_⟩
    · exact Pool.forall_concat h.scripts ⟨o, _, _, _, rfl⟩
    · obtain rfl : s.box.senders.length = n := by
        have hlen : s.box.senders.length + 1 = n + 1 := List.length_append.symm.trans hn
        omega
      rcases Pool.getElem?_concat_cases hsend with hsend | ⟨-, rfl⟩
      · exact absurd (List.getElem?_eq_some_iff.mp hsend).1 (Nat.lt_irrefl _)
      · show _ = deckText (((s.box.received ++ [x]).drop (s.box.received ++ [x]).length).map _)
        rw [ht, List.drop_length]
        rfl

theorem Inv.step (h : Inv s) (hs : Session.step fmtF32 s x = some s') : Inv s' := by
  cases x with
  | draw f =>
    obtain ⟨ui, hu, rfl⟩ := Option.map_eq_some_iff.mp hs
    exact h.draw hu
  | post e =>
    obtain ⟨he, hs⟩ := Option.ite_none_left_eq_some.mp hs
    obtain ⟨box, hb, rfl⟩ := Option.map_eq_some_iff.mp hs
    exact h.post (Bool.eq_false_of_not_eq_true he) hb
  | send i =>
    obtain ⟨box, hb, rfl⟩ := Option.map_eq_some_iff.mp hs
    exact h.send hb
  | recv o =>
    obtain ⟨⟨e, box⟩, hb, hs⟩ := Option.bind_eq_some_iff.mp hs
    obtain ⟨ui, hu, rfl⟩ := Option.map_eq_some_iff.mp hs
    exact h.recv hb hu

/-! ## What the deck shows -/

/-- When sender `n`, which is `t`, began, all of the senders before it had been read. -/
def Alone (s : Session) (n : Nat) (t : Mailbox.Sender Event) : Prop :=
  ∀ i u, i < n → s.box.senders[i]? = some u →
    Mailbox.ofSender i (s.box.received.take t.joined) = u.script

/-- What the loop has heard of the strikes, and what the deck shows of them. -/
structure Tells (s : Session) : Prop where
  /-- Each strike is told in order. -/
  order : ∀ i t, s.box.senders[i]? = some t → Mailbox.ofSender i s.box.received <+: t.script ∧
    ∃ o port bearer payload, t.script = strike o port bearer payload
  /-- Its end is told once, and last of all. -/
  ended : ∀ i t, s.box.senders[i]? = some t →
    (Mailbox.ofSender i s.box.received).countP isEnd ≤ 1 ∧
    ((Mailbox.ofSender i s.box.received).countP isEnd = 1 ↔ Mailbox.ofSender i s.box.received = t.script)
  /-- Nobody else tells of strikes. -/
  owned : ∀ x ∈ s.box.received, x.2.ofDeck = true ↔ x.1.isSome = true
  /-- Whatever runs, the deck shows what has been told since the last strike began. -/
  text : ∀ n t, s.box.senders.length = n + 1 → s.box.senders[n]? = some t →
    s.ui.console.lastApiResult = deckText ((s.box.received.drop t.joined).map (·.2))
  /-- A strike that began alone has the deck for itself. -/
  alone : ∀ n t, s.box.senders.length = n + 1 → s.box.senders[n]? = some t → s.Alone n t →
    s.ui.console.lastApiResult = deckText (Mailbox.ofSender n s.box.received)
  /-- And when it is over the deck shows its verdict. -/
  finished : ∀ n t o port bearer payload, s.box.senders.length = n + 1 → s.box.senders[n]? = some t →
    s.Alone n t → Mailbox.ofSender n s.box.received = t.script →
    t.script = strike o port bearer payload →
    s.ui.console.lastApiResult = verdict o port bearer payload

/-- What nobody tells of strikes does not count. -/
theorem deckText_ofSender {n : Nat} {items : List (Option Nat × Event)}
    (h : ∀ x ∈ items, x.1 = some n ∨ x.2.ofDeck = false) :
    deckText (items.map (·.2)) = deckText (Mailbox.ofSender n items) := by
  induction items using List.reverseRecOn with
  | nil => rfl
  | append_singleton items x ih =>
    obtain ⟨hitems, hx⟩ := List.forall_mem_append.mp h
    rw [List.map_append, List.map_singleton, deckText_concat, ih hitems, Mailbox.ofSender_append]
    obtain ⟨tag, e⟩ := x
    by_cases htag : tag = some n
    · subst htag
      rw [Mailbox.ofSender_self, deckText_concat]
    · rw [Mailbox.ofSender_ne htag, List.append_nil]
      exact deckStep_of_not ((List.forall_mem_singleton.mp hx).resolve_left htag) _

theorem Inv.alone (h : Inv s) {n : Nat} {t : Mailbox.Sender Event} (hn : s.box.senders.length = n + 1)
    (ht : s.box.senders[n]? = some t) (ha : s.Alone n t) :
    s.ui.console.lastApiResult = deckText (Mailbox.ofSender n s.box.received) := by
  rw [h.text n t hn ht, ← h.kept.ofSender_drop ht]
  refine deckText_ofSender fun x hx => ?_
  have hmem := List.mem_of_mem_drop hx
  cases htag : x.1 with
  | none =>
    right
    rw [h.owned x (List.mem_append_left _ hmem), htag]
    rfl
  | some i =>
    left
    have hi : i < n + 1 := hn ▸ h.kept.known x (List.mem_append_left _ hmem) i htag
    rcases Nat.lt_succ_iff_lt_or_eq.mp hi with hlt | rfl
    swap
    · rfl
    -- all of strike `i` came before, and `x` would be one event more
    obtain ⟨u, hu⟩ : ∃ u, s.box.senders[i]? = some u :=
      ⟨_, List.getElem?_eq_getElem (by omega)⟩
    have hall := h.kept.received_le hu
    rw [← List.take_append_drop t.joined s.box.received, Mailbox.ofSender_append, ha i u hlt hu] at hall
    have hlast : x.2 ∈ Mailbox.ofSender i (s.box.received.drop t.joined) :=
      Mailbox.mem_ofSender (htag ▸ hx)
    have hle := hall.length_le
    rw [List.length_append] at hle
    have hpos := List.length_pos_of_mem hlast
    omega

/-- **The deck tells the strikes**, in every interleaving of the strikes with each other, with the
keys, with the frames and with every other task. -/
theorem session_tells (hr : Machine.run (Session.step fmtF32) (.start l) xs = some s) : s.Tells := by
  have h : Inv s := Machine.run_inv (fun _ _ _ hi => hi.step) hr (.start l)
  refine ⟨fun i t ht => ?_, fun i t ht => ?_, fun x hx => ?_, h.text, fun n t => h.alone, ?_⟩
  · exact ⟨h.kept.received_le ht, h.scripts t (List.mem_of_getElem? ht)⟩
  · obtain ⟨o, port, bearer, payload, hscript⟩ := h.scripts t (List.mem_of_getElem? ht)
    exact (hscript ▸ ended_strike o port bearer payload : Ended t.script).count (h.kept.received_le ht)
  · rw [h.owned x (List.mem_append_left _ hx)]
  · intro n t o port bearer payload hn ht ha hall hscript
    rw [h.alone hn ht ha, hall, hscript, deckText_strike]

/-- Where no text is JSON. -/
def noJson : Outside where
  fromStr _ := .error "expected value"
  send _ := .unreachable ""
  ttftMs := 0
  elapsedMs := 0

/-- Two strikes of a payload that is no JSON, the second begun before the first is told, with a line
of the journal in between. -/
theorem session_tells_noJson :
    let keys : List Label := [.post (.key (sampleKey (.char 'i'))), .post (.key (sampleKey .enter)),
      .post (.key (sampleKey .enter)), .recv noJson, .recv noJson, .send 0, .recv noJson]
    let rest : List Label := [.send 1, .post (.logLine "up"), .send 0, .send 1, .recv noJson, .recv noJson,
      .recv noJson, .recv noJson, .recv noJson]
    ∃ s, Machine.run (Session.step Tuner.fmtOne) (.start sampleLaunch) (keys ++ rest) = some s ∧
      s.box.senders.length = 2 ∧
      s.ui.console.lastApiResult = ("ERROR: payload is not valid JSON: expected value" : Str) ++
        ("ERROR: payload is not valid JSON: expected value" : Str) ∧ s.Tells := by
  intro keys rest
  obtain ⟨s, hs, hsample⟩ := Option.map_eq_some_iff.mp
    (show (Machine.run (Session.step Tuner.fmtOne) (.start sampleLaunch) (keys ++ rest)).map
          (fun s => (s.box.senders.length, s.ui.console.lastApiResult)) =
        some (2, ("ERROR: payload is not valid JSON: expected value" : Str) ++
          ("ERROR: payload is not valid JSON: expected value" : Str)) by decide +kernel)
  obtain ⟨hsenders, htext⟩ := Prod.mk.inj hsample
  exact ⟨s, hs, hsenders, htext, session_tells hs⟩

end Session

end Saltnitor.Interrogate
