import Saltnitor.Main.Turn

/-!
# The selection

`Selection` is what a hot-swap sets: the active model, its offloaded layers and the
payload that names it. `Selection.pick` is what the events say about it, and
`selection_handle` that a turn does just that, whatever else it does: pressing Enter
selects at once, the result of a load only names the resident model, and an error
says nothing. `hotSwap_selection` follows a press through every run.
-/

namespace Saltnitor.Main

open Rust App Process Tuner

structure Selection where
  activeModel : Str
  currentNgl : Int
  consoleInput : Str
  deriving DecidableEq

/-- What an event says about the selection. -/
inductive Pick where
  | pressed (chosen : Str)
  | resident (model : Str)
  | discovered (models : List Str)
  | nothing
  deriving DecidableEq

namespace Selection

def of (chosen : Str) : Selection := ⟨chosen, autoNgl chosen, payloadFor chosen⟩

def pick (x : Selection) : Pick → Selection
  | .pressed chosen => .of chosen
  | .resident model => { x with activeModel := model }
  | .discovered [] => x
  | .discovered (first :: _) =>
    if x.activeModel = ("None" : Str) then
      { x with activeModel := first, consoleInput := payloadFor first }
    else x
  | .nothing => x

/-- The active model a pick leaves depends on the one before alone. -/
theorem activeModel_pick {x y : Selection} (h : x.activeModel = y.activeModel) (p : Pick) :
    (x.pick p).activeModel = (y.pick p).activeModel := by
  cases p with
  | pressed chosen | resident model => rfl
  | nothing => exact h
  | discovered models =>
    cases models with
    | nil => exact h
    | cons first rest =>
      rw [pick, pick, h]
      split
      · rfl
      · exact h

theorem activeModel_resident (models : List Str) (x : Selection) :
    ((models.map Pick.resident).foldl pick x).activeModel = models.getLast?.getD x.activeModel := by
  induction models using List.reverseRecOn with
  | nil => rfl
  | append_singleton models m ih => simp [pick]

theorem foldl_pick_filter (ps : List Pick) (x : Selection) :
    (ps.filter (· ≠ .nothing)).foldl pick x = ps.foldl pick x := by
  induction ps generalizing x with
  | nil => rfl
  | cons p ps ih =>
    by_cases hp : p = .nothing
    · rw [List.filter_cons_of_neg (by simpa using hp), ih, List.foldl_cons, hp, pick]
    · rw [List.filter_cons_of_pos (by simpa using hp), List.foldl_cons, List.foldl_cons, ih]

end Selection

namespace State

variable {fmtF32 : Float32 → Word} {s t u : State} {e : Event} {es : List Event}

def selection (s : State) : Selection :=
  ⟨s.console.activeModel, s.console.currentNgl, s.console.consoleInput⟩

/-- A key goes to the tuner, or past it to the bottom deck. -/
def reachesTuner (s : State) : Bool :=
  s.pendingKill.isNone && !(s.showGpuInspector || s.showSysInspector)

def reachesDeck (s : State) : Bool := s.reachesTuner && !s.showTuner && s.console.consoleFocused

def pickOf (s : State) : Event → Pick
  | .key k =>
    if s.reachesDeck = true ∧ s.onHotSwap = true ∧ k.key.code = .enter then
      match s.console.hotSwapSelected.bind fun i => s.console.availableModels[i]? with
      | some chosen => .pressed chosen
      | none => .nothing
    else .nothing
  | .activeModelSet m => .resident m
  | .modelsFetched models => .discovered models
  | _ => .nothing

/-- The operator types into the interrogator or changes a setting of the tuner. -/
def Edits (s : State) : Event → Prop
  | .key k =>
    s.reachesDeck = true ∧ s.onHotSwap = false ∨
      s.reachesTuner = true ∧ s.showTuner = true ∧ (k.key.code = .left ∨ k.key.code = .right)
  | _ => False

instance (s : State) (e : Event) : Decidable (Edits s e) := by
  cases e <;> unfold Edits <;> infer_instance

/-! ## One turn -/

theorem consoleKey_hotSwap (h : s.onHotSwap = true) (code : KeyCode) :
    s.consoleKey code = some (s.setConsole (s.console.hotSwapKey code.toConsole)) :=
  if_pos (of_decide_eq_true h)

theorem consoleKey_interrogator (h : s.onHotSwap = false) (code : KeyCode) :
    s.consoleKey code = (s.console.interrogatorKey code.toConsole).map s.setConsole :=
  if_neg (of_decide_eq_false h)

theorem foldl_perform_eq (s : State) (es : List App.Effect) :
    ∃ logs spawned, es.foldl perform s = { s with logs := logs, spawned := spawned } := by
  induction es generalizing s with
  | nil => exact ⟨_, _, rfl⟩
  | cons e es ih =>
    obtain ⟨logs, spawned, h⟩ := ih (s.perform e)
    rw [List.foldl_cons, h]
    cases e <;> exact ⟨logs, spawned, rfl⟩

theorem console_setConsole (s : State) (a : App) :
    (s.setConsole a).console = { a with effects := [] } := by
  obtain ⟨logs, spawned, h⟩ := foldl_perform_eq { s with console := { a with effects := [] } } a.effects
  rw [setConsole, h]

theorem selection_setConsole (s : State) (a : App) :
    (s.setConsole a).selection = ⟨a.activeModel, a.currentNgl, a.consoleInput⟩ := by
  rw [selection, console_setConsole]

theorem selection_hotSwapKey (a : App) (code : KeyCode) :
    let b := a.hotSwapKey code.toConsole
    (⟨b.activeModel, b.currentNgl, b.consoleInput⟩ : Selection) =
      match (if code = .enter then a.hotSwapSelected.bind fun i => a.availableModels[i]? else none) with
      | some chosen => .of chosen
      | none => ⟨a.activeModel, a.currentNgl, a.consoleInput⟩ := by
  cases code with
  | enter =>
    rw [if_pos rfl]
    unfold KeyCode.toConsole hotSwapKey
    dsimp only
    cases a.hotSwapSelected.bind fun i => a.availableModels[i]? <;> rfl
  | _ => rfl

theorem selection_applyTuner (s : State) : (s.applyTuner fmtF32).selection = s.selection := by
  unfold applyTuner
  split
  · rfl
  · split <;> rfl

theorem selection_tunerKey (s : State) {code : KeyCode} (h : ¬ (code = .left ∨ code = .right)) :
    (s.tunerKey fmtF32 code).selection = s.selection := by
  unfold tunerKey
  split
  · rfl
  · rfl
  · rfl
  · rfl
  · split <;> rfl
  · exact absurd (.inl rfl) h
  · exact absurd (.inr rfl) h
  · exact selection_applyTuner s
  · rfl

theorem selection_modelsFetched (a : App) (models : List Str) :
    let b := a.modelsFetched models
    (⟨b.activeModel, b.currentNgl, b.consoleInput⟩ : Selection) =
      (⟨a.activeModel, a.currentNgl, a.consoleInput⟩ : Selection).pick (.discovered models) := by
  cases models with
  | nil =>
    obtain ⟨i, hi⟩ := clampDeck_eq { a with availableModels := [] }
    rw [modelsFetched]
    dsimp only
    rw [hi]
    rfl
  | cons first rest =>
    obtain ⟨i, hi⟩ := clampDeck_eq (if a.activeModel = ("None" : Str) then
      { a with availableModels := first :: rest, activeModel := first }.setInput (payloadFor first)
      else { a with availableModels := first :: rest })
    rw [modelsFetched]
    dsimp only
    rw [hi, Selection.pick]
    split <;> rfl

theorem handleKey_deck (hr : s.reachesDeck = true) (k : KeyInput) :
    s.handleKey fmtF32 k = s.consoleKey k.key.code := by
  simp only [reachesDeck, reachesTuner, Bool.and_eq_true, Bool.not_eq_true'] at hr
  obtain ⟨⟨⟨hp, hi⟩, ht⟩, hf⟩ := hr
  have hp : s.pendingKill = none := by simpa using hp
  simp [handleKey, hp, hi, ht, hf]

theorem handleKey_tuner (hr : s.reachesTuner = true) (ht : s.showTuner = true) (k : KeyInput) :
    s.handleKey fmtF32 k = some (s.tunerKey fmtF32 k.key.code) := by
  simp only [reachesTuner, Bool.and_eq_true, Bool.not_eq_true'] at hr
  obtain ⟨hp, hi⟩ := hr
  have hp : s.pendingKill = none := by simpa using hp
  simp [handleKey, hp, hi, ht]

/-- The gauges are as before, and the console but for its focus. -/
structure Aside (s t : State) : Prop where
  gauges : t.gauges = s.gauges
  console : ∃ focused, t.console = { s.console with consoleFocused := focused }

theorem Aside.selection (h : Aside s t) : t.selection = s.selection := by
  obtain ⟨focused, hf⟩ := h.console
  rw [State.selection, hf]
  rfl

theorem aside_inspectorKey (s : State) (pane : ProcPane) (opened : Except Errno Nat) (k : ProcKey) :
    Aside s (s.inspectorKey pane opened k) := by
  cases k with
  | close | terminate | kill => unfold inspectorKey; dsimp only; split <;> exact ⟨rfl, _, rfl⟩
  | up | down | other => exact ⟨rfl, _, rfl⟩

theorem aside_dashboardKey (s : State) (k : KeyInput) : Aside s (s.dashboardKey k) := by
  unfold dashboardKey
  dsimp only
  split <;> first | exact ⟨rfl, _, rfl⟩ | (split <;> exact ⟨rfl, _, rfl⟩)

/-- What a key does, by where it goes. -/
inductive KeyTurn (fmtF32 : Float32 → Word) (s : State) (k : KeyInput) : State → Prop
  | tuner (hr : s.reachesTuner = true) (ht : s.showTuner = true) :
    KeyTurn fmtF32 s k (s.tunerKey fmtF32 k.key.code)
  | deck {t : State} (hr : s.reachesDeck = true) (h : s.consoleKey k.key.code = some t) :
    KeyTurn fmtF32 s k t
  | aside {t : State} (hr : s.reachesDeck = false) (h : Aside s t) : KeyTurn fmtF32 s k t

theorem keyTurn_of_handleKey {k : KeyInput} (h : s.handleKey fmtF32 k = some t) :
    KeyTurn fmtF32 s k t := by
  cases hr : s.reachesDeck with
  | true => exact .deck hr (by rwa [handleKey_deck hr] at h)
  | false =>
    unfold handleKey at h
    split at h
    · dsimp only at h
      split at h <;> cases h <;> exact .aside hr ⟨rfl, _, rfl⟩
    · rename_i hp
      split at h
      · cases h
        exact .aside hr (aside_inspectorKey ..)
      · rename_i hi
        have htuner : s.reachesTuner = true := by simpa [reachesTuner, hp] using hi
        split at h
        · rename_i ht
          cases h
          exact .tuner htuner ht
        · rename_i ht
          split at h
          · rename_i hf
            simp [reachesDeck, htuner, ht, hf] at hr
          · split at h
            · cases h
              unfold helpKey
              split <;> exact .aside hr ⟨rfl, _, rfl⟩
            · split at h
              · cases h
                unfold searchKey
                split <;> exact .aside hr ⟨rfl, _, rfl⟩
              · cases h
                exact .aside hr (aside_dashboardKey s k)

theorem selection_deckKey {k : KeyInput} (hr : s.reachesDeck = true) (hm : s.onHotSwap = true)
    (h : s.handleKey fmtF32 k = some t) :
    t.selection = s.selection.pick (s.pickOf (.key k)) := by
  rw [handleKey_deck hr, consoleKey_hotSwap hm] at h
  cases h
  rw [selection_setConsole, selection_hotSwapKey, pickOf]
  by_cases hc : k.key.code = .enter
  · rw [if_pos hc, if_pos ⟨hr, hm, hc⟩]
    cases s.console.hotSwapSelected.bind fun i => s.console.availableModels[i]? <;> rfl
  · rw [if_neg hc, if_neg fun hall => hc hall.2.2]
    rfl

/-- A key that goes elsewhere and changes no setting of the tuner. -/
theorem selection_otherKey {k : KeyInput} (hr : s.reachesDeck = false)
    (he : ¬ s.Edits (.key k)) (h : s.handleKey fmtF32 k = some t) : t.selection = s.selection := by
  cases keyTurn_of_handleKey h with
  | tuner htuner ht => exact selection_tunerKey s fun hc => he (.inr ⟨htuner, ht, hc⟩)
  | deck htrue => cases hr.symm.trans htrue
  | aside _ ha => exact ha.selection

/-- A key that the tuner does not get, or does not use to change a setting, and that is not typed
into the interrogator, selects what the deck has selected, or nothing. -/
theorem selection_handleKey {k : KeyInput} (h : s.handleKey fmtF32 k = some t)
    (he : ¬ s.Edits (.key k)) : t.selection = s.selection.pick (s.pickOf (.key k)) := by
  cases hr : s.reachesDeck with
  | true =>
    have hm : s.onHotSwap = true := by
      by_contra hm
      exact he (.inl ⟨hr, by simpa using hm⟩)
    exact selection_deckKey hr hm h
  | false =>
    have hnothing : s.pickOf (.key k) = .nothing := by
      rw [pickOf, if_neg (by simp [hr])]
    rw [hnothing]
    exact selection_otherKey hr he h

/-- **What a turn does to the selection.** -/
theorem selection_handle (h : s.handle fmtF32 e = some t) (he : ¬ s.Edits e) :
    t.selection = s.selection.pick (s.pickOf e) := by
  unfold handle at h
  split at h
  · cases h
  · unfold receive at h
    cases e with
    | draw f =>
      cases h
      unfold draw
      simp only [selection]
      split <;> rfl
    | key k => exact selection_handleKey (s := s.cleared) h he
    | modelsFetched models =>
      cases h
      exact selection_modelsFetched s.console models
    | error source message =>
      cases h
      unfold State.error showError
      split <;> rfl
    | _ => cases h; rfl

/-! ## The active model -/

/-- The interrogator leaves the active model and the deck alone, and but for Enter its history. -/
structure Typed (k : App.Key) (a b : App) : Prop where
  activeModel : b.activeModel = a.activeModel
  models : b.availableModels = a.availableModels
  selected : b.hotSwapSelected = a.hotSwapSelected
  history : k ≠ .enter → b.consoleHistory = a.consoleHistory

theorem typed_interrogatorKey {a b : App} {k : App.Key} (h : a.interrogatorKey k = some b) :
    Typed k a b := by
  cases k with
  | char c =>
    obtain ⟨input, -, rfl⟩ := Option.map_eq_some_iff.mp h
    exact ⟨rfl, rfl, rfl, fun _ => rfl⟩
  | up =>
    rw [interrogatorKey] at h
    dsimp only at h
    split at h
    · obtain ⟨input, -, rfl⟩ := Option.map_eq_some_iff.mp h
      exact ⟨rfl, rfl, rfl, fun _ => rfl⟩
    · cases h
      exact ⟨rfl, rfl, rfl, fun _ => rfl⟩
  | down =>
    rw [interrogatorKey] at h
    dsimp only at h
    split at h
    · split at h
      · cases h
        exact ⟨rfl, rfl, rfl, fun _ => rfl⟩
      · obtain ⟨input, -, rfl⟩ := Option.map_eq_some_iff.mp h
        exact ⟨rfl, rfl, rfl, fun _ => rfl⟩
    · cases h
      exact ⟨rfl, rfl, rfl, fun _ => rfl⟩
  | backspace | delete =>
    rw [interrogatorKey] at h
    split at h
    · obtain ⟨input, -, rfl⟩ := Option.map_eq_some_iff.mp h
      exact ⟨rfl, rfl, rfl, fun _ => rfl⟩
    · cases h
      exact ⟨rfl, rfl, rfl, fun _ => rfl⟩
  | left | right =>
    cases h
    split <;> exact ⟨rfl, rfl, rfl, fun _ => rfl⟩
  | enter =>
    cases h
    split <;> exact ⟨rfl, rfl, rfl, fun hne => (hne rfl).elim⟩
  | esc | other =>
    cases h
    exact ⟨rfl, rfl, rfl, fun _ => rfl⟩

theorem activeModel_adjustTuner (s : State) (right : Bool) :
    (s.adjustTuner right).console.activeModel = s.console.activeModel := by
  rw [adjustTuner]
  dsimp only
  unfold adjust
  split <;> rfl

theorem activeModel_edits {k : KeyInput} (h : s.handleKey fmtF32 k = some t)
    (he : s.Edits (.key k)) :
    t.selection.activeModel = s.selection.activeModel ∧ s.pickOf (.key k) = .nothing := by
  rcases he with ⟨hr, hm⟩ | ⟨hr, ht, hc⟩
  · rw [handleKey_deck hr, consoleKey_interrogator hm] at h
    obtain ⟨b, hb, rfl⟩ := Option.map_eq_some_iff.mp h
    refine ⟨?_, if_neg fun hall => Bool.false_ne_true (hm.symm.trans hall.2.1)⟩
    rw [selection_setConsole]
    exact (typed_interrogatorKey hb).activeModel
  · rw [handleKey_tuner hr ht] at h
    cases h
    refine ⟨?_, if_neg fun hall => by simp [reachesDeck, ht] at hall⟩
    rcases hc with hc | hc <;> rw [hc] <;> exact activeModel_adjustTuner ..

theorem activeModel_handle (h : s.handle fmtF32 e = some t) :
    t.selection.activeModel = (s.selection.pick (s.pickOf e)).activeModel := by
  by_cases he : s.Edits e
  · cases e with
    | key k =>
      unfold handle at h
      split at h
      · cases h
      · obtain ⟨hsame, hnothing⟩ := activeModel_edits (s := s.cleared) h he
        rw [hsame, show s.pickOf (.key k) = .nothing from hnothing]
        rfl
    | _ => cases he
  · rw [selection_handle h he]

/-! ## A run -/

/-- What the events of a run say, each in the state it meets. -/
def picks (fmtF32 : Float32 → Word) : State → List Event → List Pick
  | _, [] => []
  | s, e :: es =>
    s.pickOf e :: match handle fmtF32 s e with
      | some t => picks fmtF32 t es
      | none => []

theorem selection_run (h : Machine.run (handle fmtF32) s es = some t)
    (he : Machine.Along (handle fmtF32) (fun s e => ¬ s.Edits e) s es) :
    t.selection = (picks fmtF32 s es).foldl Selection.pick s.selection := by
  induction es generalizing s with
  | nil => cases h; rfl
  | cons e es ih =>
    obtain ⟨u, hu, hr⟩ := Machine.run_cons_eq_some.mp h
    rw [ih hr (he.2 u hu), selection_handle hu he.1, picks, hu, List.foldl_cons]

/-- The active model after a run is the one the last pick that names one leaves. -/
theorem activeModel_run (h : Machine.run (handle fmtF32) s es = some t) :
    t.selection.activeModel = ((picks fmtF32 s es).foldl Selection.pick s.selection).activeModel := by
  have key : ∀ x : Selection, x.activeModel = s.selection.activeModel →
      t.selection.activeModel = ((picks fmtF32 s es).foldl Selection.pick x).activeModel := by
    induction es generalizing s with
    | nil =>
      intro x hx
      cases h
      exact hx.symm
    | cons e es ih =>
      intro x hx
      obtain ⟨u, hu, hr⟩ := Machine.run_cons_eq_some.mp h
      rw [picks, hu, List.foldl_cons]
      exact ih hr _ ((Selection.activeModel_pick hx _).trans (activeModel_handle hu).symm)
  exact key _ rfl

theorem foldl_pick_nothing {ps : List Pick} (h : ∀ p ∈ ps, p = .nothing) (x : Selection) :
    ps.foldl Selection.pick x = x := by
  induction ps with
  | nil => rfl
  | cons p ps ih =>
    obtain ⟨hp, hps⟩ := List.forall_mem_cons.mp h
    rw [List.foldl_cons, hp]
    exact ih hps

theorem tuner_section {path section_ svc : Str} {kv : List (Str × Str)}
    (h : .tuner path section_ kv svc ∈ (s.applyTuner fmtF32).spawned) (hn : s.spawned = []) :
    section_ = s.selection.activeModel := by
  unfold applyTuner at h
  split at h
  · rw [show (s.addLog _).spawned = s.spawned from rfl, hn] at h
    cases h
  · split at h
    · rw [show (s.addLog _).spawned = s.spawned from rfl, hn] at h
      cases h
    · rw [spawn, show (s.addLog _).spawned = s.spawned from rfl, hn] at h
      cases List.mem_singleton.mp h
      rfl

/-- **A press selects at once, and what it selected stays until another press, a finished load or a
discovery says otherwise; errors say nothing, and the tuner writes the section that is selected.** -/
theorem hotSwap_selection {chosen : Str} (hpress : s.pickOf e = .pressed chosen)
    (h : s.handle fmtF32 e = some t) (hrun : Machine.run (handle fmtF32) t es = some u)
    (he : Machine.Along (handle fmtF32) (fun s e => ¬ s.Edits e) t es) :
    t.selection = .of chosen ∧ u.selection = (picks fmtF32 t es).foldl Selection.pick (.of chosen) ∧
      ((∀ p ∈ picks fmtF32 t es, p = .nothing) → u.selection = .of chosen) ∧
      (∀ (s : State) (source message : Str), s.pickOf (.error source message) = .nothing) ∧
      ∀ path section_ kv svc, .tuner path section_ kv svc ∈ (u.cleared.applyTuner fmtF32).spawned →
        section_ = u.selection.activeModel := by
  have hedits : ¬ s.Edits e := by
    cases e with
    | key k =>
      rw [pickOf] at hpress
      split at hpress
      · rename_i hk
        rintro (hc | hc)
        · exact Bool.false_ne_true (hc.2.symm.trans hk.2.1)
        · rw [hk.2.2] at hc
          rcases hc.2.2 with hc | hc <;> cases hc
      · cases hpress
    | _ => exact id
  have hsel : t.selection = .of chosen := by
    rw [selection_handle h hedits, hpress]
    rfl
  have hall := selection_run hrun he
  rw [hsel] at hall
  exact ⟨hsel, hall, fun hn => hall.trans (foldl_pick_nothing hn _), fun _ _ _ => rfl,
    fun _ _ _ _ hm => tuner_section (s := u.cleared) hm rfl⟩

end State

/-- Two models are found, and the second one is selected in the deck. -/
def sampleDeck : List Event :=
  [.modelsFetched ["a", "b"], .key (sampleKey .tab), .key (sampleKey (.char 'i')),
    .key (sampleKey .down)]

def sampleFailure : Event := .error "hot-swap" "router returned 500 Internal Server Error"

theorem sampleDeck_run :
    ∃ s t u, Machine.run (State.handle fmtOne) (.new sampleLaunch) sampleDeck = some s ∧
      s.handle fmtOne (.key (sampleKey .enter)) = some t ∧
      t.handle fmtOne sampleFailure = some u ∧
      s.pickOf (.key (sampleKey .enter)) = .pressed "b" ∧
      s.selection = ⟨"a", 99, App.payloadFor "a"⟩ ∧ u.selection.activeModel = ("b" : Str) := by
  have h : ((Machine.run (State.handle fmtOne) (.new sampleLaunch) sampleDeck).bind fun s =>
      (s.handle fmtOne (.key (sampleKey .enter))).bind fun t =>
        (t.handle fmtOne sampleFailure).map fun u =>
          (s.pickOf (.key (sampleKey .enter)), s.selection, u.selection.activeModel)) =
      some (Pick.pressed "b", Selection.mk "a" 99 (App.payloadFor "a"), ("b" : Str)) := by
    decide +kernel
  obtain ⟨s, hs, h⟩ := Option.bind_eq_some_iff.mp h
  obtain ⟨t, ht, h⟩ := Option.bind_eq_some_iff.mp h
  obtain ⟨u, hu, h⟩ := Option.map_eq_some_iff.mp h
  obtain ⟨hpick, h⟩ := Prod.mk.inj h
  obtain ⟨hsel, hmodel⟩ := Prod.mk.inj h
  exact ⟨s, t, u, hs, ht, hu, hpick, hsel, hmodel⟩

theorem hotSwap_selection_failed :
    ∃ s t u, Machine.run (State.handle fmtOne) (.new sampleLaunch) sampleDeck = some s ∧
      s.handle fmtOne (.key (sampleKey .enter)) = some t ∧
      t.handle fmtOne sampleFailure = some u ∧ u.selection = .of "b" := by
  obtain ⟨s, t, u, hs, ht, hu, hpick, -, -⟩ := sampleDeck_run
  have hrun : Machine.run (State.handle fmtOne) t [sampleFailure] = some u := by
    rw [Machine.run_cons, hu]
    rfl
  refine ⟨s, t, u, hs, ht, hu,
    (State.hotSwap_selection hpick ht hrun ⟨id, fun _ _ => trivial⟩).2.2.1 ?_⟩
  rw [State.picks, hu]
  exact fun p hp => List.mem_singleton.mp hp

/-- The load of a pressed model fails, and the model stays the active one. -/
theorem not_restored_failed_load :
    ¬ ∀ es s e t chosen source message u,
      Machine.run (State.handle fmtOne) (.new sampleLaunch) es = some s →
      s.pickOf e = .pressed chosen → s.handle fmtOne e = some t →
      t.handle fmtOne (.error source message) = some u → u.selection = s.selection := by
  intro hall
  obtain ⟨s, t, u, hs, ht, hu, hpick, hsel, hmodel⟩ := sampleDeck_run
  have hsame := hall _ s _ t _ _ _ u hs hpick ht hu
  rw [hsame, hsel] at hmodel
  exact absurd hmodel (by decide +kernel)

end Saltnitor.Main
