import Saltnitor.Main.HotSwap

/-!
# The cursor of the hot-swap deck

The deck keeps an index, and a discovery replaces the list under it. `ConsoleTurn`
lists what a turn can do to the console. `Kept` is what a discovery should do to the
cursor; `deck_kept_iff` says when every discovery of a run does: it leaves the
highlighted model where it is, or last in a list that ends before that.
-/

namespace Saltnitor.Main

open Rust App Process Tuner

/-! ## What a turn does to the console -/

/-- It is neither a key nor a frame nor a discovery. -/
def Event.isReport : Event → Bool
  | .key _ | .draw _ | .modelsFetched _ => false
  | _ => true

namespace State

variable {fmtF32 : Float32 → Word} {s t u : State} {e : Event} {es : List Event}

/-- The console after a turn. -/
inductive ConsoleTurn (s : State) : Event → App → Prop
  | hotSwap (k : KeyInput) (hr : s.reachesDeck = true) (hm : s.onHotSwap = true) :
    ConsoleTurn s (.key k) { s.console.hotSwapKey k.key.code.toConsole with effects := [] }
  | interrogator (k : KeyInput) (a : App) (hr : s.reachesDeck = true) (hm : s.onHotSwap = false)
      (h : s.console.interrogatorKey k.key.code.toConsole = some a) :
    ConsoleTurn s (.key k) { a with effects := [] }
  /-- The key goes elsewhere: it may focus the console or change a setting of the tuner. -/
  | aside (k : KeyInput) (focused : Bool) (ngl : Int) (apiKey : Bool) (hr : s.reachesDeck = false) :
    ConsoleTurn s (.key k)
      { s.console with consoleFocused := focused, currentNgl := ngl, apiKey := apiKey }
  | draw (f : Frame) :
    ConsoleTurn s (.draw f)
      (if f.deck ∧ s.bottomTabMode = 1 then s.console.drawDeck f.list else s.console)
  | fetched (models : List Str) : ConsoleTurn s (.modelsFetched models) (s.console.modelsFetched models)
  | report (e : Event) (h : e.isReport = true) (result : Str) (ttft : Nat) (model : Str) :
    ConsoleTurn s e { s.console with lastApiResult := result, lastTtft := ttft, activeModel := model }

theorem console_adjustTuner (s : State) (right : Bool) : ∃ ngl apiKey,
    (s.adjustTuner right).console = { s.console with currentNgl := ngl, apiKey := apiKey } := by
  rw [adjustTuner]
  dsimp only
  unfold adjust
  split <;> exact ⟨_, _, rfl⟩

theorem console_tunerKey (fmtF32 : Float32 → Word) (s : State) (code : KeyCode) :
    ∃ ngl apiKey, (s.tunerKey fmtF32 code).console =
      { s.console with currentNgl := ngl, apiKey := apiKey } := by
  unfold tunerKey
  split
  · exact ⟨_, _, rfl⟩
  · exact ⟨_, _, rfl⟩
  · exact ⟨_, _, rfl⟩
  · exact ⟨_, _, rfl⟩
  · split <;> exact ⟨_, _, rfl⟩
  · exact console_adjustTuner s false
  · exact console_adjustTuner s true
  · unfold applyTuner
    split
    · exact ⟨_, _, rfl⟩
    · split <;> exact ⟨_, _, rfl⟩
  · exact ⟨_, _, rfl⟩

theorem console_handleKey {k : KeyInput} (h : s.handleKey fmtF32 k = some t) :
    ConsoleTurn s (.key k) t.console := by
  cases keyTurn_of_handleKey h with
  | tuner _ ht =>
    obtain ⟨ngl, apiKey, hn⟩ := console_tunerKey fmtF32 s k.key.code
    rw [hn]
    exact .aside k _ ngl apiKey (by simp [reachesDeck, ht])
  | deck hr h =>
    cases hm : s.onHotSwap with
    | true =>
      rw [consoleKey_hotSwap hm] at h
      cases h
      rw [console_setConsole]
      exact .hotSwap k hr hm
    | false =>
      rw [consoleKey_interrogator hm] at h
      obtain ⟨a, ha, rfl⟩ := Option.map_eq_some_iff.mp h
      rw [console_setConsole]
      exact .interrogator k a hr hm ha
  | aside hr h =>
    obtain ⟨focused, hf⟩ := h.console
    rw [hf]
    exact .aside k focused _ _ hr

/-- **What a turn can do to the console.** -/
theorem consoleTurn_handle (h : s.handle fmtF32 e = some t) : ConsoleTurn s e t.console := by
  unfold handle at h
  split at h
  · cases h
  · unfold receive at h
    cases e with
    | draw f => cases h; exact .draw f
    | key k =>
      have hc : s.cleared.ConsoleTurn (.key k) t.console := console_handleKey h
      generalize t.console = a at hc ⊢
      cases hc with
      | hotSwap _ hr hm => exact .hotSwap k hr hm
      | interrogator _ a hr hm ha => exact .interrogator k a hr hm ha
      | aside _ focused ngl apiKey hr => exact .aside k focused ngl apiKey hr
      | report _ hr => cases hr
    | modelsFetched models => cases h; exact .fetched models
    | error source message =>
      cases h
      unfold State.error showError
      split <;> exact .report _ rfl _ _ _
    | _ => cases h; exact .report _ rfl _ _ _

/-! ## A discovery -/

end State

/-- The model under the cursor. -/
def highlighted (a : App) : Option Str := a.hotSwapSelected.bind fun i => a.availableModels[i]?

/-- What a discovery should do to the cursor: it is on a model, and on the one it was on where that
is still there. -/
structure Kept (a : App) (models : List Str) (b : App) : Prop where
  inRange : models ≠ [] → ∀ i, b.hotSwapSelected = some i → i < b.availableModels.length
  same : ∀ m ∈ models, highlighted a = some m → highlighted b = some m

/-- The highlighted model has kept its place, or is the last one of a list that ends before that. -/
def Placed (a : App) (models : List Str) : Prop :=
  ∀ i m, a.hotSwapSelected = some i → a.availableModels[i]? = some m → m ∈ models →
    models[min i (models.length - 1)]? = some m

section

variable {a : App} {models : List Str}

theorem clampDeck_of_models (hne : a.availableModels ≠ []) :
    a.clampDeck = { a with
      hotSwapSelected := some (min (a.hotSwapSelected.getD 0) (a.availableModels.length - 1)) } := by
  have hlen := List.length_pos_iff.mpr hne
  unfold clampDeck
  cases hs : a.hotSwapSelected with
  | none =>
    dsimp only
    rw [if_neg hne, Option.getD_none, Nat.zero_min]
  | some i =>
    dsimp only [Option.getD_some]
    by_cases hi : a.availableModels.length ≤ i
    · rw [if_pos ⟨hi, hne⟩, Nat.min_eq_right (by omega)]
    · rw [if_neg fun h => hi h.1, if_neg hne, Nat.min_eq_left (by omega), ← hs]

theorem selected_modelsFetched (a : App) (hne : models ≠ []) :
    (a.modelsFetched models).availableModels = models ∧ (a.modelsFetched models).hotSwapSelected =
      some (min (a.hotSwapSelected.getD 0) (models.length - 1)) := by
  cases models with
  | nil => exact absurd rfl hne
  | cons first rest =>
    unfold modelsFetched
    dsimp only
    split
    · rw [clampDeck_of_models (by exact hne)]
      exact ⟨rfl, rfl⟩
    · rw [clampDeck_of_models (by exact hne)]
      exact ⟨rfl, rfl⟩

theorem kept_modelsFetched : Kept a models (a.modelsFetched models) ↔ Placed a models := by
  by_cases hne : models = []
  · subst hne
    exact iff_of_true ⟨fun h => (h rfl).elim, nofun⟩ fun i m _ _ hm => nomatch hm
  obtain ⟨hmodels, hsel⟩ := selected_modelsFetched a hne
  have hlen := List.length_pos_iff.mpr hne
  constructor
  · intro h i m hi hm hmem
    have hhigh : highlighted a = some m := by rw [highlighted, hi, Option.bind_some, hm]
    have hb := h.same m hmem hhigh
    rwa [highlighted, hsel, Option.bind_some, hmodels, hi, Option.getD_some] at hb
  · intro h
    refine ⟨fun _ i hi => ?_, fun m hmem hhigh => ?_⟩
    · rw [hsel] at hi
      cases hi
      rw [hmodels]
      omega
    · obtain ⟨i, hi, hm⟩ := Option.bind_eq_some_iff.mp hhigh
      rw [highlighted, hsel, Option.bind_some, hmodels, hi, Option.getD_some]
      exact h i m hi hm hmem

end

/-! ## A run -/

namespace State

/-- Every discovery does to the cursor what it should. -/
def Keeps (s : State) : Event → Prop
  | .modelsFetched models => Kept s.console models (s.console.modelsFetched models)
  | _ => True

/-- A discovery leaves the highlighted model where it is. -/
def KeepsPlace (s : State) : Event → Prop
  | .modelsFetched models => Placed s.console models
  | _ => True

/-- The event neither moves the cursor nor takes the model `m` out of the list. -/
def LeavesDeck (m : Str) (s : State) : Event → Prop
  | .key _ => ¬ (s.reachesDeck = true ∧ s.onHotSwap = true)
  | .modelsFetched models => m ∈ models
  | _ => True

variable {fmtF32 : Float32 → Word} {s t u : State} {e : Event} {es : List Event} {m : Str}

theorem keeps_iff : s.Keeps e ↔ s.KeepsPlace e := by
  cases e with
  | modelsFetched models => exact kept_modelsFetched
  | _ => exact Iff.rfl

theorem highlighted_drawDeck {a : App} (list : ListRender) (h : highlighted a = some m) :
    highlighted (a.drawDeck list) = some m := by
  obtain ⟨i, hi, hm⟩ := Option.bind_eq_some_iff.mp h
  have hlt := (List.getElem?_eq_some_iff.mp hm).1
  unfold drawDeck highlighted
  dsimp only
  rw [hi, list.select_of_lt _ i hlt]
  exact hm

/-- The highlight stays on a model that every discovery finds in its place. -/
theorem highlighted_handle (h : s.handle fmtF32 e = some t) (hm : highlighted s.console = some m)
    (hl : s.LeavesDeck m e) (hk : s.Keeps e) : highlighted t.console = some m := by
  have hc := consoleTurn_handle h
  generalize t.console = a at hc ⊢
  cases hc with
  | hotSwap k hr hs => exact (hl ⟨hr, hs⟩).elim
  | interrogator k a hr hs ha =>
    have ht := typed_interrogatorKey ha
    rw [highlighted, ht.models, ht.selected]
    exact hm
  | aside => exact hm
  | draw f =>
    split
    · exact highlighted_drawDeck f.list hm
    · exact hm
  | fetched models => exact hk.same m hl hm
  | report => exact hm

theorem highlighted_run (h : Machine.run (handle fmtF32) s es = some t)
    (hm : highlighted s.console = some m) (hl : Machine.Along (handle fmtF32) (LeavesDeck m) s es)
    (hk : Machine.Along (handle fmtF32) Keeps s es) : highlighted t.console = some m := by
  induction es generalizing s with
  | nil =>
    cases h
    exact hm
  | cons e es ih =>
    obtain ⟨u, hu, hr⟩ := Machine.run_cons_eq_some.mp h
    exact ih hr (highlighted_handle hu hm hl.1 hk.1) (hl.2 u hu) (hk.2 u hu)

/-- Wherever a model is highlighted, Enter selects it later on, unless a key moves the cursor or a
discovery is without the model. -/
def EnterFollows (fmtF32 : Float32 → Word) (s : State) (es : List Event) : Prop :=
  ∀ before after m t u k, es = before ++ after → Machine.run (handle fmtF32) s before = some t →
    highlighted t.console = some m → Machine.Along (handle fmtF32) (LeavesDeck m) t after →
    Machine.run (handle fmtF32) t after = some u → u.reachesDeck = true → u.onHotSwap = true →
    k.key.code = .enter → u.pickOf (.key k) = .pressed m

/-- **The cursor follows its model**, and Enter selects the model that was highlighted, if and only if
every discovery finds the highlighted model in its place. -/
theorem deck_kept_iff (l : Launch) (es : List Event) :
    (Machine.Along (handle fmtF32) Keeps (.new l) es ∧ EnterFollows fmtF32 (.new l) es) ↔
      Machine.Along (handle fmtF32) KeepsPlace (.new l) es := by
  have hsame : Keeps = KeepsPlace := funext₂ fun _ _ => propext keeps_iff
  rw [← hsame]
  refine ⟨And.left, fun hk => ⟨hk, ?_⟩⟩
  rintro before after m t u k rfl ht hm hl hu hr hs hc
  have hhigh := highlighted_run hu hm hl (hk.append_right ht)
  rw [highlighted] at hhigh
  rw [pickOf, if_pos ⟨hr, hs, hc⟩, hhigh]

end State

/-- The second model is highlighted, and a discovery puts a new one in front of both: Enter selects
the first. -/
theorem not_kept_inserted :
    let es := sampleDeck ++ [.modelsFetched ["new", "a", "b"]]
    ¬ Machine.Along (State.handle fmtOne) State.Keeps (.new sampleLaunch) es ∧
      ∃ s, Machine.run (State.handle fmtOne) (.new sampleLaunch) es = some s ∧
        s.pickOf (.key (sampleKey .enter)) = .pressed "a" := by
  have h : ((Machine.run (State.handle fmtOne) (.new sampleLaunch) sampleDeck).bind fun s =>
      (s.handle fmtOne (.modelsFetched ["new", "a", "b"])).map fun t =>
        (highlighted s.console, highlighted (s.console.modelsFetched ["new", "a", "b"]),
          t.pickOf (.key (sampleKey .enter)))) =
      some (some ("b" : Str), some ("a" : Str), Pick.pressed "a") := by
    decide +kernel
  obtain ⟨s, hs, h⟩ := Option.bind_eq_some_iff.mp h
  obtain ⟨t, ht, h⟩ := Option.map_eq_some_iff.mp h
  obtain ⟨hbefore, h⟩ := Prod.mk.inj h
  obtain ⟨hbehind, hpick⟩ := Prod.mk.inj h
  refine ⟨fun hk => ?_, t, ?_, hpick⟩
  · have hkept : Kept s.console _ _ := ((Machine.along_concat hs).mp hk).2
    have := hkept.same "b" (by decide) hbefore
    rw [hbehind] at this
    exact absurd this (by decide)
  · rw [Machine.run_append, hs, Option.bind_some, Machine.run_cons, ht]
    rfl

end Saltnitor.Main
