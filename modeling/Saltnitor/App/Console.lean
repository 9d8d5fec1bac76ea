import Saltnitor.Lib.Machine
import Saltnitor.Rust.Number

/-!
# The console and the hot-swap deck

The part of `App` behind the bottom deck: the interrogator's input line with its
cursor and history, the model deck, and the discovered models. `step` handles
one event; `none` is a panic of `Vec::insert`, `Vec::remove` or an index. The
literals of `App.new` put the cursor one past its 68-character input, so the
state is `InRange` only after an event that sets the cursor again (`Repaired`),
and inserting or deleting before that panics (`Crashed`).
-/

namespace Saltnitor

open Rust

/-! ## State -/

/-- What a handler hands to the rest of the program. -/
inductive App.Effect where
  | log (line : Str)
  /-- `interrogate::strike`. -/
  | strike (controlPort : Nat) (bearer : Option Str) (payload : Str)
  /-- `hotswap::warm_load`, with what `direct_router_bearer` picks the bearer from. -/
  | warmLoad (host : Str) (port : Nat) (apiKey : Bool) (inferBearer : Option Str) (model : Str)
  deriving DecidableEq

structure App where
  consoleFocused : Bool
  consoleInput : Str
  consoleCursor : Nat
  consoleHistory : List Str
  historyIndex : Nat
  lastApiResult : Str
  lastTtft : Nat
  /-- `hot_swap_state.selected()`. -/
  hotSwapSelected : Option Nat
  availableModels : List Str
  activeModel : Str
  currentNgl : Int
  host : Str
  port : Nat
  apiKey : Bool
  controlPort : Nat
  clientBearer : Option Str
  inferBearer : Option Str
  effects : List App.Effect
  deriving DecidableEq

namespace App

/-- What `main` starts the app with; `history` is the saved history file, if it can be read. -/
structure Launch where
  host : Str
  port : Nat
  defaultNgl : Int
  controlPort : Nat
  clientBearer : Option Str
  inferBearer : Option Str
  history : Option Str

/-- The payload that names `model`. -/
def payloadFor (model : Str) : Str :=
  ("\x7b\"model\": \"" : Str) ++ model ++
    ("\", \"messages\": [\x7b\"role\": \"user\", \"content\": \"ping\"\x7d]\x7d" : Str)

/-- The history lines that are not blank. -/
def loadHistory (file : Option Str) : List Str :=
  match file with
  | none => []
  | some content => (lines content).filter fun l => trim l ≠ []

/-- `App::new`, with what `main` sets right after it. -/
def new (l : Launch) : App where
  consoleFocused := false
  consoleInput := payloadFor "None"
  consoleCursor := 69
  consoleHistory := loadHistory l.history
  historyIndex := (loadHistory l.history).length
  lastApiResult := "Ready. Press 'i' to focus console, Enter to fire."
  lastTtft := 0
  hotSwapSelected := none
  availableModels := []
  activeModel := "None"
  currentNgl := l.defaultNgl
  host := l.host
  port := l.port
  apiKey := false
  controlPort := l.controlPort
  clientBearer := l.clientBearer
  inferBearer := l.inferBearer
  effects := []

/-! ## Interrogator keys -/

inductive Key where
  | char (c : Char)
  | left
  | right
  | up
  | down
  | backspace
  | delete
  | enter
  | esc
  | other
  deriving DecidableEq

/-- Show `input` with the cursor at its end. -/
def setInput (a : App) (input : Str) : App :=
  { a with consoleInput := input, consoleCursor := input.length }

/-- Remember a payload: not twice in a row, and ten at most once one is added. -/
def remember (a : App) : App :=
  let history :=
    if a.consoleHistory.getLast? ≠ some a.consoleInput then
      let h := a.consoleHistory ++ [a.consoleInput]
      if h.length > 10 then h.tail else h
    else a.consoleHistory
  { a with consoleHistory := history, historyIndex := history.length }

def interrogatorKey (a : App) : Key → Option App
  | .esc => some { a with consoleFocused := false }
  | .left => some (if 0 < a.consoleCursor then { a with consoleCursor := a.consoleCursor - 1 } else a)
  | .right =>
    some (if a.consoleCursor < a.consoleInput.length then
      { a with consoleCursor := a.consoleCursor + 1 } else a)
  | .up =>
    if !a.consoleHistory.isEmpty && decide (0 < a.historyIndex) then
      let i := a.historyIndex - 1
      a.consoleHistory[i]?.map fun input => { a with historyIndex := i }.setInput input
    else some a
  | .down =>
    if a.historyIndex < a.consoleHistory.length then
      let i := a.historyIndex + 1
      if i = a.consoleHistory.length then some ({ a with historyIndex := i }.setInput [])
      else a.consoleHistory[i]?.map fun input => { a with historyIndex := i }.setInput input
    else some a
  | .char c =>
    (vecInsert a.consoleInput a.consoleCursor c).map fun input =>
      { a with consoleInput := input, consoleCursor := a.consoleCursor + 1 }
  | .backspace =>
    if 0 < a.consoleCursor then
      (vecRemove a.consoleInput (a.consoleCursor - 1)).map fun input =>
        { a with consoleInput := input, consoleCursor := a.consoleCursor - 1 }
    else some a
  | .delete =>
    if a.consoleCursor < a.consoleInput.length then
      (vecRemove a.consoleInput a.consoleCursor).map fun input => { a with consoleInput := input }
    else some a
  | .enter =>
    let a := if trim a.consoleInput ≠ [] then a.remember else a
    some { a with
      lastApiResult := "Sending payload...", lastTtft := 0
      effects := a.effects ++ [.strike a.controlPort a.clientBearer a.consoleInput] }
  | .other => some a

/-! ## Hot-swap keys and model discovery -/

/-- A decimal rounds to a double above 14 when it passes the midpoint to the next double. -/
def exceeds14 : F64 → Bool
  | .nan => false
  | .inf negative => !negative
  | .fin v => 14 + 1 / 2 ^ 50 < v

/-- Layers to offload, from the size words of a model name. -/
def autoNgl (model : Str) : Int :=
  let spaced := (toUppercase model).map fun c => if c = '-' ∨ c = '_' then ' ' else c
  let large (word : Str) : Bool :=
    word.getLast? == some 'B' && (parseF64 (word.rdropWhile (· == 'B'))).any exceeds14
  if (splitWhitespace spaced).any large then 24 else 99

def hotSwapKey (a : App) : Key → App
  | .esc => { a with consoleFocused := false }
  | .up =>
    let i := match a.hotSwapSelected with
      | some i => if i = 0 then a.availableModels.length - 1 else i - 1
      | none => 0
    { a with hotSwapSelected := some i }
  | .down =>
    let i := match a.hotSwapSelected with
      | some i => if a.availableModels.length - 1 ≤ i then 0 else i + 1
      | none => 0
    { a with hotSwapSelected := some i }
  | .enter =>
    match a.hotSwapSelected.bind fun i => a.availableModels[i]? with
    | none => a
    | some chosen =>
      { a with
        consoleFocused := false, currentNgl := autoNgl chosen, activeModel := chosen
        effects := a.effects ++
          [Effect.log ((">>> HOT-SWAP: Requesting [" : Str) ++ chosen ++ ("] from router..." : Str)),
            Effect.warmLoad a.host a.port a.apiKey a.inferBearer chosen] }.setInput (payloadFor chosen)
  | _ => a

/-- Keep the deck cursor on a model. -/
def clampDeck (a : App) : App :=
  match a.hotSwapSelected with
  | some i =>
    if a.availableModels.length ≤ i ∧ a.availableModels ≠ [] then
      { a with hotSwapSelected := some (a.availableModels.length - 1) }
    else if a.availableModels = [] then { a with hotSwapSelected := none }
    else a
  | none => if a.availableModels = [] then a else { a with hotSwapSelected := some 0 }

/-- `Event::ModelsFetched`: the first model becomes the active one if there is none. -/
def modelsFetched (a : App) (models : List Str) : App :=
  let a := { a with availableModels := models }
  let a :=
    match models with
    | [] => a
    | first :: _ =>
      if a.activeModel = ("None" : Str) then
        { a with activeModel := first }.setInput (payloadFor first)
      else a
  a.clampDeck

/-- What the terminal library does to the cursor of a list of `n` items it renders: a cursor on one
of them stays there. -/
structure ListRender where
  select : Nat → Option Nat → Option Nat
  select_none : ∀ n, select n none = none
  select_of_lt : ∀ n i, i < n → select n (some i) = some i

/-- A cursor past the end goes to the last item. -/
instance : Inhabited ListRender where
  default := {
    select := fun n cursor => if n = 0 then none else cursor.map fun i => min i (n - 1)
    select_none := fun n => by split <;> rfl
    select_of_lt := fun n i h => by
      rw [if_neg (by omega), Option.map_some, Nat.min_eq_left (by omega)] }

def drawDeck (a : App) (list : ListRender) : App :=
  { a with hotSwapSelected := list.select a.availableModels.length a.hotSwapSelected }

/-! ## Events -/

inductive Event where
  | interrogator (k : Key)
  | hotSwap (k : Key)
  | modelsFetched (models : List Str)
  | draw (list : ListRender)

def step (a : App) : Event → Option App
  | .interrogator k => a.interrogatorKey k
  | .hotSwap k => some (a.hotSwapKey k)
  | .modelsFetched models => some (a.modelsFetched models)
  | .draw list => some (a.drawDeck list)

/-! ## Range of the cursor and of the history index -/

/-- The cursor is within the input, the index within the history. -/
def InRange (a : App) : Prop :=
  a.consoleCursor ≤ a.consoleInput.length ∧ a.historyIndex ≤ a.consoleHistory.length

instance (a : App) : Decidable (InRange a) := inferInstanceAs (Decidable (_ ∧ _))

variable {a b : App}

theorem inRange_setInput {input : Str} (h : a.historyIndex ≤ a.consoleHistory.length) :
    InRange (a.setInput input) :=
  ⟨le_rfl, h⟩

theorem historyIndex_remember : a.remember.historyIndex = a.remember.consoleHistory.length := rfl

/-- A key in a state in range panics nothing and leaves the state in range. -/
theorem interrogatorKey_inRange (h : InRange a) (k : Key) :
    ∃ b, a.interrogatorKey k = some b ∧ InRange b := by
  obtain ⟨hc, hh⟩ := h
  cases k with
  | esc => exact ⟨_, rfl, hc, hh⟩
  | left =>
    refine ⟨_, rfl, ?_⟩
    split
    · exact ⟨(Nat.sub_le ..).trans hc, hh⟩
    · exact ⟨hc, hh⟩
  | right =>
    refine ⟨_, rfl, ?_⟩
    split
    · rename_i hlt
      exact ⟨hlt, hh⟩
    · exact ⟨hc, hh⟩
  | up =>
    simp only [interrogatorKey]
    split
    · rename_i hi
      have hlt : a.historyIndex - 1 < a.consoleHistory.length := by
        simp only [Bool.and_eq_true, decide_eq_true_iff] at hi
        omega
      refine ⟨_, by rw [List.getElem?_eq_getElem hlt]; rfl, inRange_setInput hlt.le⟩
    · exact ⟨_, rfl, hc, hh⟩
  | down =>
    simp only [interrogatorKey]
    split
    · rename_i hi
      by_cases he : a.historyIndex + 1 = a.consoleHistory.length
      · exact ⟨_, if_pos he, inRange_setInput he.le⟩
      · have hlt : a.historyIndex + 1 < a.consoleHistory.length := by omega
        refine ⟨_, (if_neg he).trans (by rw [List.getElem?_eq_getElem hlt]; rfl),
          inRange_setInput hlt.le⟩
    · exact ⟨_, rfl, hc, hh⟩
  | char c =>
    obtain ⟨input, hi, hlen⟩ := exists_vecInsert hc c
    simp only [interrogatorKey, hi, Option.map_some]
    refine ⟨_, rfl, ?_, hh⟩
    simp only [hlen]
    omega
  | backspace =>
    simp only [interrogatorKey]
    split
    · rename_i hp
      have hlt : a.consoleCursor - 1 < a.consoleInput.length := by omega
      obtain ⟨input, hr, hlen⟩ := exists_vecRemove hlt
      rw [hr]
      refine ⟨_, rfl, ?_, hh⟩
      simp only [hlen]
      omega
    · exact ⟨_, rfl, hc, hh⟩
  | delete =>
    simp only [interrogatorKey]
    split
    · rename_i hp
      obtain ⟨input, hr, hlen⟩ := exists_vecRemove hp
      rw [hr]
      refine ⟨_, rfl, ?_, hh⟩
      simp only [hlen]
      omega
    · exact ⟨_, rfl, hc, hh⟩
  | enter =>
    refine ⟨_, rfl, ?_⟩
    split
    · exact ⟨hc, le_rfl⟩
    · exact ⟨hc, hh⟩
  | other => exact ⟨_, rfl, hc, hh⟩

theorem hotSwapKey_inRange (h : InRange a) (k : Key) : InRange (a.hotSwapKey k) := by
  cases k with
  | enter =>
    simp only [hotSwapKey]
    split
    · exact h
    · exact inRange_setInput h.2
  | _ => exact h

/-- Clamping moves only the deck cursor. -/
theorem clampDeck_eq (a : App) : ∃ i, a.clampDeck = { a with hotSwapSelected := i } := by
  unfold clampDeck
  repeat' split
  all_goals exact ⟨_, rfl⟩

theorem modelsFetched_inRange (h : InRange a) (models : List Str) :
    InRange (a.modelsFetched models) := by
  unfold modelsFetched
  cases models with
  | nil =>
    obtain ⟨i, hi⟩ := clampDeck_eq { a with availableModels := [] }
    rw [hi]
    exact h
  | cons first rest =>
    dsimp only
    split
    · obtain ⟨i, hi⟩ := clampDeck_eq
        ({ a with availableModels := first :: rest, activeModel := first }.setInput
          (payloadFor first))
      rw [hi]
      exact ⟨le_rfl, h.2⟩
    · obtain ⟨i, hi⟩ := clampDeck_eq { a with availableModels := first :: rest }
      rw [hi]
      exact h

theorem step_inRange (h : InRange a) (e : Event) : ∃ b, step a e = some b ∧ InRange b := by
  cases e with
  | interrogator k => exact interrogatorKey_inRange h k
  | hotSwap k => exact ⟨_, rfl, hotSwapKey_inRange h k⟩
  | modelsFetched models => exact ⟨_, rfl, modelsFetched_inRange h models⟩
  | draw list => exact ⟨_, rfl, h⟩

theorem run_inRange (h : InRange a) (es : List Event) :
    ∃ b, Machine.run step a es = some b ∧ InRange b := by
  induction es generalizing a with
  | nil => exact ⟨a, rfl, h⟩
  | cons e es ih =>
    obtain ⟨b, hb, hr⟩ := step_inRange h e
    obtain ⟨c, hc, hr⟩ := ih hr
    exact ⟨c, Machine.run_cons_eq_some.mpr ⟨b, hb, hc⟩, hr⟩

/-! ## Before the cursor is set -/

/-- The state of `App.new` until an event sets the cursor: it is past the end of the input. -/
structure Fresh (a : App) : Prop where
  input : a.consoleInput = payloadFor "None"
  cursor : a.consoleCursor = 69
  index : a.historyIndex = a.consoleHistory.length
  models : a.availableModels = []
  active : a.activeModel = ("None" : Str)

theorem length_payloadFor_none : (payloadFor ("None" : Str)).length = 68 := by decide

theorem fresh_new (l : Launch) : Fresh (new l) := ⟨rfl, rfl, rfl, rfl, rfl⟩

theorem Fresh.not_inRange (h : Fresh a) : ¬ InRange a := by
  rintro ⟨hc, -⟩
  rw [h.input, h.cursor, length_payloadFor_none] at hc
  omega

/-- The event puts the cursor within the input; `history` says there is a history. -/
def setsCursor (history : Bool) : Event → Bool
  | .interrogator .left => true
  | .interrogator .up => history
  | .modelsFetched models => !models.isEmpty
  | _ => false

/-- The event edits the input at the cursor. -/
def editsAtCursor : Event → Bool
  | .interrogator (.char _) | .interrogator .backspace => true
  | _ => false

/-- Enter on the untouched payload leaves a history. -/
def historyAfter (history : Bool) : Event → Bool
  | .interrogator .enter => true
  | _ => history

/-- The cursor is set before anything is edited at it. -/
def Repaired (history : Bool) : List Event → Bool
  | [] => false
  | e :: es => setsCursor history e || !editsAtCursor e && Repaired (historyAfter history e) es

/-- Something is edited at the cursor before it is set. -/
def Crashed (history : Bool) : List Event → Bool
  | [] => false
  | e :: es => !setsCursor history e && (editsAtCursor e || Crashed (historyAfter history e) es)

/-- Whether the history has an entry. -/
def hasHistory (a : App) : Bool := !a.consoleHistory.isEmpty

theorem step_fresh_sets (h : Fresh a) {e : Event} (he : setsCursor a.hasHistory e = true) :
    ∃ b, step a e = some b ∧ InRange b := by
  cases e with
  | interrogator k =>
    cases k with
    | left =>
      refine ⟨_, rfl, ?_⟩
      rw [if_pos (by rw [h.cursor]; omega)]
      refine ⟨?_, h.index.le⟩
      show a.consoleCursor - 1 ≤ a.consoleInput.length
      rw [h.cursor, h.input, length_payloadFor_none]
    | up =>
      have hlen : 0 < a.consoleHistory.length := by
        simpa [setsCursor, hasHistory, List.length_pos_iff] using he
      have hi : a.historyIndex - 1 < a.consoleHistory.length := by rw [h.index]; omega
      simp only [step, interrogatorKey]
      rw [if_pos (by simpa [h.index, List.length_pos_iff] using hlen),
        List.getElem?_eq_getElem hi]
      exact ⟨_, rfl, inRange_setInput hi.le⟩
    | _ => cases he
  | modelsFetched models =>
    cases models with
    | nil => cases he
    | cons first rest =>
      refine ⟨_, rfl, ?_⟩
      simp only [modelsFetched, h.active, if_true]
      obtain ⟨i, hi⟩ := clampDeck_eq
        ({ a with availableModels := first :: rest, activeModel := first }.setInput
          (payloadFor first))
      rw [hi]
      exact ⟨le_rfl, h.index.le⟩
  | hotSwap k => cases he
  | draw => cases he

theorem step_fresh_edits (h : Fresh a) {e : Event} (he : editsAtCursor e = true) :
    step a e = none := by
  cases e with
  | interrogator k =>
    cases k with
    | char c =>
      have : vecInsert a.consoleInput a.consoleCursor c = none := by
        rw [vecInsert_eq_none, h.input, h.cursor, length_payloadFor_none]
        omega
      simp only [step, interrogatorKey, this, Option.map_none]
    | backspace =>
      have : vecRemove a.consoleInput (a.consoleCursor - 1) = none := by
        rw [vecRemove_eq_none, h.input, h.cursor, length_payloadFor_none]
      simp only [step, interrogatorKey, this, Option.map_none]
      rw [if_pos (by rw [h.cursor]; omega)]
    | _ => cases he
  | _ => cases he

theorem remember_hasHistory : a.remember.hasHistory = true := by
  simp only [remember, hasHistory]
  split
  · split
    · rename_i hl
      have : 0 < (a.consoleHistory ++ [a.consoleInput]).tail.length := by
        rw [List.length_tail]
        omega
      rw [List.length_pos_iff] at this
      simpa only [Bool.not_eq_true', List.isEmpty_eq_false_iff] using this
    · simp
  · rename_i hl
    rw [not_not] at hl
    cases hc : a.consoleHistory with
    | nil => rw [hc] at hl; cases hl
    | cons x xs => rfl

theorem step_fresh_other (h : Fresh a) {e : Event} (hs : setsCursor a.hasHistory e = false)
    (he : editsAtCursor e = false) :
    ∃ b, step a e = some b ∧ Fresh b ∧ b.hasHistory = historyAfter a.hasHistory e := by
  cases e with
  | interrogator k =>
    cases k with
    | esc => exact ⟨_, rfl, ⟨h.input, h.cursor, h.index, h.models, h.active⟩, rfl⟩
    | left => cases hs
    | right =>
      refine ⟨a, ?_, h, rfl⟩
      simp only [step, interrogatorKey]
      rw [if_neg]
      rw [h.input, h.cursor, length_payloadFor_none]
      omega
    | up =>
      refine ⟨a, ?_, h, rfl⟩
      have he : a.consoleHistory.isEmpty = true := by simpa [setsCursor, hasHistory] using hs
      simp [step, interrogatorKey, he]
    | down =>
      refine ⟨a, ?_, h, rfl⟩
      simp only [step, interrogatorKey]
      rw [if_neg (by rw [h.index]; exact lt_irrefl _)]
    | char c => cases he
    | backspace => cases he
    | delete =>
      refine ⟨a, ?_, h, rfl⟩
      simp only [step, interrogatorKey]
      rw [if_neg]
      rw [h.input, h.cursor, length_payloadFor_none]
      omega
    | enter =>
      have ht : trim a.consoleInput ≠ [] := by rw [h.input]; decide
      refine ⟨_, rfl, ?_, ?_⟩
      · rw [if_pos ht]
        exact ⟨h.input, h.cursor, historyIndex_remember, h.models, h.active⟩
      · rw [if_pos ht]
        exact remember_hasHistory
    | other => exact ⟨_, rfl, h, rfl⟩
  | hotSwap k =>
    cases k with
    | enter =>
      refine ⟨a, ?_, h, rfl⟩
      simp only [step, hotSwapKey, h.models]
      cases a.hotSwapSelected <;> rfl
    | esc => exact ⟨_, rfl, ⟨h.input, h.cursor, h.index, h.models, h.active⟩, rfl⟩
    | up => exact ⟨_, rfl, ⟨h.input, h.cursor, h.index, h.models, h.active⟩, rfl⟩
    | down => exact ⟨_, rfl, ⟨h.input, h.cursor, h.index, h.models, h.active⟩, rfl⟩
    | _ => exact ⟨_, rfl, h, rfl⟩
  | modelsFetched models =>
    cases models with
    | cons first rest => cases hs
    | nil =>
      obtain ⟨i, hi⟩ := clampDeck_eq { a with availableModels := [] }
      refine ⟨_, rfl, ?_⟩
      simp only [modelsFetched]
      rw [hi]
      exact ⟨⟨h.input, h.cursor, h.index, rfl, h.active⟩, rfl⟩
  | draw list => exact ⟨_, rfl, ⟨h.input, h.cursor, h.index, h.models, h.active⟩, rfl⟩

theorem run_fresh (h : Fresh a) (es : List Event) :
    (Repaired a.hasHistory es = true ∧ Crashed a.hasHistory es = false ∧
      ∃ b, Machine.run step a es = some b ∧ InRange b) ∨
    (Repaired a.hasHistory es = false ∧ Crashed a.hasHistory es = true ∧
      Machine.run step a es = none) ∨
    (Repaired a.hasHistory es = false ∧ Crashed a.hasHistory es = false ∧
      ∃ b, Machine.run step a es = some b ∧ Fresh b) := by
  induction es generalizing a with
  | nil => exact .inr (.inr ⟨rfl, rfl, a, rfl, h⟩)
  | cons e es ih =>
    cases hs : setsCursor a.hasHistory e with
    | true =>
      obtain ⟨b, hb, hr⟩ := step_fresh_sets h hs
      obtain ⟨c, hc, hr⟩ := run_inRange hr es
      exact .inl ⟨by simp [Repaired, hs], by simp [Crashed, hs], c,
        Machine.run_cons_eq_some.mpr ⟨b, hb, hc⟩, hr⟩
    | false =>
      cases he : editsAtCursor e with
      | true =>
        refine .inr (.inl ⟨by simp [Repaired, hs, he], by simp [Crashed, hs, he], ?_⟩)
        rw [Machine.run_cons, step_fresh_edits h he]
        rfl
      | false =>
        obtain ⟨b, hb, hf, hh⟩ := step_fresh_other h hs he
        have hrun : Machine.run step a (e :: es) = Machine.run step b es := by
          rw [Machine.run_cons, hb]
          rfl
        have hR : Repaired a.hasHistory (e :: es) = Repaired b.hasHistory es := by
          simp [Repaired, hs, he, hh]
        have hC : Crashed a.hasHistory (e :: es) = Crashed b.hasHistory es := by
          simp [Crashed, hs, he, hh]
        rw [hrun, hR, hC]
        exact ih hf

/-- The state after the events is in range and no event can panic there or later. -/
def Sound (a : App) (es : List Event) : Prop :=
  ∃ b, Machine.run step a es = some b ∧ InRange b ∧ ∀ es', Machine.run step b es' ≠ none

/-- The saved history has a line to load. -/
def savedHistory (l : Launch) : Bool := !(loadHistory l.history).isEmpty

/-- **The console starts out of range.** After any events from `App.new` the state is in range,
and safe from then on, exactly when the events set the cursor before they edit at it; it panics
exactly when they edit first. -/
theorem sound_iff_repaired (l : Launch) (es : List Event) :
    (Sound (new l) es ↔ Repaired (savedHistory l) es = true) ∧
    (Machine.run step (new l) es = none ↔ Crashed (savedHistory l) es = true) := by
  have hl : (new l).hasHistory = savedHistory l := rfl
  rw [← hl]
  rcases run_fresh (fresh_new l) es with ⟨hR, hC, b, hb, hr⟩ | ⟨hR, hC, hn⟩ | ⟨hR, hC, b, hb, hf⟩
  · have hsafe (es' : List Event) : Machine.run step b es' ≠ none := by
      obtain ⟨c, hc, -⟩ := run_inRange hr es'
      rw [hc]
      exact Option.some_ne_none c
    exact ⟨iff_of_true ⟨b, hb, hr, hsafe⟩ hR, iff_of_false (by simp [hb]) (by simp [hC])⟩
  · refine ⟨iff_of_false ?_ (by simp [hR]), iff_of_true hn hC⟩
    rintro ⟨b, hb, -⟩
    rw [hn] at hb
    cases hb
  · refine ⟨iff_of_false ?_ (by simp [hR]), iff_of_false (by simp [hb]) (by simp [hC])⟩
    rintro ⟨c, hc, hr, -⟩
    rw [hb] at hc
    cases hc
    exact hf.not_inRange hr

/-- Started without a saved history, with the first character typed into the console. -/
def firstLaunch : Launch :=
  { host := "127.0.0.1", port := 8080, defaultNgl := 99, controlPort := 8765, clientBearer := none,
    inferBearer := none, history := none }

theorem not_sound_typing : ¬ Sound (new firstLaunch) [.interrogator (.char 'a')] := by
  rintro ⟨b, hb, -⟩
  have hn : Machine.run step (new firstLaunch) [.interrogator (.char 'a')] = none := by decide
  rw [hn] at hb
  cases hb

end Saltnitor.App
