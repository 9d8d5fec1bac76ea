import Saltnitor.Main.Deck
import Saltnitor.Main.TunerKeys
import Saltnitor.Rust.Slice

/-!
# Drawing the tuner

`tunerItems` are the rows of the tuner's page, with `none` for the panic of an
index or a slice. The page of the draft model is the only one that can panic, and
only while the tuner is open: its index was in range when the key was pressed, and
the list under it is replaced by every fetch. `draws_iff` says after which events
of the loop it is drawn.
-/

namespace Saltnitor.Main

open Rust App Process Tuner

namespace State

/-! ## The rows -/

def onOff (b : Bool) : Str := if b then "ON" else "OFF"

/-- The draft model as it is shown: a long id is cut after 15 bytes. -/
def draftModelStr (models : List Str) (idx : Nat) : Option Str :=
  if idx = 0 ∨ models = [] then some "None"
  else
    models[idx - 1]?.bind fun m =>
      if 18 < byteLen m then (sliceTo m 15).map (· ++ ("..." : Str)) else some m

/-- The labels and values of the page; `fmt1` is `{:.1}` of a single-precision float. -/
def tunerItems (s : State) (fmt1 : Float32 → Str) : Option (List (Str × Str)) :=
  let t := s.tuner
  match t.page.val with
  | 0 => do
    let cacheK ← cacheTypes[t.cacheKIdx.val]?
    let cacheV ← cacheTypes[t.cacheVIdx.val]?
    some [("GPU Layers (ngl)", fmtInt s.console.currentNgl),
      ("Context Size (ctx)", fmtInt t.currentCtx.toInt),
      ("CPU Threads (threads)", toDec t.currentThreads),
      ("Batch Size (n_batch)", fmtInt t.currentBatch.toInt),
      ("Parallel Slots (np)", fmtInt t.currentParallel.toInt),
      ("Flash Attention", onOff t.flashAttn),
      ("Memory Lock (mlock)", onOff t.mlock),
      ("No Mem Map (no_mmap)", onOff t.noMmap),
      ("KV Cache (K-Type)", cacheK),
      ("KV Cache (V-Type)", cacheV)]
  | 1 => do
    let draftModel ← draftModelStr s.console.availableModels t.draftModelIdx
    some [("RoPE Base", fmtInt t.ropeBase.toInt),
      ("RoPE Scale", fmt1 t.ropeScale),
      ("Defrag Threshold", fmt1 t.defragThold),
      ("Draft Max", fmtInt t.draftMax.toInt),
      ("Draft Min", fmtInt t.draftMin.toInt),
      ("Draft Model (-md)", draftModel)]
  | _ =>
    some [("Threads per Batch", toDec t.threadsBatch),
      ("U-Batch Size", fmtInt t.ubatchSize.toInt),
      ("Continuous Batching", onOff t.contBatching),
      ("Context Shift", onOff t.ctxShift),
      ("Metrics", onOff t.metrics),
      ("API Key", onOff s.console.apiKey)]

/-- A row as a line of the popup. -/
def tunerLine (label val : Str) : Str :=
  ("  " : Str) ++ label ++ (":" : Str) ++ List.replicate (24 - byteLen label) ' ' ++ val ++
    List.replicate (10 - byteLen val) ' ' ++ ("[< / >]  " : Str)

/-- The lines of the popup while the tuner is open, or a panic. -/
def drawTuner (s : State) (fmt1 : Float32 → Str) : Option (List Str) :=
  if s.showTuner then (s.tunerItems fmt1).map fun items => items.map fun i => tunerLine i.1 i.2
  else some []

/-- The popup is drawn, and the names `Enter` looks up are there. -/
structure Draws (s : State) (fmt1 : Float32 → Str) : Prop where
  drawn : s.drawTuner fmt1 ≠ none
  cacheK : cacheTypes[s.tuner.cacheKIdx.val]? = some (cacheType s.tuner.cacheKIdx)
  cacheV : cacheTypes[s.tuner.cacheVIdx.val]? = some (cacheType s.tuner.cacheVIdx)

/-! ## What can be shown -/

/-- The id is short, or its 15th byte ends a character. -/
def Cuttable (m : Str) : Prop := byteLen m ≤ 18 ∨ ∃ p, p <+: m ∧ byteLen p = 15

/-- Nothing is selected, or an id of the list that can be shown. -/
def Fits (models : List Str) (idx : Nat) : Prop :=
  idx = 0 ∨ models = [] ∨ ∃ m, models[idx - 1]? = some m ∧ Cuttable m

/-- The page of the draft model, when it is the one on the screen, can be shown. -/
def ShownFits (s : State) : Prop :=
  s.showTuner = true → s.tuner.page.val = 1 → Fits s.console.availableModels s.tuner.draftModelIdx

variable {s t : State} {fmtF32 : Float32 → Word} {fmt1 : Float32 → Str} {e : Event}

theorem draftModelStr_ne_none {models : List Str} {idx : Nat} :
    draftModelStr models idx ≠ none ↔ Fits models idx := by
  unfold draftModelStr Fits
  split
  · rename_i h
    exact iff_of_true (by simp) (h.elim .inl fun h => .inr (.inl h))
  · rename_i h
    rw [not_or] at h
    rw [or_iff_right h.1, or_iff_right h.2]
    cases models[idx - 1]? with
    | none => simp
    | some m =>
      simp only [Option.bind_some, Option.some.injEq, exists_eq_left', Cuttable]
      split
      · rename_i hlen
        rw [or_iff_right (by omega), ne_eq, Option.map_eq_none_iff, ← ne_eq,
          Option.ne_none_iff_exists']
        simp only [sliceTo_eq_some]
      · exact iff_of_true (by simp) (.inl (by omega))

theorem cacheType_eq (i : Fin 9) : cacheTypes[i.val]? = some (cacheType i) := by
  revert i
  decide

theorem tunerItems_ne_none : s.tunerItems fmt1 ≠ none ↔
    (s.tuner.page.val = 1 → Fits s.console.availableModels s.tuner.draftModelIdx) := by
  rw [← draftModelStr_ne_none]
  unfold tunerItems
  dsimp only
  split
  · rename_i hp
    simp [cacheType_eq, hp]
  · rename_i hp
    rw [hp]
    cases draftModelStr s.console.availableModels s.tuner.draftModelIdx <;> simp
  · rename_i hp
    exact iff_of_true (by simp) fun h => absurd h hp

theorem draws_iff_fits : s.Draws fmt1 ↔ s.ShownFits := by
  have hdraw : s.Draws fmt1 ↔ s.drawTuner fmt1 ≠ none :=
    ⟨(·.drawn), fun h => ⟨h, cacheType_eq _, cacheType_eq _⟩⟩
  rw [hdraw, drawTuner, ShownFits]
  cases s.showTuner with
  | false => exact iff_of_true (by simp) nofun
  | true =>
    rw [if_pos rfl, ne_eq, Option.map_eq_none_iff, ← ne_eq, tunerItems_ne_none]
    exact (imp_iff_right rfl).symm

/-! ## Turns -/

/-- The event leaves the page of the draft model such that it can be shown: a fetch under the open
page, the key that opens the tuner on it, a key that comes to it, a key that moves the draft model. -/
def FitsNext (s : State) (e : Event) : Prop :=
  match s.tunerPress e, e with
  | some .tab, _ => s.tuner.page.val = 0 → Fits s.console.availableModels s.tuner.draftModelIdx
  | some .right, _ =>
    s.tuner.page.val = 1 → s.tuner.selected = 5 →
      s.tuner.draftModelIdx < s.console.availableModels.length →
      Fits s.console.availableModels (s.tuner.draftModelIdx + 1)
  | some .left, _ =>
    s.tuner.page.val = 1 → s.tuner.selected = 5 → 0 < s.tuner.draftModelIdx →
      Fits s.console.availableModels (s.tuner.draftModelIdx - 1)
  | some _, _ => True
  | none, .modelsFetched models =>
    s.shouldQuit = false → s.showTuner = true → s.tuner.page.val = 1 →
      Fits models s.tuner.draftModelIdx
  | none, _ =>
    s.opensTuner e = true → s.tuner.page.val = 1 →
      Fits s.console.availableModels s.tuner.draftModelIdx

theorem adjust_draft (right : Bool) (cores : Nat) (a : App) (t : Panel) :
    (adjust right cores a t).1.availableModels = a.availableModels ∧
    (adjust right cores a t).2.page = t.page ∧
    (adjust right cores a t).2.draftModelIdx =
      if t.page.val = 1 ∧ t.selected = 5 then
        nudge right t.draftModelIdx (t.draftModelIdx < a.availableModels.length)
          (0 < t.draftModelIdx) (t.draftModelIdx + 1) (t.draftModelIdx - 1)
      else t.draftModelIdx := by
  split
  · rename_i hrow
    have hp : t.page = 1 := Fin.ext hrow.1
    simp [adjust, hp, hrow.2]
  · rename_i hrow
    unfold adjust
    split
    case h_16 hp hs => exact absurd ⟨congrArg Fin.val hp, hs⟩ hrow
    all_goals exact ⟨rfl, rfl, rfl⟩

theorem shownFits_adjust (right : Bool) (ht : s.showTuner = true) (h : s.ShownFits) :
    (s.adjustTuner right).ShownFits ↔
      (s.tuner.page.val = 1 → s.tuner.selected = 5 →
        Fits s.console.availableModels
          (nudge right s.tuner.draftModelIdx
            (s.tuner.draftModelIdx < s.console.availableModels.length)
            (0 < s.tuner.draftModelIdx) (s.tuner.draftModelIdx + 1) (s.tuner.draftModelIdx - 1))) := by
  obtain ⟨hmodels, hpage, hidx⟩ := adjust_draft right s.cpuCoreCount s.console s.tuner
  have h := h ht
  unfold ShownFits adjustTuner
  dsimp only
  rw [hmodels, hpage, hidx, imp_iff_right ht]
  by_cases hp : s.tuner.page.val = 1
  · by_cases hs : s.tuner.selected = 5
    · simp [hp, hs]
    · simpa [hp, hs] using h hp
  · simp [hp]

/-- `Right` can only move to the next model of the list, `Left` only to the one before. -/
theorem fits_nudge (right : Bool) {models : List Str} {idx : Nat} (h : Fits models idx) :
    Fits models (nudge right idx (idx < models.length) (0 < idx) (idx + 1) (idx - 1)) ↔
      if right then idx < models.length → Fits models (idx + 1)
      else 0 < idx → Fits models (idx - 1) := by
  cases right with
  | true =>
    by_cases hroom : idx < models.length
    · simp [nudge, hroom]
    · simp [nudge, hroom, h]
  | false =>
    by_cases hroom : 0 < idx
    · simp [nudge, hroom]
    · simp [nudge, hroom, h]

theorem nextPage_eq_one {t : Panel} : t.nextPage.page.val = 1 ↔ t.page.val = 0 := by
  have hp : t.nextPage.page.val = (t.page.val + 1) % 3 := rfl
  have := t.page.isLt
  omega

theorem shownFits_applyTuner (fmtF32 : Float32 → Word) (ht : s.showTuner = true) (h : s.ShownFits) :
    (s.applyTuner fmtF32).ShownFits := by
  obtain ⟨hconsole, htuner, -⟩ := s.applyTuner_eq fmtF32
  intro _
  rw [hconsole, htuner]
  exact h ht

theorem showTuner_of_tunerPress {code : KeyCode} (h : s.tunerPress e = some code) :
    s.showTuner = true := by
  cases e with
  | key k => exact (Option.ite_none_right_eq_some.mp h).1.2.2
  | _ => cases h

theorem shownFits_tunerKey {code : KeyCode} (hp : s.tunerPress e = some code) (h : s.ShownFits) :
    (s.cleared.tunerKey fmtF32 code).ShownFits ↔ s.FitsNext e := by
  have ht := showTuner_of_tunerPress hp
  have hadjust (right : Bool) := shownFits_adjust (s := s.cleared) right ht h
  unfold FitsNext
  rw [hp]
  unfold tunerKey
  split
  case h_3 => exact (imp_iff_right ht).trans (imp_congr_left nextPage_eq_one)
  case h_5 => split <;> exact iff_of_true h trivial
  case h_6 =>
    refine (hadjust false).trans (forall_congr' fun hpage => forall_congr' fun _ => ?_)
    exact (fits_nudge false (h ht hpage)).trans (by simp)
  case h_7 =>
    refine (hadjust true).trans (forall_congr' fun hpage => forall_congr' fun _ => ?_)
    exact (fits_nudge true (h ht hpage)).trans (by simp)
  case h_8 => exact iff_of_true (shownFits_applyTuner (s := s.cleared) fmtF32 ht h) trivial
  case h_9 => cases code <;> first | exact iff_of_true h trivial | contradiction
  all_goals exact iff_of_true (by first | exact h | exact nofun) trivial

theorem availableModels_modelsFetched (a : App) (models : List Str) :
    (a.modelsFetched models).availableModels = models := by
  cases models with
  | nil =>
    obtain ⟨i, hi⟩ := clampDeck_eq { a with availableModels := [] }
    rw [modelsFetched, hi]
  | cons first rest => exact (selected_modelsFetched a (List.cons_ne_nil first rest)).1

theorem availableModels_hotSwapKey (a : App) (k : App.Key) :
    (a.hotSwapKey k).availableModels = a.availableModels := by
  cases k with
  | enter =>
    unfold hotSwapKey
    dsimp only
    split <;> rfl
  | _ => rfl

/-- The list after an event. -/
def fetched (models : List Str) : Event → List Str
  | .modelsFetched new => new
  | _ => models

theorem availableModels_handle (h : s.handle fmtF32 e = some t) :
    t.console.availableModels = fetched s.console.availableModels e := by
  have hc := consoleTurn_handle h
  generalize t.console = a at hc ⊢
  cases hc with
  | hotSwap k => exact availableModels_hotSwapKey ..
  | interrogator k a hr hm ha => exact (typed_interrogatorKey ha).models
  | aside => rfl
  | draw f => split <;> rfl
  | fetched models => exact availableModels_modelsFetched ..
  | report e he => cases e <;> first | rfl | cases he

theorem shouldQuit_of_handle (h : s.handle fmtF32 e = some t) : s.shouldQuit = false := by
  unfold handle at h
  split at h
  · cases h
  · rename_i hq
    simpa using hq

theorem shownFits_aside (hh : s.handle fmtF32 e = some t) (h : s.ShownFits)
    (hp : s.tunerPress e = none) (ht : TunerFrame s t (s.opensTuner e)) :
    t.ShownFits ↔ s.FitsNext e := by
  have hq := shouldQuit_of_handle hh
  have hmodels := availableModels_handle hh
  have opened (hsame : t.console.availableModels = s.console.availableModels) : t.ShownFits ↔
      (s.opensTuner e = true → s.tuner.page.val = 1 →
        Fits s.console.availableModels s.tuner.draftModelIdx) := by
    unfold ShownFits
    rw [hsame, ht.tuner, ht.showTuner, Bool.or_eq_true, or_imp]
    exact and_iff_right h
  unfold FitsNext
  rw [hp]
  cases e with
  | modelsFetched models =>
    have hshown : t.showTuner = s.showTuner := ht.showTuner.trans (Bool.or_false _)
    unfold ShownFits
    rw [hmodels, ht.tuner, hshown]
    exact (imp_iff_right hq).symm
  | _ => exact opened hmodels

/-- One turn leaves the page such that it can be shown exactly when it does nothing to it that
cannot be. -/
theorem shownFits_handle (h : s.ShownFits) (hh : s.handle fmtF32 e = some t) :
    t.ShownFits ↔ s.FitsNext e := by
  cases tunerTurn_of_handle hh with
  | press hp => exact shownFits_tunerKey hp h
  | aside hp ht => exact shownFits_aside hh h hp ht

theorem handleKey_dashboard (h : s.reachesDashboard = true) (k : KeyInput) :
    s.handleKey fmtF32 k = some (s.dashboardKey k) := by
  simp only [reachesDashboard, reachesTuner, Bool.and_eq_true, Bool.not_eq_true'] at h
  obtain ⟨⟨⟨⟨⟨hp, hi⟩, ht⟩, hf⟩, hh⟩, hs⟩ := h
  have hp : s.pendingKill = none := by simpa using hp
  simp [handleKey, hp, hi, ht, hf, hh, hs]

/-- Where the loop ends, or the console panics, nothing comes on the screen. -/
theorem fitsNext_of_none (h : s.handle fmtF32 e = none) : s.FitsNext e := by
  have hp : s.tunerPress e = none := by
    by_contra hne
    obtain ⟨code, hcode⟩ := Option.ne_none_iff_exists'.mp hne
    cases (handle_of_tunerPress hcode).symm.trans h
  unfold FitsNext
  rw [hp]
  cases e with
  | modelsFetched models =>
    intro hq
    rw [handle, if_neg (by simp [hq])] at h
    cases h
  | key k =>
    intro ho
    simp only [opensTuner, Bool.and_eq_true, Bool.not_eq_true'] at ho
    rw [handle, if_neg (by simp [ho.1.1])] at h
    cases (handleKey_dashboard (s := s.cleared) ho.1.2 k).symm.trans h
  | _ =>
    intro ho
    cases ho

/-- **The tuner is drawn** after every turn of a run of the loop exactly when no turn of the run leaves
a draft model on the screen that is past the end of the list or cannot be cut after 15 bytes. -/
theorem draws_iff (fmtF32 : Float32 → Word) (fmt1 : Float32 → Str) (l : Launch) (es : List Event) :
    (State.new l).Draws fmt1 ∧
      (Machine.Along (handle fmtF32) (fun s e => ∀ t, s.handle fmtF32 e = some t → t.Draws fmt1)
          (.new l) es ↔
        Machine.Along (handle fmtF32) FitsNext (.new l) es) := by
  have hnew : (State.new l).ShownFits := nofun
  refine ⟨draws_iff_fits.mpr hnew, fun h => ?_, fun h => ?_⟩
  · refine Machine.along_of_inv (P := ShownFits) ?_ ?_ h hnew
    · exact fun s e t _ hd ht => draws_iff_fits.mp (hd t ht)
    · intro s e hs hd
      cases ht : s.handle fmtF32 e with
      | none => exact fitsNext_of_none ht
      | some t => exact (shownFits_handle hs ht).mp (draws_iff_fits.mp (hd t ht))
  · refine Machine.along_of_inv (P := ShownFits) ?_ ?_ h hnew
    · exact fun s e t hs hf ht => (shownFits_handle hs ht).mpr hf
    · exact fun s e hs hf t ht => draws_iff_fits.mpr ((shownFits_handle hs ht).mpr hf)

/-- Three models are found, and the last of them is the draft model. -/
def sampleDraft : List Event :=
  .modelsFetched ["a", "b", "c"] ::
    sampleTuner [.tab, .down, .down, .down, .down, .down, .right, .right, .right]

/-- One model is found whose 15th byte is the first of an `é`. -/
def sampleAccent : List Event :=
  .modelsFetched ["aaaaaaaaaaaaaaébbb"] :: sampleTuner [.tab, .down, .down, .down, .down, .down]

/-- The last of three models is selected when a fetch finds only one of them; and an id that cannot be
cut is selected. -/
theorem not_draws_stale :
    (¬ Machine.Along (handle fmtOne)
      (fun s e => ∀ t, s.handle fmtOne e = some t → t.Draws fun _ => "1.0") (.new sampleLaunch)
      (sampleDraft ++ [.modelsFetched ["a"]])) ∧
    ¬ Machine.Along (handle fmtOne)
      (fun s e => ∀ t, s.handle fmtOne e = some t → t.Draws fun _ => "1.0") (.new sampleLaunch)
      (sampleAccent ++ [.key (sampleKey .right)]) := by
  have panics {es : List Event} {e : Event}
      (hrun : ((Machine.run (handle fmtOne) (.new sampleLaunch) es).bind fun s =>
        (s.handle fmtOne e).map fun t => t.drawTuner fun _ => "1.0") = some none) :
      ¬ Machine.Along (handle fmtOne)
        (fun s e => ∀ t, s.handle fmtOne e = some t → t.Draws fun _ => "1.0") (.new sampleLaunch)
        (es ++ [e]) := by
    intro h
    obtain ⟨s, hs, hrun⟩ := Option.bind_eq_some_iff.mp hrun
    obtain ⟨t, ht, hnone⟩ := Option.map_eq_some_iff.mp hrun
    exact ((h.at hs) t ht).drawn hnone
  exact ⟨panics (by decide +kernel), panics (by decide +kernel)⟩

end State

end Saltnitor.Main
