import Mathlib.Algebra.Order.Ring.Int
import Saltnitor.Main.HotSwap

/-!
# The tuner's keys

Each key of the open tuner guards the control it moves and no other: what the
controls keep to is `Sound`, and the presses that break it are those that are not
`Careful`. A press that is careful keeps every number exact, too. `TunerTurn` lists
what a turn of the loop can do to the tuner, and `keepsBounds_iff_careful` follows
it along every run.
-/

namespace Saltnitor.Main

open Rust App Process Tuner

/-! ## Numbers of 32 bits -/

/-- One step of `d` up or down, or none, without wrapping. -/
def MovedBy (d : Int) (x y : Int32) : Prop :=
  y.toInt = x.toInt ∨ y.toInt = x.toInt + d ∨ y.toInt = x.toInt - d

/-- Doubled or halved, or neither, without wrapping. -/
def Scaled (x y : Int32) : Prop :=
  y.toInt = x.toInt ∨ y.toInt = x.toInt * 2 ∨ y.toInt = x.toInt / 2

/-- A power of two between `2 ^ lo` and `2 ^ hi`. -/
def Pow2In (lo hi : Nat) (x : Int32) : Prop := ∃ k, lo ≤ k ∧ k ≤ hi ∧ x.toInt = 2 ^ k

theorem MovedBy.refl (d : Int) (x : Int32) : MovedBy d x x := .inl rfl

theorem Scaled.refl (x : Int32) : Scaled x x := .inl rfl

theorem toInt_add_of_lt {x d : Int32} (hd : 0 ≤ d.toInt) (h : x.toInt + d.toInt < 2 ^ 31) :
    (x + d).toInt = x.toInt + d.toInt := by
  have := x.le_toInt
  rw [Int32.toInt_add, Int.bmod_eq_of_le (by omega) (by omega)]

theorem toInt_sub_of_le {x d : Int32} (hd : 0 ≤ d.toInt) (h : -2 ^ 31 ≤ x.toInt - d.toInt) :
    (x - d).toInt = x.toInt - d.toInt := by
  have := x.toInt_lt
  rw [Int32.toInt_sub, Int.bmod_eq_of_le (by omega) (by omega)]

/-- What wraps around is not where it should be. -/
theorem lt_of_movedBy {x d : Int32} (hd : 0 < d.toInt) (h : MovedBy d.toInt x (x + d)) :
    x.toInt + d.toInt < 2 ^ 31 := by
  have hx := x.toInt_lt
  have hd' := d.toInt_lt
  by_contra hge
  have hwrap : (x + d).toInt = x.toInt + d.toInt - 2 ^ 32 := by
    rw [Int32.toInt_add, Int.bmod_def]
    split <;> omega
  rcases h with h | h | h <;> rw [hwrap] at h <;> omega

/-- A control that is moved by `d`, up while there is room, down while it is above `l`. -/
theorem movedBy_nudge {right r : Bool} {x d l : Int32} (hd : 0 ≤ d.toInt) (hl : 0 ≤ l.toInt)
    (hup : right = true → r = true → x.toInt + d.toInt < 2 ^ 31) :
    MovedBy d.toInt x (nudge right x r (l < x) (x + d) (x - d)) := by
  have hd' := d.toInt_lt
  unfold nudge
  split_ifs with h hdown
  · rw [Bool.and_eq_true] at h
    exact .inr (.inl (toInt_add_of_lt hd (hup h.1 h.2)))
  · simp only [Bool.and_eq_true, decide_eq_true_eq, Int32.lt_iff_toInt_lt] at hdown
    exact .inr (.inr (toInt_sub_of_le hd (by omega)))
  · exact .refl _ _

theorem toInt_mul_two {lo hi : Nat} {x : Int32} (h : Pow2In lo hi x) (hhi : hi < 30) :
    (x * 2).toInt = x.toInt * 2 := by
  obtain ⟨k, -, hk, hx⟩ := h
  have hle : (2 : Int) ^ k ≤ 2 ^ 29 := pow_le_pow_right₀ (by decide) (by omega)
  have hpos : (0 : Int) < 2 ^ k := pow_pos (by decide) k
  have h2 : (2 : Int32).toInt = 2 := rfl
  rw [Int32.toInt_mul, h2, Int.bmod_eq_of_le (by omega) (by omega)]

theorem toInt_div_two {lo hi : Nat} {x : Int32} (h : Pow2In lo hi x) :
    (x / 2).toInt = x.toInt / 2 := by
  obtain ⟨k, -, -, hx⟩ := h
  have hpos : (0 : Int) < 2 ^ k := pow_pos (by decide) k
  have h2 : (2 : Int32).toInt = 2 := rfl
  rw [Int32.toInt_div_of_ne_right _ _ (by decide), h2, Int.tdiv_eq_ediv_of_nonneg (by omega)]

theorem Pow2In.mul_two {lo hi : Nat} {x : Int32} (h : Pow2In lo hi x) (hhi : hi < 30)
    (hlt : x.toInt < 2 ^ hi) : Pow2In lo hi (x * 2) := by
  have heq := toInt_mul_two h hhi
  obtain ⟨k, hlo, hk, hx⟩ := h
  have hk' : k < hi := by
    by_contra hge
    obtain rfl : k = hi := by omega
    omega
  exact ⟨k + 1, by omega, by omega, by rw [heq, hx, pow_succ]⟩

theorem Pow2In.div_two {lo hi : Nat} {x : Int32} (h : Pow2In lo hi x) (hlt : 2 ^ lo < x.toInt) :
    Pow2In lo hi (x / 2) := by
  have heq := toInt_div_two h
  obtain ⟨k, hlo, hk, hx⟩ := h
  have hk' : lo < k := by
    by_contra hge
    obtain rfl : k = lo := by omega
    omega
  obtain ⟨j, rfl⟩ : ∃ j, k = j + 1 := ⟨k - 1, by omega⟩
  refine ⟨j, by omega, by omega, ?_⟩
  rw [heq, hx, pow_succ]
  omega

theorem Pow2In.mul_two_le {lo hi lo' hi' : Nat} {x y : Int32} (hx : Pow2In lo hi x)
    (hy : Pow2In lo' hi' y) (h : x.toInt < y.toInt) : x.toInt * 2 ≤ y.toInt := by
  obtain ⟨j, -, -, hj⟩ := hx
  obtain ⟨k, -, -, hk⟩ := hy
  rw [hj, hk] at h ⊢
  have hjk : j < k := (pow_lt_pow_iff_right₀ (by decide)).mp h
  rw [← pow_succ]
  exact pow_le_pow_right₀ (by decide) hjk

/-! ## What the controls keep to -/

/-- The controls are in their ranges, and the micro-batch is no larger than the batch. -/
structure Sound (cores : Nat) (t : Panel) : Prop where
  batch : Pow2In 7 13 t.currentBatch
  ubatch : Pow2In 5 13 t.ubatchSize
  ubatch_le : t.ubatchSize.toInt ≤ t.currentBatch.toInt
  threads : 1 ≤ t.currentThreads ∧ t.currentThreads ≤ cores
  threadsBatch : 1 ≤ t.threadsBatch ∧ t.threadsBatch ≤ cores
  cacheK : t.cacheKIdx.val < cacheTypes.length
  cacheV : t.cacheVIdx.val < cacheTypes.length
  selected : t.selected ≤ lastRow t.page

/-- Every 32-bit control of `u` is that of `t` or one step away from it, not wrapped around. -/
structure Exact (t u : Panel) : Prop where
  ctx : MovedBy 1024 t.currentCtx u.currentCtx
  batch : Scaled t.currentBatch u.currentBatch
  parallel : MovedBy 1 t.currentParallel u.currentParallel
  ropeBase : MovedBy 10000 t.ropeBase u.ropeBase
  draftMax : MovedBy 1 t.draftMax u.draftMax
  draftMin : MovedBy 1 t.draftMin u.draftMin
  ubatch : Scaled t.ubatchSize u.ubatchSize

/-- `Left` does not take the batch below the micro-batch, and `Right` does not take a control that
has no upper bound over the end of its type. -/
structure Careful (right : Bool) (t : Panel) : Prop where
  batch : right = false → t.page.val = 0 → t.selected = 3 → 128 < t.currentBatch.toInt →
    t.ubatchSize.toInt * 2 ≤ t.currentBatch.toInt
  ropeBase : right = true → t.page.val = 1 → t.selected = 0 → t.ropeBase.toInt + 10000 < 2 ^ 31
  draftMax : right = true → t.page.val = 1 → t.selected = 3 → t.draftMax.toInt + 1 < 2 ^ 31
  draftMin : right = true → t.page.val = 1 → t.selected = 4 → t.draftMin.toInt + 1 < 2 ^ 31

instance (right : Bool) (t : Panel) : Decidable (Careful right t) :=
  decidable_of_iff
    ((right = false → t.page.val = 0 → t.selected = 3 → 128 < t.currentBatch.toInt →
      t.ubatchSize.toInt * 2 ≤ t.currentBatch.toInt) ∧
    (right = true → t.page.val = 1 → t.selected = 0 → t.ropeBase.toInt + 10000 < 2 ^ 31) ∧
    (right = true → t.page.val = 1 → t.selected = 3 → t.draftMax.toInt + 1 < 2 ^ 31) ∧
    (right = true → t.page.val = 1 → t.selected = 4 → t.draftMin.toInt + 1 < 2 ^ 31))
    ⟨fun h => ⟨h.1, h.2.1, h.2.2.1, h.2.2.2⟩, fun h => ⟨h.1, h.2, h.3, h.4⟩⟩

variable {right : Bool} {cores : Nat} {a : App} {t : Panel}

theorem Exact.refl (t : Panel) : Exact t t :=
  ⟨.refl _ _, .refl _, .refl _ _, .refl _ _, .refl _ _, .refl _ _, .refl _⟩

theorem sound_new (hc : 1 ≤ cores) (ctx : Int32) : Sound cores (.new cores ctx) where
  batch := ⟨9, by decide, by decide, rfl⟩
  ubatch := ⟨7, by decide, by decide, rfl⟩
  ubatch_le := show (128 : Int32).toInt ≤ (512 : Int32).toInt by decide
  threads := by simp only [Panel.new]; omega
  threadsBatch := ⟨hc, le_refl cores⟩
  cacheK := show 0 < cacheTypes.length by decide
  cacheV := show 0 < cacheTypes.length by decide
  selected := Nat.zero_le _

theorem nudge_threads {n : Nat} (h : 1 ≤ n ∧ n ≤ cores) :
    1 ≤ nudge right n (n < cores) (1 < n) (n + 1) (n - 1) ∧
      nudge right n (n < cores) (1 < n) (n + 1) (n - 1) ≤ cores := by
  unfold nudge
  split_ifs with hup hdown
  · simp only [Bool.and_eq_true, decide_eq_true_eq] at hup
    omega
  · simp only [Bool.and_eq_true, decide_eq_true_eq] at hdown
    omega
  · exact h

theorem nudge_batch (h : Sound cores t)
    (hc : right = false → 128 < t.currentBatch.toInt →
      t.ubatchSize.toInt * 2 ≤ t.currentBatch.toInt) {b : Int32}
    (hb : b = nudge right t.currentBatch (t.currentBatch < 8192) (128 < t.currentBatch)
      (t.currentBatch * 2) (t.currentBatch / 2)) :
    Pow2In 7 13 b ∧ t.ubatchSize.toInt ≤ b.toInt ∧ Scaled t.currentBatch b := by
  have h8192 : (8192 : Int32).toInt = 2 ^ 13 := rfl
  have h128 : (128 : Int32).toInt = 2 ^ 7 := rfl
  have hle := h.ubatch_le
  have hdouble := toInt_mul_two h.batch (by decide)
  have hhalf := toInt_div_two h.batch
  obtain ⟨k, -, -, hk⟩ := h.ubatch
  have hpos : (0 : Int) < 2 ^ k := pow_pos (by decide) k
  subst hb
  unfold nudge
  split_ifs with hup hdown
  · simp only [Bool.and_eq_true, decide_eq_true_eq, Int32.lt_iff_toInt_lt, h8192] at hup
    exact ⟨h.batch.mul_two (by decide) hup.2, by omega, .inr (.inl hdouble)⟩
  · simp only [Bool.and_eq_true, decide_eq_true_eq, Int32.lt_iff_toInt_lt, h128,
      Bool.not_eq_true'] at hdown
    have := hc hdown.1 hdown.2
    exact ⟨h.batch.div_two hdown.2, by omega, .inr (.inr hhalf)⟩
  · exact ⟨h.batch, hle, .refl _⟩

theorem nudge_ubatch (right : Bool) (h : Sound cores t) {u : Int32}
    (hu : u = nudge right t.ubatchSize (t.ubatchSize < t.currentBatch) (32 < t.ubatchSize)
      (t.ubatchSize * 2) (t.ubatchSize / 2)) :
    Pow2In 5 13 u ∧ u.toInt ≤ t.currentBatch.toInt ∧ Scaled t.ubatchSize u := by
  have h32 : (32 : Int32).toInt = 2 ^ 5 := rfl
  have hle := h.ubatch_le
  have hdouble := toInt_mul_two h.ubatch (by decide)
  have hhalf := toInt_div_two h.ubatch
  obtain ⟨k, -, hk, hbatch⟩ := h.batch
  have hmax : (2 : Int) ^ k ≤ 2 ^ 13 := pow_le_pow_right₀ (by decide) hk
  subst hu
  unfold nudge
  split_ifs with hup hdown
  · simp only [Bool.and_eq_true, decide_eq_true_eq, Int32.lt_iff_toInt_lt] at hup
    have := h.ubatch.mul_two_le h.batch hup.2
    exact ⟨h.ubatch.mul_two (by decide) (by omega), by omega, .inr (.inl hdouble)⟩
  · simp only [Bool.and_eq_true, decide_eq_true_eq, Int32.lt_iff_toInt_lt, h32,
      Bool.not_eq_true'] at hdown
    exact ⟨h.ubatch.div_two hdown.2, by omega, .inr (.inr hhalf)⟩
  · exact ⟨h.ubatch, hle, .refl _⟩

theorem sound_adjust (h : Sound cores t) (hc : Careful right t) :
    Sound cores (adjust right cores a t).2 ∧ Exact t (adjust right cores a t).2 := by
  unfold adjust
  split
  case h_2 =>
    refine ⟨{ h with }, { Exact.refl t with ctx := ?_ }⟩
    refine movedBy_nudge (d := 1024) (l := 1024) (by decide) (by decide) fun _ hup => ?_
    have h' : t.currentCtx.toInt < 131072 := by simpa [Int32.lt_iff_toInt_lt] using hup
    change t.currentCtx.toInt + 1024 < 2 ^ 31
    omega
  case h_3 => exact ⟨{ h with threads := nudge_threads h.threads }, { Exact.refl t with }⟩
  case h_4 hp hs =>
    obtain ⟨hpow, hle, hscaled⟩ :=
      nudge_batch h (fun hr => hc.batch hr (congrArg Fin.val hp) hs) rfl
    exact ⟨{ h with batch := hpow, ubatch_le := hle }, { Exact.refl t with batch := hscaled }⟩
  case h_5 =>
    refine ⟨{ h with }, { Exact.refl t with parallel := ?_ }⟩
    refine movedBy_nudge (d := 1) (l := 1) (by decide) (by decide) fun _ hup => ?_
    have h' : t.currentParallel.toInt < 16 := by simpa [Int32.lt_iff_toInt_lt] using hup
    change t.currentParallel.toInt + 1 < 2 ^ 31
    omega
  case h_9 => exact ⟨{ h with cacheK := (nudgeIdx right t.cacheKIdx).isLt }, { Exact.refl t with }⟩
  case h_10 => exact ⟨{ h with cacheV := (nudgeIdx right t.cacheVIdx).isLt }, { Exact.refl t with }⟩
  case h_11 hp hs =>
    have hmoved := movedBy_nudge (d := 10000) (l := 10000) (r := true) (by decide) (by decide)
      fun hr _ => hc.ropeBase hr (congrArg Fin.val hp) hs
    exact ⟨{ h with }, { Exact.refl t with ropeBase := hmoved }⟩
  case h_14 hp hs =>
    have hmoved := movedBy_nudge (d := 1) (l := 1) (r := true) (by decide) (by decide)
      fun hr _ => hc.draftMax hr (congrArg Fin.val hp) hs
    exact ⟨{ h with }, { Exact.refl t with draftMax := hmoved }⟩
  case h_15 hp hs =>
    have hmoved := movedBy_nudge (d := 1) (l := 1) (r := true) (by decide) (by decide)
      fun hr _ => hc.draftMin hr (congrArg Fin.val hp) hs
    exact ⟨{ h with }, { Exact.refl t with draftMin := hmoved }⟩
  case h_17 => exact ⟨{ h with threadsBatch := nudge_threads h.threadsBatch }, { Exact.refl t with }⟩
  case h_18 =>
    obtain ⟨hpow, hle, hscaled⟩ := nudge_ubatch right h rfl
    exact ⟨{ h with ubatch := hpow, ubatch_le := hle }, { Exact.refl t with ubatch := hscaled }⟩
  -- the rows that are no number, and the numbers of the app and of the models
  all_goals exact ⟨{ h with }, { Exact.refl t with }⟩

/-- A press after which the bounds hold and nothing is wrapped around was careful. -/
theorem careful_of_adjust (h : Sound cores t) (hs : Sound cores (adjust right cores a t).2)
    (he : Exact t (adjust right cores a t).2) : Careful right t where
  batch hr hp hsel hlt := by
    have hp' : t.page = 0 := Fin.ext hp
    have hroom : 128 < t.currentBatch := Int32.lt_iff_toInt_lt.mpr hlt
    have hle : t.ubatchSize.toInt ≤ (t.currentBatch / 2).toInt := by
      simpa [adjust, hp', hsel, hr, nudge, hroom] using hs.ubatch_le
    rw [toInt_div_two h.batch] at hle
    omega
  ropeBase hr hp hsel := by
    have hp' : t.page = 1 := Fin.ext hp
    have hmoved : MovedBy 10000 t.ropeBase (t.ropeBase + 10000) := by
      simpa [adjust, hp', hsel, hr, nudge] using he.ropeBase
    exact lt_of_movedBy (d := 10000) (by decide) hmoved
  draftMax hr hp hsel := by
    have hp' : t.page = 1 := Fin.ext hp
    have hmoved : MovedBy 1 t.draftMax (t.draftMax + 1) := by
      simpa [adjust, hp', hsel, hr, nudge] using he.draftMax
    exact lt_of_movedBy (d := 1) (by decide) hmoved
  draftMin hr hp hsel := by
    have hp' : t.page = 1 := Fin.ext hp
    have hmoved : MovedBy 1 t.draftMin (t.draftMin + 1) := by
      simpa [adjust, hp', hsel, hr, nudge] using he.draftMin
    exact lt_of_movedBy (d := 1) (by decide) hmoved

/-! ## What a turn does to the tuner -/

namespace State

/-- A key goes past the tuner and the console, and nothing on the dashboard takes it. -/
def reachesDashboard (s : State) : Bool :=
  s.reachesTuner && !s.showTuner && !s.console.consoleFocused && !s.showHelp && !s.isSearching

/-- The key with which an event reaches the open tuner. -/
def tunerPress (s : State) : Event → Option KeyCode
  | .key k =>
    if s.shouldQuit = false ∧ s.reachesTuner = true ∧ s.showTuner = true then some k.key.code
    else none
  | _ => none

/-- The event opens the tuner. -/
def opensTuner (s : State) : Event → Bool
  | .key k => !s.shouldQuit && s.reachesDashboard && decide (k.key.code = .char 't')
  | _ => false

/-- The controls are as before, and the tuner is only opened, if at all. -/
structure TunerFrame (s t : State) (opened : Bool) : Prop where
  tuner : t.tuner = s.tuner
  cpuCoreCount : t.cpuCoreCount = s.cpuCoreCount
  showTuner : t.showTuner = (s.showTuner || opened)

/-- What a turn does to the tuner. -/
inductive TunerTurn (fmtF32 : Float32 → Word) (s : State) (e : Event) : State → Prop
  | press {code : KeyCode} (h : s.tunerPress e = some code) :
    TunerTurn fmtF32 s e (s.cleared.tunerKey fmtF32 code)
  | aside {t : State} (h : s.tunerPress e = none) (ht : TunerFrame s t (s.opensTuner e)) :
    TunerTurn fmtF32 s e t

variable {fmtF32 : Float32 → Word} {s t : State} {e : Event}

theorem TunerFrame.same (ht : t.tuner = s.tuner) (hc : t.cpuCoreCount = s.cpuCoreCount)
    (hs : t.showTuner = s.showTuner) : TunerFrame s t false :=
  ⟨ht, hc, by rw [hs, Bool.or_false]⟩

theorem tunerFrame_consoleKey {code : KeyCode} (h : s.consoleKey code = some t) :
    TunerFrame s t false := by
  have hset (a : App) : TunerFrame s (s.setConsole a) false := by
    obtain ⟨logs, spawned, hp⟩ :=
      foldl_perform_eq { s with console := { a with effects := [] } } a.effects
    rw [setConsole, hp]
    exact .same rfl rfl rfl
  unfold consoleKey at h
  split at h
  · cases h
    exact hset _
  · obtain ⟨a, -, rfl⟩ := Option.map_eq_some_iff.mp h
    exact hset a

theorem tunerFrame_inspectorKey (s : State) (pane : ProcPane) (opened : Except Errno Nat)
    (k : ProcKey) : TunerFrame s (s.inspectorKey pane opened k) false := by
  cases k with
  | close | terminate | kill =>
    unfold inspectorKey
    dsimp only
    split <;> exact .same rfl rfl rfl
  | up | down | other => exact .same rfl rfl rfl

/-- Only `t` on the dashboard opens the tuner. -/
theorem tunerFrame_dashboardKey (hs : s.showTuner = false) (k : KeyInput) :
    TunerFrame s (s.dashboardKey k) (decide (k.key.code = .char 't')) := by
  by_cases hk : k.key.code = .char 't'
  · rw [decide_eq_true hk, dashboardKey, hk]
    exact ⟨rfl, rfl, by rw [hs]; rfl⟩
  rw [decide_eq_false hk]
  unfold dashboardKey
  dsimp only
  split
  case h_6 ht => exact absurd ht hk
  case h_15 => split <;> exact .same rfl rfl rfl
  case h_16 => split <;> exact .same rfl rfl rfl
  all_goals exact .same rfl rfl rfl

theorem tunerFrame_handleKey {k : KeyInput} (hn : ¬ (s.reachesTuner = true ∧ s.showTuner = true))
    (h : s.handleKey fmtF32 k = some t) :
    TunerFrame s t (s.reachesDashboard && decide (k.key.code = .char 't')) := by
  unfold handleKey at h
  split at h
  · rename_i target hp
    have hd : s.reachesDashboard = false := by simp [reachesDashboard, reachesTuner, hp]
    rw [hd, Bool.false_and]
    dsimp only at h
    split at h <;> cases h <;> exact .same rfl rfl rfl
  rename_i hp
  split at h
  · rename_i hi
    have hd : s.reachesDashboard = false := by simp [reachesDashboard, reachesTuner, hi]
    rw [hd, Bool.false_and]
    cases h
    exact tunerFrame_inspectorKey ..
  rename_i hi
  have hr : s.reachesTuner = true := by simpa [reachesTuner, hp] using hi
  have hs : s.showTuner = false := by simpa [hr] using hn
  rw [if_neg (by simp [hs])] at h
  split at h
  · rename_i hf
    rw [show s.reachesDashboard = false by simp [reachesDashboard, hf], Bool.false_and]
    exact tunerFrame_consoleKey h
  split at h
  · rename_i hh
    rw [show s.reachesDashboard = false by simp [reachesDashboard, hh], Bool.false_and]
    cases h
    unfold helpKey
    split <;> exact .same rfl rfl rfl
  split at h
  · rename_i hq
    rw [show s.reachesDashboard = false by simp [reachesDashboard, hq], Bool.false_and]
    cases h
    unfold searchKey
    split <;> exact .same rfl rfl rfl
  · rename_i hf hh hq
    rw [show s.reachesDashboard = true by simp [reachesDashboard, hr, hs, hf, hh, hq],
      Bool.true_and]
    cases h
    exact tunerFrame_dashboardKey hs k

/-- **What a turn can do to the tuner.** -/
theorem tunerTurn_of_handle (h : s.handle fmtF32 e = some t) : TunerTurn fmtF32 s e t := by
  unfold handle at h
  split at h
  · cases h
  rename_i hq
  have hq : s.shouldQuit = false := by simpa using hq
  have h : s.cleared.receive fmtF32 e = some t := h
  cases e with
  | key k =>
    by_cases hr : s.reachesTuner = true ∧ s.showTuner = true
    · have hk : s.cleared.handleKey fmtF32 k = some t := h
      rw [handleKey_tuner (s := s.cleared) hr.1 hr.2] at hk
      cases hk
      exact .press (if_pos ⟨hq, hr⟩)
    · refine .aside (if_neg fun hall => hr hall.2) ?_
      have hframe := tunerFrame_handleKey (s := s.cleared) hr h
      rw [opensTuner, hq]
      exact ⟨hframe.tuner, hframe.cpuCoreCount, hframe.showTuner⟩
  | _ =>
    cases h
    exact .aside rfl (.same rfl rfl rfl)

theorem handle_of_tunerPress {code : KeyCode} (h : s.tunerPress e = some code) :
    s.handle fmtF32 e = some (s.cleared.tunerKey fmtF32 code) := by
  cases e with
  | key k =>
    obtain ⟨⟨hq, hr, ht⟩, hcode⟩ := Option.ite_none_right_eq_some.mp h
    cases hcode
    rw [handle, if_neg (by simp [hq])]
    exact handleKey_tuner (s := s.cleared) hr ht k
  | _ => cases h

/-! ## Careful runs -/

/-- The event is no press of an arrow in the tuner, or a careful one. -/
def CarefulPress (s : State) (e : Event) : Prop :=
  match s.tunerPress e with
  | some .left => Careful false s.tuner
  | some .right => Careful true s.tuner
  | _ => True

instance (s : State) (e : Event) : Decidable (s.CarefulPress e) := by
  unfold CarefulPress
  split <;> infer_instance

/-- After the event the bounds hold, and no number was wrapped around by it. -/
def KeepsBounds (fmtF32 : Float32 → Word) (s : State) (e : Event) : Prop :=
  ∀ t, s.handle fmtF32 e = some t → Sound s.cpuCoreCount t.tuner ∧ Exact s.tuner t.tuner

theorem applyTuner_eq (s : State) (fmtF32 : Float32 → Word) : (s.applyTuner fmtF32).console = s.console ∧
    (s.applyTuner fmtF32).tuner = s.tuner ∧ (s.applyTuner fmtF32).cpuCoreCount = s.cpuCoreCount := by
  unfold applyTuner
  split
  · exact ⟨rfl, rfl, rfl⟩
  · split <;> exact ⟨rfl, rfl, rfl⟩

theorem cpuCoreCount_tunerKey (s : State) (fmtF32 : Float32 → Word) (code : KeyCode) :
    (s.tunerKey fmtF32 code).cpuCoreCount = s.cpuCoreCount := by
  unfold tunerKey
  split
  case h_5 => split <;> rfl
  case h_8 => exact (s.applyTuner_eq fmtF32).2.2
  all_goals rfl

theorem cpuCoreCount_handle (h : s.handle fmtF32 e = some t) : t.cpuCoreCount = s.cpuCoreCount := by
  cases tunerTurn_of_handle h with
  | press hp => exact cpuCoreCount_tunerKey s.cleared fmtF32 _
  | aside _ ht => exact ht.cpuCoreCount

theorem sound_select {cores : Nat} {t : Panel} (h : Sound cores t) {n : Nat}
    (hn : n ≤ lastRow t.page) : Sound cores { t with selected := n } :=
  { h with selected := hn }

theorem sound_tunerKey (h : Sound s.cpuCoreCount s.tuner) {code : KeyCode}
    (hl : code = .left → Careful false s.tuner) (hr : code = .right → Careful true s.tuner) :
    Sound s.cpuCoreCount (s.tunerKey fmtF32 code).tuner ∧
      Exact s.tuner (s.tunerKey fmtF32 code).tuner := by
  have same : Sound s.cpuCoreCount s.tuner ∧ Exact s.tuner s.tuner := ⟨h, .refl _⟩
  unfold tunerKey
  split
  case h_3 => exact ⟨{ h with selected := Nat.zero_le _ }, { Exact.refl s.tuner with }⟩
  case h_4 =>
    exact ⟨sound_select h ((Nat.sub_le _ _).trans h.selected), { Exact.refl s.tuner with }⟩
  case h_5 =>
    split
    · exact ⟨sound_select h ‹_›, { Exact.refl s.tuner with }⟩
    · exact same
  case h_6 => exact sound_adjust h (hl rfl)
  case h_7 => exact sound_adjust h (hr rfl)
  case h_8 => rwa [(s.applyTuner_eq fmtF32).2.1]
  all_goals exact same

theorem keepsBounds_of_careful (h : Sound s.cpuCoreCount s.tuner) (hc : s.CarefulPress e) :
    s.KeepsBounds fmtF32 e := by
  intro t ht
  cases tunerTurn_of_handle ht with
  | press hp =>
    rw [CarefulPress, hp] at hc
    exact sound_tunerKey (s := s.cleared) h (fun he => by rw [he] at hc; exact hc)
      fun he => by rw [he] at hc; exact hc
  | aside _ hframe =>
    rw [hframe.tuner]
    exact ⟨h, .refl _⟩

theorem carefulPress_of_keepsBounds (h : Sound s.cpuCoreCount s.tuner)
    (hk : s.KeepsBounds fmtF32 e) : s.CarefulPress e := by
  unfold CarefulPress
  split
  · rename_i hp
    obtain ⟨hs, he⟩ := hk _ (handle_of_tunerPress hp)
    exact careful_of_adjust h hs he
  · rename_i hp
    obtain ⟨hs, he⟩ := hk _ (handle_of_tunerPress hp)
    exact careful_of_adjust h hs he
  · trivial

/-- **The tuner's values stay in their bounds** along a run of the loop exactly when every press that
reaches the tuner in it is careful. -/
theorem keepsBounds_iff_careful (fmtF32 : Float32 → Word) (l : Launch) (hc : 1 ≤ l.cpuCoreCount)
    (es : List Event) :
    Sound l.cpuCoreCount (State.new l).tuner ∧
      (Machine.Along (handle fmtF32) (KeepsBounds fmtF32) (.new l) es ↔
        Machine.Along (handle fmtF32) CarefulPress (.new l) es) := by
  have hnew : Sound l.cpuCoreCount (State.new l).tuner := sound_new hc _
  have hkeep : ∀ s e t, Sound s.cpuCoreCount s.tuner → s.KeepsBounds fmtF32 e →
      handle fmtF32 s e = some t → Sound t.cpuCoreCount t.tuner := by
    intro s e t _ hk ht
    rw [cpuCoreCount_handle ht]
    exact (hk t ht).1
  refine ⟨hnew, fun h => ?_, fun h => ?_⟩
  · exact Machine.along_of_inv hkeep (fun s e hs hk => carefulPress_of_keepsBounds hs hk) h hnew
  · refine Machine.along_of_inv (fun s e t hs hcare => ?_)
      (fun s e hs hcare => keepsBounds_of_careful hs hcare) h hnew
    exact hkeep s e t hs (keepsBounds_of_careful hs hcare)

/-- The batch is lowered once, which leaves it at twice the micro-batch. -/
theorem keepsBounds_lowerBatch :
    1 ≤ sampleLaunch.cpuCoreCount ∧ Machine.Along (handle fmtOne) (KeepsBounds fmtOne)
      (.new sampleLaunch) (sampleTuner [.down, .down, .down, .left]) :=
  ⟨by decide, (keepsBounds_iff_careful fmtOne sampleLaunch (by decide) _).2.mpr (by decide +kernel)⟩

/-- The micro-batch is raised to the batch, 512, and then the batch is lowered to 256. -/
theorem not_keepsBounds_ubatch :
    ¬ Machine.Along (handle fmtOne) (KeepsBounds fmtOne) (.new sampleLaunch)
      (sampleTuner [.tab, .tab, .down, .right, .right, .tab, .down, .down, .down] ++
        [.key (sampleKey .left)]) := by
  intro h
  have hrun : ((Machine.run (handle fmtOne) (.new sampleLaunch)
      (sampleTuner [.tab, .tab, .down, .right, .right, .tab, .down, .down, .down])).bind fun s =>
        (s.handle fmtOne (.key (sampleKey .left))).map fun t =>
          decide (t.tuner.ubatchSize.toInt ≤ t.tuner.currentBatch.toInt)) = some false := by
    decide +kernel
  obtain ⟨s, hs, hrun⟩ := Option.bind_eq_some_iff.mp hrun
  obtain ⟨t, ht, hle⟩ := Option.map_eq_some_iff.mp hrun
  exact of_decide_eq_false hle ((h.at hs) t ht).1.ubatch_le

end State

end Saltnitor.Main
