import Saltnitor.Main.HotSwap

/-!
# The crash dump

A poll without a sample leaves the GPU's old numbers and marks them unmeasured. The
panes look at the mark; the crash dump does not. `TruthfulDump` compares the dumps of two
states that differ in these numbers only; `dump_truthful_iff` says after which runs
they are the same when the numbers are not measured.
-/

namespace Saltnitor.Main

open Rust App Process Tuner

/-- What the polls among the events say of the GPU. -/
def polls (es : List Event) : List (Option GpuSample) :=
  es.filterMap fun
    | .hardwareUpdate _ _ gpu _ _ => some gpu
    | _ => none

/-- Other numbers for the GPU, everything else as before. -/
def withGpu (g : Gauges) (vramUsed : F64) (temp : Int) (power : Str) : Gauges :=
  { g with vramUsed := vramUsed, gpuTemp := temp, gpuPower := power }

namespace State

variable {fmtF32 : Float32 → Word} {s t u : State} {e : Event} {es : List Event}

/-- The body of the dump that Ctrl+D writes. -/
def dump (s : State) (timestamp : Str) (g : Gauges) : Str :=
  crashDumpText timestamp s.console.activeModel g s.logs

theorem mem_crashDump (timestamp : Str) (home : Option Str) :
    ∃ path, .crashDump path (s.dump timestamp s.gauges) ∈ (s.crashDump timestamp home).spawned :=
  ⟨_, List.mem_append_right _ (List.mem_singleton_self _)⟩

/-- What is not measured is not in the dump: other numbers in its place make the same dump. -/
def TruthfulDump (s : State) : Prop :=
  s.gauges.gpuMeasured = false → ∀ timestamp vramUsed temp power,
    s.dump timestamp (withGpu s.gauges vramUsed temp power) = s.dump timestamp s.gauges

/-! ## What a turn does to the gauges -/

theorem gauges_setConsole (s : State) (a : App) : (s.setConsole a).gauges = s.gauges := by
  obtain ⟨logs, spawned, h⟩ := foldl_perform_eq { s with console := { a with effects := [] } } a.effects
  rw [setConsole, h]

theorem gauges_consoleKey {code : KeyCode} (h : s.consoleKey code = some t) : t.gauges = s.gauges := by
  unfold consoleKey at h
  split at h
  · cases h
    exact gauges_setConsole ..
  · obtain ⟨a, -, rfl⟩ := Option.map_eq_some_iff.mp h
    exact gauges_setConsole ..

theorem gauges_tunerKey (s : State) (code : KeyCode) :
    (s.tunerKey fmtF32 code).gauges = s.gauges := by
  unfold tunerKey
  split <;> first | rfl | (split <;> rfl) | (unfold applyTuner; split <;> first | rfl | (split <;> rfl))

theorem gauges_handleKey {k : KeyInput} (h : s.handleKey fmtF32 k = some t) : t.gauges = s.gauges := by
  cases keyTurn_of_handleKey h with
  | tuner => exact gauges_tunerKey ..
  | deck _ h => exact gauges_consoleKey h
  | aside _ h => exact h.gauges

/-- Whether the numbers are measured is up to the last poll. -/
theorem measured_handle (h : s.handle fmtF32 e = some t) : t.gauges.gpuMeasured =
    (polls [e]).foldl (fun _ gpu => gpu.isSome) s.gauges.gpuMeasured := by
  unfold handle at h
  split at h
  · cases h
  · unfold receive at h
    cases e with
    | key k => exact congrArg Gauges.gpuMeasured (gauges_handleKey (s := s.cleared) h)
    | hardwareUpdate ramUsed cpuLoad gpu processes users =>
      cases h
      cases gpu <;> rfl
    | _ => cases h; rfl

theorem measured_run (h : Machine.run (handle fmtF32) s es = some t) : t.gauges.gpuMeasured =
    (polls es).foldl (fun _ gpu => gpu.isSome) s.gauges.gpuMeasured := by
  induction es generalizing s with
  | nil =>
    cases h
    rfl
  | cons e es ih =>
    obtain ⟨u, hu, hr⟩ := Machine.run_cons_eq_some.mp h
    have hcons : polls (e :: es) = polls [e] ++ polls es := List.filterMap_append (l := [e])
    rw [ih hr, measured_handle hu, hcons, List.foldl_append]

/-! ## The dump -/

theorem dump_power {timestamp : Str} {g : Gauges} {vramUsed : F64} {temp : Int} {power power' : Str}
    (h : s.dump timestamp (withGpu g vramUsed temp power) =
      s.dump timestamp (withGpu g vramUsed temp power')) : power = power' := by
  unfold dump crashDumpText crashDumpHeader withGpu at h
  dsimp only at h
  rwa [List.append_left_inj, List.append_left_inj, List.append_left_inj, List.append_left_inj,
    List.append_right_inj] at h

theorem truthfulDump_iff : s.TruthfulDump ↔ s.gauges.gpuMeasured = true := by
  constructor
  · intro h
    by_contra hm
    have hpower : s.gauges.gpuPower ++ ['W'] = s.gauges.gpuPower :=
      dump_power (h (Bool.eq_false_of_not_eq_true hm) [] s.gauges.vramUsed s.gauges.gpuTemp _)
    simp at hpower
  · intro h hm
    rw [h] at hm
    cases hm

/-- **What is not measured is kept out of the dump** if and only if the last poll was measured: never
when there is something to keep out. -/
theorem dump_truthful_iff (l : Launch) (h : Machine.run (handle fmtF32) (.new l) es = some t) :
    t.TruthfulDump ↔ ∃ sample, (polls es).getLast? = some (some sample) := by
  rw [truthfulDump_iff, measured_run h]
  rcases List.eq_nil_or_concat (polls es) with hp | ⟨before, gpu, hp⟩
  · rw [hp]
    exact iff_of_false Bool.false_ne_true (by simp)
  · rw [hp, List.concat_eq_append, List.foldl_concat, List.getLast?_concat, Option.isSome_iff_exists]
    exact exists_congr fun _ => Option.some_inj.symm

end State

/-- One sample, and a poll without one. -/
def sampleOutage : List Event :=
  [.hardwareUpdate (.fin 8) 5 (some { vramUsedGb := .fin 6, tempC := 55, power := "120.5W / 170.0W" }) [] [],
    .hardwareUpdate (.fin 8) 5 none [] []]

theorem dump_truthful_sample :
    ∃ t, Machine.run (State.handle fmtOne) (.new sampleLaunch) (sampleOutage.take 1) = some t ∧
      t.TruthfulDump := by
  have hrun : (Machine.run (State.handle fmtOne) (.new sampleLaunch) (sampleOutage.take 1)).isSome =
      true := by decide +kernel
  obtain ⟨t, ht⟩ := Option.isSome_iff_exists.mp hrun
  exact ⟨t, ht, (State.dump_truthful_iff sampleLaunch ht).mpr ⟨_, rfl⟩⟩

/-- The dump of an outage: the old temperature, not measured any more. -/
theorem not_truthful_outage :
    ∃ t, Machine.run (State.handle fmtOne) (.new sampleLaunch) sampleOutage = some t ∧
      ¬ t.TruthfulDump ∧ t.gauges.gpuMeasured = false ∧
      ("GPU TEMP:     55 C" : Str) <:+: t.dump "2026" t.gauges := by
  have hrun : (Machine.run (State.handle fmtOne) (.new sampleLaunch) sampleOutage).map (fun t =>
      (t.gauges.gpuMeasured, decide (("GPU TEMP:     55 C" : Str) <:+: t.dump "2026" t.gauges))) =
      some (false, true) := by decide +kernel
  obtain ⟨t, ht, hh⟩ := Option.map_eq_some_iff.mp hrun
  obtain ⟨hm, hd⟩ := Prod.mk.inj hh
  refine ⟨t, ht, fun h => ?_, hm, of_decide_eq_true hd⟩
  rw [State.truthfulDump_iff, hm] at h
  cases h

end Saltnitor.Main
