import Saltnitor.Interrogate.Lines

/-!
# The rates

A data line can carry two rates, one for the prompt and one for what is predicted.
`parseTimings` reads both or neither, so a line whose prompt took no time has no
rate at all. `Truthful` says what the metrics should be, each rate on its own;
`truthful_iff` says when they are: no rate is lost behind the last line that has both.
-/

namespace Saltnitor.Interrogate

open Rust Main

/-! ## One line -/

/-- `n / ms * 1000` of the timings, when both are numbers and the time is positive. -/
def rateOf (n ms : Str) (v : Json) : Option ℚ := do
  let t ← v.member "timings"
  let n ← (← t.member n).asF64
  let ms ← (← t.member ms).asF64
  if 0 < ms then some (n / ms * 1000) else none

def promptRate (v : Json) : Option ℚ := rateOf "prompt_n" "prompt_ms" v

def predictedRate (v : Json) : Option ℚ := rateOf "predicted_n" "predicted_ms" v

theorem rate_eq (t : Json) (n ms : Str) :
    ((t.member n).bind fun a => a.asF64.bind fun n => (t.member ms).bind fun b =>
      b.asF64.bind fun ms => if 0 < ms then
        some ((F64.divBy (.fin n) ms).mul (.fin 1000)) else none) =
      ((t.member n).bind fun a => a.asF64.bind fun n => (t.member ms).bind fun b =>
        b.asF64.bind fun ms => if 0 < ms then some (n / ms * 1000) else none).map F64.fin := by
  have hdiv (n ms : ℚ) : (F64.divBy (.fin n) ms).mul (.fin 1000) = .fin (n / ms * 1000) := by
    rw [F64.divBy, F64.mul, F64.mul, mul_one_div]
  simp only [hdiv, Option.map_bind, Function.comp_def, apply_ite (Option.map F64.fin),
    Option.map_some, Option.map_none]

theorem parseTimings_eq (v : Json) :
    parseTimings v = (promptRate v).bind fun pp => (predictedRate v).map fun tg => (.fin pp, .fin tg) := by
  have hpair (p t : Option ℚ) :
      ((p.map F64.fin).bind fun pp => (t.map F64.fin).bind fun tg => some (pp, tg)) =
        p.bind fun pp => t.map fun tg => (.fin pp, .fin tg) := by
    cases p <;> cases t <;> rfl
  unfold parseTimings promptRate predictedRate rateOf
  cases v.member "timings" with
  | none => rfl
  | some t =>
    simp only [Option.bind_eq_bind, Option.bind_some, rate_eq]
    exact hpair _ _

theorem parseTimings_eq_some {v : Json} {pp tg : F64} (h : parseTimings v = some (pp, tg)) :
    ∃ p t, promptRate v = some p ∧ predictedRate v = some t ∧ pp = .fin p ∧ tg = .fin t := by
  rw [parseTimings_eq] at h
  obtain ⟨p, hp, h⟩ := Option.bind_eq_some_iff.mp h
  obtain ⟨t, ht, h⟩ := Option.map_eq_some_iff.mp h
  cases h
  exact ⟨p, t, hp, ht, rfl, rfl⟩

/-! ## What the metrics should be -/

/-- The events of a transcript, in the order of their lines. -/
def eventsOf (fromStr : Str → Except Str Json) (transcript : Str) : List Json :=
  (lines transcript).filterMap (eventOf fromStr)

/-- The rate of the last line that has one. -/
def lastRate (rate : Json → Option ℚ) (events : List Json) : Option ℚ := (events.filterMap rate).getLast?

/-- Time has passed, and there was content in it. -/
def Estimable (events : List Json) (elapsed : Option Nat) : Prop :=
  (∃ ms, elapsed = some ms ∧ 0 < ms) ∧ ∃ v ∈ events, hasContent v = true

/-- Events with content for each second. -/
def estimate (events : List Json) (elapsed : Option Nat) : ℚ :=
  (events.countP hasContent : ℚ) / (elapsed.getD 0 : ℚ) * 1000

/-- The prompt's rate is the last one measured. So is the other one; without one it is an estimate,
marked as such, or nothing. -/
structure Truthful (events : List Json) (elapsed : Option Nat) (m : Metrics) : Prop where
  prompt : m.ppTps = (lastRate promptRate events).map .fin
  measured : ∀ r, lastRate predictedRate events = some r →
    m.tgTps = some (.fin r) ∧ m.source = .measured
  estimated : lastRate predictedRate events = none → Estimable events elapsed →
    m.tgTps = some (.fin (estimate events elapsed)) ∧ m.source = .estimated
  unavailable : lastRate predictedRate events = none → ¬ Estimable events elapsed →
    m.tgTps = none ∧ m.source ≠ .estimated

theorem Truthful.shown {events : List Json} {elapsed : Option Nat} {m : Metrics}
    (h : Truthful events elapsed m) :
    (∀ r, lastRate predictedRate events = some r →
      (render m.toMetrics).2.2 = ("TG: " : Str) ++ (F64.fin r).fmt1 ++ (" t/s" : Str)) ∧
    (lastRate predictedRate events = none → Estimable events elapsed →
      (render m.toMetrics).2.2 =
        ("TG: " : Str) ++ (F64.fin (estimate events elapsed)).fmt1 ++ (" t/s (est.)" : Str)) ∧
    (lastRate predictedRate events = none → ¬ Estimable events elapsed →
      (render m.toMetrics).2.2 = ("TG: n/a" : Str)) := by
  refine ⟨fun r hr => ?_, fun hn he => ?_, fun hn he => ?_⟩
  · obtain ⟨htg, hs⟩ := h.measured r hr
    simp only [render, htg, hs, reduceCtorEq, if_false]
    exact List.append_nil _
  · obtain ⟨htg, hs⟩ := h.estimated hn he
    simp only [render, htg, hs, if_true, List.append_assoc]
    rfl
  · obtain ⟨htg, -⟩ := h.unavailable hn he
    simp only [render, htg]
    rfl

/-! ## When they are -/

/-- The rates of the last event with both. -/
def paired (events : List Json) : Option (F64 × F64) := (events.filterMap parseTimings).getLast?

/-- The events behind it. -/
def unpaired (events : List Json) : List Json := events.rtakeWhile fun v => (parseTimings v).isNone

/-- A rate behind the last event with both is the same again. -/
structure NoneLost (events : List Json) : Prop where
  prompt : ∀ r, lastRate promptRate (unpaired events) = some r →
    (paired events).map Prod.fst = some (.fin r)
  predicted : ∀ r, lastRate predictedRate (unpaired events) = some r →
    (paired events).map Prod.snd = some (.fin r)

theorem lastRate_append (rate : Json → Option ℚ) (xs ys : List Json) :
    lastRate rate (xs ++ ys) = (lastRate rate ys).or (lastRate rate xs) := by
  rw [lastRate, List.filterMap_append, List.getLast?_append]
  rfl

theorem lastRate_concat {rate : Json → Option ℚ} {v : Json} {r : ℚ} (h : rate v = some r)
    (xs : List Json) : lastRate rate (xs ++ [v]) = some r := by
  rw [lastRate, List.filterMap_append, List.filterMap_cons_some h, List.filterMap_nil,
    List.getLast?_concat]

theorem filterMap_unpaired (events : List Json) : (unpaired events).filterMap parseTimings = [] :=
  List.filterMap_eq_nil_iff.mpr fun v hv => Option.isNone_iff_eq_none.mp
    (List.mem_rtakeWhile_imp (p := fun v => (parseTimings v).isNone) (x := v) hv)

/-- An event with both rates is followed by those behind the last such event, or there is none. -/
theorem paired_cases (events : List Json) :
    (paired events = none ∧ unpaired events = events) ∨
    ∃ before v p t, events = before ++ [v] ++ unpaired events ∧ promptRate v = some p ∧
      predictedRate v = some t ∧ paired events = some (.fin p, .fin t) := by
  set lone : Json → Bool := fun v => (parseTimings v).isNone with hlone
  have hsplit : events.rdropWhile lone ++ unpaired events = events :=
    List.rdropWhile_append_rtakeWhile
  rcases List.eq_nil_or_concat' (events.rdropWhile lone) with hnil | ⟨before, v, hv⟩
  · rw [hnil, List.nil_append] at hsplit
    refine .inl ⟨?_, hsplit⟩
    rw [paired, ← hsplit, filterMap_unpaired]
    rfl
  · have hlast : ¬ lone v = true := by
      have h := List.rdropWhile_last_not lone events (by simp [hv])
      simpa only [hv, List.getLast_concat] using h
    obtain ⟨⟨pp, tg⟩, hpt⟩ := Option.ne_none_iff_exists'.mp fun h =>
      hlast (Option.isNone_iff_eq_none.mpr h)
    obtain ⟨p, t, hp, ht, rfl, rfl⟩ := parseTimings_eq_some hpt
    rw [hv] at hsplit
    refine .inr ⟨before, v, p, t, hsplit.symm, hp, ht, ?_⟩
    rw [paired, ← hsplit, List.filterMap_append, filterMap_unpaired, List.append_nil,
      List.filterMap_append, List.filterMap_cons_some hpt, List.filterMap_nil, List.getLast?_concat]

section

variable {fromStr : Str → Except Str Json} {transcript : Str} {ttft elapsed : Option Nat}

theorem metrics_paired {pp tg : F64} (h : paired (eventsOf fromStr transcript) = some (pp, tg)) :
    let m := metricsFromTranscript fromStr transcript ttft elapsed
    m.ppTps = some pp ∧ m.tgTps = some tg ∧ m.source = .measured := by
  unfold paired eventsOf at h
  simp only [metricsFromTranscript, h, and_self]

theorem metrics_unpaired (h : paired (eventsOf fromStr transcript) = none) :
    let m := metricsFromTranscript fromStr transcript ttft elapsed
    m.ppTps = none ∧ m.source ≠ .measured ∧
      (Estimable (eventsOf fromStr transcript) elapsed →
        m.tgTps = some (.fin (estimate (eventsOf fromStr transcript) elapsed)) ∧
          m.source = .estimated) ∧
      (¬ Estimable (eventsOf fromStr transcript) elapsed → m.tgTps = none ∧ m.source ≠ .estimated) := by
  have hcount : (0 < (eventsOf fromStr transcript).countP hasContent) ↔
      ∃ v ∈ eventsOf fromStr transcript, hasContent v = true := List.countP_pos_iff
  unfold paired at h
  unfold metricsFromTranscript
  rw [show (lines transcript).filterMap (eventOf fromStr) = eventsOf fromStr transcript from rfl]
  simp only [h]
  cases elapsed with
  | none =>
    refine ⟨rfl, by simp [Metrics.unavailable], ?_, fun _ => ⟨rfl, by simp [Metrics.unavailable]⟩⟩
    rintro ⟨⟨ms, hms, -⟩, -⟩
    cases hms
  | some ms =>
    have hest : Estimable (eventsOf fromStr transcript) (some ms) ↔
        0 < ms ∧ 0 < (eventsOf fromStr transcript).countP hasContent := by
      rw [Estimable, hcount]
      simp
    rw [hest]
    dsimp only
    split
    · rename_i he
      refine ⟨rfl, by simp, fun _ => ⟨?_, rfl⟩, fun hn => absurd he hn⟩
      rw [F64.divBy, F64.mul, F64.mul, mul_one_div, estimate, Option.getD_some]
    · rename_i he
      exact ⟨rfl, by simp [Metrics.unavailable], fun hn => absurd hn he,
        fun _ => ⟨rfl, by simp [Metrics.unavailable]⟩⟩

/-- No line has both rates: nothing is measured, whatever the lines carry. -/
theorem truthful_unpaired (hpair : paired (eventsOf fromStr transcript) = none)
    (hu : unpaired (eventsOf fromStr transcript) = eventsOf fromStr transcript) :
    Truthful (eventsOf fromStr transcript) elapsed
      (metricsFromTranscript fromStr transcript ttft elapsed) ↔
        NoneLost (eventsOf fromStr transcript) := by
  have hnone {x : Option ℚ} {y : Option F64} (hy : y = none)
      (h : ∀ r, x = some r → y = some (.fin r)) : x = none :=
    Option.eq_none_iff_forall_ne_some.mpr fun r hr => nomatch hy.symm.trans (h r hr)
  obtain ⟨hpp, hsource, hest, hun⟩ := @metrics_unpaired fromStr transcript ttft elapsed hpair
  set events := eventsOf fromStr transcript
  constructor
  · intro h
    refine ⟨fun r hr => ?_, fun r hr => ?_⟩
    · have hprompt := h.prompt
      rw [hpp, ← hu, hr] at hprompt
      cases hprompt
    · exact absurd (h.measured r (hu ▸ hr)).2 hsource
  · intro h
    obtain ⟨hprompt, hpredicted⟩ := h
    rw [hu, hpair] at hprompt hpredicted
    have hnp : lastRate promptRate events = none := hnone rfl hprompt
    have hnt : lastRate predictedRate events = none := hnone rfl hpredicted
    refine ⟨by rw [hpp, hnp]; rfl, fun r hr => ?_, fun _ => hest, fun _ => hun⟩
    rw [hnt] at hr
    cases hr

/-- The last line with both rates is shown, whatever the lines behind it carry. -/
theorem truthful_paired {before : List Json} {v : Json} {p t : ℚ}
    (he : eventsOf fromStr transcript = before ++ [v] ++ unpaired (eventsOf fromStr transcript))
    (hp : promptRate v = some p) (ht : predictedRate v = some t)
    (hpair : paired (eventsOf fromStr transcript) = some (.fin p, .fin t)) :
    Truthful (eventsOf fromStr transcript) elapsed
      (metricsFromTranscript fromStr transcript ttft elapsed) ↔
        NoneLost (eventsOf fromStr transcript) := by
  have hsame {x : Option ℚ} {r : ℚ} :
      x.or (some r) = some r ↔ ∀ q, x = some q → some (F64.fin r) = some (.fin q) := by
    cases x with
    | none => simp
    | some q => simp [eq_comm]
  obtain ⟨hpp, htg, hsource⟩ := @metrics_paired fromStr transcript ttft elapsed _ _ hpair
  set events := eventsOf fromStr transcript
  have hlast {rate : Json → Option ℚ} {r : ℚ} (h : rate v = some r) :
      lastRate rate events = (lastRate rate (unpaired events)).or (some r) := by
    conv_lhs => rw [he, lastRate_append, lastRate_concat h]
  constructor
  · intro h
    refine ⟨?_, ?_⟩
    · have hprompt := h.prompt
      rw [hpp] at hprompt
      obtain ⟨q, hq, hpq⟩ := Option.map_eq_some_iff.mp hprompt.symm
      cases hpq
      rw [hpair]
      exact hsame.mp (hlast hp ▸ hq)
    · obtain ⟨r, hr⟩ : ∃ r, lastRate predictedRate events = some r := by
        rw [hlast ht]
        cases lastRate predictedRate (unpaired events) <;> simp
      have hmeasured := (h.measured r hr).1
      rw [htg] at hmeasured
      cases hmeasured
      rw [hpair]
      exact hsame.mp (hlast ht ▸ hr)
  · rintro ⟨hprompt, hpredicted⟩
    rw [hpair] at hprompt hpredicted
    have hlastp := (hlast hp).trans (hsame.mpr hprompt)
    have hlastt := (hlast ht).trans (hsame.mpr hpredicted)
    refine ⟨by rw [hpp, hlastp]; rfl, fun r hr => ⟨?_, hsource⟩, fun hn => ?_, fun hn => ?_⟩
    · rw [htg, Option.some.inj (hr.symm.trans hlastt)]
    · rw [hlastt] at hn
      cases hn
    · rw [hlastt] at hn
      cases hn

/-- **The metrics are what was measured if and only if no rate is lost** behind the last line that
has both. -/
theorem truthful_iff (fromStr : Str → Except Str Json) (transcript : Str)
    (ttft elapsed : Option Nat) :
    Truthful (eventsOf fromStr transcript) elapsed
      (metricsFromTranscript fromStr transcript ttft elapsed) ↔
        NoneLost (eventsOf fromStr transcript) := by
  rcases paired_cases (eventsOf fromStr transcript) with ⟨hpair, hu⟩ | ⟨_, v, p, t, he, hp, ht, hpair⟩
  · exact truthful_unpaired hpair hu
  · exact truthful_paired he hp ht hpair

end

/-! ### A prompt that took no time -/

/-- The last event of an answer whose prompt was in the cache. -/
def cachedPrompt : Json :=
  .obj [("choices", .arr [.obj [("delta", .obj [("content", .str "hi")])]]),
    ("timings", .obj [("prompt_n", .num 0), ("prompt_ms", .num 0), ("predicted_n", .num 20),
      ("predicted_ms", .num 500)])]

def cachedPromptText : Str :=
  ("\x7b\"choices\":[\x7b\"delta\":\x7b\"content\":\"hi\"\x7d\x7d],\"timings\":\x7b" : Str) ++
    ("\"prompt_n\":0,\"prompt_ms\":0,\"predicted_n\":20,\"predicted_ms\":500\x7d\x7d" : Str)

/-- A parser of this event and of nothing else. -/
def readCachedPrompt (text : Str) : Except Str Json :=
  if text = cachedPromptText then .ok cachedPrompt else .error "unexpected text"

theorem eventsOf_cachedPrompt :
    eventsOf readCachedPrompt (("data: " : Str) ++ cachedPromptText ++ ("\n" : Str)) = [cachedPrompt] := by
  have hlines : lines (("data: " : Str) ++ cachedPromptText ++ ("\n" : Str)) =
      [("data: " : Str) ++ cachedPromptText] := by decide +kernel
  have hdata : dataOf (("data: " : Str) ++ cachedPromptText) = some cachedPromptText := by
    decide +kernel
  have hread : (readCachedPrompt cachedPromptText).toOption = some cachedPrompt := rfl
  simp only [eventsOf, hlines, List.filterMap_cons, List.filterMap_nil, eventOf, hdata,
    Option.bind_some, hread]

/-- 20 tokens in half a second are shown as an estimate of one a second. -/
theorem not_truthful_cachedPrompt :
    let text := ("data: " : Str) ++ cachedPromptText ++ ("\n" : Str)
    ¬ Truthful (eventsOf readCachedPrompt text) (some 1000)
      (metricsFromTranscript readCachedPrompt text (some 530) (some 1000)) := by
  intro text h
  have hrate : lastRate predictedRate [cachedPrompt] = some 40 := by decide +kernel
  have hsource : (metricsFromTranscript readCachedPrompt text (some 530) (some 1000)).source =
      .estimated := by decide +kernel
  have hmeasured := (h.measured 40 (by rw [eventsOf_cachedPrompt, hrate])).2
  rw [hsource] at hmeasured
  cases hmeasured

end Saltnitor.Interrogate
