import Saltnitor.ControlApi.Estimate
import Saltnitor.ControlApi.Service
import Saltnitor.Lib.Channel

/-!
# Watching an ensure

`h_ensure_stream` shows the client each stage of one `ensure` call, and its outcome as the last.
`Course` lists the courses a call can take, with what is shown, how it ends and what is sent to
the router; everything said here of the stages is read off it. The stages go through a channel of
`stageSlots` places.
-/

namespace Saltnitor.ControlApi

open Rust Http ProxyStream

/-- The places of the channel between the call and the client. -/
def stageSlots : Nat := 16

/-! ## What is shown -/

/-- The stages that end a stream. -/
def Stage.isTerminal : Stage → Bool
  | .done .. | .oom _ | .error _ => true
  | .received .. | .oracleOk _ | .loading _ => false

def Stage.isReceived : Stage → Bool
  | .received .. => true
  | _ => false

def Stage.isOracleOk : Stage → Bool
  | .oracleOk _ => true
  | _ => false

def Stage.isLoading : Stage → Bool
  | .loading _ => true
  | _ => false

def Stage.isDone : Stage → Bool
  | .done .. => true
  | _ => false

/-- `error | received (done | oom | [oracle_ok] loading (done | error))`. -/
inductive StageWord : List Stage → Prop
  | unknown (detail : Str) : StageWord [.error detail]
  | resident {profile model : Str} {t : Stage} (ht : t.isDone = true) :
      StageWord [.received profile model, t]
  | refused (profile model detail : Str) : StageWord [.received profile model, .oom detail]
  | admitted {profile model preset : Str} {v : F64} {t : Stage}
      (ht : t.isDone = true ∨ ∃ detail, t = .error detail) :
      StageWord [.received profile model, .oracleOk v, .loading preset, t]
  | forced {profile model preset : Str} {t : Stage}
      (ht : t.isDone = true ∨ ∃ detail, t = .error detail) :
      StageWord [.received profile model, .loading preset, t]

/-- The warm requests a call sends. -/
def warmsOf (effects : List Effect) : List Outgoing :=
  effects.filterMap fun
    | .warm r => some r
    | _ => none

/-- What the watching client of a call is shown. -/
def streamFrames (api : Api) (env : EnsureEnv) (r : EnsureRequest) : List Stage :=
  stagesOf (ensure api env .chan r).2 ++ [Stage.fromOutcome (ensure api env .chan r).1]

/-! ## The courses of a call -/

section Course

variable (api : Api) (env : EnsureEnv) (r : EnsureRequest)

/-- The gate is passed with an estimate: the oracle admits the profile, or the request forces it. -/
inductive Passes (prof : ProfileMeta) : F64 → List Stage → Prop
  | admitted {v w : F64} (h : oracle api.reserves env.telemetry prof = .ok (v, w)) :
      Passes prof v [.oracleOk v]
  | forced {info : OomInfo} (h : oracle api.reserves env.telemetry prof = .error info)
      (hf : r.force = some true) : Passes prof info.needVramGb []

/-- What is shown on the way, how the call ends and the warm requests it sends. -/
inductive Course : List Stage → EnsureOutcome → List Outgoing → Prop
  | unknown (h : api.profile r.profile = none) :
      Course [] (.bad (("unknown profile '" : Str) ++ r.profile ++ ("'" : Str))) []
  | resident {prof : ProfileMeta} (hp : api.profile r.profile = some prof)
      (hr : r.profile ∈ routerLoaded env.models) :
      Course [.received r.profile r.profile] (.alreadyResident r.profile api.inferEndpoint) []
  | refused {prof : ProfileMeta} {info : OomInfo} (hp : api.profile r.profile = some prof)
      (hr : r.profile ∉ routerLoaded env.models)
      (ho : oracle api.reserves env.telemetry prof = .error info) (hf : r.force ≠ some true) :
      Course [.received r.profile r.profile] (.oom info) []
  | failed {prof : ProfileMeta} {v : F64} {said : List Stage} {e : Str}
      (hp : api.profile r.profile = some prof) (hr : r.profile ∉ routerLoaded env.models)
      (hg : Passes api env r prof v said) (hw : ¬ ∃ q, Warmed api env r.profile q) :
      Course (.received r.profile r.profile :: (said ++ [.loading r.profile])) (.err e)
        (warmRequest api r.profile).toList
  | loaded {prof : ProfileMeta} {v : F64} {said : List Stage} {q : Outgoing}
      (hp : api.profile r.profile = some prof) (hr : r.profile ∉ routerLoaded env.models)
      (hg : Passes api env r prof v said) (hw : Warmed api env r.profile q) :
      Course (.received r.profile r.profile :: (said ++ [.loading r.profile]))
        (.loaded r.profile api.inferEndpoint env.loadMs (some v)) [q]

variable {api env r}

theorem stagesOf_append (a b : List Effect) : stagesOf (a ++ b) = stagesOf a ++ stagesOf b :=
  List.filterMap_append ..

theorem warmsOf_append (a b : List Effect) : warmsOf (a ++ b) = warmsOf a ++ warmsOf b :=
  List.filterMap_append ..

theorem warmsOf_emit (sink : ProgressSink) (s : Stage) : warmsOf (sink.emit s) = [] := by
  cases sink <;> rfl

/-- What passing the gate says, and what it shows. -/
theorem passes_of_oracleGate {prof : ProfileMeta} {v : F64} {said : List Effect}
    (h : oracleGate .chan r.force (oracle api.reserves env.telemetry prof) = .ok (v, said)) :
    Passes api env r prof v (stagesOf said) ∧ warmsOf said = [] := by
  cases ho : oracle api.reserves env.telemetry prof with
  | ok a =>
    rw [ho] at h
    cases h
    exact ⟨.admitted ho, rfl⟩
  | error info =>
    rw [ho, oracleGate] at h
    split at h
    · rename_i hf
      cases h
      refine ⟨.forced ho ?_, rfl⟩
      cases hforce : r.force with
      | none => simp [hforce] at hf
      | some b => simpa [hforce] using hf
    · cases h

theorem refused_of_oracleGate {prof : ProfileMeta} {info : OomInfo}
    (h : oracleGate .chan r.force (oracle api.reserves env.telemetry prof) = .error info) :
    oracle api.reserves env.telemetry prof = .error info ∧ r.force ≠ some true := by
  cases ho : oracle api.reserves env.telemetry prof with
  | ok a => rw [ho] at h; cases h
  | error i =>
    rw [ho, oracleGate] at h
    split at h
    · cases h
    · rename_i hf
      cases h
      exact ⟨rfl, fun he => hf (by rw [he]; rfl)⟩

theorem course_load {prof : ProfileMeta} {v : F64} {said : List Stage}
    (hp : api.profile r.profile = some prof) (hr : r.profile ∉ routerLoaded env.models)
    (hg : Passes api env r prof v said) :
    Course api env r
      (.received r.profile r.profile :: (said ++ stagesOf (load api env .chan r.profile prof v).2))
      (load api env .chan r.profile prof v).1 (warmsOf (load api env .chan r.profile prof v).2) := by
  by_cases hw : ∃ q, Warmed api env r.profile q
  · obtain ⟨q, hw⟩ := hw
    rw [load_warmed hw]
    exact .loaded hp hr hg hw
  · obtain ⟨e, he⟩ := load_failed .chan prof v hw
    have hsent : stagesOf (announceLoading .chan r.profile prof ++
          ((warmRequest api r.profile).map .warm).toList) = [.loading r.profile] ∧
        warmsOf (announceLoading .chan r.profile prof ++
          ((warmRequest api r.profile).map .warm).toList) = (warmRequest api r.profile).toList := by
      cases warmRequest api r.profile <;> exact ⟨rfl, rfl⟩
    rw [he, hsent.1, hsent.2]
    exact .failed hp hr hg hw

theorem course (api : Api) (env : EnsureEnv) (r : EnsureRequest) :
    Course api env r (stagesOf (ensure api env .chan r).2) (ensure api env .chan r).1
      (warmsOf (ensure api env .chan r).2) := by
  cases hp : api.profile r.profile with
  | none =>
    rw [ensure_unknown r hp]
    exact .unknown hp
  | some prof =>
    rw [ensure_known r hp]
    by_cases hr : r.profile ∈ routerLoaded env.models
    · rw [ensureLocked_resident r hr]
      exact .resident hp hr
    cases ha : oracleGate .chan r.force (oracle api.reserves env.telemetry prof) with
    | error info =>
      rw [ensureLocked_refused r hr ha]
      obtain ⟨ho, hf⟩ := refused_of_oracleGate ha
      exact .refused hp hr ho hf
    | ok a =>
      obtain ⟨hg, hno⟩ := passes_of_oracleGate ha
      rw [ensureLocked_admitted r hr ha]
      have hstages : stagesOf (ProgressSink.chan.emit (.received r.profile r.profile) ++
          (.probe (modelsRequest api) :: a.2 ++ (load api env .chan r.profile prof a.1).2)) =
          .received r.profile r.profile ::
            (stagesOf a.2 ++ stagesOf (load api env .chan r.profile prof a.1).2) := by
        rw [List.cons_append, ← stagesOf_append]
        rfl
      have hwarms : warmsOf (ProgressSink.chan.emit (.received r.profile r.profile) ++
          (.probe (modelsRequest api) :: a.2 ++ (load api env .chan r.profile prof a.1).2)) =
          warmsOf (load api env .chan r.profile prof a.1).2 := by
        rw [warmsOf_append, warmsOf_emit, List.nil_append]
        change warmsOf (a.2 ++ _) = _
        rw [warmsOf_append, hno, List.nil_append]
      rw [hstages, hwarms]
      exact course_load hp hr hg

/-! ## What the stages say -/

/-- The profile is known, the router does not list it, and the oracle admits it. -/
def Admitted (api : Api) (env : EnsureEnv) (r : EnsureRequest) : Prop :=
  ∃ prof, api.profile r.profile = some prof ∧ r.profile ∉ routerLoaded env.models ∧
    ∃ a, oracle api.reserves env.telemetry prof = .ok a

/-- The warm load is tried: the oracle admits the profile, or the request forces it. -/
def Tried (api : Api) (env : EnsureEnv) (r : EnsureRequest) : Prop :=
  ∃ prof, api.profile r.profile = some prof ∧ r.profile ∉ routerLoaded env.models ∧
    ((∃ a, oracle api.reserves env.telemetry prof = .ok a) ∨ r.force = some true)

/-- The router lists the profile, or has loaded it. -/
def MadeResident (api : Api) (env : EnsureEnv) (r : EnsureRequest) : Prop :=
  (api.profile r.profile).isSome ∧ r.profile ∈ routerLoaded env.models ∨
    Tried api env r ∧ ∃ q, Warmed api env r.profile q

theorem tried_of_passes {prof : ProfileMeta} {v : F64} {said : List Stage}
    (hp : api.profile r.profile = some prof) (hr : r.profile ∉ routerLoaded env.models)
    (hg : Passes api env r prof v said) : Tried api env r := by
  refine ⟨prof, hp, hr, ?_⟩
  cases hg with
  | admitted h => exact .inl ⟨_, h⟩
  | forced h hf => exact .inr hf

variable {stages : List Stage} {o : EnsureOutcome} {warms : List Outgoing}

theorem Course.word (h : Course api env r stages o warms) :
    StageWord (stages ++ [Stage.fromOutcome o]) := by
  cases h with
  | unknown h => exact .unknown _
  | resident => exact .resident rfl
  | refused => exact .refused ..
  | failed hp hr hg hw =>
    cases hg with
    | admitted h => exact .admitted (.inr ⟨_, rfl⟩)
    | forced h hf => exact .forced (.inr ⟨_, rfl⟩)
  | loaded hp hr hg hw =>
    cases hg with
    | admitted h => exact .admitted (.inl rfl)
    | forced h hf => exact .forced (.inl rfl)

theorem Course.received (h : Course api env r stages o warms) :
    (stages ++ [Stage.fromOutcome o]).any Stage.isReceived = true ↔
      (api.profile r.profile).isSome = true := by
  cases h with
  | unknown h => simp [h, Stage.isReceived, Stage.fromOutcome]
  | resident hp => simp [hp, Stage.isReceived]
  | refused hp => simp [hp, Stage.isReceived]
  | failed hp => simp [hp, Stage.isReceived]
  | loaded hp => simp [hp, Stage.isReceived]

theorem Course.oracleOk (h : Course api env r stages o warms) :
    (stages ++ [Stage.fromOutcome o]).any Stage.isOracleOk = true ↔ Admitted api env r := by
  cases h with
  | unknown h =>
    refine iff_of_false (by simp [Stage.isOracleOk, Stage.fromOutcome]) ?_
    rintro ⟨prof, hp, -⟩
    cases h.symm.trans hp
  | resident hp hr =>
    refine iff_of_false (by simp [Stage.isOracleOk, Stage.fromOutcome]) ?_
    rintro ⟨prof, -, hn, -⟩
    exact hn hr
  | refused hp hr ho hf =>
    refine iff_of_false (by simp [Stage.isOracleOk, Stage.fromOutcome]) ?_
    rintro ⟨prof, hp', -, a, ha⟩
    cases hp.symm.trans hp'
    cases ho.symm.trans ha
  | failed hp hr hg hw | loaded hp hr hg hw =>
    cases hg with
    | admitted h => exact iff_of_true (by simp [Stage.isOracleOk]) ⟨_, hp, hr, _, h⟩
    | forced h hf =>
      refine iff_of_false (by simp [Stage.isOracleOk, Stage.fromOutcome]) ?_
      rintro ⟨prof, hp', -, a, ha⟩
      cases hp.symm.trans hp'
      cases h.symm.trans ha

theorem Course.loading (h : Course api env r stages o warms) :
    (stages ++ [Stage.fromOutcome o]).any Stage.isLoading = true ↔ Tried api env r := by
  cases h with
  | unknown h =>
    refine iff_of_false (by simp [Stage.isLoading, Stage.fromOutcome]) ?_
    rintro ⟨prof, hp, -⟩
    cases h.symm.trans hp
  | resident hp hr =>
    refine iff_of_false (by simp [Stage.isLoading, Stage.fromOutcome]) ?_
    rintro ⟨prof, -, hn, -⟩
    exact hn hr
  | refused hp hr ho hf =>
    refine iff_of_false (by simp [Stage.isLoading, Stage.fromOutcome]) ?_
    rintro ⟨prof, hp', -, ⟨a, ha⟩ | hforce⟩
    · cases hp.symm.trans hp'
      cases ho.symm.trans ha
    · exact hf hforce
  | failed hp hr hg hw | loaded hp hr hg hw =>
    exact iff_of_true (by simp [Stage.isLoading]) (tried_of_passes hp hr hg)

theorem Course.done (h : Course api env r stages o warms) :
    (stages ++ [Stage.fromOutcome o]).any Stage.isDone = true ↔ MadeResident api env r := by
  cases h with
  | unknown h =>
    refine iff_of_false (by simp [Stage.isDone, Stage.fromOutcome]) ?_
    rintro (⟨hp, -⟩ | ⟨⟨prof, hp, -⟩, -⟩)
    · rw [h] at hp
      cases hp
    · cases h.symm.trans hp
  | resident hp hr =>
    exact iff_of_true (by simp [Stage.isDone, Stage.fromOutcome]) (.inl ⟨by rw [hp]; rfl, hr⟩)
  | refused hp hr ho hf =>
    refine iff_of_false (by simp [Stage.isDone, Stage.fromOutcome]) ?_
    rintro (⟨-, hr'⟩ | ⟨⟨prof, hp', -, ⟨a, ha⟩ | hforce⟩, -⟩)
    · exact hr hr'
    · cases hp.symm.trans hp'
      cases ho.symm.trans ha
    · exact hf hforce
  | failed hp hr hg hw =>
    refine iff_of_false ?_ ?_
    · cases hg <;> simp [Stage.isDone, Stage.fromOutcome]
    · rintro (⟨-, hr'⟩ | ⟨-, hw'⟩)
      · exact hr hr'
      · exact hw hw'
  | loaded hp hr hg hw =>
    exact iff_of_true (by simp [Stage.isDone, Stage.fromOutcome])
      (.inr ⟨tried_of_passes hp hr hg, _, hw⟩)

/-- One warm request at most goes out, and one does when it is tried and can be built. -/
theorem Course.warms_iff (h : Course api env r stages o warms) :
    warms.length ≤ 1 ∧
      (warms ≠ [] ↔ (stages ++ [Stage.fromOutcome o]).any Stage.isLoading = true ∧
        (warmHeaders api.inferBearer).isSome = true) := by
  have hbuilt : (warmRequest api r.profile).isSome = (warmHeaders api.inferBearer).isSome :=
    Option.isSome_map
  cases h with
  | unknown => simp [Stage.isLoading, Stage.fromOutcome]
  | resident => simp [Stage.isLoading, Stage.fromOutcome]
  | refused => simp [Stage.isLoading, Stage.fromOutcome]
  | failed =>
    rw [← hbuilt]
    cases warmRequest api r.profile <;> simp [Stage.isLoading]
  | loaded hp hr hg hw =>
    rw [← hbuilt, hw.1]
    simp [Stage.isLoading]

theorem StageWord.ends {frames : List Stage} (h : StageWord frames) :
    ∃ pre t, frames = pre ++ [t] ∧ t.isTerminal = true ∧ ∀ s ∈ pre, s.isTerminal = false := by
  have terminal {t : Stage} (ht : t.isDone = true ∨ ∃ detail, t = .error detail) :
      t.isTerminal = true := by
    rcases ht with ht | ⟨detail, rfl⟩
    · cases t <;> first | rfl | cases ht
    · rfl
  cases h with
  | unknown detail => exact ⟨[], _, rfl, rfl, nofun⟩
  | resident ht => exact ⟨[_], _, rfl, terminal (.inl ht), by simp [Stage.isTerminal]⟩
  | refused => exact ⟨[_], _, rfl, rfl, by simp [Stage.isTerminal]⟩
  | admitted ht => exact ⟨[_, _, _], _, rfl, terminal ht, by simp [Stage.isTerminal]⟩
  | forced ht => exact ⟨[_, _], _, rfl, terminal ht, by simp [Stage.isTerminal]⟩

theorem StageWord.length_le {frames : List Stage} (h : StageWord frames) : frames.length ≤ 4 := by
  cases h <;> simp

end Course

/-! ## The stream and the JSON answer -/

/-- The outcome does not depend on who watches. -/
theorem ensure_sink (api : Api) (env : EnsureEnv) (r : EnsureRequest) :
    (ensure api env .chan r).1 = (ensure api env .none r).1 := by
  cases hp : api.profile r.profile with
  | none => rw [ensure_unknown r hp, ensure_unknown r hp]
  | some prof =>
    rw [ensure_known r hp, ensure_known r hp]
    by_cases hr : r.profile ∈ routerLoaded env.models
    · rw [ensureLocked_resident r hr, ensureLocked_resident r hr]
    have hload (v : F64) : (load api env .chan r.profile prof v).1 =
        (load api env .none r.profile prof v).1 := by
      unfold load
      dsimp only
      split <;> rfl
    have hgate : (oracleGate .chan r.force (oracle api.reserves env.telemetry prof)).map Prod.fst =
        (oracleGate .none r.force (oracle api.reserves env.telemetry prof)).map Prod.fst := by
      unfold oracleGate
      split
      · rfl
      · split <;> rfl
    cases hc : oracleGate .chan r.force (oracle api.reserves env.telemetry prof) with
    | error info =>
      cases hn : oracleGate .none r.force (oracle api.reserves env.telemetry prof) with
      | error i =>
        rw [hc, hn] at hgate
        cases hgate
        rw [ensureLocked_refused r hr hc, ensureLocked_refused r hr hn]
      | ok a =>
        rw [hc, hn] at hgate
        cases hgate
    | ok a =>
      cases hn : oracleGate .none r.force (oracle api.reserves env.telemetry prof) with
      | error i =>
        rw [hc, hn] at hgate
        cases hgate
      | ok b =>
        rw [hc, hn] at hgate
        have hv : a.1 = b.1 := Except.ok.inj hgate
        rw [ensureLocked_admitted r hr hc, ensureLocked_admitted r hr hn, hv]
        exact hload b.1

/-- The members of the JSON answer that tell how an ensure ended. -/
def outcomeKeys : List Str := ["status", "model", "endpoint", "load_ms", "vram_estimate_gb"]

/-- The last stage says what the JSON answer says: the same members, or the same text. -/
def Agrees (resp : Response) : Stage → Prop
  | s@(.done ..) => ∃ v, resp = jsonResponse v ∧ ∀ key ∈ outcomeKeys, s.json.index key = v.index key
  | .oom detail => ∃ e : ApiError, resp = e.intoResponse ∧ e.code = .oracleRejected ∧
      detail = e.message ++ ("; pass force=true" : Str)
  | .error detail => ∃ e : ApiError, resp = e.intoResponse ∧
      (e.code = .modelNotFound ∨ e.code = .runtimeStartFailed) ∧ ∃ pre, e.message = pre ++ detail
  | _ => False

theorem agrees_fromOutcome (rid profile : Str) (o : EnsureOutcome) :
    Agrees (ensureAnswer rid profile o) (Stage.fromOutcome o) := by
  cases o with
  | loaded model endpoint loadMs vram =>
    refine ⟨_, rfl, ?_⟩
    cases vram <;> simp [outcomeKeys, Stage.json, EnsureResponse.json, Json.index, Json.member,
      Json.lastOf]
  | alreadyResident model endpoint =>
    refine ⟨_, rfl, ?_⟩
    simp [outcomeKeys, Stage.json, EnsureResponse.json, Json.index, Json.member, Json.lastOf]
  | oom i => exact ⟨_, rfl, rfl, rfl⟩
  | bad e => exact ⟨_, rfl, .inl rfl, _, rfl⟩
  | err e => exact ⟨_, rfl, .inr rfl, _, rfl⟩

/-- What the client of a stream is shown, and what goes to the router. -/
structure StreamSpec (api : Api) (env : EnsureEnv) (r : EnsureRequest) (frames : List Stage)
    (warms : List Outgoing) : Prop where
  word : StageWord frames
  ends : ∃ pre t, frames = pre ++ [t] ∧ t.isTerminal = true ∧ (∀ s ∈ pre, s.isTerminal = false) ∧
    ∀ rid, Agrees (ensureAnswer rid r.profile (ensure api env .none r).1) t
  received : frames.any Stage.isReceived = true ↔ (api.profile r.profile).isSome = true
  oracleOk : frames.any Stage.isOracleOk = true ↔ Admitted api env r
  loading : frames.any Stage.isLoading = true ↔ Tried api env r
  warm : warms.length ≤ 1 ∧ (warms ≠ [] ↔ Tried api env r ∧ (warmHeaders api.inferBearer).isSome = true)
  done : frames.any Stage.isDone = true ↔ MadeResident api env r
  short : frames.length ≤ 4

theorem streamSpec (api : Api) (env : EnsureEnv) (r : EnsureRequest) :
    StreamSpec api env r (streamFrames api env r) (warmsOf (ensure api env .chan r).2) := by
  have h := course api env r
  have hword : StageWord (streamFrames api env r) := h.word
  obtain ⟨pre, t, hframes, ht, hpre⟩ := hword.ends
  have hlast : t = Stage.fromOutcome (ensure api env .chan r).1 :=
    (List.append_inj' (hframes.symm.trans rfl) rfl).2 |> List.singleton_inj.mp
  refine
    { word := hword
      ends := ⟨pre, t, hframes, ht, hpre, fun rid => ?_⟩
      received := h.received
      oracleOk := h.oracleOk
      loading := h.loading
      warm := ⟨h.warms_iff.1, h.warms_iff.2.trans (and_congr_left' h.loading)⟩
      done := h.done
      short := hword.length_le }
  rw [hlast, ensure_sink]
  exact agrees_fromOutcome rid r.profile _

/-- **Stages.** A stream shows the stages of its call and then its outcome, which is that of the JSON
answer, and no stage waits for room in the channel. -/
theorem ensureStream_stages {env : ServiceEnv} {req : Request} {r : EnsureRequest} (api : Api)
    (hq : env.query req.uri = .ok r) :
    (hEnsureStream api env req).1.payload =
        .events ((streamFrames api env.chat.ensure r).map Stage.json) ∧
      StreamSpec api env.chat.ensure r (streamFrames api env.chat.ensure r)
        (warmsOf (hEnsureStream api env req).2) ∧
      ∀ ls c, Machine.run (Channel.step stageSlots)
          (Channel.start (streamFrames api env.chat.ensure r)) ls = some c →
        c.all = streamFrames api env.chat.ensure r ∧
          (c.toSend ≠ [] → ∃ d, Channel.step stageSlots c .send = some d) := by
  have hspec := streamSpec api env.chat.ensure r
  have heq : hEnsureStream api env req =
      ({ status := 200
         headers := HeaderMap.append [] .contentType .eventStream
         payload := .events ((streamFrames api env.chat.ensure r).map Stage.json) },
        (ensure api env.chat.ensure .chan r).2) := by
    rw [hEnsureStream, hq]
    rfl
  rw [heq]
  refine ⟨rfl, hspec, fun ls c hrun => ⟨Channel.all_run hrun, fun hne => ?_⟩⟩
  exact Channel.send_of_length_le (hspec.short.trans (by decide)) hrun hne

/-! ### A bearer that is no header value -/

def sampleUuid : Uuid7 where
  text := "01890000-0000-7000-8000-000000000000"
  length_eq := by decide
  shape := by
    have h : ∀ i (hi : i < 36),
        let c := ("01890000-0000-7000-8000-000000000000" : Str).get ⟨i, hi⟩
        if i = 8 ∨ i = 13 ∨ i = 18 ∨ i = 23 then c = '-'
        else if i = 14 then c = '7'
        else if i = 19 then c ∈ "89ab".toList
        else c ∈ "0123456789abcdef".toList := by decide +kernel
    intro i hi c hc
    obtain ⟨_, rfl⟩ := List.getElem?_eq_some_iff.mp hc
    exact h i hi

/-- Every query asks for the profile `fast`. -/
def sampleServiceEnv : ServiceEnv where
  minted := sampleUuid
  now := 0
  chat :=
    { read := fun _ => .error "EOF while parsing a value"
      ensure := sampleEnsureEnv
      upstream := .error .timeout }
  json := fun _ => .ok { profile := "fast" }
  query := fun _ => .ok { profile := "fast" }
  notAllowed := ⟨405, [], .text ""⟩
  noExtension := ⟨500, [], .text ""⟩

def sampleProfile : ProfileMeta := { model := "llama-7B-Q8_0.gguf" }

def sampleRequest : Request where
  method := .get
  uri := ⟨"/v1/ensure/stream", some "profile=fast"⟩

/-- The profile is loaded, and the client is shown it. -/
theorem ensureStream_stages_sample :
    sampleServiceEnv.query sampleRequest.uri = .ok { profile := "fast" } ∧
      (streamFrames (sampleApi sampleProfile 10 1) sampleEnsureEnv { profile := "fast" }).length = 4 ∧
      StreamSpec (sampleApi sampleProfile 10 1) sampleEnsureEnv { profile := "fast" }
        (streamFrames (sampleApi sampleProfile 10 1) sampleEnsureEnv { profile := "fast" })
        (warmsOf (hEnsureStream (sampleApi sampleProfile 10 1) sampleServiceEnv sampleRequest).2) := by
  have hq : sampleServiceEnv.query sampleRequest.uri = .ok { profile := "fast" } := rfl
  exact ⟨hq, by decide +kernel, (ensureStream_stages (sampleApi sampleProfile 10 1) hq).2.1⟩

/-- The router's key ends in a line break: loading is shown, and no warm request is sent. -/
def lineBreakApi : Api :=
  { sampleApi sampleProfile 10 1 with inferBearer := some "k3y\n" }

theorem not_warm_lineBreakApi :
    (streamFrames lineBreakApi sampleEnsureEnv { profile := "fast" }).any Stage.isLoading = true ∧
      warmsOf (hEnsureStream lineBreakApi sampleServiceEnv sampleRequest).2 = [] := by
  refine ⟨by decide +kernel, ?_⟩
  by_contra hne
  have hbuilt := ((streamSpec lineBreakApi sampleEnsureEnv { profile := "fast" }).warm.2.mp hne).2
  revert hbuilt
  decide +kernel

end Saltnitor.ControlApi
