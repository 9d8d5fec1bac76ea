import Saltnitor.ControlApi.Ensure

/-!
# Chat

`hChat` is a pipeline: read the body, find the model it names, ensure that
model, forward the bytes. `FailsAt` says of the request and its environment
which step turns it away, `Ready` that none does; `hChat_exact` says that the
client's bytes are sent exactly as far as `Ready` goes, and what is answered
otherwise.
-/

namespace Saltnitor.ControlApi

open Rust Http ProxyStream

/-! ## The handler -/

/-- What a chat request meets: the JSON reader, the router and the host. -/
structure ChatEnv where
  read : ObjectReader
  ensure : EnsureEnv
  upstream : Except SendFailure UpstreamResponse

/-- 507 with the numbers that caused it. -/
def oracleRejected (msg : Str) (i : OomInfo) : ApiError where
  code := .oracleRejected
  message := msg
  details := some (.obj [
    ("need_vram_gb", .ofF64 i.needVramGb), ("total_vram_gb", .ofF64 i.totalVramGb),
    ("need_ram_gb", .ofF64 i.needRamGb), ("total_ram_gb", .ofF64 i.totalRamGb)])

/-- The numbers in words. -/
def OomInfo.shown (i : OomInfo) : Str :=
  ("~" : Str) ++ i.needVramGb.fmt1 ++ ("GB VRAM (have " : Str) ++ i.totalVramGb.fmt1 ++
    (") / ~" : Str) ++ i.needRamGb.fmt1 ++ ("GB RAM (have " : Str) ++ i.totalRamGb.fmt1 ++
    (")" : Str)

def unknownModel (model e : Str) : ApiError where
  code := .modelNotFound
  message := ("unknown model '" : Str) ++ model ++ ("': " : Str) ++ e

def loadFailed (e : Str) : ApiError where
  code := .runtimeStartFailed
  message := ("load failed: " : Str) ++ e

/-- What a failed ensure is told the client as. -/
def chatRefusal (model : Str) : EnsureOutcome → Option ApiError
  | .bad e => some (unknownModel model e)
  | .oom i => some (oracleRejected (("'" : Str) ++ model ++ ("' needs " : Str) ++ i.shown ++
      ("; refusing to load (would OOM)" : Str)) i)
  | .err e => some (loadFailed e)
  | .loaded .. | .alreadyResident .. => none

def hChat (api : Api) (env : ChatEnv) (rid : Str) (headers : HeaderMap) (body : BodyStream) :
    Response × List Effect :=
  match readBodyLimited body (contentLength headers) api.limits.maxBodyBytes with
  | .error e => ((e.withRequestId rid).intoResponse, [])
  | .ok bytes =>
    match validateChatBody env.read bytes with
    | .error e => ((e.withRequestId rid).intoResponse, [])
    | .ok model =>
      let (outcome, effects) := ensure api env.ensure .none { profile := model }
      match chatRefusal model outcome with
      | some e => ((e.withRequestId rid).intoResponse, effects)
      | none =>
        let (response, sent) :=
          forward api.chatUrl api.inferBearer headers bytes rid api.limits env.upstream
        (response, effects ++ (sent.map .chat).toList)

/-! ## The steps -/

section Steps

variable (api : Api) (env : ChatEnv) (headers : HeaderMap) (body : BodyStream)

/-- The body is within the limit and names a model. -/
def Accepted (model : Str) : Prop :=
  WithinLimit body (contentLength headers) api.limits.maxBodyBytes ∧
    NamesModel env.read body.chunks.flatten model

/-- The router has it loaded. -/
def Resident (model : Str) : Prop := model ∈ routerLoaded env.ensure.models

/-- The oracle lets the profile in. -/
def Admits (prof : ProfileMeta) : Prop :=
  ∃ est, oracle api.reserves env.ensure.telemetry prof = .ok est

inductive Step where
  | body
  | model
  | profile
  | oracle
  | load
  deriving DecidableEq

def Step.code : Step → ErrorCode
  | .body => .payloadTooLarge
  | .model => .requestInvalid
  | .profile => .modelNotFound
  | .oracle => .oracleRejected
  | .load => .runtimeStartFailed

/-- The first step that turns the request away. -/
def FailsAt : Step → Prop
  | .body => ¬ WithinLimit body (contentLength headers) api.limits.maxBodyBytes
  | .model => WithinLimit body (contentLength headers) api.limits.maxBodyBytes ∧
      ¬ ∃ m, NamesModel env.read body.chunks.flatten m
  | .profile => ∃ m, Accepted api env headers body m ∧ api.profile m = none
  | .oracle => ∃ m prof, Accepted api env headers body m ∧ api.profile m = some prof ∧
      ¬ Resident env m ∧ ¬ Admits api env prof
  | .load => ∃ m prof, Accepted api env headers body m ∧ api.profile m = some prof ∧
      ¬ Resident env m ∧ Admits api env prof ∧ ¬ ∃ r, Warmed api env.ensure m r

/-- No step turns the request away: the one model it names is configured, and resident, by now or
by its own warm request. -/
structure Ready (model : Str) (prof : ProfileMeta) : Prop where
  accepted : Accepted api env headers body model
  configured : api.profile model = some prof
  resident : Resident env model ∨ Admits api env prof ∧ ∃ r, Warmed api env.ensure model r

end Steps

variable {api : Api} {env : ChatEnv} {rid : Str} {headers : HeaderMap} {body : BodyStream}
  {model : Str} {prof : ProfileMeta}

variable (api env headers body) in
theorem ready_or_failsAt : (∃ m prof, Ready api env headers body m prof) ∨
    ∃ step, FailsAt api env headers body step := by
  by_cases hlimit : WithinLimit body (contentLength headers) api.limits.maxBodyBytes
  swap
  · exact .inr ⟨.body, hlimit⟩
  by_cases hm : ∃ m, NamesModel env.read body.chunks.flatten m
  swap
  · exact .inr ⟨.model, hlimit, hm⟩
  obtain ⟨m, hm⟩ := hm
  cases hp : api.profile m with
  | none => exact .inr ⟨.profile, m, ⟨hlimit, hm⟩, hp⟩
  | some prof =>
    by_cases hr : Resident env m
    · exact .inl ⟨m, prof, ⟨hlimit, hm⟩, hp, .inl hr⟩
    by_cases ha : Admits api env prof
    swap
    · exact .inr ⟨.oracle, m, prof, ⟨hlimit, hm⟩, hp, hr, ha⟩
    by_cases hw : ∃ r, Warmed api env.ensure m r
    · exact .inl ⟨m, prof, ⟨hlimit, hm⟩, hp, .inr ⟨ha, hw⟩⟩
    · exact .inr ⟨.load, m, prof, ⟨hlimit, hm⟩, hp, hr, ha, hw⟩

/-! ## What each step does -/

theorem hChat_tooLarge
    (h : ¬ WithinLimit body (contentLength headers) api.limits.maxBodyBytes) :
    (hChat api env rid headers body).1.IsEnvelope .payloadTooLarge rid ∧
      (hChat api env rid headers body).2 = [] := by
  unfold hChat
  cases hb : readBodyLimited body (contentLength headers) api.limits.maxBodyBytes with
  | ok bytes => exact absurd (readBodyLimited_eq_ok.mp hb).1 h
  | error e => exact ⟨code_of_readBodyLimited hb ▸ isEnvelope e rid, rfl⟩

theorem hChat_noModel
    (h : WithinLimit body (contentLength headers) api.limits.maxBodyBytes)
    (hm : ¬ ∃ m, NamesModel env.read body.chunks.flatten m) :
    (hChat api env rid headers body).1.IsEnvelope .requestInvalid rid ∧
      (hChat api env rid headers body).2 = [] := by
  unfold hChat
  rw [readBodyLimited_eq_ok.mpr ⟨h, rfl⟩]
  cases hv : validateChatBody env.read body.chunks.flatten with
  | ok m => exact absurd ⟨m, validateChatBody_eq_ok.mp hv⟩ hm
  | error e =>
    simp only [hv]
    exact ⟨code_of_validateChatBody hv ▸ isEnvelope e rid, trivial⟩

theorem hChat_accepted (h : Accepted api env headers body model) :
    hChat api env rid headers body =
      match chatRefusal model (ensure api env.ensure .none { profile := model }).1 with
      | some e =>
        ((e.withRequestId rid).intoResponse, (ensure api env.ensure .none { profile := model }).2)
      | none =>
        let sent := forward api.chatUrl api.inferBearer headers body.chunks.flatten rid api.limits
          env.upstream
        (sent.1, (ensure api env.ensure .none { profile := model }).2 ++
          (sent.2.map .chat).toList) := by
  unfold hChat
  rw [readBodyLimited_eq_ok.mpr ⟨h.1, rfl⟩]
  simp only [validateChatBody_eq_ok.mpr h.2]

/-! ## The ensure of a chat -/

theorem ensure_chat_resident (hp : api.profile model = some prof) (hr : Resident env model) :
    ensure api env.ensure .none { profile := model } =
      (.alreadyResident model api.inferEndpoint, [.probe (modelsRequest api)]) := by
  rw [ensure_known { profile := model } hp, ensureLocked_resident { profile := model } hr]
  rfl

theorem ensure_chat_refused (hp : api.profile model = some prof) (hr : ¬ Resident env model)
    (ha : ¬ Admits api env prof) : ∃ info, ensure api env.ensure .none { profile := model } =
      (.oom info, [.probe (modelsRequest api)]) := by
  cases ho : oracle api.reserves env.ensure.telemetry prof with
  | ok est => exact absurd ⟨est, ho⟩ ha
  | error info =>
    have hadm : oracleGate .none none (oracle api.reserves env.ensure.telemetry prof) =
        .error info := by
      rw [ho]
      rfl
    refine ⟨info, ?_⟩
    rw [ensure_known { profile := model } hp, ensureLocked_refused { profile := model } hr hadm]
    rfl

/-- An admitted model that is not resident is loaded or fails to load. -/
theorem ensure_chat_admitted (hp : api.profile model = some prof) (hr : ¬ Resident env model)
    (ha : Admits api env prof) : ∃ v, ensure api env.ensure .none { profile := model } =
      ((load api env.ensure .none model prof v).1,
        .probe (modelsRequest api) :: (load api env.ensure .none model prof v).2) := by
  obtain ⟨⟨v, r⟩, ho⟩ := ha
  have hadm : oracleGate .none none (oracle api.reserves env.ensure.telemetry prof) =
      .ok (v, []) := by
    rw [ho]
    rfl
  refine ⟨v, ?_⟩
  rw [ensure_known { profile := model } hp, ensureLocked_admitted { profile := model } hr hadm]
  rfl

theorem ensure_chat_warmed (hp : api.profile model = some prof) (hr : ¬ Resident env model)
    (ha : Admits api env prof) {r : Outgoing} (hw : Warmed api env.ensure model r) :
    ∃ v, ensure api env.ensure .none { profile := model } =
      (.loaded model api.inferEndpoint env.ensure.loadMs (some v),
        .probe (modelsRequest api) :: (announceLoading .none model prof ++ [.warm r] ++
          announceLoaded model env.ensure.loadMs)) := by
  obtain ⟨v, he⟩ := ensure_chat_admitted hp hr ha
  exact ⟨v, by rw [he, load_warmed hw]⟩

theorem ensure_chat_failed (hp : api.profile model = some prof) (hr : ¬ Resident env model)
    (ha : Admits api env prof) (hw : ¬ ∃ r, Warmed api env.ensure model r) :
    ∃ e, ensure api env.ensure .none { profile := model } =
      (.err e, .probe (modelsRequest api) :: (announceLoading .none model prof ++
        ((warmRequest api model).map .warm).toList)) := by
  obtain ⟨v, he⟩ := ensure_chat_admitted hp hr ha
  obtain ⟨e, hl⟩ := load_failed .none prof v hw
  exact ⟨e, by rw [he, hl]⟩

theorem ensure_chat_ready (h : Ready api env headers body model prof) :
    chatRefusal model (ensure api env.ensure .none { profile := model }).1 = none := by
  by_cases hr : Resident env model
  · rw [ensure_chat_resident h.configured hr]
    rfl
  · obtain ⟨ha, r, hw⟩ := h.resident.resolve_left hr
    obtain ⟨v, he⟩ := ensure_chat_warmed h.configured hr ha hw
    rw [he]
    rfl

/-! ## The pipeline -/

/-- Where no step fails the handler forwards the client's bytes, last of all it sends. -/
theorem hChat_ready (h : Ready api env headers body model prof) : hChat api env rid headers body =
    ((forward api.chatUrl api.inferBearer headers body.chunks.flatten rid api.limits
        env.upstream).1,
      (ensure api env.ensure .none { profile := model }).2 ++
        ((forward api.chatUrl api.inferBearer headers body.chunks.flatten rid api.limits
          env.upstream).2.map .chat).toList) := by
  rw [hChat_accepted h.accepted, ensure_chat_ready h]

/-- What is answered and sent when a step turns the request away. -/
structure TurnedAway (step : Step) (rid : Str) (out : Response × List Effect) : Prop where
  envelope : out.1.IsEnvelope step.code rid
  no_chat : ∀ up, .chat up ∉ out.2
  no_warm : step ≠ .load → ∀ w, .warm w ∉ out.2

theorem hChat_failsAt {step : Step} (h : FailsAt api env headers body step) :
    TurnedAway step rid (hChat api env rid headers body) := by
  cases step with
  | body =>
    have ⟨he, hs⟩ : (hChat api env rid headers body).1.IsEnvelope .payloadTooLarge rid ∧
        (hChat api env rid headers body).2 = [] := hChat_tooLarge h
    exact ⟨he, by simp [hs], by simp [hs]⟩
  | model =>
    have ⟨he, hs⟩ : (hChat api env rid headers body).1.IsEnvelope .requestInvalid rid ∧
        (hChat api env rid headers body).2 = [] := hChat_noModel h.1 h.2
    exact ⟨he, by simp [hs], by simp [hs]⟩
  | profile =>
    obtain ⟨m, hacc, hp⟩ := h
    rw [hChat_accepted hacc, ensure_unknown { profile := m } hp]
    exact ⟨isEnvelope _ rid, by simp [chatRefusal], by simp [chatRefusal]⟩
  | oracle =>
    obtain ⟨m, prof, hacc, hp, hr, ha⟩ := h
    obtain ⟨info, he⟩ := ensure_chat_refused hp hr ha
    rw [hChat_accepted hacc, he]
    exact ⟨isEnvelope _ rid, by simp [chatRefusal], by simp [chatRefusal]⟩
  | load =>
    obtain ⟨m, prof, hacc, hp, hr, ha, hw⟩ := h
    obtain ⟨e, he⟩ := ensure_chat_failed hp hr ha hw
    rw [hChat_accepted hacc, he]
    exact ⟨isEnvelope _ rid, by simp [chatRefusal, announceLoading, ProgressSink.emit],
      fun h => absurd rfl h⟩

/-- The status of a step's error. -/
def Step.status : Step → Nat
  | .body => 413
  | .model => 400
  | .profile => 404
  | .oracle => 507
  | .load => 502

theorem Step.rendered_code (step : Step) : step.code.rendered = step.status := by
  cases step <;> rfl

/-- What the handler does with a request, whatever it meets. -/
structure EnsuresThenForwards (api : Api) (env : ChatEnv) (rid : Str) (headers : HeaderMap)
    (body : BodyStream) : Prop where
  /-- Client bytes go to the router only when every step has passed, for one and the same model,
  after everything else, and they are the client's body. -/
  sent : ∀ up, .chat up ∈ (hChat api env rid headers body).2 →
    up.body = body.chunks.flatten ∧ ∃ m prof before, Ready api env headers body m prof ∧
      (hChat api env rid headers body).2 = before ++ [.chat up] ∧ (∀ up', .chat up' ∉ before) ∧
      before = (ensure api env.ensure .none { profile := m }).2 ∧
      ((ensure api env.ensure .none { profile := m }).1 =
          .alreadyResident m api.inferEndpoint ∧ Resident env m ∨
        (∃ v, (ensure api env.ensure .none { profile := m }).1 =
          .loaded m api.inferEndpoint env.ensure.loadMs (some v)) ∧ Admits api env prof ∧
          ∃ w, Warmed api env.ensure m w ∧ .warm w ∈ before)
  /-- A step that fails answers with its error and sends no client byte; before the load it sends
  no warm request. -/
  refused : ∀ step, FailsAt api env headers body step →
    (hChat api env rid headers body).1.status = step.status ∧
      TurnedAway step rid (hChat api env rid headers body)
  /-- There is no other way out. -/
  covered : (∃ m prof, Ready api env headers body m prof) ∨
    ∃ step, FailsAt api env headers body step

theorem ensure_chat_outcome (h : Ready api env headers body model prof) :
    (ensure api env.ensure .none { profile := model }).1 =
        .alreadyResident model api.inferEndpoint ∧ Resident env model ∨
      (∃ v, (ensure api env.ensure .none { profile := model }).1 =
        .loaded model api.inferEndpoint env.ensure.loadMs (some v)) ∧ Admits api env prof ∧
        ∃ w, Warmed api env.ensure model w ∧
          .warm w ∈ (ensure api env.ensure .none { profile := model }).2 := by
  by_cases hr : Resident env model
  · exact .inl ⟨by rw [ensure_chat_resident h.configured hr], hr⟩
  · obtain ⟨ha, w, hw⟩ := h.resident.resolve_left hr
    obtain ⟨v, he⟩ := ensure_chat_warmed h.configured hr ha hw
    exact .inr ⟨⟨v, by rw [he]⟩, ha, w, hw, by rw [he]; simp⟩

theorem body_of_forward {url : Str} {bearer : Option Str} {bytes : List UInt8}
    {limits : ProxyLimits} {reply : Except SendFailure UpstreamResponse} {up : Outgoing}
    (h : (forward url bearer headers bytes rid limits reply).2 = some up) :
    upstreamHeaders bearer headers rid = some up.headers ∧ up.body = bytes ∧ up.url = url := by
  unfold forward at h
  split at h
  · cases h
  · cases h
    exact ⟨by assumption, rfl, rfl⟩

/-- **Ensure, then forward**, for every request and environment. -/
theorem hChat_exact (api : Api) (env : ChatEnv) (rid : Str) (headers : HeaderMap)
    (body : BodyStream) : EnsuresThenForwards api env rid headers body where
  sent up hup := by
    rcases ready_or_failsAt api env headers body with ⟨m, prof, h⟩ | ⟨step, h⟩
    swap
    · exact absurd hup ((hChat_failsAt h).no_chat up)
    rw [hChat_ready h] at hup ⊢
    have hno (up : Outgoing) : .chat up ∉ (ensure api env.ensure .none { profile := m }).2 :=
      chat_not_mem_ensure _ up
    rcases List.mem_append.mp hup with hup | hup
    · exact absurd hup (hno up)
    obtain ⟨_, hsent, ⟨⟩⟩ := Option.map_eq_some_iff.mp (Option.mem_toList.mp hup)
    refine ⟨(body_of_forward hsent).2.1, m, prof, _, h, by rw [hsent]; rfl, hno, rfl, ?_⟩
    exact ensure_chat_outcome h
  refused step h := ⟨(hChat_failsAt h).envelope.status.trans step.rendered_code, hChat_failsAt h⟩
  covered := ready_or_failsAt api env headers body

end Saltnitor.ControlApi
