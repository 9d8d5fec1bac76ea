import Saltnitor.ControlApi.Interleave

/-!
# One load

Calls that all name one profile, with a router that keeps its word (`OneProfile`),
send one warm request between them. `BeforeLoad` and `AfterLoad` are the two
halves of such a run; only the warm request leads from the first to the second.
`ensure_serialized` collects what the lock gives every run and what it gives
these.
-/

namespace Saltnitor.ControlApi

open Rust Http ProxyStream

/-- Every call names `p`, the router lists `p` when it is resident, and a warm request goes out
and succeeds. -/
def OneProfile (api : Api) (p : Str) (w : World) : Label → Prop
  | .call req _ => req.profile = p
  | .act _ (.probe reply) => p ∈ routerLoaded reply ↔ w.resident = some p
  | .act _ .warm => (warmRequest api p).isSome = true
  | .act _ (.answer reply _ _) => warmResult reply = .ok ()
  | .act _ _ => True

instance (api : Api) (p : Str) (w : World) (l : Label) : Decidable (OneProfile api p w l) :=
  match l with
  | .call _ _ => inferInstanceAs (Decidable (_ = _))
  | .act _ (.probe _) => inferInstanceAs (Decidable (_ ↔ _))
  | .act _ .warm => inferInstanceAs (Decidable (_ = _))
  | .act _ (.answer ..) => inferInstanceAs (Decidable (_ = _))
  | .act _ .lookup | .act _ .acquire | .act _ (.judge _) | .act _ .announce | .act _ .finish
  | .act _ .forward => inferInstanceAs (Decidable True)

/-! ## Calls of one profile -/

/-- The profile's data, where a call carries it. -/
def Phase.meta? : Phase → Option ProfileMeta
  | .waiting prof | .locked prof | .probed prof => some prof
  | _ => none

/-- A call for `p`, which is `prof`. -/
structure Call.Names (p : Str) (prof : ProfileMeta) (c : Call) : Prop where
  profile : c.req.profile = p
  carried : ∀ prof', c.phase.meta? = some prof' → prof' = prof

/-- Past the probe, before the warm request. -/
def Phase.isJudging : Phase → Bool
  | .probed _ | .admitted _ => true
  | _ => false

def Phase.isWarming : Phase → Bool
  | .warming _ => true
  | _ => false

/-- A call that needed no warm request so far. -/
def Call.unwarmed (c : Call) : Bool :=
  match c.phase with
  | .called | .waiting _ | .locked _ | .probed _ | .admitted _ => true
  | .done (.oom _) => !c.req.force.getD false
  | _ => false

structure Agreed (p : Str) (prof : ProfileMeta) (w : World) : Prop where
  lock : LockInv w
  names : ∀ c ∈ w.calls, c.Names p prof

structure BeforeLoad (p : Str) (w : World) : Prop where
  none_sent : w.warms = []
  absent : w.resident ≠ some p
  unwarmed : ∀ c ∈ w.calls, c.unwarmed = true

structure AfterLoad (p : Str) (w : World) : Prop where
  one_sent : w.warms.length = 1
  resident : w.resident = some p ∨ ∃ c ∈ w.calls, c.phase.isWarming = true
  settled : ∀ c ∈ w.calls, c.phase.isJudging = false

variable {api : Api} {w w' : World} {i j : Nat} {c d : Call} {a : Act} {l : Label} {p : Str}
  {prof : ProfileMeta}

theorem oracleGate_error {force : Option Bool} {r : Except OomInfo (F64 × F64)} {info : OomInfo}
    (h : oracleGate .none force r = .error info) : r = .error info ∧ force.getD false = false := by
  unfold oracleGate at h
  split at h
  · cases h
  · split at h
    · cases h
    · rename_i hf
      cases h
      exact ⟨rfl, Bool.not_eq_true _ ▸ hf⟩

theorem Names.move (hprof : api.profile p = some prof) (h : c.Names p prof)
    (hm : Move api w i c a w') : ∃ d, w'.calls = w.calls.set i d ∧ d.Names p prof := by
  have ⟨hname, hcarried⟩ := h
  cases hm with
  | found hp hc =>
    refine ⟨_, rfl, hname, ?_⟩
    rintro prof' ⟨⟩
    rw [hname, hprof] at hc
    exact (Option.some.inj hc).symm
  | acquire hp _ | absent hp _ => exact ⟨_, rfl, hname, by rwa [hp] at hcarried⟩
  | _ => exact ⟨_, rfl, hname, fun prof' h => by cases h⟩

theorem Agreed.step (hprof : api.profile p = some prof) (h : Agreed p prof w)
    (hl : OneProfile api p w l) (hs : step api w l = some w') : Agreed p prof w' := by
  refine ⟨h.lock.step hs, ?_⟩
  rcases step_cases hs with ⟨req, chat, rfl, rfl⟩ | ⟨i, a, c, -, hc, hm⟩
  · exact Pool.forall_concat h.names ⟨hl, fun prof' h => by cases h⟩
  · obtain ⟨d, hd, hnames⟩ := Names.move hprof (h.names c (List.mem_of_getElem? hc)) hm
    rw [hd]
    exact Pool.forall_set h.names hnames

/-! ## Before and after -/

theorem LockInv.alone (h : LockInv w) (hi : w.calls[i]? = some c) (hc : c.phase.critical = true)
    (hd : d ∈ w.calls) (hcrit : d.critical = true) : d = c := by
  obtain ⟨j, hj⟩ := List.mem_iff_getElem?.mp hd
  have hij : i = j := Pool.Guarded.unique h hi hj hc hcrit
  subst hij
  rw [hi] at hj
  exact (Option.some.inj hj).symm

theorem critical_of_judging {q : Phase} (h : q.isJudging = true) : q.critical = true := by
  cases q <;> first | rfl | cases h

theorem critical_of_warming {q : Phase} (h : q.isWarming = true) : q.critical = true := by
  cases q <;> first | rfl | cases h

theorem AfterLoad.resident_of_locked {prof : ProfileMeta} (h : AfterLoad p w) (hl : LockInv w)
    (hi : w.calls[i]? = some c) (hp : c.phase = .locked prof) : w.resident = some p := by
  rcases h.resident with hres | ⟨d, hd, hwarm⟩
  · exact hres
  · have hdc : d = c := hl.alone hi (by rw [hp]; rfl) hd (critical_of_warming hwarm)
    rw [hdc, hp] at hwarm
    cases hwarm

theorem AfterLoad.move (h : AfterLoad p w) (hag : Agreed p prof w)
    (hl : OneProfile api p w (.act i a)) (hi : w.calls[i]? = some c)
    (hm : Move api w i c a w') : AfterLoad p w' := by
  have hmem : c ∈ w.calls := List.mem_of_getElem? hi
  have hname : c.req.profile = p := (hag.names c hmem).profile
  have hjudge : c.phase.isJudging = false := h.settled c hmem
  have persists {q : Phase} (hw : c.phase.isWarming = false) : w.resident = some p ∨
      ∃ e ∈ w.calls.set i { c with phase := q }, e.phase.isWarming = true :=
    h.resident.imp_right fun hex => Pool.exists_set hex hi (by rw [hw]; exact Bool.false_ne_true)
  have settled {q : Phase} (hq : q.isJudging = false) :
      ∀ e ∈ w.calls.set i { c with phase := q }, e.phase.isJudging = false :=
    Pool.forall_set h.settled hq
  cases hm with
  | unknown hp _ | found hp _ | acquire hp _ | resident hp _ | announce hp | finish hp =>
    exact ⟨h.one_sent, persists (by rw [hp]; rfl), settled rfl⟩
  | absent hp hr =>
    have hres : w.resident = some p := h.resident_of_locked hag.lock hi hp
    exact absurd (hname ▸ hl.mpr hres) hr
  | refuse hp _ | passed hp _ | unsent hp _ | sent hp _ =>
    rw [hp] at hjudge
    cases hjudge
  | loaded hp _ | forward hp _ _ =>
    exact ⟨h.one_sent, .inl (congrArg some hname), settled rfl⟩
  | failed hp hr =>
    cases hr.symm.trans hl

theorem BeforeLoad.move (hprof : api.profile p = some prof) (h : BeforeLoad p w)
    (hag : Agreed p prof w) (hl : OneProfile api p w (.act i a)) (hi : w.calls[i]? = some c)
    (hm : Move api w i c a w') : BeforeLoad p w' ∨ AfterLoad p w' := by
  have hmem : c ∈ w.calls := List.mem_of_getElem? hi
  have hname : c.req.profile = p := (hag.names c hmem).profile
  have hun : c.unwarmed = true := h.unwarmed c hmem
  have stays {d : Call} (hd : d.unwarmed = true) : ∀ e ∈ w.calls.set i d, e.unwarmed = true :=
    Pool.forall_set h.unwarmed hd
  cases hm with
  | unknown hp hc =>
    rw [hname, hprof] at hc
    cases hc
  | found hp _ | acquire hp _ | absent hp _ | passed hp _ =>
    exact .inl ⟨h.none_sent, h.absent, stays rfl⟩
  | resident hp hr => exact absurd (hl.mp (hname ▸ hr)) h.absent
  | refuse hp ha =>
    refine .inl ⟨h.none_sent, h.absent, stays ?_⟩
    show (!c.req.force.getD false) = true
    rw [(oracleGate_error ha).2]
    rfl
  | unsent hp hw =>
    rw [← hname] at hl
    cases (congrArg Option.isSome hw).symm.trans hl
  | @sent v r hp _ =>
    refine .inr ⟨?_, .inr ⟨{ c with phase := .warming v }, ?_, rfl⟩, ?_⟩
    · show (w.warms ++ [_]).length = 1
      rw [h.none_sent]
      rfl
    · exact List.mem_of_getElem? (Pool.getElem?_set_self hi)
    · intro e he
      obtain ⟨j, hj⟩ := List.mem_iff_getElem?.mp he
      rcases Pool.getElem?_set_cases hj with ⟨-, rfl⟩ | ⟨hij, hj⟩
      · rfl
      · -- another judging call would hold the lock as well
        by_contra hjudge
        have hcrit : e.phase.critical = true := critical_of_judging (Bool.not_eq_false _ ▸ hjudge)
        exact hij (Pool.Guarded.unique hag.lock hj hi hcrit (by rw [Call.critical, hp]; rfl))
  | loaded hp _ | failed hp _ | announce hp | finish hp =>
    rw [Call.unwarmed, hp] at hun
    cases hun
  | @forward o hp _ ho =>
    rw [Call.unwarmed, hp] at hun
    cases o <;> first | cases hun | cases ho

structure OnceInv (p : Str) (prof : ProfileMeta) (w : World) : Prop where
  agreed : Agreed p prof w
  side : BeforeLoad p w ∨ AfterLoad p w

theorem AfterLoad.step (h : AfterLoad p w) (hag : Agreed p prof w) (hl : OneProfile api p w l)
    (hs : step api w l = some w') : AfterLoad p w' := by
  rcases step_cases hs with ⟨req, chat, -, rfl⟩ | ⟨i, a, c, rfl, hi, hm⟩
  · exact ⟨h.one_sent, h.resident.imp_right Pool.exists_concat, Pool.forall_concat h.settled rfl⟩
  · exact h.move hag hl hi hm

theorem OnceInv.step (hprof : api.profile p = some prof) (h : OnceInv p prof w)
    (hl : OneProfile api p w l) (hs : ControlApi.step api w l = some w') : OnceInv p prof w' := by
  refine ⟨h.agreed.step hprof hl hs, ?_⟩
  rcases h.side with hb | ha
  · rcases step_cases hs with ⟨req, chat, -, rfl⟩ | ⟨i, a, c, rfl, hi, hm⟩
    · exact .inl ⟨hb.none_sent, hb.absent, Pool.forall_concat hb.unwarmed rfl⟩
    · exact hb.move hprof h.agreed hl hi hm
  · exact .inr (ha.step h.agreed hl hs)

theorem OnceInv.init {resident : Option Str} (h : resident ≠ some p) :
    OnceInv p prof (World.init resident) where
  agreed := ⟨Pool.Guarded.nil, by simp [World.init]⟩
  side := .inl ⟨rfl, h, by simp [World.init]⟩

/-! ## Calls that take the lock after the load -/

/-- Call `j` holds the lock with the probe before it, or has returned that `p` is resident. -/
def TakesLate (api : Api) (p : Str) (j : Nat) (w : World) : Prop :=
  ∃ c, w.calls[j]? = some c ∧ ((∃ prof, c.phase = .locked prof) ∨
    c.outcome = some (.alreadyResident p api.inferEndpoint))

theorem TakesLate.step (h : TakesLate api p j w) (ha : AfterLoad p w) (hag : Agreed p prof w)
    (hl : OneProfile api p w l) (hs : step api w l = some w') : TakesLate api p j w' := by
  obtain ⟨c, hc, hphase⟩ := h
  rcases step_cases hs with ⟨req, chat, -, rfl⟩ | ⟨i, a, d, rfl, hd, hm⟩
  · exact ⟨c, Pool.getElem?_concat_of_some hc, hphase⟩
  by_cases hij : i = j
  · subst hij
    rw [hc] at hd
    cases hd
    have hname : c.req.profile = p := (hag.names c (List.mem_of_getElem? hc)).profile
    rcases hphase with ⟨prof', hp⟩ | hout
    · -- the probe finds the profile
      cases hm with
      | resident _ _ => exact ⟨_, Pool.getElem?_set_self hc, .inr (by rw [← hname]; rfl)⟩
      | absent _ hr =>
        have hres : w.resident = some p := ha.resident_of_locked hag.lock hc hp
        exact absurd (hname ▸ hl.mpr hres) hr
      | unknown hq _ | found hq _ | acquire hq _ | refuse hq _ | passed hq _ | unsent hq _
      | sent hq _ | loaded hq _ | failed hq _ | announce hq | finish hq | forward hq _ _ =>
        rw [hp] at hq
        cases hq
    · obtain ⟨e, he, hout'⟩ := hm.outcome_kept hc hout
      exact ⟨e, he, .inr hout'⟩
  · obtain ⟨e, he⟩ := hm.calls_eq
    exact ⟨c, by rw [he, List.getElem?_set_ne hij, hc], hphase⟩

/-! ## Calls that the oracle admits -/

/-- The oracle was asked and let the profile in. -/
def OracleAdmits (api : Api) (prof : ProfileMeta) (as : List Label) : Prop :=
  ∃ j t est, .act j (.judge t) ∈ as ∧ oracle api.reserves t prof = .ok est

/-- A warm request was sent or an admitted call is about to. -/
def Sends (w : World) : Prop := w.warms ≠ [] ∨ ∃ c ∈ w.calls, ∃ v, c.phase = .admitted v

theorem Sends.step (h : Sends w) (hag : Agreed p prof w) (hl : OneProfile api p w l)
    (hs : step api w l = some w') : Sends w' := by
  rcases step_cases hs with ⟨req, chat, -, rfl⟩ | ⟨i, a, c, rfl, hc, hm⟩
  · exact h.imp_right Pool.exists_concat
  have hname : c.req.profile = p := (hag.names c (List.mem_of_getElem? hc)).profile
  have persists {d : Call} (hp : ¬ ∃ v, c.phase = .admitted v) :
      w.warms ≠ [] ∨ ∃ e ∈ w.calls.set i d, ∃ v, e.phase = .admitted v :=
    h.imp_right fun hex => Pool.exists_set hex hc hp
  cases hm with
  | unsent _ hw =>
    rw [← hname] at hl
    cases (congrArg Option.isSome hw).symm.trans hl
  | sent _ _ => exact .inl (List.append_ne_nil_of_right_ne_nil _ (List.cons_ne_nil _ _))
  | unknown hp _ | found hp _ | acquire hp _ | resident hp _ | absent hp _ | refuse hp _
  | passed hp _ | loaded hp _ | failed hp _ | announce hp | finish hp | forward hp _ _ =>
    exact persists (by simp [hp])

/-- The step at which the oracle admits leaves an admitted call. -/
theorem sends_of_judge {t : Telemetry} {est : F64 × F64} (hag : Agreed p prof w)
    (ho : oracle api.reserves t prof = .ok est) (hs : step api w (.act i (.judge t)) = some w') :
    Sends w' := by
  rcases step_cases hs with ⟨req, chat, hlab, -⟩ | ⟨k, a, c, hlab, hc, hm⟩
  · cases hlab
  cases hlab
  have hnames : c.Names p prof := hag.names c (List.mem_of_getElem? hc)
  cases hm with
  | @refuse prof' _ info hp ha =>
    have heq : prof' = prof := hnames.carried prof' (by rw [hp]; rfl)
    rw [heq, ho] at ha
    cases (oracleGate_error ha).1
  | @passed _ _ v _ hp _ =>
    exact .inr ⟨_, List.mem_of_getElem? (Pool.getElem?_set_self hc), v, rfl⟩

/-! ## The runs -/

/-- What the calls for one profile come to. -/
structure LoadsOnce (api : Api) (resident : Option Str) (p : Str) (prof : ProfileMeta)
    (as : List Label) (w : World) : Prop where
  at_most : w.warms.length ≤ 1
  exactly : (∃ c ∈ w.calls, c.req.force = some true) ∨ OracleAdmits api prof as →
    w.warms.length = 1
  /-- Who takes the lock after the warm request finds the profile resident. -/
  later : ∀ pre j post u, as = pre ++ .act j .acquire :: post →
    Machine.run (step api) (World.init resident) pre = some u → u.warms ≠ [] →
      ∃ c, w.calls[j]? = some c ∧ c.outcome = some (.alreadyResident p api.inferEndpoint)

/-- No two warm requests are in flight together. -/
def World.Apart (w : World) : Prop := ∀ (i j : Nat) (c d : Call), w.calls[i]? = some c →
  w.calls[j]? = some d → c.phase.isWarming = true → d.phase.isWarming = true → i = j

theorem LockInv.apart (h : LockInv w) : w.Apart := by
  intro i j c d hc hd hcw hdw
  exact Pool.Guarded.unique h hc hd (critical_of_warming hcw) (critical_of_warming hdw)

/-- What the lock gives every run of concurrent calls. -/
structure Serialized (api : Api) (resident : Option Str) (as : List Label) (w : World) : Prop where
  /-- At no time of the run. -/
  apart : ∀ pre post u, as = pre ++ post →
    Machine.run (step api) (World.init resident) pre = some u → u.Apart
  /-- One event for each success, in order, and one for each `Loaded` outcome. -/
  announced : w.AllDone → w.events = w.successes ∧
    w.events.Perm (w.calls.filterMap fun c => c.outcome.bind EnsureOutcome.loadedModel)
  once : ∀ p prof, api.profile p = some prof → resident ≠ some p →
    Machine.Along (step api) (OneProfile api p) (World.init resident) as → w.AllDone →
      LoadsOnce api resident p prof as w

variable {resident : Option Str} {as : List Label}

theorem OnceInv.run (hprof : api.profile p = some prof) (hres : resident ≠ some p)
    (hr : Machine.run (ControlApi.step api) (World.init resident) as = some w)
    (hal : Machine.Along (ControlApi.step api) (OneProfile api p) (World.init resident) as) :
    OnceInv p prof w :=
  Machine.run_inv_along (fun _ _ _ h hl hs => h.step hprof hl hs) hr hal (.init hres)

/-- What was admitted is sent before the calls end. -/
theorem sends_of_admits (hprof : api.profile p = some prof) (hres : resident ≠ some p)
    (hr : Machine.run (step api) (World.init resident) as = some w)
    (hal : Machine.Along (step api) (OneProfile api p) (World.init resident) as)
    (hadm : OracleAdmits api prof as) : Sends w := by
  refine Machine.run_history_along
    (P := fun as w => Agreed p prof w ∧ (OracleAdmits api prof as → Sends w)) ?_ ?_ hr hal |>.2 hadm
  · refine ⟨(OnceInv.init hres).agreed, ?_⟩
    rintro ⟨j, t, est, hmem, -⟩
    cases hmem
  · rintro pre u l v - ⟨hag, hsend⟩ hl hs
    refine ⟨hag.step hprof hl hs, ?_⟩
    rintro ⟨j, t, est, hmem, ho⟩
    rcases List.mem_append.mp hmem with hmem | hmem
    · exact (hsend ⟨j, t, est, hmem, ho⟩).step hag hl hs
    · cases List.mem_singleton.mp hmem
      exact sends_of_judge hag ho hs

/-- A call without force that never needed a warm request was refused. -/
theorem BeforeLoad.exactly (h : BeforeLoad p w) (hd : w.AllDone) :
    (¬ ∃ c ∈ w.calls, c.req.force = some true) ∧ ¬ Sends w := by
  constructor
  · rintro ⟨c, hc, hforce⟩
    obtain ⟨o, ho⟩ := Option.isSome_iff_exists.mp (hd c hc)
    have hun : c.unwarmed = true := h.unwarmed c hc
    rcases phase_of_outcome ho with hp | hp
    · cases o <;> simp [Call.unwarmed, hp, hforce] at hun
    · simp [Call.unwarmed, hp] at hun
  · rintro (hne | ⟨c, hc, v, hp⟩)
    · exact hne h.none_sent
    · obtain ⟨o, ho⟩ := Option.isSome_iff_exists.mp (hd c hc)
      rw [Call.outcome, hp] at ho
      cases ho

theorem takesLate_run (hprof : api.profile p = some prof) (hres : resident ≠ some p)
    {pre post : List Label} {u : World}
    (hpre : Machine.run (step api) (World.init resident) pre = some u) (hsent : u.warms ≠ [])
    (hr : Machine.run (step api) (World.init resident) (pre ++ .act j .acquire :: post) = some w)
    (hal : Machine.Along (step api) (OneProfile api p) (World.init resident)
      (pre ++ .act j .acquire :: post)) : TakesLate api p j w := by
  have hu : OnceInv p prof u := OnceInv.run hprof hres hpre hal.append_left
  have hafter : AfterLoad p u := hu.side.resolve_left fun hb => hsent hb.none_sent
  obtain ⟨u', hpre', hrest⟩ := Machine.run_append_eq_some.mp hr
  rw [hpre] at hpre'
  cases hpre'
  obtain ⟨v, hacq, hpost⟩ := Machine.run_cons_eq_some.mp hrest
  have hal' : Machine.Along (step api) (OneProfile api p) u (.act j .acquire :: post) :=
    hal.append_right hpre
  have hv : TakesLate api p j v := by
    rcases step_cases hacq with ⟨req, chat, hlab, -⟩ | ⟨i, a, c, hlab, hc, hm⟩
    · cases hlab
    cases hlab
    cases hm with
    | acquire _ _ => exact ⟨_, Pool.getElem?_set_self hc, .inl ⟨_, rfl⟩⟩
  have hall : (Agreed p prof w ∧ AfterLoad p w) ∧ TakesLate api p j w := by
    refine Machine.run_inv_along
      (P := fun w => (Agreed p prof w ∧ AfterLoad p w) ∧ TakesLate api p j w) ?_ hpost
      (hal'.2 v hacq) ⟨⟨hu.agreed.step hprof hal'.1 hacq, hafter.step hu.agreed hal'.1 hacq⟩, hv⟩
    rintro s l t ⟨⟨hag, ha⟩, ht⟩ hl hs
    exact ⟨⟨hag.step hprof hl hs, ha.step hag hl hs⟩, ht.step ha hag hl hs⟩
  exact hall.2

theorem loadsOnce (hprof : api.profile p = some prof) (hres : resident ≠ some p)
    (hr : Machine.run (step api) (World.init resident) as = some w)
    (hal : Machine.Along (step api) (OneProfile api p) (World.init resident) as)
    (hd : w.AllDone) : LoadsOnce api resident p prof as w where
  at_most := by
    rcases (OnceInv.run hprof hres hr hal).side with hb | ha
    · rw [hb.none_sent]
      exact Nat.zero_le 1
    · exact ha.one_sent.le
  exactly h := by
    rcases (OnceInv.run hprof hres hr hal).side with hb | ha
    · obtain ⟨hforce, hsends⟩ := hb.exactly hd
      rcases h with h | h
      · exact absurd h hforce
      · exact absurd (sends_of_admits hprof hres hr hal h) hsends
    · exact ha.one_sent
  later pre j post u has hpre hsent := by
    subst has
    obtain ⟨c, hc, ⟨prof', hp⟩ | ho⟩ := takesLate_run hprof hres hpre hsent hr hal
    · obtain ⟨o, ho⟩ := Option.isSome_iff_exists.mp (hd c (List.mem_of_getElem? hc))
      rw [Call.outcome, hp] at ho
      cases ho
    · exact ⟨c, hc, ho⟩

/-- **Ensures are serialized**: in every run of any number of calls warm requests stay apart, the
events are the successes, and calls for one absent profile load it once. -/
theorem ensure_serialized (hr : Machine.run (step api) (World.init resident) as = some w) :
    Serialized api resident as w := by
  have hinv {pre : List Label} {u : World}
      (hu : Machine.run (step api) (World.init resident) pre = some u) : EventInv u :=
    Machine.run_inv (fun _ _ _ h hs => h.step hs) hu (.init resident)
  exact ⟨fun pre post u _ hu => (hinv hu).lock.apart, (hinv hr).complete,
    fun p prof hprof hres hal hd => loadsOnce hprof hres hr hal hd⟩

/-- Two calls for `B`, the second forced and waiting for the lock of the first. -/
def pairRun : List Label :=
  [.call ⟨"B", none⟩ false, .call ⟨"B", some true⟩ false, .act 0 .lookup, .act 1 .lookup,
    .act 0 .acquire, .act 0 (.probe none), .act 0 (.judge card24), .act 0 .warm,
    .act 0 (.answer (.ok ⟨200, "200 OK"⟩) 9 none), .act 0 .announce, .act 0 .finish,
    .act 1 .acquire, .act 1 (.probe (some (listed "B")))]

theorem ensure_serialized_pair : ∃ w prof,
    Machine.run (step pairApi) (World.init none) pairRun = some w ∧ w.AllDone ∧
      LoadsOnce pairApi none "B" prof pairRun w := by
  have hrun : ((Machine.run (step pairApi) (World.init none) pairRun).any
      fun w => decide w.AllDone) = true := by decide +kernel
  obtain ⟨w, hr, hd⟩ := (Option.any_eq_true _ _).mp hrun
  have hal : Machine.Along (step pairApi) (OneProfile pairApi "B") (World.init none) pairRun := by
    decide +kernel
  exact ⟨w, _, hr, of_decide_eq_true hd,
    (ensure_serialized hr).once "B" _ rfl (by decide) hal (of_decide_eq_true hd)⟩

end Saltnitor.ControlApi
