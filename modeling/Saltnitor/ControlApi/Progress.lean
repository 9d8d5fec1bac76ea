import Saltnitor.ControlApi.Cancel

/-!
# Ensures end

The steps of `Cancel` with a bound and a way on. Each step of a call and each dropped future uses
up part of `work`, and as long as an ensure runs, one that runs can go on, whatever the router and
the host answer: the lock is never kept by a call that has gone (`ensure_progress`). A step that
waits for room in the event channel counts as possible: the loop of the TUI takes its events.
-/

namespace Saltnitor.ControlApi

open Rust

/-! ## What is left to do -/

/-- The steps a call can still take, at most. -/
def Phase.left : Phase → Nat
  | .called => 9
  | .waiting _ => 8
  | .locked _ => 7
  | .probed _ => 6
  | .admitted _ => 5
  | .warming _ => 4
  | .warmed .. => 3
  | .announced .. => 2
  | .done _ => 1
  | .forwarded _ => 0

/-- The end of the future counts, too. -/
def Task.left (t : Task) : Nat := if t.dropped then 0 else t.call.phase.left + 1

def Server.work (s : Server) : Nat := (s.tasks.map Task.left).sum

/-- What a call does next, with the answers it gets. -/
def Phase.nextAct (env : EnsureEnv) (after : Option Str) : Phase → Act
  | .called => .lookup
  | .waiting _ => .acquire
  | .locked _ => .probe env.models
  | .probed _ => .judge env.telemetry
  | .admitted _ => .warm
  | .warming _ => .answer env.warm env.loadMs after
  | .warmed .. => .announce
  | .announced .. => .finish
  | .done _ | .forwarded _ => .forward

def ServerLabel.isCall : ServerLabel → Bool
  | .call .. => true
  | _ => false

/-- A step that some call takes where it stands, with the answers `answers` gives there. -/
def Server.Goes (answers : Server → EnsureEnv × Option Str) (s : Server) (l : ServerLabel) : Prop :=
  ∃ (i : Nat) (t : Task), s.tasks[i]? = some t ∧ t.running = true ∧
    l = .act i (t.call.phase.nextAct (answers s).1 (answers s).2)

/-- The ensures of a server end. -/
structure Server.Progresses (api : Api) (s : Server) : Prop where
  /-- Without new calls there are no more than `work` steps. -/
  bounded : ∀ ls u, (∀ l ∈ ls, l.isCall = false) → Machine.run (Server.step api) s ls = some u →
    ls.length + u.work ≤ s.work
  /-- While an ensure runs, one that runs can go on, whatever it is answered. -/
  alive : ¬ s.Idle → ∃ (i : Nat) (t : Task), s.tasks[i]? = some t ∧ t.running = true ∧
    ∀ env after, (Server.step api s (.act i (t.call.phase.nextAct env after))).isSome = true
  /-- However it is answered, all of them return though no client goes away. -/
  ends : ∀ answers, ∃ ls u, ls.length ≤ s.work ∧
    Machine.Along (Server.step api) (Server.Goes answers) s ls ∧
    Machine.run (Server.step api) s ls = some u ∧ u.Idle

variable {api : Api} {w w' : World} {i : Nat} {c d : Call} {a : Act} {s u : Server} {t : Task}
  {l : ServerLabel} {ls : List ServerLabel}

/-- Every move takes a call further. -/
theorem Move.left_lt (hm : Move api w i c a w') :
    ∃ d, w'.calls = w.calls.set i d ∧ d.phase.left < c.phase.left := by
  cases hm with
  | unknown hp _ | found hp _ | acquire hp _ | resident hp _ | absent hp _ | refuse hp _
  | passed hp _ | unsent hp _ | sent hp _ | loaded hp _ | failed hp _ | announce hp | finish hp
  | forward hp _ _ =>
    refine ⟨_, rfl, ?_⟩
    rw [hp]
    simp only [Phase.left]
    omega

theorem Server.work_call (hs : Server.step api s l = some u) (hl : l.isCall = true) :
    u.work = s.work + 10 := by
  cases l with
  | call caller req =>
    cases hs
    simp [Server.work, Task.new, Task.left, Phase.left]
  | act | drop => cases hl

theorem Server.work_lt (hs : Server.step api s l = some u) (hl : l.isCall = false) : u.work < s.work := by
  rcases Server.step_cases hs with ⟨caller, req, rfl, -⟩ | ⟨i, a, t, w, -, ht, hd, hm, rfl⟩ |
    ⟨i, after, t, -, ht, -, hd, rfl⟩
  · cases hl
  · obtain ⟨d, hcalls, hlt⟩ := hm.left_lt
    have hsum : ((s.tasks.set i { t with call := d }).map Task.left).sum + t.left =
        s.work + ({ t with call := d } : Task).left := Pool.sum_set ht
    have hold : t.left = t.call.phase.left + 1 := by rw [Task.left, hd]; rfl
    have hnew : ({ t with call := d } : Task).left = d.phase.left + 1 := by rw [Task.left, hd]; rfl
    rw [Server.work, advance_tasks ht hcalls]
    omega
  · have hsum : ((s.tasks.set i { t with dropped := true }).map Task.left).sum + t.left =
        s.work + ({ t with dropped := true } : Task).left := Pool.sum_set ht
    have hold : t.left = t.call.phase.left + 1 := by rw [Task.left, hd]; rfl
    have hnew : ({ t with dropped := true } : Task).left = 0 := rfl
    show ((s.tasks.set i { t with dropped := true }).map Task.left).sum < s.work
    omega

/-! ## Going on -/

theorem next_isSome (ho : c.outcome = none) (hturn : c.critical = true ∨ w.lock = none) (env : EnsureEnv)
    (after : Option Str) : (next api w i c (c.phase.nextAct env after)).isSome = true := by
  unfold next
  cases hp : c.phase with
  | called =>
    simp only [Phase.nextAct]
    cases api.profile c.req.profile <;> rfl
  | waiting prof =>
    have hl : w.lock = none := hturn.resolve_left (by rw [Call.critical, hp]; exact Bool.false_ne_true)
    simp only [Phase.nextAct, hl]
    rfl
  | locked prof =>
    simp only [Phase.nextAct]
    split <;> rfl
  | probed prof =>
    simp only [Phase.nextAct]
    split <;> rfl
  | admitted v =>
    simp only [Phase.nextAct]
    cases warmRequest api c.req.profile <;> rfl
  | warming v =>
    simp only [Phase.nextAct]
    cases warmResult env.warm <;> rfl
  | warmed v ms => rfl
  | announced v ms => rfl
  | done o =>
    rw [Call.outcome, hp] at ho
    cases ho
  | forwarded o =>
    rw [Call.outcome, hp] at ho
    cases ho

theorem not_idle : ¬ s.Idle → ∃ t ∈ s.tasks, t.running = true := by
  intro h
  by_contra hno
  refine h fun t ht => ?_
  by_contra hr
  exact hno ⟨t, ht, by simpa using hr⟩

theorem Server.LockInv.alive (h : s.LockInv) (hi : ¬ s.Idle) :
    ∃ (i : Nat) (t : Task), s.tasks[i]? = some t ∧ t.running = true ∧
      ∀ env after, (Server.step api s (.act i (t.call.phase.nextAct env after))).isSome = true := by
  obtain ⟨i, t, ht, hr, hturn⟩ := Pool.Guarded.exists_turn h (not_idle hi) fun _ => Task.running_of_critical
  refine ⟨i, t, ht, hr, fun env after => ?_⟩
  rw [Task.running, Bool.and_eq_true, Bool.not_eq_true', Option.isNone_iff_eq_none] at hr
  have hcrit : t.call.critical = true ∨ s.world.lock = none := by
    refine hturn.imp_left fun hc => ?_
    rw [Task.critical, Bool.and_eq_true] at hc
    exact hc.1
  rw [Server.step, ht, Option.bind_some, if_neg (by rw [hr.2]; decide), Option.isSome_map]
  exact next_isSome hr.1 hcrit env after

theorem Server.LockInv.progresses (h : s.LockInv) : s.Progresses api where
  bounded ls u hls hr := by
    refine Machine.run_history
      (P := fun ls u => (∀ l ∈ ls, l.isCall = false) → ls.length + u.work ≤ s.work)
      (fun _ => by rw [List.length_nil, Nat.zero_add]) ?_ hr hls
    intro ls t l u _ ih hs hls
    obtain ⟨hls, hl⟩ := List.forall_mem_append.mp hls
    have hlt := Server.work_lt hs (hl l (List.mem_singleton_self l))
    have hle := ih hls
    rw [List.length_append, List.length_singleton]
    omega
  alive := h.alive
  ends answers := by
    have hstep : ∀ s l u, s.LockInv → s.Goes answers l → Server.step api s l = some u →
        u.LockInv ∧ u.work < s.work := by
      rintro s l u hinv ⟨i, t, -, -, rfl⟩ hs
      exact ⟨hinv.step hs, Server.work_lt hs rfl⟩
    refine Machine.exists_run_of_rank hstep ?_ h
    intro s hinv hi
    obtain ⟨i, t, ht, hr, hsome⟩ := hinv.alive hi
    exact ⟨_, ⟨i, t, ht, hr, rfl⟩, hsome _ _⟩

/-- **No ensure waits for ever**: whatever calls are made and whichever clients go away, the daemon
takes at most ten steps for each call, and as long as an ensure runs it can go on. -/
theorem ensure_progress {resident : Option Str}
    (hr : Machine.run (Server.step api) (.init resident) ls = some s) :
    ls.countP (fun l => !l.isCall) + s.work ≤ 10 * ls.countP ServerLabel.isCall ∧ s.Progresses api := by
  have hlock : s.LockInv := Machine.run_inv (fun _ _ _ hi hs => hi.step hs) hr Pool.Guarded.nil
  refine ⟨?_, hlock.progresses⟩
  refine Machine.run_history (P := fun ls s => ls.countP (fun l => !l.isCall) + s.work ≤
    10 * ls.countP ServerLabel.isCall) (Nat.le_refl 0) ?_ hr
  intro ls t l u _ ih hs
  rw [List.countP_append, List.countP_append, List.countP_singleton, List.countP_singleton]
  cases hl : l.isCall with
  | false =>
    have hlt := Server.work_lt hs hl
    simp only [Bool.not_false, Bool.false_eq_true, if_true, if_false]
    omega
  | true =>
    have hwork := Server.work_call hs hl
    simp only [Bool.not_true, Bool.false_eq_true, if_true, if_false]
    omega

/-- Two ensures for the same model, the first dropped while it holds the lock. -/
theorem ensure_progress_dropped : ∃ s,
    Machine.run (Server.step pairApi) (.init none) [.call .hEnsure ⟨"A", none⟩, .call .hChat ⟨"A", none⟩,
      .act 0 .lookup, .act 1 .lookup, .act 0 .acquire, .drop 0 none] = some s ∧
    s.work = 9 ∧ ¬ s.Idle ∧ s.Progresses pairApi := by
  obtain ⟨s, hr, hs⟩ := (Option.any_eq_true _ _).mp
    (show ((Machine.run (Server.step pairApi) (.init none) [.call .hEnsure ⟨"A", none⟩,
      .call .hChat ⟨"A", none⟩, .act 0 .lookup, .act 1 .lookup, .act 0 .acquire, .drop 0 none]).any fun s =>
        decide (s.work = 9 ∧ ¬ s.Idle)) = true by decide +kernel)
  obtain ⟨hwork, hidle⟩ := of_decide_eq_true hs
  exact ⟨s, hr, hwork, hidle, (ensure_progress hr).2⟩

end Saltnitor.ControlApi
