import Saltnitor.Lib.Pool
import Saltnitor.Main.Confirm
import Saltnitor.Process.Interleave

/-!
# From the key to the signal

The loop of the TUI with the process table and the blocking tasks that `x` and a confirmed `X` start,
in any interleaving: keys and polls change the deck, processes are born and exit, and each task reads
`/proc` and signals on its own. `signals_run` joins the three: every task is from a key press of its
own, for the row selected there, and what it signals through its pidfd is the process that row
describes.
-/

namespace Saltnitor.Main

open Rust App Process Tuner

/-! ## The desk -/

/-- A blocking task that signals `target`, with how far it is. -/
structure Job where
  act : Action
  target : Target
  phase : Phase

/-- `start_terminate` and `confirm_kill` hand a target to a blocking task. -/
def Spawn.job : Spawn → Option Job
  | .terminate target _ _ => some ⟨.terminate, target, .selected target⟩
  | .kill target _ => some ⟨.confirmKill, target, .selected target⟩
  | _ => none

/-- What a task knows of the row its target is from. -/
def rowLeft (t : Target) : ProcessInfo where
  pid := t.pid
  name := t.name
  memoryBytes := 0
  gpuMemoryBytes := none
  gpuMemoryReason := none
  command := none
  startTimeTicks := t.identity.startTimeTicks
  uid := t.identity.uid

structure Desk where
  ui : State
  kernel : Kernel
  jobs : List Job

namespace Desk

inductive Label where
  | kernel (e : Kernel.Event)
  | ui (e : Event)
  | job (i : Nat) (a : Process.Label)

/-- A pidfd opened by a key is for the task that holds the selected row's PID. -/
def opens (d : Desk) : Event → Bool
  | .key k =>
    match d.ui.inspectors.selectedProc d.ui.openPane.1 with
    | some info => opensHolder d.kernel info.pid k.opened
    | none => true
  | _ => true

def start (l : Launch) (k : Kernel) : Desk := ⟨.new l, k, []⟩

def step (op : Operator) (fmtF32 : Float32 → Word) (d : Desk) : Label → Option Desk
  | .kernel e => (d.kernel.step e).map fun kernel => { d with kernel }
  | .ui e =>
    if d.opens e then
      (State.handle fmtF32 d.ui e).map fun ui =>
        { d with ui, jobs := d.jobs ++ ui.spawned.filterMap Spawn.job }
    else none
  | .job i a =>
    (d.jobs[i]?).bind fun j =>
      (next op j.act (rowLeft j.target) d.kernel j.phase a).map fun phase =>
        { d with jobs := d.jobs.set i { j with phase } }

end Desk

/-! ## What a turn starts -/

theorem Spawn.job_eq_none {x : Spawn} (h : x.signals = false) : x.job = none := by
  cases x with
  | terminate | kill => cases h
  | _ => rfl

/-- What a turn of the loop asks for, as far as signals go. -/
inductive Asks (s : State) (e : Event) (t : State) : Prop
  /-- Nothing; what is pending was pending, or is picked by this key. -/
  | nothing (hj : t.spawned.filterMap Spawn.job = [])
      (hp : ∀ T, t.pendingKill = some T →
        s.pendingKill = some T ∧ e.isKey = false ∨ ∃ k, e = .key k ∧ s.KillKey k T)
  | terminate {k : State.KeyInput} {info : ProcessInfo} (he : e = .key k)
      (hk : s.Pressed k .terminate) (hs : s.inspectors.selectedProc s.openPane.1 = some info)
      (hj : t.spawned.filterMap Spawn.job =
        [⟨.terminate, .select info k.opened, .selected (.select info k.opened)⟩])
      (hp : t.pendingKill = none)
  | kill {y : State.KeyInput} {T : Target} (he : e = .key y) (hy : y.key.code = .char 'y')
      (hs : s.pendingKill = some T)
      (hj : t.spawned.filterMap Spawn.job = [⟨.confirmKill, T, .selected T⟩])
      (hp : t.pendingKill = none)

theorem State.Turn.asks {s t : State} {e : Event} (h : State.Turn s e t) : Asks s e t := by
  have hnone (hx : ∀ x ∈ t.spawned, x.signals = false) : t.spawned.filterMap Spawn.job = [] :=
    List.filterMap_eq_nil_iff.mpr fun x hmem => Spawn.job_eq_none (hx x hmem)
  cases h with
  | quiet hk hq =>
    exact .nothing (hnone fun _ hx => hq.not_signals hx) fun _ hp => (State.Turn.quiet hk hq).pending hp
  | draw hq hi =>
    exact .nothing (hnone fun _ hx => hq.not_signals hx) fun _ hp => (State.Turn.draw hq hi).pending hp
  | poll hq hi =>
    exact .nothing (hnone fun _ hx => hq.not_signals hx) fun _ hp => (State.Turn.poll hq hi).pending hp
  | move hp hm => exact .nothing rfl fun _ ht => (State.Turn.move hp hm).pending ht
  | terminate hp hs => exact .terminate rfl hp hs rfl hp.pendingKill
  | ask hp hs => exact .nothing rfl fun _ ht => (State.Turn.ask hp hs).pending ht
  | confirm hp hy => exact .kill rfl hy hp rfl rfl
  | cancel hp hy => exact .nothing rfl fun _ ht => (State.Turn.cancel hp hy).pending ht

/-! ## Where a task is from -/

/-- The key of the inspector that asks for an action. -/
def actKey : Action → ProcKey
  | .terminate => .terminate
  | .confirmKill => .kill

section

variable (op : Operator) (fmtF32 : Float32 → Word) (l : Launch) (k₀ : Kernel)

/-- Step `n` is the key `pk` on the selected row `info`: it picks `T` in the table `k`. -/
def AskedAt (ls : List Desk.Label) (n : Nat) (pk : ProcKey) (info : ProcessInfo) (k : Kernel)
    (T : Target) : Prop :=
  ∃ (ui : State) (jobs : List Job) (key : State.KeyInput),
    Machine.run (Desk.step op fmtF32) (.start l k₀) (ls.take n) = some ⟨ui, k, jobs⟩ ∧
    ls[n]? = some (.ui (.key key)) ∧ ui.Pressed key pk ∧
    ui.inspectors.selectedProc ui.openPane.1 = some info ∧
    opensHolder k info.pid key.opened = true ∧ T = .select info key.opened

/-- No key comes after step `n` and before step `m`. -/
def NoKey (ls : List Desk.Label) (n m : Nat) : Prop :=
  ∀ i e, n < i → i < m → ls[i]? = some (.ui e) → e.isKey = false

/-- The next key after step `n` is `y`. -/
def ConfirmedAt (ls : List Desk.Label) (n : Nat) : Prop :=
  ∃ m y, n < m ∧ ls[m]? = some (.ui (.key y)) ∧ y.key.code = .char 'y' ∧ NoKey ls n m

/-- The task is from the key at `n`; since then it has acted on its row among the events of the
table. -/
def Rooted (ls : List Desk.Label) (kernel : Kernel) (n : Nat) (j : Job) : Prop :=
  ∃ info k as, AskedAt op fmtF32 l k₀ ls n (actKey j.act) info k j.target ∧
    Machine.run (Process.step op j.act info) ⟨k, .start⟩ as = some ⟨kernel, j.phase⟩ ∧
    j.phase ≠ .start

end

variable {op : Operator} {fmtF32 : Float32 → Word} {l : Launch} {k₀ k k' : Kernel}
  {ls : List Desk.Label} {n m : Nat} {pk : ProcKey} {info : ProcessInfo} {T : Target} {j : Job}
  {d u : Desk} {ns : List Nat} {p q : Phase} {a : Process.Label}

theorem AskedAt.lt (h : AskedAt op fmtF32 l k₀ ls n pk info k T) : n < ls.length := by
  obtain ⟨_, _, _, _, hkey, _⟩ := h
  exact (List.getElem?_eq_some_iff.mp hkey).1

theorem AskedAt.snoc (h : AskedAt op fmtF32 l k₀ ls n pk info k T) (x : Desk.Label) :
    AskedAt op fmtF32 l k₀ (ls ++ [x]) n pk info k T := by
  have hn := h.lt
  obtain ⟨ui, jobs, key, hr, hkey, hrest⟩ := h
  refine ⟨ui, jobs, key, ?_, ?_, hrest⟩
  · rw [List.take_append_of_le_length hn.le]
    exact hr
  · rw [List.getElem?_append_left hn]
    exact hkey

theorem NoKey.snoc {e : Desk.Label} (h : NoKey ls n ls.length)
    (he : ∀ x, e = .ui x → x.isKey = false) : NoKey (ls ++ [e]) n (ls ++ [e]).length := by
  intro i x hni hi hx
  rcases Pool.getElem?_concat_cases hx with hx | ⟨-, hx⟩
  · exact h i x hni (List.getElem?_eq_some_iff.mp hx).1 hx
  · exact he x hx.symm

theorem ConfirmedAt.snoc (h : ConfirmedAt ls n) (x : Desk.Label) : ConfirmedAt (ls ++ [x]) n := by
  obtain ⟨m, y, hnm, hm, hy, hno⟩ := h
  have hlt : m < ls.length := (List.getElem?_eq_some_iff.mp hm).1
  refine ⟨m, y, hnm, ?_, hy, fun i e hni him he => ?_⟩
  · rw [List.getElem?_append_left hlt]
    exact hm
  · rw [List.getElem?_append_left (him.trans hlt)] at he
    exact hno i e hni him he

/-! ## Steps of a task -/

theorem ne_start_of_next {act : Action} (h : next op act info k p a = some q) :
    q ≠ .start := by
  cases advance_of_next h <;> exact nofun

theorem step_of_next {act : Action} (h : next op act info k p a = some q) :
    Process.step op act info ⟨k, p⟩ a = some ⟨k, q⟩ := by
  have hm := advance_of_next h
  cases a with
  | kernel e => cases hm
  | _ =>
    simp only [Process.step, h]
    rfl

/-- Only the selection reads the row itself. -/
theorem next_congr {act : Action} (info' : ProcessInfo) (hp : p ≠ .start) :
    next op act info k p a = next op act info' k p a := by
  unfold next
  split
  case h_1 => exact absurd rfl hp
  all_goals rfl

theorem Rooted.lt (h : Rooted op fmtF32 l k₀ ls k n j) : n < ls.length := by
  obtain ⟨_, _, _, hasked, _⟩ := h
  exact hasked.lt

theorem Rooted.snoc (h : Rooted op fmtF32 l k₀ ls k n j) (x : Desk.Label) :
    Rooted op fmtF32 l k₀ (ls ++ [x]) k n j := by
  obtain ⟨info, k₁, as, hasked, hrun⟩ := h
  exact ⟨info, k₁, as, hasked.snoc x, hrun⟩

theorem Rooted.event {e : Kernel.Event} (h : Rooted op fmtF32 l k₀ ls k n j) (he : k.step e = some k') :
    Rooted op fmtF32 l k₀ ls k' n j := by
  obtain ⟨info, k₁, as, hasked, hrun, hp⟩ := h
  refine ⟨info, k₁, as ++ [.kernel e], hasked, ?_, hp⟩
  refine Machine.run_append_eq_some.mpr ⟨_, hrun, ?_⟩
  rw [Machine.run_cons, Process.step, he]
  rfl

theorem Rooted.next (h : Rooted op fmtF32 l k₀ ls k n j)
    (hn : next op j.act (rowLeft j.target) k j.phase a = some p) :
    Rooted op fmtF32 l k₀ ls k n { j with phase := p } := by
  obtain ⟨info, k₁, as, hasked, hrun, hp⟩ := h
  rw [next_congr info hp] at hn
  refine ⟨info, k₁, as ++ [a], hasked, ?_, ne_start_of_next hn⟩
  refine Machine.run_append_eq_some.mpr ⟨_, hrun, ?_⟩
  rw [Machine.run_cons, step_of_next hn]
  rfl

theorem rooted_select {ui : State} {jobs : List Job} {key : State.KeyInput} {act : Action}
    (hr : Machine.run (Desk.step op fmtF32) (.start l k₀) ls = some ⟨ui, k, jobs⟩)
    (hk : ui.Pressed key (actKey act)) (hs : ui.inspectors.selectedProc ui.openPane.1 = some info)
    (ho : opensHolder k info.pid key.opened = true) :
    Rooted op fmtF32 l k₀ (ls ++ [.ui (.key key)]) k ls.length
      ⟨act, .select info key.opened, .selected (.select info key.opened)⟩ := by
  refine ⟨info, k, [.select key.opened], ⟨ui, jobs, key, ?_, ?_, hk, hs, ho, rfl⟩, ?_, nofun⟩
  · rw [List.take_left]
    exact hr
  · rw [List.getElem?_concat_length]
  · have hsel : next op act info k .start (.select key.opened) =
        some (.selected (.select info key.opened)) := if_pos ho
    rw [Machine.run_cons, step_of_next hsel]
    rfl

/-! ## The invariant -/

/-- `ns` has the key presses the tasks are from, one for each, in order; a pending SIGKILL is from a
later one. -/
structure DeskInv (op : Operator) (fmtF32 : Float32 → Word) (l : Launch) (k₀ : Kernel)
    (ls : List Desk.Label) (d : Desk) (ns : List Nat) : Prop where
  rooted : List.Forall₂ (fun j n => Rooted op fmtF32 l k₀ ls d.kernel n j ∧
    (j.act = .confirmKill → ConfirmedAt ls n)) d.jobs ns
  sorted : ns.Pairwise (· < ·)
  bound : ∀ n ∈ ns, n < ls.length
  pending : ∀ T, d.ui.pendingKill = some T → ∃ n, (∀ m ∈ ns, m < n) ∧
    Rooted op fmtF32 l k₀ ls d.kernel n ⟨.confirmKill, T, .selected T⟩ ∧ NoKey ls n ls.length

theorem Desk.step_cases {x : Desk.Label} (hs : Desk.step op fmtF32 d x = some u) :
    (∃ e k', x = .kernel e ∧ d.kernel.step e = some k' ∧ u = { d with kernel := k' }) ∨
    (∃ e ui, x = .ui e ∧ d.opens e = true ∧ State.handle fmtF32 d.ui e = some ui ∧
      u = { d with ui := ui, jobs := d.jobs ++ ui.spawned.filterMap Spawn.job }) ∨
    (∃ i a j p, x = .job i a ∧ d.jobs[i]? = some j ∧
      next op j.act (rowLeft j.target) d.kernel j.phase a = some p ∧
      u = { d with jobs := d.jobs.set i { j with phase := p } }) := by
  cases x with
  | kernel e =>
    obtain ⟨k', he, rfl⟩ := Option.map_eq_some_iff.mp hs
    exact .inl ⟨e, k', rfl, he, rfl⟩
  | ui e =>
    obtain ⟨ho, hs⟩ := Option.ite_none_right_eq_some.mp hs
    obtain ⟨ui, hui, rfl⟩ := Option.map_eq_some_iff.mp hs
    exact .inr (.inl ⟨e, ui, rfl, ho, hui, rfl⟩)
  | job i a =>
    obtain ⟨j, hj, hs⟩ := Option.bind_eq_some_iff.mp hs
    obtain ⟨p, hp, rfl⟩ := Option.map_eq_some_iff.mp hs
    exact .inr (.inr ⟨i, a, j, p, rfl, hj, hp, rfl⟩)

theorem opensHolder_of_opens {key : State.KeyInput} (h : d.opens (.key key) = true)
    (hs : d.ui.inspectors.selectedProc d.ui.openPane.1 = some info) :
    opensHolder d.kernel info.pid key.opened = true := by
  rw [Desk.opens, hs] at h
  exact h

/-- The tasks after one more step of the desk, where none of them moved. -/
theorem DeskInv.later (h : DeskInv op fmtF32 l k₀ ls d ns) (x : Desk.Label) :
    List.Forall₂ (fun j n => Rooted op fmtF32 l k₀ (ls ++ [x]) d.kernel n j ∧
      (j.act = .confirmKill → ConfirmedAt (ls ++ [x]) n)) d.jobs ns :=
  h.rooted.imp fun _ _ ⟨hroot, hconf⟩ => ⟨hroot.snoc x, fun hk => (hconf hk).snoc x⟩

theorem DeskInv.bound_snoc (h : DeskInv op fmtF32 l k₀ ls d ns) (x : Desk.Label) :
    ∀ n ∈ ns, n < (ls ++ [x]).length := by
  intro n hn
  rw [List.length_append, List.length_singleton]
  exact Nat.lt_succ_of_lt (h.bound n hn)

theorem DeskInv.event {e : Kernel.Event} (h : DeskInv op fmtF32 l k₀ ls d ns)
    (he : d.kernel.step e = some k') :
    DeskInv op fmtF32 l k₀ (ls ++ [.kernel e]) { d with kernel := k' } ns where
  rooted := (h.later _).imp fun _ _ ⟨hroot, hconf⟩ => ⟨hroot.event he, hconf⟩
  sorted := h.sorted
  bound := h.bound_snoc _
  pending T hT := by
    obtain ⟨n, hbefore, hroot, hno⟩ := h.pending T hT
    exact ⟨n, hbefore, (hroot.snoc _).event he, hno.snoc fun _ hx => nomatch hx⟩

theorem DeskInv.next {i : Nat} (h : DeskInv op fmtF32 l k₀ ls d ns) (hj : d.jobs[i]? = some j)
    (hn : next op j.act (rowLeft j.target) d.kernel j.phase a = some p) :
    DeskInv op fmtF32 l k₀ (ls ++ [.job i a]) { d with jobs := d.jobs.set i { j with phase := p } } ns where
  rooted := Pool.forall₂_set (h.later _) hj fun _ ⟨hroot, hconf⟩ => ⟨hroot.next hn, hconf⟩
  sorted := h.sorted
  bound := h.bound_snoc _
  pending T hT := by
    obtain ⟨n, hbefore, hroot, hno⟩ := h.pending T hT
    exact ⟨n, hbefore, hroot.snoc _, hno.snoc fun _ hx => nomatch hx⟩

theorem DeskInv.add {x : Desk.Label} {ui : State} (h : DeskInv op fmtF32 l k₀ ls d ns)
    (hj : ui.spawned.filterMap Spawn.job = [j]) (hp : ui.pendingKill = none)
    (hroot : Rooted op fmtF32 l k₀ (ls ++ [x]) d.kernel n j)
    (hconf : j.act = .confirmKill → ConfirmedAt (ls ++ [x]) n) (hn : ∀ m ∈ ns, m < n) :
    DeskInv op fmtF32 l k₀ (ls ++ [x])
      { d with ui := ui, jobs := d.jobs ++ ui.spawned.filterMap Spawn.job } (ns ++ [n]) where
  rooted := by
    rw [hj]
    exact List.rel_append (h.later x) (.cons ⟨hroot, hconf⟩ .nil)
  sorted := by
    refine List.pairwise_append.mpr ⟨h.sorted, List.pairwise_singleton .., fun m hm n' hn' => ?_⟩
    rw [List.mem_singleton.mp hn']
    exact hn m hm
  bound := by
    intro m hm
    rcases List.mem_append.mp hm with hm | hm
    · exact h.bound_snoc x m hm
    · rw [List.mem_singleton.mp hm]
      exact hroot.lt
  pending T hT := nomatch hp.symm.trans hT

theorem DeskInv.turn {e : Event} {ui : State} (h : DeskInv op fmtF32 l k₀ ls d ns)
    (hr : Machine.run (Desk.step op fmtF32) (.start l k₀) ls = some d) (ho : d.opens e = true)
    (hui : State.handle fmtF32 d.ui e = some ui) :
    ∃ ns', DeskInv op fmtF32 l k₀ (ls ++ [.ui e])
      { d with ui := ui, jobs := d.jobs ++ ui.spawned.filterMap Spawn.job } ns' := by
  cases (State.turn_of_handle hui).asks with
  | nothing hj hp =>
    refine ⟨ns, ?_, h.sorted, h.bound_snoc _, fun T hT => ?_⟩
    · rw [hj, List.append_nil]
      exact h.later _
    · rcases hp T hT with ⟨hpending, he⟩ | ⟨key, rfl, hkey⟩
      · obtain ⟨n, hbefore, hroot, hno⟩ := h.pending T hpending
        refine ⟨n, hbefore, hroot.snoc _, hno.snoc ?_⟩
        rintro _ ⟨⟩
        exact he
      · -- the key that asks; nothing has come after it
        obtain ⟨info, hs, rfl⟩ := hkey.selected
        have hopen := opensHolder_of_opens ho hs
        refine ⟨ls.length, h.bound, rooted_select hr hkey.pressed hs hopen, fun i x hi hlt => ?_⟩
        rw [List.length_append, List.length_singleton] at hlt
        omega
  | terminate he hk hs hj hp =>
    subst he
    exact ⟨_, h.add hj hp (rooted_select hr hk hs (opensHolder_of_opens ho hs)) nofun h.bound⟩
  | @kill y T he hy hs hj hp =>
    subst he
    obtain ⟨n, hbefore, hroot, hno⟩ := h.pending T hs
    refine ⟨_, h.add hj hp (hroot.snoc _) (fun _ => ?_) hbefore⟩
    refine ⟨ls.length, y, hroot.lt, List.getElem?_concat_length .., hy, fun i x hni hi hx => ?_⟩
    rw [List.getElem?_append_left hi] at hx
    exact hno i x hni hi hx

theorem deskInv_run (hr : Machine.run (Desk.step op fmtF32) (.start l k₀) ls = some d) :
    ∃ ns, DeskInv op fmtF32 l k₀ ls d ns := by
  refine Machine.run_history (P := fun ls d => ∃ ns, DeskInv op fmtF32 l k₀ ls d ns) ?_ ?_ hr
  · exact ⟨[], .nil, .nil, nofun, nofun⟩
  · rintro ls d x u hr ⟨ns, h⟩ hs
    rcases Desk.step_cases hs with ⟨e, k', rfl, he, rfl⟩ | ⟨e, ui, rfl, ho, hui, rfl⟩ |
      ⟨i, a, j, p, rfl, hj, hn, rfl⟩
    · exact ⟨ns, h.event he⟩
    · exact h.turn hr ho hui
    · exact ⟨ns, h.next hj hn⟩

/-! ## From the key to the signal -/

/-- What is known of a task from the key at `n`. -/
structure Signals (op : Operator) (fmtF32 : Float32 → Word) (l : Launch) (k₀ : Kernel)
    (ls : List Desk.Label) (kernel : Kernel) (j : Job) (n : Nat) (info : ProcessInfo) (k : Kernel)
    (as : List Process.Label) : Prop where
  /-- The key selects `info` in the table `k`. -/
  asked : AskedAt op fmtF32 l k₀ ls n (actKey j.act) info k j.target
  confirmed : j.act = .confirmKill → ConfirmedAt ls n
  /-- Since then the task did `as` among the events of the table. -/
  acts : Machine.run (Process.step op j.act info) ⟨k, .start⟩ as = some ⟨kernel, j.phase⟩
  delivered : ∀ g fd v, j.phase = .delivered g (.pidfd fd) v →
    v.id = fd ∧ Described op info kernel g v ∧ OwnerSeen op j.act info k as v.birth

theorem Rooted.signals (h : Rooted op fmtF32 l k₀ ls k n j) (hc : j.act = .confirmKill → ConfirmedAt ls n) :
    ∃ info k₁ as, Signals op fmtF32 l k₀ ls k j n info k₁ as := by
  obtain ⟨info, k₁, as, hasked, hrun, -⟩ := h
  refine ⟨info, k₁, as, hasked, hc, hrun, fun g fd v hd => ?_⟩
  have hinv := inv_of_run hrun
  rw [hd] at hinv
  obtain ⟨hg, hs, hid, hb, hpid, htgid, hstart, ho⟩ := hinv fd rfl
  refine ⟨hid, ⟨hpid, hstart, fun b hb' hp hst => ?_, htgid.trans hpid.symm, hg,
    hpid ▸ hs.not_init, hpid ▸ hs.not_self, hpid ▸ hs.not_runtime⟩, ho⟩
  exact Kernel.birth_eq_of_start hb' hb (hp.trans hpid.symm) (hst.trans hstart.symm)

/-- **From the key to the signal**, however keys, polls, births, exits and tasks interleave: each task
is from a key press of its own, a SIGKILL from one that the next key confirmed, for the row selected
there; and a signal through its pidfd reached the process of that row, and no other. -/
theorem signals_run (hr : Machine.run (Desk.step op fmtF32) (.start l k₀) ls = some d) :
    ∃ ns : List Nat, ns.Pairwise (· < ·) ∧ List.Forall₂ (fun j n => ∃ info k as,
      Signals op fmtF32 l k₀ ls d.kernel j n info k as) d.jobs ns := by
  obtain ⟨ns, h⟩ := deskInv_run hr
  exact ⟨ns, h.sorted, h.rooted.imp fun _ _ ⟨hroot, hc⟩ => hroot.signals hc⟩

/-! ## A task left alone -/

theorem run_job {i : Nat} {as : List Process.Label} (hj : d.jobs[i]? = some j) (hp : j.phase ≠ .start)
    (has : ∀ a ∈ as, a.isKernel = false)
    (hr : Machine.run (Process.step op j.act info) ⟨d.kernel, j.phase⟩ as = some ⟨d.kernel, q⟩) :
    Machine.run (Desk.step op fmtF32) d (as.map (.job i)) =
      some { d with jobs := d.jobs.set i { j with phase := q } } := by
  induction as generalizing d j with
  | nil =>
    cases hr
    obtain ⟨hi, hj⟩ := List.getElem?_eq_some_iff.mp hj
    have hset : d.jobs.set i j = d.jobs := by
      rw [← hj]
      exact List.set_getElem_self hi
    show some d = some { d with jobs := d.jobs.set i j }
    rw [hset]
  | cons a as ih =>
    obtain ⟨ha, has⟩ := List.forall_mem_cons.mp has
    obtain ⟨w, hw, hr⟩ := Machine.run_cons_eq_some.mp hr
    obtain ⟨p, hn, rfl⟩ : ∃ p, next op j.act info d.kernel j.phase a = some p ∧ w = ⟨d.kernel, p⟩ := by
      cases a with
      | kernel e => cases ha
      | _ =>
        obtain ⟨p, hn, rfl⟩ := Option.map_eq_some_iff.mp hw
        exact ⟨p, hn, rfl⟩
    have hne := ne_start_of_next hn
    rw [next_congr (rowLeft j.target) hp] at hn
    have hset : (d.jobs.set i { j with phase := p })[i]? = some { j with phase := p } :=
      Pool.getElem?_set_self hj
    have hrest := @ih { j with phase := p } { d with jobs := d.jobs.set i { j with phase := p } } hset
      hne has hr
    rw [List.set_set] at hrest
    rw [List.map_cons, Machine.run_cons, Desk.step, hj, Option.bind_some, hn]
    exact hrest

/-- A task that has its target ends as `runAction` does, if nothing disturbs it. -/
theorem exists_run_job (op : Operator) (fmtF32 : Float32 → Word) (permits : Task → Bool)
    (out : Option QueryOutput) {i : Nat} (hj : d.jobs[i]? = some j) (hp : j.phase = .selected j.target) :
    ∃ (as : List Process.Label) (q : Phase), Machine.run (Desk.step op fmtF32) d (as.map (.job i)) =
        some { d with jobs := d.jobs.set i { j with phase := q } } ∧
      Outcome j.target (Guard.current op (runtimeTree d.kernel.texts out))
        (runAction j.act d.kernel d.kernel.texts permits op out j.target) q := by
  obtain ⟨q, hq, hout⟩ : ∃ q, Process.Quiet op j.act (rowLeft j.target) d.kernel
      (.guarded j.target _) q ∧
        Outcome j.target _ (runAction j.act d.kernel d.kernel.texts permits op out j.target) q :=
    quiet_guarded permits j.target (Guard.current op (runtimeTree d.kernel.texts out))
  obtain ⟨as, has, hr⟩ := (quiet_query out).trans hq
  exact ⟨as, q, run_job hj (by rw [hp]; exact nofun) has (by rw [hp]; exact hr), hout⟩

/-! The router is selected, killed, confirmed and signalled. -/

def routerRow : ProcessInfo := { rowOf routerTask with memoryBytes := 4194304 }

def routerKey (code : KeyCode) : Event := .key { sampleKey code with opened := .ok 0 }

def routerPoll : Event := .hardwareUpdate (.fin 8) 5 none [routerRow] []

/-- The `X` is step 3, and another poll comes before the `y`. -/
def routerSteps : List Event :=
  [routerPoll, routerKey (.char 'c'), routerKey .down, routerKey (.char 'X'), routerPoll,
    routerKey (.char 'y')]

theorem kernel_of_keys {es : List Event}
    (hr : Machine.run (Desk.step op fmtF32) d (es.map .ui) = some u) : u.kernel = d.kernel := by
  induction es generalizing d with
  | nil =>
    cases hr
    rfl
  | cons e es ih =>
    obtain ⟨v, hv, hr⟩ := Machine.run_cons_eq_some.mp hr
    obtain ⟨-, hv⟩ := Option.ite_none_right_eq_some.mp hv
    obtain ⟨ui, -, rfl⟩ := Option.map_eq_some_iff.mp hv
    exact (ih hr :)

/-- The target a task begins with. -/
def Job.begins (j : Job) : Option (Action × Target) :=
  match j.phase with
  | .selected t => if t = j.target then some (j.act, t) else none
  | _ => none

theorem Job.eq_of_begins {act : Action} (h : j.begins = some (act, T)) : j = ⟨act, T, .selected T⟩ := by
  obtain ⟨act', T', phase⟩ := j
  unfold Job.begins at h
  split at h
  · rename_i t hp
    obtain ⟨ht, h⟩ := Option.ite_none_right_eq_some.mp h
    obtain ⟨rfl, rfl⟩ := Prod.mk.inj (Option.some.inj h)
    subst ht
    cases hp
    rfl
  · cases h

theorem signals_run_router : ∃ ls d g,
    Machine.run (Desk.step routerOperator fmtOne) (.start sampleLaunch routerTable) ls = some d ∧
    d.jobs = [⟨.confirmKill, .select routerRow (.ok 0), .delivered g (.pidfd 0) routerTask⟩] ∧
    ∃ ns : List Nat, ns.Pairwise (· < ·) ∧ List.Forall₂ (fun j n => ∃ info k as,
      Signals routerOperator fmtOne sampleLaunch routerTable ls d.kernel j n info k as) d.jobs ns := by
  have hrun : ((Machine.run (Desk.step routerOperator fmtOne) (.start sampleLaunch routerTable)
      (routerSteps.map .ui)).map fun d => d.jobs.map Job.begins) =
        some [some (.confirmKill, .select routerRow (.ok 0))] := by
    decide +kernel
  obtain ⟨d, hd, hj⟩ := Option.map_eq_some_iff.mp hrun
  obtain ⟨j, hjobs, hj⟩ : ∃ j, d.jobs = [j] ∧ j.begins = some (.confirmKill, .select routerRow (.ok 0)) := by
    obtain ⟨j, js, hjobs, hj, hjs⟩ := List.map_eq_cons_iff.mp hj
    rw [List.map_eq_nil_iff.mp hjs] at hjobs
    exact ⟨j, hjobs, hj⟩
  cases Job.eq_of_begins hj
  have hkernel : d.kernel = routerTable := kernel_of_keys hd
  obtain ⟨as, q, has, hout⟩ := exists_run_job routerOperator fmtOne (fun _ => true) none
    (show d.jobs[0]? = some _ by rw [hjobs]; rfl) rfl
  have hrouter : runAction .confirmKill d.kernel d.kernel.texts (fun _ => true) routerOperator none
      (.select routerRow (.ok 0)) = .ok routerTask := by
    rw [hkernel]
    exact runAction_router .confirmKill
  dsimp only at hout
  rw [hrouter] at hout
  obtain ⟨route, hroute, rfl⟩ := hout
  cases show route = .pidfd 0 from (Option.some.inj hroute).symm
  have hall := Machine.run_append_eq_some.mpr ⟨d, hd, has⟩
  refine ⟨_, _, Guard.current routerOperator (runtimeTree d.kernel.texts none), hall, ?_,
    signals_run hall⟩
  rw [hjobs]
  rfl

end Saltnitor.Main
