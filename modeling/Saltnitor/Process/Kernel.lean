import Saltnitor.Lib.Worklist
import Saltnitor.Process.Control

/-!
# The process table

`Kernel` is the process table with the births it has seen. Its fields say what
the program assumes of it: a PID has one holder at a time, an id is given once,
and two tasks that hold one PID at different times differ in start time. What
happens to the table is `birth`, `change` (anything but the birth itself) and
`reap`; `/proc` shows the tasks that are there.
-/

namespace Saltnitor.Process

open Rust

/-- What a task keeps from its birth on. -/
structure Birth where
  id : Nat
  pid : Nat
  tgid : Nat
  startTimeTicks : Nat
  deriving DecidableEq

def Task.birth (t : Task) : Birth :=
  { id := t.id, pid := t.pid, tgid := t.tgid, startTimeTicks := t.startTimeTicks }

structure Kernel where
  tasks : List Task
  born : List Birth
  pids_nodup : (tasks.map Task.pid).Nodup
  recorded : ∀ t ∈ tasks, t.birth ∈ born
  ids_nodup : (born.map Birth.id).Nodup
  starts_nodup : (born.map fun b => (b.pid, b.startTimeTicks)).Nodup

namespace Kernel

variable {k k' : Kernel} {t u : Task} {b c : Birth} {pid id : Nat}

theorem eq_of_pid (ht : t ∈ k.tasks) (hu : u ∈ k.tasks) (h : t.pid = u.pid) : t = u :=
  List.inj_on_of_nodup_map k.pids_nodup ht hu h

theorem birth_eq_of_id (hb : b ∈ k.born) (hc : c ∈ k.born) (h : b.id = c.id) : b = c :=
  List.inj_on_of_nodup_map k.ids_nodup hb hc h

theorem birth_eq_of_start (hb : b ∈ k.born) (hc : c ∈ k.born) (hp : b.pid = c.pid)
    (hs : b.startTimeTicks = c.startTimeTicks) : b = c :=
  List.inj_on_of_nodup_map k.starts_nodup hb hc (Prod.ext hp hs)

/-! ## `/proc` -/

/-- The task that holds `pid`. -/
def find (k : Kernel) (pid : Nat) : Option Task := k.tasks.find? fun t => t.pid == pid

/-- The task with this id, while it is in the table. -/
def byId (k : Kernel) (id : Nat) : Option Task := k.tasks.find? fun t => t.id == id

def stat (k : Kernel) (pid : Nat) : Option Str := (k.find pid).map Task.statText

def status (k : Kernel) (pid : Nat) : Option Str := (k.find pid).map Task.statusText

/-- The numbered directories of `/proc`: one for each process, none for a mere thread. -/
def listing (k : Kernel) : List Nat := (k.tasks.filter fun t => t.isLeader).map Task.pid

theorem find_eq_some : k.find pid = some t ↔ t ∈ k.tasks ∧ t.pid = pid := by
  constructor
  · intro h
    exact ⟨List.mem_of_find?_eq_some h, by simpa using List.find?_some h⟩
  · rintro ⟨ht, rfl⟩
    cases hf : k.find t.pid with
    | none => simpa using List.find?_eq_none.mp hf t ht
    | some u =>
      have hu : u.pid = t.pid := by simpa using List.find?_some hf
      rw [eq_of_pid (List.mem_of_find?_eq_some hf) ht hu]

theorem byId_eq_some : k.byId id = some t ↔ t ∈ k.tasks ∧ t.id = id := by
  constructor
  · intro h
    exact ⟨List.mem_of_find?_eq_some h, by simpa using List.find?_some h⟩
  · rintro ⟨ht, rfl⟩
    cases hf : k.byId t.id with
    | none => simpa using List.find?_eq_none.mp hf t ht
    | some u =>
      have hu : u ∈ k.tasks := List.mem_of_find?_eq_some hf
      have hid : u.id = t.id := by simpa using List.find?_some hf
      have hb := birth_eq_of_id (k.recorded u hu) (k.recorded t ht) hid
      rw [eq_of_pid hu ht (congrArg Birth.pid hb)]

theorem tgid_status : tgid (k.status pid) = (k.find pid).map Task.tgid := by
  cases h : k.find pid <;> simp [status, h, tgid, Task.parseTgid_statusText]

theorem parseStat_stat : (k.stat pid).bind parseStat =
    (k.find pid).bind fun t => if t.isZombie then none else some t.startTimeTicks := by
  cases h : k.find pid <;> simp [stat, h, Task.parseStat_statText]

theorem parseUid_status : (k.status pid).bind parseUid = (k.find pid).map Task.uid := by
  cases h : k.find pid <;> simp [status, h, Task.parseUid_statusText]

/-! ## Signals -/

/-- The process a route leads to. -/
def holder (k : Kernel) : Route → Option Task
  | .pidfd id => k.byId id
  | .byPid pid => k.find pid

/-- The process a signal reaches: the kernel may find none, or not let the operator signal it. -/
def deliver (k : Kernel) (permits : Task → Bool) (route : Route) : Except Str Task :=
  match k.holder route with
  | none => .error "No such process (os error 3)"
  | some v => if permits v then .ok v else .error "Operation not permitted (os error 1)"

theorem deliver_eq_ok {permits : Task → Bool} {route : Route} :
    k.deliver permits route = .ok t ↔ k.holder route = some t ∧ permits t = true := by
  unfold deliver
  cases k.holder route with
  | none => simp
  | some v =>
    simp only [Option.some.injEq]
    constructor
    · intro h
      split at h
      · cases h
        exact ⟨rfl, by assumption⟩
      · cases h
    · rintro ⟨rfl, hp⟩
      rw [if_pos hp]

/-! ## What happens to it -/

/-- A task is born with a new id, on a free PID, with a start time that PID never had. -/
def birth (k : Kernel) (t : Task) : Option Kernel :=
  if h : t.pid ∉ k.tasks.map Task.pid ∧ t.id ∉ k.born.map Birth.id ∧
      (t.pid, t.startTimeTicks) ∉ k.born.map fun b => (b.pid, b.startTimeTicks) then
    some {
      tasks := t :: k.tasks
      born := t.birth :: k.born
      pids_nodup := List.nodup_cons.mpr ⟨h.1, k.pids_nodup⟩
      recorded := by
        intro u hu
        rcases List.mem_cons.mp hu with rfl | hu
        · exact List.mem_cons_self ..
        · exact List.mem_cons_of_mem _ (k.recorded u hu)
      ids_nodup := List.nodup_cons.mpr ⟨h.2.1, k.ids_nodup⟩
      starts_nodup := List.nodup_cons.mpr ⟨h.2.2, k.starts_nodup⟩ }
  else none

/-- A task exits, changes its uid, its name, its parent: anything but its birth. -/
def change (k : Kernel) (t : Task) : Option Kernel :=
  if h : t.birth ∈ k.born then
    some { k with
      tasks := k.tasks.map fun u => if u.id = t.id then t else u
      pids_nodup := by
        have hp : (k.tasks.map fun u => if u.id = t.id then t else u).map Task.pid =
            k.tasks.map Task.pid := by
          rw [List.map_map]
          refine List.map_congr_left fun u hu => ?_
          simp only [Function.comp_apply]
          split
          · rename_i hid
            exact congrArg Birth.pid (birth_eq_of_id h (k.recorded u hu) hid.symm)
          · rfl
        rw [hp]
        exact k.pids_nodup
      recorded := by
        intro u hu
        obtain ⟨v, hv, rfl⟩ := List.mem_map.mp hu
        split
        · exact h
        · exact k.recorded v hv }
  else none

/-- A task leaves the table. -/
def reap (k : Kernel) (id : Nat) : Kernel :=
  { k with
    tasks := k.tasks.filter fun t => t.id ≠ id
    pids_nodup := k.pids_nodup.sublist (List.filter_sublist.map _)
    recorded := fun t ht => k.recorded t (List.mem_of_mem_filter ht) }

inductive Event where
  | birth (t : Task)
  | change (t : Task)
  | reap (id : Nat)

def step (k : Kernel) : Event → Option Kernel
  | .birth t => k.birth t
  | .change t => k.change t
  | .reap id => some (k.reap id)

/-- The process is in the table, running or a zombie. -/
def Alive (k : Kernel) (id : Nat) : Prop := ∃ t ∈ k.tasks, t.id = id

theorem birth_eq_some (h : k.birth t = some k') :
    k'.tasks = t :: k.tasks ∧ k'.born = t.birth :: k.born ∧ t.id ∉ k.born.map Birth.id := by
  unfold birth at h
  split at h
  · rename_i hfree
    cases h
    exact ⟨rfl, rfl, hfree.2.1⟩
  · cases h

theorem change_eq_some (h : k.change t = some k') :
    k'.tasks = k.tasks.map (fun u => if u.id = t.id then t else u) ∧ k'.born = k.born := by
  unfold change at h
  split at h
  · cases h
    exact ⟨rfl, rfl⟩
  · cases h

theorem born_subset_of_step {e : Event} (h : k.step e = some k') : k.born ⊆ k'.born := by
  cases e with
  | birth t =>
    rw [(birth_eq_some h).2.1]
    exact List.subset_cons_self ..
  | change t => rw [(change_eq_some h).2]; exact List.Subset.refl _
  | reap id => cases h; exact List.Subset.refl _

/-- What was born and is in the table now was in it before: ids do not come back. -/
theorem alive_of_step {e : Event} (h : k.step e = some k') (hb : b ∈ k.born)
    (ha : k'.Alive b.id) : k.Alive b.id := by
  obtain ⟨u, hu, hid⟩ := ha
  cases e with
  | birth t =>
    obtain ⟨ht, -, hnew⟩ := birth_eq_some h
    rw [ht] at hu
    rcases List.mem_cons.mp hu with rfl | hu
    · exact absurd (hid ▸ List.mem_map_of_mem hb) hnew
    · exact ⟨u, hu, hid⟩
  | change t =>
    rw [(change_eq_some h).1] at hu
    obtain ⟨v, hv, rfl⟩ := List.mem_map.mp hu
    refine ⟨v, hv, ?_⟩
    split at hid
    · rename_i hv'
      exact hv'.trans hid
    · exact hid
  | reap id =>
    cases h
    exact ⟨u, List.mem_of_mem_filter hu, hid⟩

end Kernel

end Saltnitor.Process
