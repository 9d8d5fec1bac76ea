import Saltnitor.Lib.Keyed
import Saltnitor.Process.Control

/-!
# The process table

`table` puts two lists together: what the scan of `/proc` found, and what the GPU
driver reports. The first one is cut down to one row for each PID; an entry of the
second changes the GPU columns of its row, or adds a row for a process that the scan
left out and that is still there. `table_eq` says what comes out of it.
-/

namespace Saltnitor.Process

open Rust

/-- A line of the GPU driver's answer. -/
structure GpuApp where
  pid : Nat
  name : Str
  usedMemoryBytes : Option Nat
  reason : Option Str
  deriving DecidableEq

/-- The row with the GPU columns of an entry. -/
def ProcessInfo.withGpu (g : GpuApp) (p : ProcessInfo) : ProcessInfo :=
  { p with gpuMemoryBytes := g.usedMemoryBytes, gpuMemoryReason := g.reason }

section

variable (identity : Nat → Option Identity)

/-- The row of a process that only the GPU driver knows. -/
def gpuRow (g : GpuApp) : Option ProcessInfo :=
  (identity g.pid).map fun id =>
    { pid := g.pid, name := g.name, memoryBytes := 0, gpuMemoryBytes := g.usedMemoryBytes,
      gpuMemoryReason := g.reason, command := none, startTimeTicks := id.startTimeTicks, uid := id.uid }

/-- `raw.into_iter().filter(|p| seen.insert(p.pid))`, then the loop over the GPU entries.
`identity` is what `/proc` says of a PID while the call runs. -/
def table (raw : List ProcessInfo) (gpu : List GpuApp) : List ProcessInfo :=
  gpu.foldl
    (fun out g => Keyed.upsert ProcessInfo.pid g.pid (ProcessInfo.withGpu g) (gpuRow identity g) out)
    (Keyed.firsts ProcessInfo.pid raw)

variable {identity}

theorem updates_gpu :
    Keyed.Updates ProcessInfo.pid GpuApp.pid ProcessInfo.withGpu (gpuRow identity) where
  key_upd _ _ := rfl
  key_new g p h := by
    obtain ⟨id, -, rfl⟩ := Option.map_eq_some_iff.mp h
    rfl
  upd_new g p h := by
    obtain ⟨id, -, rfl⟩ := Option.map_eq_some_iff.mp h
    rfl
  upd_upd _ _ _ _ := rfl
  isSome_new g g' h := by rw [gpuRow, gpuRow, Option.isSome_map, Option.isSome_map, h]

theorem table_eq (raw : List ProcessInfo) (gpu : List GpuApp) :
    table identity raw gpu =
      (Keyed.firsts ProcessInfo.pid raw ++
        Keyed.added ProcessInfo.pid GpuApp.pid (gpuRow identity)
          (Keyed.firsts ProcessInfo.pid raw) gpu).map
        (Keyed.settle ProcessInfo.pid GpuApp.pid ProcessInfo.withGpu gpu) :=
  Keyed.merge_eq updates_gpu Keyed.nodup_firsts

/-! ## What the table says -/

/-- The PIDs of the table: those of the scan, then those of the GPU driver that the scan left out and
that have an identity. -/
def pids (identity : Nat → Option Identity) (raw : List ProcessInfo) (gpu : List GpuApp) : List Nat :=
  (raw.map ProcessInfo.pid).eraseDups ++
    (gpu.map GpuApp.pid).eraseDups.filter fun k =>
      k ∉ raw.map ProcessInfo.pid ∧ (identity k).isSome = true

/-- What a row says of its PID. The first row of the scan counts, the first entry of the GPU driver
where there is none, and the last entry for the GPU columns. -/
structure Merged (identity : Nat → Option Identity) (raw : List ProcessInfo) (gpu : List GpuApp)
    (p : ProcessInfo) : Prop where
  scanned : ∀ r, raw.find? (fun r => r.pid = p.pid) = some r →
    p = { r with gpuMemoryBytes := p.gpuMemoryBytes, gpuMemoryReason := p.gpuMemoryReason }
  gpuOnly : raw.find? (fun r => r.pid = p.pid) = none → ∃ g id,
    gpu.find? (fun g => g.pid = p.pid) = some g ∧ identity p.pid = some id ∧
      p = { p with name := g.name, memoryBytes := 0, command := none,
                   startTimeTicks := id.startTimeTicks, uid := id.uid }
  measured : ∀ g, (gpu.filter fun g => g.pid = p.pid).getLast? = some g →
    p.gpuMemoryBytes = g.usedMemoryBytes ∧ p.gpuMemoryReason = g.reason
  unmeasured : (∀ g ∈ gpu, g.pid ≠ p.pid) → raw.find? (fun r => r.pid = p.pid) = some p

variable {raw : List ProcessInfo} {gpu : List GpuApp} {p : ProcessInfo}

theorem mem_pid_firsts {k : Nat} :
    k ∈ (Keyed.firsts ProcessInfo.pid raw).map ProcessInfo.pid ↔ k ∈ raw.map ProcessInfo.pid :=
  Keyed.mem_map_firsts

theorem map_pid_added :
    (Keyed.added ProcessInfo.pid GpuApp.pid (gpuRow identity) (Keyed.firsts ProcessInfo.pid raw)
      gpu).map ProcessInfo.pid =
      (gpu.map GpuApp.pid).eraseDups.filter fun k =>
        k ∉ raw.map ProcessInfo.pid ∧ (identity k).isSome = true := by
  have hnew (gs : List GpuApp) : (gs.filterMap (gpuRow identity)).map ProcessInfo.pid =
      (gs.map GpuApp.pid).filter fun k => (identity k).isSome := by
    induction gs with
    | nil => rfl
    | cons g gs ih =>
      cases h : identity g.pid with
      | none => simp [gpuRow, h, ih]
      | some id => simp [gpuRow, h, ih]
  rw [Keyed.added, hnew, ← Keyed.map_firsts, List.filter_map, List.filter_map, List.filter_filter]
  congr 1
  refine List.filter_congr fun g _ => ?_
  simp only [Function.comp_apply, mem_pid_firsts, Bool.decide_and, Bool.decide_eq_true, Bool.and_comm]

theorem map_pid_settle (rows : List ProcessInfo) :
    (rows.map (Keyed.settle ProcessInfo.pid GpuApp.pid ProcessInfo.withGpu gpu)).map
      ProcessInfo.pid = rows.map ProcessInfo.pid := by
  rw [List.map_map]
  refine List.map_congr_left fun p _ => ?_
  exact Keyed.key_settle (@updates_gpu fun _ => none)

theorem map_pid_table : (table identity raw gpu).map ProcessInfo.pid = pids identity raw gpu := by
  rw [table_eq, map_pid_settle, List.map_append, map_pid_added, Keyed.map_firsts]
  rfl

theorem nodup_pids : (pids identity raw gpu).Nodup := by
  rw [← map_pid_table, table_eq, map_pid_settle]
  exact Keyed.nodup_added updates_gpu Keyed.nodup_firsts

theorem mem_table (hp : p ∈ table identity raw gpu) : ∃ q,
    (raw.find? (fun r => r.pid = q.pid) = some q ∨
      raw.find? (fun r => r.pid = q.pid) = none ∧ ∃ g,
        gpu.find? (fun g => g.pid = q.pid) = some g ∧ gpuRow identity g = some q) ∧
    p = Keyed.settle ProcessInfo.pid GpuApp.pid ProcessInfo.withGpu gpu q := by
  rw [table_eq] at hp
  obtain ⟨q, hq, rfl⟩ := List.mem_map.mp hp
  refine ⟨q, ?_, rfl⟩
  rcases List.mem_append.mp hq with hq | hq
  · exact .inl (Keyed.find?_of_mem_firsts hq)
  · obtain ⟨g, hg, hnew⟩ := List.mem_filterMap.mp hq
    obtain ⟨hg, hout⟩ := List.mem_filter.mp hg
    have hpid : q.pid = g.pid := updates_gpu.key_new g q hnew
    refine .inr ⟨?_, g, ?_, hnew⟩
    · rw [hpid]
      refine List.find?_eq_none.mpr fun r hr he => of_decide_eq_true hout ?_
      exact mem_pid_firsts.mpr (List.mem_map.mpr ⟨r, hr, of_decide_eq_true he⟩)
    · rw [hpid]
      exact Keyed.find?_of_mem_firsts hg

/-- The last GPU entry of its PID is all that is done to a row. -/
theorem merged_settle {q : ProcessInfo}
    (hq : raw.find? (fun r => r.pid = q.pid) = some q ∨
      raw.find? (fun r => r.pid = q.pid) = none ∧ ∃ g,
        gpu.find? (fun g => g.pid = q.pid) = some g ∧ gpuRow identity g = some q) :
    Merged identity raw gpu (Keyed.settle ProcessInfo.pid GpuApp.pid ProcessInfo.withGpu gpu q) := by
  set p := Keyed.settle ProcessInfo.pid GpuApp.pid ProcessInfo.withGpu gpu q with hp
  have hlast : Keyed.lastOf GpuApp.pid gpu q.pid =
      (gpu.filter fun g => g.pid = q.pid).getLast? := rfl
  have hpid : p.pid = q.pid := Keyed.key_settle (@updates_gpu identity)
  have hrest : p = { q with gpuMemoryBytes := p.gpuMemoryBytes, gpuMemoryReason := p.gpuMemoryReason } := by
    rw [hp, Keyed.settle]
    cases Keyed.lastOf GpuApp.pid gpu q.pid <;> rfl
  refine ⟨fun r hr => ?_, fun hn => ?_, fun g hg => ?_, fun hno => ?_⟩
  · rw [hpid] at hr
    rcases hq with hq | ⟨hn, -⟩
    · cases hq.symm.trans hr
      exact hrest
    · rw [hn] at hr
      cases hr
  · rw [hpid] at hn
    rcases hq with hq | ⟨-, g, hg, hrow⟩
    · rw [hn] at hq
      cases hq
    · obtain ⟨id, hid, hrow⟩ := Option.map_eq_some_iff.mp hrow
      have hqg : q.pid = g.pid := by rw [← hrow]
      refine ⟨g, id, by rw [hpid, hg], by rw [hpid, hqg, hid], ?_⟩
      rw [← hrow] at hrest
      rw [hrest]
  · rw [hpid] at hg
    rw [hp, Keyed.settle, hlast, hg]
    exact ⟨rfl, rfl⟩
  · have hnone : Keyed.lastOf GpuApp.pid gpu q.pid = none := by
      rw [hlast, List.getLast?_eq_none_iff, List.filter_eq_nil_iff]
      exact fun g hg he => hno g hg ((of_decide_eq_true he).trans hpid.symm)
    have hpq : p = q := by rw [hp, Keyed.settle, hnone]
    rcases hq with hq | ⟨-, g, hg, -⟩
    · rwa [hpq]
    · have hmem := List.mem_of_find?_eq_some hg
      have heq : g.pid = q.pid := by simpa using List.find?_some hg
      exact absurd (heq.trans hpid.symm) (hno g hmem)

/-- **The table has one row for each PID of either list**, those of the scan first, and each says
what the lists say of its PID. -/
theorem table_merges (identity : Nat → Option Identity) (raw : List ProcessInfo) (gpu : List GpuApp) :
    (table identity raw gpu).map ProcessInfo.pid = pids identity raw gpu ∧
    (pids identity raw gpu).Nodup ∧
    ∀ p ∈ table identity raw gpu, Merged identity raw gpu p := by
  refine ⟨map_pid_table, nodup_pids, fun p hp => ?_⟩
  obtain ⟨q, hq, rfl⟩ := mem_table hp
  exact merged_settle hq

end

end Saltnitor.Process
