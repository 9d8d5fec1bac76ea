import Saltnitor.Config.Diagnostics
import Saltnitor.Lib.EditDistance

/-!
# The closest known key

`editDistanceAt` fills the table with the indices of the source, where an index out of
range is a panic (`none`). Each of its rows is the row of the distances between the
beginnings read so far (`rowAt_row`), so it never panics and its last cell is the least
number of edits; `closest_correct` says which key `closest` therefore picks.
-/

namespace Saltnitor.Config

open Rust EditDistance

/-! ## The table with its indices -/

def cellAt (prev cur : List Nat) (cost j : Nat) : Option Nat :=
  prev[j]?.bind fun corner => prev[j + 1]?.bind fun above => cur[j]?.map fun left =>
    min (min (corner + cost) (above + 1)) (left + 1)

/-- One row: `cur` starts as `vec![i + 1]`. -/
def rowAt (ca : Char) (i : Nat) (b : Str) (prev : List Nat) : Option (List Nat) :=
  b.zipIdx.foldlM (fun cur (cb, j) => (cellAt prev cur (if ca = cb then 0 else 1) j).map (cur ++ [·]))
    [i + 1]

def editDistanceAt (a b : Str) : Option Nat :=
  (a.zipIdx.foldlM (fun prev (ca, i) => rowAt ca i b prev) (List.range (b.length + 1))).bind
    fun last => last[b.length]?

theorem cellAt_row (ca cb : Char) (p b c : Str) :
    cellAt (row p [] (b ++ cb :: c)) (row (ca :: p) [] b) (if ca = cb then 0 else 1) b.length =
      some (lev (ca :: p) (cb :: b.reverse)) := by
  have hcorner : (row p [] (b ++ cb :: c))[b.length]? = some (lev p b.reverse) := by
    simpa using @getElem?_row _ _ p [] b (cb :: c)
  have habove : (row p [] (b ++ cb :: c))[b.length + 1]? = some (lev p (cb :: b.reverse)) := by
    simpa using @getElem?_row _ _ p [] (b ++ [cb]) c
  have hleft : (row (ca :: p) [] b)[b.length]? = some (lev (ca :: p) b.reverse) := by
    simpa using @getElem?_row _ _ (ca :: p) [] b []
  rw [cellAt, hcorner, Option.bind_some, habove, Option.bind_some, hleft, Option.map_some,
    lev_cons_cons]

/-- **The next row**, with all indices in range. -/
theorem rowAt_row (ca : Char) (b p : Str) :
    rowAt ca p.length b (row p [] b) = some (row (ca :: p) [] b) := by
  have hloop (b c : Str) : (c.zipIdx b.length).foldlM (fun cur (cb, j) =>
      (cellAt (row p [] (b ++ c)) cur (if ca = cb then 0 else 1) j).map (cur ++ [·]))
      (row (ca :: p) [] b) = some (row (ca :: p) [] (b ++ c)) := by
    induction c generalizing b with
    | nil => rw [List.append_nil]; rfl
    | cons cb c ih =>
      have hnext := ih (b ++ [cb])
      rw [List.append_assoc, List.length_append, row_concat, List.append_nil] at hnext
      rw [List.zipIdx_cons, List.foldlM_cons]
      dsimp only
      rw [cellAt_row]
      exact hnext
  have hstart : row (ca :: p) [] [] = [p.length + 1] := by
    rw [row, lev_nil_right, List.length_cons]
  have := hloop [] b
  rwa [hstart] at this

theorem editDistanceAt_eq (a b : Str) : editDistanceAt a b = some (lev a b) := by
  have hloop (p a : Str) : (a.zipIdx p.length).foldlM (fun prev (ca, i) => rowAt ca i b prev)
      (row p [] b) = some (row (a.reverse ++ p) [] b) := by
    induction a generalizing p with
    | nil => rfl
    | cons ca a ih =>
      rw [List.zipIdx_cons, List.foldlM_cons]
      dsimp only
      rw [rowAt_row, List.reverse_cons, List.append_assoc]
      exact ih (ca :: p)
  have hstart : List.range (b.length + 1) = row [] [] b := by
    rw [row_nil, List.range_eq_range', List.length_nil]
  have hlast := @getElem?_row _ _ a.reverse [] b []
  have hrows := hloop [] a
  rw [List.append_nil] at hlast hrows
  rw [List.append_nil, lev_reverse] at hlast
  rw [editDistanceAt, hstart]
  exact (congrArg (Option.bind · fun last => last[b.length]?) hrows).trans hlast

/-! ## The table row by row -/

theorem editRow_row (ca : Char) (b p q : Str) :
    lev (ca :: p) q :: editRow ca (lev (ca :: p) q) b (row p q b) = row (ca :: p) q b := by
  induction b generalizing q with
  | nil => rfl
  | cons cb b ih =>
    have hcell : min (min (lev p q + if ca = cb then 0 else 1) (lev p (cb :: q) + 1))
        (lev (ca :: p) q + 1) = lev (ca :: p) (cb :: q) := (lev_cons_cons ..).symm
    have hnext := ih (cb :: q)
    obtain ⟨tail, htail⟩ : ∃ tail, row p (cb :: q) b = lev p (cb :: q) :: tail := by
      cases b <;> exact ⟨_, rfl⟩
    rw [htail] at hnext
    rw [row, row, htail, editRow, hcell]
    exact congrArg _ hnext

theorem editDistance_eq (a b : Str) : editDistance a b = lev a b := by
  have hloop (p a : Str) : (a.zipIdx p.length).foldl (fun prev (ca, i) =>
      (i + 1) :: editRow ca (i + 1) b prev) (row p [] b) = row (a.reverse ++ p) [] b := by
    induction a generalizing p with
    | nil => rfl
    | cons ca a ih =>
      have hrow := editRow_row ca b p []
      rw [lev_nil_right, List.length_cons] at hrow
      rw [List.zipIdx_cons, List.foldl_cons]
      dsimp only
      rw [hrow, List.reverse_cons, List.append_assoc]
      exact ih (ca :: p)
  have hstart : List.range (b.length + 1) = row [] [] b := by
    rw [row_nil, List.range_eq_range', List.length_nil]
  have hrows := hloop [] a
  rw [List.length_nil, List.append_nil] at hrows
  rw [editDistance, hstart, hrows, getLast?_row, List.append_nil, lev_reverse, Option.getD_some]

/-! ## The choice -/

/-- The first of the known keys that are nearest to the field, within three edits. -/
def Nearest (field : Str) (known : List Str) (k : Str) : Prop :=
  editDistance field k ≤ 3 ∧ ∃ before after, known = before ++ k :: after ∧
    (∀ k' ∈ before, editDistance field k < editDistance field k') ∧
    ∀ k' ∈ after, editDistance field k ≤ editDistance field k'

variable {field k : Str} {known : List Str}

theorem closest_cons : closest field (k :: known) =
    if editDistance field k ≤ 3 then
      match closest field known with
      | none => some k
      | some c => if editDistance field c < editDistance field k then some c else some k
    else closest field known := by
  unfold closest
  rw [List.map_cons]
  split
  · rename_i h
    rw [List.filter_cons_of_pos (by simpa using h), List.argmin_cons]
    cases hc : ((known.map fun k => (editDistance field k, k)).filter fun d =>
      decide (d.1 ≤ 3)).argmin Prod.fst with
    | none => rfl
    | some c =>
      obtain ⟨k', -, rfl⟩ := List.mem_map.mp (List.mem_filter.mp (List.argmin_mem hc)).1
      dsimp only [Option.map_some]
      split <;> rfl
  · rename_i h
    rw [List.filter_cons_of_neg (by simpa using h)]

theorem closest_eq_none : closest field known = none ↔ ∀ k ∈ known, ¬ editDistance field k ≤ 3 := by
  induction known with
  | nil => exact iff_of_true rfl (List.forall_mem_nil _)
  | cons k known ih =>
    rw [closest_cons, List.forall_mem_cons, ← ih]
    split
    · rename_i h
      refine iff_of_false (fun hn => ?_) fun hn => hn.1 h
      split at hn
      · cases hn
      · split at hn <;> cases hn
    · rename_i h
      exact (and_iff_right h).symm

theorem nearest_of_closest (h : closest field known = some k) : Nearest field known k := by
  induction known generalizing k with
  | nil => cases h
  | cons k₀ known ih =>
    rw [closest_cons] at h
    split at h
    · rename_i h₀
      cases hc : closest field known with
      | none =>
        rw [hc] at h
        cases h
        refine ⟨h₀, [], known, rfl, List.forall_mem_nil _, fun k' hk' => ?_⟩
        have := closest_eq_none.mp hc k' hk'
        omega
      | some c =>
        obtain ⟨hle, before, after, rfl, hbefore, hafter⟩ := ih hc
        rw [hc] at h
        dsimp only at h
        split at h
        · rename_i hlt
          cases h
          exact ⟨hle, k₀ :: before, after, rfl, List.forall_mem_cons.mpr ⟨hlt, hbefore⟩, hafter⟩
        · rename_i hlt
          cases h
          refine ⟨h₀, [], before ++ c :: after, rfl, List.forall_mem_nil _, fun k' hk' => ?_⟩
          rcases List.mem_append.mp hk' with hk' | hk'
          · have := hbefore k' hk'
            omega
          · rcases List.mem_cons.mp hk' with rfl | hk'
            · omega
            · have := hafter k' hk'
              omega
    · rename_i h₀
      obtain ⟨hle, before, after, rfl, hbefore, hafter⟩ := ih h
      exact ⟨hle, k₀ :: before, after, rfl, List.forall_mem_cons.mpr ⟨by omega, hbefore⟩, hafter⟩

theorem Nearest.closest (h : Nearest field known k) : closest field known = some k := by
  obtain ⟨hle, before, after, rfl, hbefore, hafter⟩ := h
  induction before with
  | nil =>
    rw [List.nil_append, closest_cons, if_pos hle]
    cases hc : Config.closest field after with
    | none => rfl
    | some c =>
      obtain ⟨-, b, a, rfl, -, -⟩ := nearest_of_closest hc
      have := hafter c (List.mem_append_right _ (List.mem_cons_self ..))
      dsimp only
      rw [if_neg (by omega)]
  | cons k₀ before ih =>
    obtain ⟨h₀, hbefore⟩ := List.forall_mem_cons.mp hbefore
    rw [List.cons_append, closest_cons, ih hbefore]
    split
    · exact if_pos h₀
    · rfl

/-- **The distance is the least number of edits, no index is out of range, and the key picked is the
first of the nearest ones**, if one is within three edits. -/
theorem closest_correct (a b field : Str) (known : List Str) :
    editDistanceAt a b = some (editDistance a b) ∧
      IsLeast {n | Edits n a b} (editDistance a b) ∧
      ((closest field known).isSome = true ↔ ∃ k ∈ known, editDistance field k ≤ 3) ∧
      ∀ k, closest field known = some k ↔ Nearest field known k := by
  rw [editDistance_eq a b]
  refine ⟨editDistanceAt_eq a b, isLeast_lev a b, ?_, fun k => ⟨nearest_of_closest, Nearest.closest⟩⟩
  rw [Option.isSome_iff_ne_none, ne_eq, closest_eq_none]
  push Not
  rfl

end Saltnitor.Config
