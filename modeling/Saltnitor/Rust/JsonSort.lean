import Mathlib.Data.Char
import Mathlib.Data.List.Lex
import Mathlib.Data.List.Sort
import Saltnitor.Rust.JsonTree

/-!
# Members in order

A `serde_json` map is ordered by its names, so a value that has been read lists the members of each
object in that order (`sorted`), whatever their order in the text. No value depends on it: a member
is found where it was (`member_sorted`), and the depth and the numbers stay.
-/

namespace Rust.Json

/-- Of two members the one with the smaller name is first. -/
def ByName {α : Type} (m n : Str × α) : Prop := m.1 ≤ n.1

instance {α : Type} : Std.Total (ByName (α := α)) := ⟨fun m n => le_total m.1 n.1⟩

instance {α : Type} : IsTrans (Str × α) ByName := ⟨fun _ _ _ => le_trans⟩

instance {α : Type} : DecidableRel (ByName (α := α)) :=
  fun m n => inferInstanceAs (Decidable (m.1 ≤ n.1))

/-- The value with the members of every object in the order of their names. -/
def sorted : Json → Json :=
  fold { null, bool, num, str, arr, obj := fun ms => obj (ms.insertionSort ByName) }

/-- The members of every object are in the order of their names. -/
def InOrder : Json → Prop := EveryObject fun names => names.Pairwise (· ≤ ·)

example : sorted (obj [("b", null), ("a", obj [("d", null), ("c", null)])]) =
    obj [("a", obj [("c", null), ("d", null)]), ("b", null)] := rfl

section

variable {v : Json} {xs : List Json} {ms : List (Str × Json)} {k : Str}

@[simp] theorem sorted_arr : sorted (arr xs) = arr (xs.map sorted) := fold_arr ..

@[simp] theorem sorted_obj :
    sorted (obj ms) = obj ((ms.map fun m => (m.1, sorted m.2)).insertionSort ByName) := fold_obj ..

theorem perm_sorted (ms : List (Str × Json)) :
    ((ms.map fun m => (m.1, sorted m.2)).insertionSort ByName).Perm (ms.map fun m => (m.1, sorted m.2)) :=
  List.perm_insertionSort ..

theorem distinct_sorted (h : Distinct v) : Distinct (sorted v) := by
  induction v using induct with
  | arr xs ih =>
    rw [distinct_arr] at h
    rw [sorted_arr, distinct_arr, List.forall_mem_map]
    exact fun x hx => ih x hx (h x hx)
  | obj ms ih =>
    obtain ⟨hnodup, h⟩ := distinct_obj.mp h
    rw [sorted_obj, distinct_obj]
    refine ⟨(((perm_sorted ms).map Prod.fst).nodup_iff).mpr (by rwa [List.map_map]), fun m hm => ?_⟩
    obtain ⟨n, hn, rfl⟩ := List.mem_map.mp ((perm_sorted ms).mem_iff.mp hm)
    exact ih n hn (h n hn)
  | _ => exact h

theorem depth_sorted (v : Json) : (sorted v).depth = v.depth := by
  refine depth_fold rfl (fun _ => rfl) (fun _ => rfl) (fun _ => rfl) (fun _ => rfl) (fun ms => ?_) v
  have hperm := ((List.perm_insertionSort ByName ms).map fun m => (m.1, depth m.2)).map Prod.snd
  rw [depth_obj, depth_obj, hperm.foldr_eq' fun x _ y _ z => max_left_comm y x z]

theorem member_sorted (h : Distinct v) : (sorted v).member k = (v.member k).map sorted := by
  cases v with
  | obj ms =>
    have hnodup : ((ms.map fun m => (m.1, sorted m.2)).map Prod.fst).Nodup := by
      rw [List.map_map]
      exact (distinct_obj.mp h).1
    rw [sorted_obj, member, member, lastOf_perm (perm_sorted ms) hnodup, lastOf_map]
  | arr xs => rw [sorted_arr]; rfl
  | _ => rfl

/-! What is in order already. -/

theorem inOrder_leaf (h : ∀ i, child v i = none) (hobj : ∀ ms, v ≠ obj ms) : InOrder v :=
  everyObject_leaf h hobj

theorem inOrder_arr : InOrder (arr xs) ↔ ∀ x ∈ xs, InOrder x := everyObject_arr

theorem inOrder_obj :
    InOrder (obj ms) ↔ (ms.map Prod.fst).Pairwise (· ≤ ·) ∧ ∀ m ∈ ms, InOrder m.2 := everyObject_obj

theorem inOrder_sorted (v : Json) : InOrder (sorted v) := by
  induction v using induct with
  | arr xs ih =>
    rw [sorted_arr, inOrder_arr]
    exact List.forall_mem_map.mpr ih
  | obj ms ih =>
    rw [sorted_obj, inOrder_obj]
    refine ⟨List.pairwise_map.mpr (List.pairwise_insertionSort ByName _), fun m hm => ?_⟩
    obtain ⟨n, hn, rfl⟩ := List.mem_map.mp ((perm_sorted ms).mem_iff.mp hm)
    exact ih n hn
  | _ => exact inOrder_leaf (fun _ => rfl) nofun

theorem sorted_eq_self (h : InOrder v) : sorted v = v := by
  induction v using induct with
  | arr xs ih =>
    rw [inOrder_arr] at h
    rw [sorted_arr, List.map_congr_left fun x hx => ih x hx (h x hx), List.map_id']
  | obj ms ih =>
    obtain ⟨hms, h⟩ := inOrder_obj.mp h
    have hsame (m) (hm : m ∈ ms) : (m.1, sorted m.2) = m := by rw [ih m hm (h m hm)]
    have hpairs : ms.Pairwise fun m n => m.1 ≤ n.1 := List.pairwise_map.mp hms
    rw [sorted_obj, List.map_congr_left hsame, List.map_id', hpairs.insertionSort_eq (r := ByName)]
  | _ => rfl

end

end Rust.Json
