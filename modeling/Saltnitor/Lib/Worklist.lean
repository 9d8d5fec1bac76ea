import Mathlib.Data.List.Nodup
import Mathlib.Data.List.Perm.Subperm
import Mathlib.Logic.Relation

/-!
# Reachability by a work list

`loop` grows a list of nodes from its front: node `i` adds those of its
`children` that are not listed yet, then comes node `i + 1`, until the list is
done. Over finitely many nodes it ends and lists, once each, exactly what is
reached from the root.
-/

namespace Worklist

variable {α : Type*}

/-! ## Adding nodes -/

section Add

variable [DecidableEq α]

/-- Append a node that is not listed yet. -/
def add (tree : List α) (c : α) : List α := if c ∈ tree then tree else tree ++ [c]

def addNew (tree cs : List α) : List α := cs.foldl add tree

theorem prefix_add (tree : List α) (c : α) : tree <+: add tree c := by
  unfold add
  split
  · exact List.prefix_refl _
  · exact List.prefix_append ..

theorem mem_add {tree : List α} {c x : α} : x ∈ add tree c ↔ x ∈ tree ∨ x = c := by
  unfold add
  split
  · rename_i hc
    exact ⟨.inl, fun h => h.elim id fun h => h ▸ hc⟩
  · simp

theorem nodup_add {tree : List α} (c : α) (h : tree.Nodup) : (add tree c).Nodup := by
  unfold add
  split
  · exact h
  · rename_i hc
    exact h.append (List.nodup_singleton c) (by simpa [List.disjoint_singleton] using hc)

theorem prefix_addNew (tree cs : List α) : tree <+: addNew tree cs := by
  induction cs generalizing tree with
  | nil => exact List.prefix_refl _
  | cons c cs ih => exact (prefix_add tree c).trans (ih _)

theorem mem_addNew {tree cs : List α} {x : α} : x ∈ addNew tree cs ↔ x ∈ tree ∨ x ∈ cs := by
  induction cs generalizing tree with
  | nil => simp [addNew]
  | cons c cs ih =>
    rw [addNew, List.foldl_cons, ← addNew, ih, mem_add, List.mem_cons, or_assoc]

theorem nodup_addNew {tree : List α} (cs : List α) (h : tree.Nodup) : (addNew tree cs).Nodup := by
  induction cs generalizing tree with
  | nil => exact h
  | cons c cs ih => exact ih (nodup_add c h)

/-- Visit node `i` and go on; `none` when the fuel runs out first. -/
def loop (children : α → List α) : Nat → List α → Nat → Option (List α)
  | 0, tree, i => if tree[i]?.isNone then some tree else none
  | fuel + 1, tree, i =>
    match tree[i]? with
    | none => some tree
    | some a => loop children fuel (addNew tree (children a)) (i + 1)

end Add

/-! ## The loop -/

section Loop

variable {children : α → List α} {root : α} {nodes tree : List α} {fuel i : Nat}

/-- What holds each time round: the list is duplicate free, grows from the root along edges, and
holds every child of the nodes before `i`. -/
structure Inv (children : α → List α) (root : α) (tree : List α) (i : Nat) : Prop where
  root_mem : root ∈ tree
  nodup : tree.Nodup
  reached : ∀ x ∈ tree, Relation.ReflTransGen (fun a b => b ∈ children a) root x
  closed : ∀ j a, j < i → tree[j]? = some a → ∀ b ∈ children a, b ∈ tree

theorem inv_root : Inv children root [root] 0 where
  root_mem := List.mem_singleton_self root
  nodup := List.nodup_singleton root
  reached x hx := by rw [List.mem_singleton.mp hx]
  closed j a hj := absurd hj (Nat.not_lt_zero j)

theorem Inv.visit [DecidableEq α] (h : Inv children root tree i) {a : α} (ha : tree[i]? = some a) :
    Inv children root (addNew tree (children a)) (i + 1) where
  root_mem := mem_addNew.mpr (.inl h.root_mem)
  nodup := nodup_addNew _ h.nodup
  reached x hx := by
    rcases mem_addNew.mp hx with hx | hx
    · exact h.reached x hx
    · exact (h.reached a (List.mem_of_getElem? ha)).tail hx
  closed j b hj hb c hc := by
    obtain ⟨rest, hrest⟩ := prefix_addNew tree (children a)
    have hi : i < tree.length := (List.getElem?_eq_some_iff.mp ha).1
    rw [← hrest, List.getElem?_append_left (by omega)] at hb
    rcases Nat.lt_succ_iff_lt_or_eq.mp hj with hlt | rfl
    · exact mem_addNew.mpr (.inl (h.closed j b hlt hb c hc))
    · rw [ha] at hb
      cases hb
      exact mem_addNew.mpr (.inr hc)

theorem mem_of_reached (hn : ∀ a, children a ⊆ nodes) {x : α}
    (h : Relation.ReflTransGen (fun a b => b ∈ children a) root x) : x ∈ root :: nodes := by
  rcases Relation.ReflTransGen.cases_tail h with rfl | ⟨a, -, hx⟩
  · exact List.mem_cons_self ..
  · exact List.mem_cons_of_mem _ (hn a hx)

theorem Inv.length_le (h : Inv children root tree i) (hn : ∀ a, children a ⊆ nodes) :
    tree.length ≤ nodes.length + 1 := by
  have hsub : tree ⊆ root :: nodes := fun x hx => mem_of_reached hn (h.reached x hx)
  exact (h.nodup.subperm hsub).length_le

theorem Inv.mem_iff (h : Inv children root tree i) (hi : tree.length ≤ i) {x : α} :
    x ∈ tree ↔ Relation.ReflTransGen (fun a b => b ∈ children a) root x := by
  refine ⟨h.reached x, fun hx => ?_⟩
  induction hx with
  | refl => exact h.root_mem
  | tail _ hb ih =>
    obtain ⟨j, hj⟩ := List.mem_iff_getElem?.mp ih
    have hlt : j < tree.length := (List.getElem?_eq_some_iff.mp hj).1
    exact h.closed j _ (by omega) hj _ hb

theorem loop_spec [DecidableEq α] (hn : ∀ a, children a ⊆ nodes) (h : Inv children root tree i)
    (hf : nodes.length + 1 ≤ fuel + i) :
    ∃ t, loop children fuel tree i = some t ∧ t.Nodup ∧
      ∀ x, x ∈ t ↔ Relation.ReflTransGen (fun a b => b ∈ children a) root x := by
  induction fuel generalizing tree i with
  | zero =>
    have hlen : tree.length ≤ i := by have := h.length_le hn; omega
    refine ⟨tree, ?_, h.nodup, fun x => h.mem_iff hlen⟩
    rw [loop, List.getElem?_eq_none hlen]
    rfl
  | succ fuel ih =>
    cases ha : tree[i]? with
    | none =>
      refine ⟨tree, by rw [loop, ha], h.nodup, fun x => ?_⟩
      exact h.mem_iff (List.getElem?_eq_none_iff.mp ha)
    | some a =>
      rw [loop, ha]
      exact ih (h.visit ha) (by omega)

/-- Fuel that is left over changes nothing. -/
theorem loop_mono [DecidableEq α] {t : List α} {fuel' : Nat}
    (h : loop children fuel tree i = some t) (hle : fuel ≤ fuel') :
    loop children fuel' tree i = some t := by
  induction fuel generalizing fuel' tree i with
  | zero =>
    rw [loop] at h
    split at h
    · rename_i hdone
      have hnone : tree[i]? = none := Option.isNone_iff_eq_none.mp hdone
      cases h
      cases fuel' with
      | zero => rw [loop, hnone]; rfl
      | succ n => rw [loop, hnone]
    · cases h
  | succ fuel ih =>
    obtain ⟨n, rfl⟩ : ∃ n, fuel' = n + 1 := ⟨fuel' - 1, by omega⟩
    rw [loop] at h ⊢
    cases ha : tree[i]? with
    | none => rwa [ha] at h
    | some a =>
      rw [ha] at h
      exact ih h (by omega)

/-- **The loop ends and lists exactly what the root reaches.** -/
theorem loop_root [DecidableEq α] (hn : ∀ a, children a ⊆ nodes)
    (hf : nodes.length + 1 ≤ fuel) (root : α) :
    ∃ t, loop children fuel [root] 0 = some t ∧ t.Nodup ∧
      ∀ x, x ∈ t ↔ Relation.ReflTransGen (fun a b => b ∈ children a) root x :=
  loop_spec hn inv_root hf

end Loop

end Worklist
