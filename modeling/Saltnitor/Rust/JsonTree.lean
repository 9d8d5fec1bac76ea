import Saltnitor.Rust.Json

/-!
# Places in a JSON value

A place is the list of positions that lead to it from the root, of members in an
object and of items in an array. `sub` is what stands there. `induct` is the
induction over a value; `sub_concat` takes the last step of a place apart. A
`Fold` goes through a whole value: `mapStr` maps its texts, `strings` lists them,
`asMap` keeps the last member of a name.
-/

namespace Rust.Json

/-- A property of every value: of the leaves, and of an array or object when of all within it. -/
@[elab_as_elim]
theorem induct {P : Json → Prop} (null : P null) (bool : ∀ b, P (bool b)) (num : ∀ n, P (num n))
    (str : ∀ s, P (str s)) (arr : ∀ xs, (∀ x ∈ xs, P x) → P (arr xs))
    (obj : ∀ ms, (∀ m ∈ ms, P m.2) → P (obj ms)) : ∀ v, P v
  | .null => null
  | .bool b => bool b
  | .num n => num n
  | .str s => str s
  | .arr xs => arr xs fun x _ => induct null bool num str arr obj x
  | .obj ms => obj ms fun m _ => induct null bool num str arr obj m.2
termination_by v => sizeOf v
decreasing_by
  · have := List.sizeOf_lt_of_mem ‹x ∈ xs›
    simp only [Json.arr.sizeOf_spec]
    omega
  · have := List.sizeOf_lt_of_mem ‹m ∈ ms›
    have : sizeOf m.2 < sizeOf m := by
      cases m
      simp only [Prod.mk.sizeOf_spec]
      omega
    simp only [Json.obj.sizeOf_spec]
    omega

def isStr : Json → Bool
  | str _ => true
  | _ => false

/-- The value of a member, or an item. -/
def child : Json → Nat → Option Json
  | obj ms, i => ms[i]?.map Prod.snd
  | arr xs, i => xs[i]?
  | _, _ => none

/-- What stands at a place. -/
def sub (v : Json) (place : List Nat) : Option Json := place.foldlM child v

/-- What a value is, apart from what is in it and from the text of a string. -/
inductive Kind where
  | null
  | bool (b : Bool)
  | num (n : ℚ)
  | str
  | arr (length : Nat)
  | obj (keys : List Str)
  deriving DecidableEq

def kind : Json → Kind
  | null => .null
  | bool b => .bool b
  | num n => .num n
  | str _ => .str
  | arr xs => .arr xs.length
  | obj ms => .obj (ms.map Prod.fst)

@[simp] theorem sub_nil (v : Json) : sub v [] = some v := rfl

theorem sub_cons (v : Json) (i : Nat) (place : List Nat) :
    sub v (i :: place) = (child v i).bind fun x => sub x place := rfl

theorem sub_concat (v : Json) (place : List Nat) (i : Nat) :
    sub v (place ++ [i]) = (sub v place).bind fun x => child x i := by
  induction place generalizing v with
  | nil =>
    rw [List.nil_append, sub_cons, sub_nil, Option.bind_some]
    cases child v i <;> rfl
  | cons j place ih =>
    rw [List.cons_append, sub_cons, sub_cons, Option.bind_assoc]
    exact congrArg _ (funext ih)

/-! ## Folds -/

/-- What to make of each kind of value. -/
structure Fold (α : Type) where
  null : α
  bool : Bool → α
  num : ℚ → α
  str : Str → α
  arr : List α → α
  obj : List (Str × α) → α

variable {α : Type}

mutual

def fold (F : Fold α) : Json → α
  | null => F.null
  | bool b => F.bool b
  | num n => F.num n
  | str s => F.str s
  | arr xs => F.arr (foldItems F xs)
  | obj ms => F.obj (foldMembers F ms)

def foldItems (F : Fold α) : List Json → List α
  | [] => []
  | x :: xs => fold F x :: foldItems F xs

def foldMembers (F : Fold α) : List (Str × Json) → List (Str × α)
  | [] => []
  | m :: ms => foldMember F m :: foldMembers F ms

def foldMember (F : Fold α) : Str × Json → Str × α
  | (key, x) => (key, fold F x)

end

theorem fold_arr (F : Fold α) (xs : List Json) : fold F (arr xs) = F.arr (xs.map (fold F)) := by
  rw [fold]
  congr 1
  induction xs with
  | nil => rfl
  | cons x xs ih => rw [foldItems, ih, List.map_cons]

theorem fold_obj (F : Fold α) (ms : List (Str × Json)) :
    fold F (obj ms) = F.obj (ms.map fun m => (m.1, fold F m.2)) := by
  rw [fold]
  congr 1
  induction ms with
  | nil => rfl
  | cons m ms ih =>
    obtain ⟨key, x⟩ := m
    rw [foldMembers, ih, foldMember, List.map_cons]

/-- Every string and every name, mapped. -/
def mapStr (f : Str → Str) : Json → Json :=
  fold { null, bool, num, arr, str := fun s => str (f s), obj := fun ms => obj (ms.map fun m => (f m.1, m.2)) }

/-- Every string and every name. -/
def strings : Json → List Str :=
  fold {
    null := [], bool := fun _ => [], num := fun _ => [], str := fun s => [s]
    arr := List.flatten, obj := List.flatMap fun m => m.1 :: m.2 }

/-- The last member of each name. -/
def lastMembers : List (Str × α) → List (Str × α)
  | [] => []
  | m :: ms => if ms.any fun n => n.1 = m.1 then lastMembers ms else m :: lastMembers ms

/-- The value with objects as maps, where a later member replaces an earlier one. -/
def asMap : Json → Json :=
  fold { null, bool, num, str, arr, obj := fun ms => obj (lastMembers ms) }

/-- How deep arrays and objects nest. -/
def depth : Json → Nat :=
  fold {
    null := 0, bool := fun _ => 0, num := fun _ => 0, str := fun _ => 0
    arr := fun ds => ds.foldr max 0 + 1, obj := fun ds => (ds.map Prod.snd).foldr max 0 + 1 }

/-- `P` holds of the names of every object. -/
def EveryObject (P : List Str → Prop) (v : Json) : Prop :=
  ∀ place ms, v.sub place = some (obj ms) → P (ms.map Prod.fst)

/-- No object has two members of one name. -/
def Distinct : Json → Prop := EveryObject List.Nodup

section Equations

variable {f g : Str → Str} {xs : List Json} {ms : List (Str × Json)}

@[simp] theorem mapStr_null : mapStr f null = null := rfl

@[simp] theorem mapStr_bool (b : Bool) : mapStr f (bool b) = bool b := rfl

@[simp] theorem mapStr_num (n : ℚ) : mapStr f (num n) = num n := rfl

@[simp] theorem mapStr_str (s : Str) : mapStr f (str s) = str (f s) := rfl

@[simp] theorem mapStr_arr : mapStr f (arr xs) = arr (xs.map (mapStr f)) := fold_arr ..

@[simp] theorem mapStr_obj : mapStr f (obj ms) = obj (ms.map fun m => (f m.1, mapStr f m.2)) :=
  (fold_obj ..).trans (congrArg obj List.map_map)

@[simp] theorem strings_str (s : Str) : strings (str s) = [s] := rfl

@[simp] theorem strings_arr : strings (arr xs) = xs.flatMap strings := by
  rw [strings, fold_arr, List.flatMap_def]

@[simp] theorem strings_obj : strings (obj ms) = ms.flatMap fun m => m.1 :: strings m.2 :=
  (fold_obj ..).trans (List.flatMap_map ..)

@[simp] theorem asMap_str (s : Str) : asMap (str s) = str s := rfl

@[simp] theorem asMap_arr : asMap (arr xs) = arr (xs.map asMap) := fold_arr ..

@[simp] theorem asMap_obj : asMap (obj ms) = obj (lastMembers (ms.map fun m => (m.1, asMap m.2))) :=
  fold_obj ..

theorem mapStr_mapStr (v : Json) : mapStr f (mapStr g v) = mapStr (f ∘ g) v := by
  induction v using induct with
  | arr xs ih =>
    rw [mapStr_arr, mapStr_arr, mapStr_arr, List.map_map]
    exact congrArg arr (List.map_congr_left ih)
  | obj ms ih =>
    rw [mapStr_obj, mapStr_obj, mapStr_obj, List.map_map]
    exact congrArg obj (List.map_congr_left fun m hm => congrArg (Prod.mk _) (ih m hm))
  | _ => rfl

theorem mapStr_eq_self {v : Json} (h : ∀ s ∈ strings v, f s = s) : mapStr f v = v := by
  induction v using induct with
  | str s => exact congrArg str (h s (List.mem_singleton_self _))
  | arr xs ih =>
    rw [strings_arr] at h
    have hxs (x) (hx : x ∈ xs) : mapStr f x = x := ih x hx fun s hs => h s (List.mem_flatMap_of_mem hx hs)
    rw [mapStr_arr, List.map_congr_left hxs, List.map_id']
  | obj ms ih =>
    rw [strings_obj] at h
    have hms (m) (hm : m ∈ ms) : (f m.1, mapStr f m.2) = m := by
      have hm' (s) (hs : s ∈ m.1 :: strings m.2) : f s = s := h s (List.mem_flatMap_of_mem hm hs)
      rw [hm' _ (List.mem_cons_self ..), ih m hm fun s hs => hm' s (List.mem_cons_of_mem _ hs)]
    rw [mapStr_obj, List.map_congr_left hms, List.map_id']
  | _ => rfl

theorem depth_arr : depth (arr xs) = (xs.map depth).foldr max 0 + 1 := fold_arr ..

theorem depth_obj : depth (obj ms) = ((ms.map fun m => (m.1, depth m.2)).map Prod.snd).foldr max 0 + 1 :=
  fold_obj ..

/-- A fold keeps the depth of a value if it makes leaves of leaves and nests as it finds. -/
theorem depth_fold {F : Fold Json} (hnull : F.null.depth = 0) (hbool : ∀ b, (F.bool b).depth = 0)
    (hnum : ∀ n, (F.num n).depth = 0) (hstr : ∀ s, (F.str s).depth = 0)
    (harr : ∀ xs, (F.arr xs).depth = (arr xs).depth) (hobj : ∀ ms, (F.obj ms).depth = (obj ms).depth)
    (v : Json) : (fold F v).depth = v.depth := by
  induction v using induct with
  | null => exact hnull
  | bool b => exact hbool b
  | num n => exact hnum n
  | str s => exact hstr s
  | arr xs ih =>
    rw [fold_arr, harr, depth_arr, depth_arr, List.map_map]
    exact congrArg (List.foldr max 0 · + 1) (List.map_congr_left ih)
  | obj ms ih =>
    rw [fold_obj, hobj, depth_obj, depth_obj, List.map_map, List.map_map, List.map_map]
    exact congrArg (List.foldr max 0 · + 1) (List.map_congr_left ih)

theorem depth_mapStr (f : Str → Str) (v : Json) : depth (mapStr f v) = depth v := by
  refine depth_fold rfl (fun _ => rfl) (fun _ => rfl) (fun _ => rfl) (fun _ => rfl) (fun ms => ?_) v
  rw [depth_obj, depth_obj, List.map_map, List.map_map, List.map_map]
  rfl

/-! A map has every name once. -/

theorem length_lastMembers_le (ms : List (Str × α)) : (lastMembers ms).length ≤ ms.length := by
  induction ms with
  | nil => exact Nat.le_refl _
  | cons m ms ih =>
    rw [lastMembers]
    split
    · exact ih.trans (Nat.le_succ _)
    · exact Nat.succ_le_succ ih

theorem any_name {m : Str × α} {ms : List (Str × α)} :
    (ms.any fun n => n.1 = m.1) = true ↔ m.1 ∈ ms.map Prod.fst := by
  rw [List.any_eq_true, List.mem_map]
  exact exists_congr fun n => and_congr_right' (by rw [decide_eq_true_iff])

theorem lastMembers_eq_self {ms : List (Str × α)} (h : (ms.map Prod.fst).Nodup) :
    lastMembers ms = ms := by
  induction ms with
  | nil => rfl
  | cons m ms ih =>
    obtain ⟨hm, hms⟩ := List.nodup_cons.mp h
    rw [lastMembers, if_neg (mt any_name.mp hm), ih hms]

theorem nodup_of_length_lastMembers {ms : List (Str × α)} (h : (lastMembers ms).length = ms.length) :
    (ms.map Prod.fst).Nodup := by
  induction ms with
  | nil => exact List.nodup_nil
  | cons m ms ih =>
    have hle := length_lastMembers_le ms
    rw [lastMembers] at h
    split at h
    · rw [List.length_cons] at h
      omega
    · rename_i hm
      exact List.nodup_cons.mpr ⟨mt any_name.mpr hm, ih (Nat.succ.inj h)⟩

theorem mem_of_mem_lastMembers {m : Str × α} {ms : List (Str × α)} (h : m ∈ lastMembers ms) : m ∈ ms := by
  induction ms with
  | nil => cases h
  | cons n ms ih =>
    rw [lastMembers] at h
    split at h
    · exact List.mem_cons_of_mem n (ih h)
    · rcases List.mem_cons.mp h with rfl | h
      · exact List.mem_cons_self ..
      · exact List.mem_cons_of_mem n (ih h)

theorem nodup_lastMembers (ms : List (Str × α)) : ((lastMembers ms).map Prod.fst).Nodup := by
  induction ms with
  | nil => exact List.nodup_nil
  | cons m ms ih =>
    rw [lastMembers]
    split
    · exact ih
    · rename_i hm
      refine List.nodup_cons.mpr ⟨fun hmem => hm (any_name.mpr ?_), ih⟩
      obtain ⟨n, hn, he⟩ := List.mem_map.mp hmem
      exact he ▸ List.mem_map_of_mem (mem_of_mem_lastMembers hn)

theorem foldl_lastOf_of_not_mem {k : Str} {ms : List (Str × α)} (h : k ∉ ms.map Prod.fst)
    (found : Option α) :
    ms.foldl (fun found m => if m.1 = k then some m.2 else found) found = found := by
  induction ms generalizing found with
  | nil => rfl
  | cons m ms ih =>
    rw [List.map_cons, List.mem_cons, not_or] at h
    obtain ⟨hm, hms⟩ := h
    rw [List.foldl_cons, if_neg (Ne.symm hm), ih hms]

theorem lastOf_of_mem {k : Str} {a : α} {ms : List (Str × α)} (h : (ms.map Prod.fst).Nodup)
    (hm : (k, a) ∈ ms) : lastOf k ms = some a := by
  obtain ⟨before, after, rfl⟩ := List.append_of_mem hm
  rw [List.map_append, List.map_cons] at h
  have hk : k ∉ after.map Prod.fst := (List.nodup_cons.mp (List.nodup_append.mp h).2.1).1
  rw [lastOf, List.foldl_append, List.foldl_cons, if_pos rfl, foldl_lastOf_of_not_mem hk]

theorem lastOf_perm {k : Str} {ms ns : List (Str × α)} (hp : ms.Perm ns) (h : (ns.map Prod.fst).Nodup) :
    lastOf k ms = lastOf k ns := by
  have hms : (ms.map Prod.fst).Nodup := ((hp.map Prod.fst).nodup_iff).mpr h
  by_cases hk : k ∈ ns.map Prod.fst
  · obtain ⟨⟨_, a⟩, hm, rfl⟩ := List.mem_map.mp hk
    rw [lastOf_of_mem h hm, lastOf_of_mem hms (hp.mem_iff.mpr hm)]
  · have hk' : k ∉ ms.map Prod.fst := fun hmem => hk ((hp.map Prod.fst).mem_iff.mp hmem)
    rw [lastOf, lastOf, foldl_lastOf_of_not_mem hk, foldl_lastOf_of_not_mem hk']

theorem lastOf_map {β : Type} (f : α → β) (k : Str) (ms : List (Str × α)) :
    lastOf k (ms.map fun m => (m.1, f m.2)) = (lastOf k ms).map f := by
  suffices h : ∀ found : Option α,
      (ms.map fun m => (m.1, f m.2)).foldl (fun found m => if m.1 = k then some m.2 else found)
        (found.map f) =
      (ms.foldl (fun found m => if m.1 = k then some m.2 else found) found).map f from h none
  intro found
  induction ms generalizing found with
  | nil => rfl
  | cons m ms ih =>
    rw [List.map_cons, List.foldl_cons, List.foldl_cons]
    by_cases hm : m.1 = k
    · rw [if_pos hm, if_pos hm]
      exact ih (some m.2)
    · rw [if_neg hm, if_neg hm]
      exact ih found

section EveryObject

variable {P : List Str → Prop}

theorem everyObject_leaf {v : Json} (h : ∀ i, child v i = none) (hobj : ∀ ms, v ≠ obj ms) :
    EveryObject P v := by
  intro place ms hsub
  cases place with
  | nil => exact absurd (Option.some.inj hsub) (hobj ms)
  | cons i place =>
    rw [sub_cons, h i] at hsub
    cases hsub

theorem everyObject_arr : EveryObject P (arr xs) ↔ ∀ x ∈ xs, EveryObject P x := by
  constructor
  · intro h x hx place ms hsub
    obtain ⟨i, hi⟩ := List.mem_iff_getElem?.mp hx
    refine h (i :: place) ms ?_
    rw [sub_cons, child, hi, Option.bind_some, hsub]
  · intro h place ms hsub
    cases place with
    | nil => cases hsub
    | cons i place =>
      rw [sub_cons, child] at hsub
      obtain ⟨x, hx, hsub⟩ := Option.bind_eq_some_iff.mp hsub
      exact h x (List.mem_of_getElem? hx) place ms hsub

theorem everyObject_obj :
    EveryObject P (obj ms) ↔ P (ms.map Prod.fst) ∧ ∀ m ∈ ms, EveryObject P m.2 := by
  constructor
  · intro h
    refine ⟨h [] ms rfl, fun m hm place ms' hsub => ?_⟩
    obtain ⟨i, hi⟩ := List.mem_iff_getElem?.mp hm
    refine h (i :: place) ms' ?_
    rw [sub_cons, child, hi, Option.map_some, Option.bind_some, hsub]
  · rintro ⟨hnames, h⟩ place ms' hsub
    cases place with
    | nil =>
      cases hsub
      exact hnames
    | cons i place =>
      rw [sub_cons, child] at hsub
      obtain ⟨x, hx, hsub⟩ := Option.bind_eq_some_iff.mp hsub
      obtain ⟨m, hm, rfl⟩ := Option.map_eq_some_iff.mp hx
      exact h m (List.mem_of_getElem? hm) place ms' hsub

end EveryObject

theorem distinct_leaf {v : Json} (h : ∀ i, child v i = none) (hobj : ∀ ms, v ≠ obj ms) : Distinct v :=
  everyObject_leaf h hobj

theorem distinct_arr : Distinct (arr xs) ↔ ∀ x ∈ xs, Distinct x := everyObject_arr

theorem distinct_obj : Distinct (obj ms) ↔ (ms.map Prod.fst).Nodup ∧ ∀ m ∈ ms, Distinct m.2 :=
  everyObject_obj

theorem distinct_asMap (v : Json) : Distinct (asMap v) := by
  induction v using induct with
  | arr xs ih =>
    rw [asMap_arr]
    exact distinct_arr.mpr (List.forall_mem_map.mpr ih)
  | obj ms ih =>
    rw [asMap_obj, distinct_obj]
    refine ⟨nodup_lastMembers _, fun m hm => ?_⟩
    obtain ⟨n, hn, rfl⟩ := List.mem_map.mp (mem_of_mem_lastMembers hm)
    exact ih n hn
  | _ => exact distinct_leaf (fun _ => rfl) (by rintro _ ⟨⟩)

theorem asMap_eq_self {v : Json} (h : Distinct v) : asMap v = v := by
  induction v using induct with
  | arr xs ih =>
    rw [distinct_arr] at h
    rw [asMap_arr, List.map_congr_left fun x hx => ih x hx (h x hx), List.map_id']
  | obj ms ih =>
    obtain ⟨hnodup, h⟩ := distinct_obj.mp h
    have hms (m) (hm : m ∈ ms) : (m.1, asMap m.2) = m := by rw [ih m hm (h m hm)]
    rw [asMap_obj, List.map_congr_left hms, List.map_id', lastMembers_eq_self hnodup]
  | _ => rfl

theorem foldr_max_le {ds : List Nat} {n : Nat} : ds.foldr max 0 ≤ n ↔ ∀ d ∈ ds, d ≤ n := by
  induction ds with
  | nil => exact iff_of_true (Nat.zero_le n) (List.forall_mem_nil _)
  | cons d ds ih => rw [List.foldr_cons, max_le_iff, ih, List.forall_mem_cons]

theorem depth_asMap_le (v : Json) : depth (asMap v) ≤ depth v := by
  induction v using induct with
  | arr xs ih =>
    rw [asMap_arr, depth_arr, depth_arr, List.map_map]
    refine Nat.succ_le_succ (foldr_max_le.mpr (List.forall_mem_map.mpr fun x hx => (ih x hx).trans ?_))
    exact foldr_max_le.mp (Nat.le_refl _) _ (List.mem_map_of_mem hx)
  | obj ms ih =>
    rw [asMap_obj, depth_obj, depth_obj, List.map_map, List.map_map]
    refine Nat.succ_le_succ (foldr_max_le.mpr (List.forall_mem_map.mpr fun m hm => ?_))
    obtain ⟨n, hn, rfl⟩ := List.mem_map.mp (mem_of_mem_lastMembers hm)
    exact (ih n hn).trans (foldr_max_le.mp (Nat.le_refl _) _ (List.mem_map_of_mem hn))
  | _ => exact Nat.le_refl _

end Equations

end Rust.Json
