import Mathlib.Data.Finset.Dedup
import Saltnitor.Rust.JsonTree

/-!
# Captures without secrets

Before a capture is saved `redact` masks what users wrote and what follows a secret
flag. The shape of a capture is the set of its key paths, which the next capture is
compared with. `Sanitized` says what is masked and that nothing else changes;
`redact_sanitizes` says `redact` does it, keeps the key paths, and needs to run once.
-/

namespace Saltnitor.FakeLlama

open Rust

/-! ## The shape -/

/-- The path of a member of the object at `path`. -/
def memberPath (path key : Str) : Str := if path.isEmpty then key else path ++ '.' :: key

mutual

/-- What `walk` inserts. -/
def walk : Json → Str → List Str
  | .obj ms, path => (if path.isEmpty then [] else [path]) ++ walkMembers ms path
  | .arr xs, path => (path ++ ['[', ']']) :: walkItems xs (path ++ ['[', ']'])
  | _, path => [path]

def walkMembers : List (Str × Json) → Str → List Str
  | [], _ => []
  | m :: ms, path => walkMember m path ++ walkMembers ms path

def walkMember : Str × Json → Str → List Str
  | (key, x), path => walk x (memberPath path key)

def walkItems : List Json → Str → List Str
  | [], _ => []
  | x :: xs, path => walk x path ++ walkItems xs path

end

def keyPaths (v : Json) : Finset Str := (walk v []).toFinset

/-! ## The mask -/

def redactKeys : List Str := ["prompt", "content", "text", "generated", "generated_text"]

def secretFlags : List Str := ["--api-key", "--api-key-file", "--hf-token", "--ssl-key-file"]

def marker : Str := "<redacted>"

/-- A string of an array that is not masked as a whole. -/
def hideValue (s : Str) : Str :=
  if secretFlags.contains s then s
  else
    match secretFlags.find? fun f => (f ++ ['=']).isPrefixOf s with
    | some flag => flag ++ '=' :: marker
    | none => s

mutual

def redact : Json → Json
  | .obj ms => .obj (redactMembers ms)
  | .arr xs => .arr (redactItems false xs)
  | v => v

def redactMembers : List (Str × Json) → List (Str × Json)
  | [] => []
  | m :: ms => redactMember m :: redactMembers ms

def redactMember : Str × Json → Str × Json
  | (key, x) => (key, if x.isStr && redactKeys.contains key then .str marker else redact x)

/-- `maskNext`: the item before was a secret flag. -/
def redactItems : Bool → List Json → List Json
  | _, [] => []
  | maskNext, x :: xs =>
    match x with
    | .str s =>
      if maskNext then .str marker :: redactItems false xs
      else .str (hideValue s) :: redactItems (secretFlags.contains s) xs
    | x => redact x :: redactItems false xs

end

/-! ## What a capture should be -/

/-- The places of a value whose strings are secret: under a user-text key, behind a secret flag, or
a secret flag with its value. -/
inductive Secret (v : Json) : List Nat → Prop
  | userText {place : List Nat} {ms : List (Str × Json)} {i : Nat} {key : Str} {x : Json} :
    v.sub place = some (.obj ms) → ms[i]? = some (key, x) → key ∈ redactKeys → Secret v (place ++ [i])
  | behindFlag {place : List Nat} {xs : List Json} {i : Nat} {flag : Str} :
    v.sub place = some (.arr xs) → xs[i]? = some (.str flag) → flag ∈ secretFlags →
      Secret v (place ++ [i + 1])
  | withFlag {place : List Nat} {xs : List Json} {i : Nat} {flag value : Str} :
    v.sub place = some (.arr xs) → xs[i]? = some (.str (flag ++ '=' :: value)) →
      flag ∈ secretFlags → Secret v (place ++ [i])

/-- `w` has no secret left, and is `v` but for the strings at its secret places. -/
structure Sanitized (v w : Json) : Prop where
  userText : ∀ place ms key s, w.sub place = some (.obj ms) → (key, .str s) ∈ ms →
    key ∈ redactKeys → s = marker
  behindFlag : ∀ place xs i flag s, w.sub place = some (.arr xs) → xs[i]? = some (.str flag) →
    flag ∈ secretFlags → xs[i + 1]? = some (.str s) → s = marker
  withFlag : ∀ place xs flag value, w.sub place = some (.arr xs) → flag ∈ secretFlags →
    .str (flag ++ '=' :: value) ∈ xs → value = marker
  shape : ∀ place, (w.sub place).map Json.kind = (v.sub place).map Json.kind
  kept : ∀ place s, v.sub place = some (.str s) → ¬ Secret v place → w.sub place = some (.str s)

/-! ## Members and items -/

/-- An item, behind a secret flag or not. -/
def redactItem (maskNext : Bool) : Json → Json
  | .str s => .str (if maskNext then marker else hideValue s)
  | x => redact x

/-- Whether the item is a secret flag, and not the value of one. -/
def masksNext (maskNext : Bool) : Json → Bool
  | .str s => !maskNext && secretFlags.contains s
  | _ => false

variable {v x y : Json} {ms : List (Str × Json)} {xs : List Json} {mask : Bool} {s flag value : Str}

theorem redactMembers_eq : redactMembers ms = ms.map redactMember := by
  induction ms with
  | nil => rfl
  | cons m ms ih => rw [redactMembers, ih, List.map_cons]

theorem redactItems_cons :
    redactItems mask (x :: xs) = redactItem mask x :: redactItems (masksNext mask x) xs := by
  rw [redactItems.eq_def]
  cases x with
  | str s => cases mask <;> rfl
  | _ => rfl

theorem getElem?_redactItems (i : Nat) :
    (redactItems mask xs)[i]? = xs[i]?.map (redactItem ((xs.take i).foldl masksNext mask)) := by
  induction xs generalizing mask i with
  | nil => rfl
  | cons x xs ih =>
    rw [redactItems_cons]
    cases i with
    | zero => rfl
    | succ i => rw [List.getElem?_cons_succ, ih, List.getElem?_cons_succ, List.take_succ_cons,
        List.foldl_cons]

theorem isStr_redact (x : Json) : (redact x).isStr = x.isStr := by cases x <;> rfl

/-- A string stays a string, and everything else is redacted. -/
def Relates (x y : Json) : Prop :=
  (∃ s t, x = .str s ∧ y = .str t) ∨ x.isStr = false ∧ y = redact x

theorem relates_redact (x : Json) : Relates x (redact x) := by
  cases x with
  | str s => exact .inl ⟨s, s, rfl, rfl⟩
  | _ => exact .inr ⟨rfl, rfl⟩

theorem relates_redactMember (m : Str × Json) : Relates m.2 (redactMember m).2 := by
  obtain ⟨key, x⟩ := m
  rw [redactMember]
  dsimp only
  split
  · rename_i h
    cases x with
    | str s => exact .inl ⟨s, marker, rfl, rfl⟩
    | _ => cases h
  · exact relates_redact x

theorem relates_redactItem (mask : Bool) (x : Json) : Relates x (redactItem mask x) := by
  cases x with
  | str s => exact .inl ⟨s, _, rfl, rfl⟩
  | _ => exact .inr ⟨rfl, rfl⟩

theorem Relates.kind (h : Relates x y) : y.kind = x.kind := by
  have hkey (m : Str × Json) : (redactMember m).1 = m.1 := by
    cases m
    rw [redactMember]
  have hlen (mask : Bool) (xs : List Json) : (redactItems mask xs).length = xs.length := by
    induction xs generalizing mask with
    | nil => rfl
    | cons x xs ih => rw [redactItems_cons, List.length_cons, ih, List.length_cons]
  rcases h with ⟨s, t, rfl, rfl⟩ | ⟨-, rfl⟩
  · rfl
  · cases x with
    | obj ms =>
      rw [redact, Json.kind, Json.kind, redactMembers_eq, List.map_map]
      exact congrArg _ (List.map_congr_left fun m _ => hkey m)
    | arr xs => rw [redact, Json.kind, Json.kind, hlen]
    | _ => rfl

theorem child_redact (v : Json) (i : Nat) :
    Option.Rel Relates (v.child i) ((redact v).child i) := by
  cases v with
  | obj ms =>
    rw [redact, Json.child, Json.child, redactMembers_eq, List.getElem?_map]
    cases ms[i]? with
    | none => exact .none
    | some m => exact .some (relates_redactMember m)
  | arr xs =>
    rw [redact, Json.child, Json.child, getElem?_redactItems]
    cases xs[i]? with
    | none => exact .none
    | some x => exact .some (relates_redactItem _ x)
  | _ => exact .none

/-- **What stands at a place of the result.** -/
theorem sub_redact (place : List Nat) (v : Json) :
    Option.Rel Relates (v.sub place) ((redact v).sub place) := by
  induction place generalizing v with
  | nil => exact .some (relates_redact v)
  | cons i place ih =>
    have hc := child_redact v i
    rw [Json.sub_cons, Json.sub_cons]
    generalize v.child i = x, (redact v).child i = y at hc
    cases hc with
    | none => exact .none
    | some h =>
      rcases h with ⟨s, t, rfl, rfl⟩ | ⟨-, rfl⟩
      · cases place with
        | nil => exact .some (.inl ⟨s, t, rfl, rfl⟩)
        | cons j place => exact .none
      · exact ih _

theorem exists_of_sub_redact {place : List Nat} (h : (redact v).sub place = some y) :
    ∃ x, v.sub place = some x ∧ Relates x y := by
  have hr := sub_redact place v
  rw [h] at hr
  generalize v.sub place = z at hr ⊢
  cases hr with
  | some hx => exact ⟨_, rfl, hx⟩

theorem sub_redact_of_not_str {place : List Nat} (h : v.sub place = some x) (hx : x.isStr = false) :
    (redact v).sub place = some (redact x) := by
  have hr := sub_redact place v
  rw [h] at hr
  generalize (redact v).sub place = z at hr ⊢
  cases hr with
  | some hy =>
    rcases hy with ⟨s, t, rfl, rfl⟩ | ⟨-, rfl⟩
    · cases hx
    · rfl

/-! ## Secret flags -/

theorem equals_not_mem_flag : ∀ flag ∈ secretFlags, '=' ∉ flag := by decide +kernel

theorem marker_not_mem_flags : marker ∉ secretFlags := by decide +kernel

theorem flag_append_inj {flag' value' : Str} (h : flag ∈ secretFlags) (h' : flag' ∈ secretFlags)
    (he : flag ++ '=' :: value = flag' ++ '=' :: value') : flag = flag' ∧ value = value' := by
  have hs := splitOnce_append (b := value) (equals_not_mem_flag flag h)
  rw [he, splitOnce_append (equals_not_mem_flag flag' h')] at hs
  obtain ⟨h1, h2⟩ := Prod.mk.inj (Option.some.inj hs)
  exact ⟨h1.symm, h2.symm⟩

theorem withFlag_not_flag (flag value : Str) :
    secretFlags.contains (flag ++ '=' :: value) = false := by
  rw [Bool.eq_false_iff, ne_eq, List.contains_iff_mem]
  exact fun hm => equals_not_mem_flag _ hm (List.mem_append_right _ (List.mem_cons_self ..))

theorem hideValue_cases (s : Str) :
    (∃ flag ∈ secretFlags, ∃ value, s = flag ++ '=' :: value ∧ hideValue s = flag ++ '=' :: marker) ∨
    ((∀ flag ∈ secretFlags, ∀ value, s ≠ flag ++ '=' :: value) ∧ hideValue s = s) := by
  unfold hideValue
  split
  · rename_i hc
    refine .inr ⟨?_, rfl⟩
    rintro flag hf value rfl
    rw [withFlag_not_flag] at hc
    cases hc
  · split
    · rename_i flag hfind
      have hpre := List.find?_some hfind
      obtain ⟨value, hv⟩ := List.isPrefixOf_iff_prefix.mp hpre
      refine .inl ⟨flag, List.mem_of_find?_eq_some hfind, value, ?_, rfl⟩
      rw [← hv, List.append_assoc, List.singleton_append]
    · rename_i hfind
      refine .inr ⟨?_, rfl⟩
      rintro flag hf value rfl
      refine List.find?_eq_none.mp hfind flag hf (List.isPrefixOf_iff_prefix.mpr ⟨value, ?_⟩)
      rw [List.append_assoc, List.singleton_append]

theorem contains_hideValue (s : Str) :
    secretFlags.contains (hideValue s) = secretFlags.contains s := by
  rcases hideValue_cases s with ⟨flag, hf, value, rfl, he⟩ | ⟨-, he⟩
  · rw [he, withFlag_not_flag, withFlag_not_flag]
  · rw [he]

theorem hideValue_hideValue (s : Str) : hideValue (hideValue s) = hideValue s := by
  rcases hideValue_cases s with ⟨flag, hf, value, rfl, he⟩ | ⟨-, he⟩
  · rw [he]
    rcases hideValue_cases (flag ++ '=' :: marker) with ⟨flag', hf', value', he', hh⟩ | ⟨-, hh⟩
    · rw [hh, (flag_append_inj hf hf' he').1]
    · exact hh
  · rw [he, he]

/-! ## What is masked -/

theorem masksNext_iff : masksNext mask x = true ↔
    mask = false ∧ ∃ flag ∈ secretFlags, x = .str flag := by
  cases x with
  | str s => simp [masksNext]
  | _ => simp [masksNext]

theorem userText_redact {key : Str} (h : (key, .str s) ∈ ms.map redactMember)
    (hk : key ∈ redactKeys) : s = marker := by
  obtain ⟨⟨key', x⟩, -, he⟩ := List.mem_map.mp h
  rw [redactMember] at he
  obtain ⟨hkey, hvalue⟩ := Prod.mk.inj he
  subst hkey
  split at hvalue
  · exact (Json.str.inj hvalue).symm
  · rename_i hno
    have hx : x.isStr = true := by
      rw [← isStr_redact, hvalue]
      rfl
    exact absurd (by rw [hx, List.contains_iff_mem.mpr hk]; rfl) hno

theorem redactItem_eq_str (h : redactItem mask x = .str s) :
    ∃ t, x = .str t ∧ s = if mask then marker else hideValue t := by
  cases x with
  | str t => exact ⟨t, rfl, (Json.str.inj h).symm⟩
  | _ => cases h

theorem behindFlag_redact {i : Nat} (hi : (redactItems mask xs)[i]? = some (.str flag))
    (hf : flag ∈ secretFlags) (hnext : (redactItems mask xs)[i + 1]? = some (.str s)) :
    s = marker := by
  rw [getElem?_redactItems] at hi hnext
  obtain ⟨x, hx, hi⟩ := Option.map_eq_some_iff.mp hi
  obtain ⟨y, -, hnext⟩ := Option.map_eq_some_iff.mp hnext
  obtain ⟨t, rfl, he⟩ := redactItem_eq_str hi
  obtain ⟨u, -, hs⟩ := redactItem_eq_str hnext
  have htake : xs.take (i + 1) = xs.take i ++ [.str t] := by
    rw [List.take_add_one, hx]
    rfl
  have hmask : (xs.take (i + 1)).foldl masksNext mask = true := by
    rw [htake, List.foldl_concat, masksNext_iff]
    split at he
    · rw [he] at hf
      exact absurd hf marker_not_mem_flags
    · rename_i hm
      refine ⟨by simpa using hm, t, ?_, rfl⟩
      rwa [← List.contains_iff_mem, ← contains_hideValue, ← he, List.contains_iff_mem]
  rw [hs, hmask, if_pos rfl]

theorem withFlag_redact (hf : flag ∈ secretFlags)
    (h : .str (flag ++ '=' :: value) ∈ redactItems mask xs) : value = marker := by
  obtain ⟨i, hi⟩ := List.mem_iff_getElem?.mp h
  rw [getElem?_redactItems] at hi
  obtain ⟨x, -, hi⟩ := Option.map_eq_some_iff.mp hi
  obtain ⟨t, -, he⟩ := redactItem_eq_str hi
  split at he
  · have : '=' ∈ marker := by
      rw [← he]
      exact List.mem_append_right _ (List.mem_cons_self ..)
    exact absurd this (by decide +kernel)
  · rcases hideValue_cases t with ⟨flag', hf', value', -, hh⟩ | ⟨hno, hh⟩
    · rw [hh] at he
      exact (flag_append_inj hf hf' he).2
    · rw [hh] at he
      exact absurd he.symm (hno flag hf value)

/-! ## What is kept -/

theorem kept_userText {i : Nat} {key : Str} (hi : ms[i]? = some (key, .str s)) (hk : key ∉ redactKeys) :
    (ms.map redactMember)[i]? = some (key, .str s) := by
  rw [List.getElem?_map, hi, Option.map_some, redactMember, if_neg]
  · rfl
  · rw [Bool.and_eq_true, not_and, List.contains_iff_mem]
    exact fun _ => hk

theorem kept_item {i : Nat} (hi : xs[i]? = some (.str s))
    (hbehind : ∀ j flag, i = j + 1 → xs[j]? = some (.str flag) → flag ∉ secretFlags)
    (hwith : ∀ flag ∈ secretFlags, ∀ value, s ≠ flag ++ '=' :: value) :
    (redactItems false xs)[i]? = some (.str s) := by
  have hmask : (xs.take i).foldl masksNext false = false := by
    cases i with
    | zero => rfl
    | succ j =>
      obtain ⟨x, hx⟩ : ∃ x, xs[j]? = some x := by
        have := (List.getElem?_eq_some_iff.mp hi).1
        exact ⟨_, List.getElem?_eq_getElem (by omega)⟩
      have htake : xs.take (j + 1) = xs.take j ++ [x] := by
        rw [List.take_add_one, hx]
        rfl
      rw [htake, List.foldl_concat, Bool.eq_false_iff, ne_eq, masksNext_iff]
      rintro ⟨-, flag, hf, rfl⟩
      exact hbehind j flag rfl hx hf
  rw [getElem?_redactItems, hi, hmask, Option.map_some, redactItem, if_neg Bool.false_ne_true]
  rcases hideValue_cases s with ⟨flag, hf, value, he, -⟩ | ⟨-, he⟩
  · exact absurd he (hwith flag hf value)
  · rw [he]

theorem kept_redact {place : List Nat} (h : v.sub place = some (.str s)) (hs : ¬ Secret v place) :
    (redact v).sub place = some (.str s) := by
  rcases List.eq_nil_or_concat place with rfl | ⟨place, i, rfl⟩
  · cases h
    rfl
  rw [List.concat_eq_append] at h hs ⊢
  rw [Json.sub_concat] at h ⊢
  obtain ⟨x, hx, hi⟩ := Option.bind_eq_some_iff.mp h
  cases x with
  | obj ms =>
    rw [sub_redact_of_not_str hx rfl, Option.bind_some, redact, redactMembers_eq, Json.child]
    obtain ⟨⟨key, y⟩, hm, rfl⟩ := Option.map_eq_some_iff.mp hi
    rw [kept_userText hm fun hk => hs (.userText hx hm hk)]
    rfl
  | arr xs =>
    rw [sub_redact_of_not_str hx rfl, Option.bind_some, redact, Json.child]
    refine kept_item hi (fun j flag hj hflag hf => hs ?_) fun flag hf value he => hs ?_
    · rw [hj]
      exact .behindFlag hx hflag hf
    · rw [he] at hi
      exact .withFlag hx hi hf
  | _ => cases hi

theorem Relates.obj (h : Relates x (.obj ms)) : ∃ ms₀, x = .obj ms₀ ∧ ms = ms₀.map redactMember := by
  rcases h with ⟨s, t, -, he⟩ | ⟨-, he⟩
  · cases he
  · cases x with
    | obj ms₀ =>
      rw [redact, redactMembers_eq] at he
      exact ⟨ms₀, rfl, Json.obj.inj he⟩
    | _ => cases he

theorem Relates.arr (h : Relates x (.arr xs)) : ∃ xs₀, x = .arr xs₀ ∧ xs = redactItems false xs₀ := by
  rcases h with ⟨s, t, -, he⟩ | ⟨-, he⟩
  · cases he
  · cases x with
    | arr xs₀ =>
      rw [redact] at he
      exact ⟨xs₀, rfl, Json.arr.inj he⟩
    | _ => cases he

theorem sanitized_redact (v : Json) : Sanitized v (redact v) where
  userText place ms key s h hm hk := by
    obtain ⟨x, -, hr⟩ := exists_of_sub_redact h
    obtain ⟨ms₀, -, rfl⟩ := hr.obj
    exact userText_redact hm hk
  behindFlag place xs i flag s h hi hf hnext := by
    obtain ⟨x, -, hr⟩ := exists_of_sub_redact h
    obtain ⟨xs₀, -, rfl⟩ := hr.arr
    exact behindFlag_redact hi hf hnext
  withFlag place xs flag value h hf hm := by
    obtain ⟨x, -, hr⟩ := exists_of_sub_redact h
    obtain ⟨xs₀, -, rfl⟩ := hr.arr
    exact withFlag_redact hf hm
  shape place := by
    have hr := sub_redact place v
    generalize v.sub place = x, (redact v).sub place = y at hr
    cases hr with
    | none => rfl
    | some h => rw [Option.map_some, Option.map_some, h.kind]
  kept place s h hs := kept_redact h hs

/-! ## Once is enough -/

theorem masksNext_redactItem (mask : Bool) (x : Json) :
    masksNext mask (redactItem mask x) = masksNext mask x := by
  cases x with
  | str s =>
    cases mask with
    | false => exact contains_hideValue s
    | true => rfl
  | _ => rfl

theorem redactItem_redactItem (mask : Bool) (h : redact (redact x) = redact x) :
    redactItem mask (redactItem mask x) = redactItem mask x := by
  cases x with
  | str s =>
    cases mask with
    | false => exact congrArg Json.str (hideValue_hideValue s)
    | true => rfl
  | _ => exact h

theorem redactMember_redactMember (m : Str × Json) (h : redact (redact m.2) = redact m.2) :
    redactMember (redactMember m) = redactMember m := by
  obtain ⟨key, x⟩ := m
  cases hs : x.isStr && redactKeys.contains key with
  | true =>
    have hkey : redactKeys.contains key = true := (Bool.and_eq_true_iff.mp hs).2
    have hmask : redactMember (key, x) = (key, .str marker) := by
      rw [redactMember, hs, if_pos rfl]
    rw [hmask, redactMember, hkey]
    rfl
  | false =>
    have hmask : redactMember (key, x) = (key, redact x) := by
      rw [redactMember, hs, if_neg Bool.false_ne_true]
    rw [hmask, redactMember, isStr_redact, hs, if_neg Bool.false_ne_true, h]

theorem redactItems_redactItems (h : ∀ x ∈ xs, redact (redact x) = redact x) (mask : Bool) :
    redactItems mask (redactItems mask xs) = redactItems mask xs := by
  induction xs generalizing mask with
  | nil => rfl
  | cons x xs ih =>
    obtain ⟨hx, hxs⟩ := List.forall_mem_cons.mp h
    rw [redactItems_cons, redactItems_cons, masksNext_redactItem, redactItem_redactItem mask hx,
      ih hxs]

theorem redact_redact (v : Json) : redact (redact v) = redact v := by
  induction v using Json.induct with
  | arr xs ih => rw [redact, redact, redactItems_redactItems ih]
  | obj ms ih =>
    rw [redact, redact, redactMembers_eq, redactMembers_eq, List.map_map]
    exact congrArg Json.obj (List.map_congr_left fun m hm => redactMember_redactMember m (ih m hm))
  | _ => rfl

example : redact (.arr [.str "--api-key", .str "k", .str "--hf-token=t", .str "8080"]) =
    .arr [.str "--api-key", .str marker, .str "--hf-token=<redacted>", .str "8080"] := rfl

/-! ## The shape is kept -/

theorem Relates.walk (h : Relates x y) (ih : ∀ path, walk (redact x) path = walk x path)
    (path : Str) : walk y path = walk x path := by
  rcases h with ⟨s, t, rfl, rfl⟩ | ⟨-, rfl⟩
  · rfl
  · exact ih path

theorem walkMembers_redact {path : Str}
    (h : ∀ m ∈ ms, ∀ path, walk (redact m.2) path = walk m.2 path) :
    walkMembers (ms.map redactMember) path = walkMembers ms path := by
  induction ms with
  | nil => rfl
  | cons m ms ih =>
    obtain ⟨hm, hms⟩ := List.forall_mem_cons.mp h
    rw [List.map_cons, walkMembers, walkMembers, ih hms]
    congr 1
    obtain ⟨key, x⟩ := m
    exact (relates_redactMember (key, x)).walk hm _

theorem walkItems_redact {path : Str} (h : ∀ x ∈ xs, ∀ path, walk (redact x) path = walk x path) :
    walkItems (redactItems mask xs) path = walkItems xs path := by
  induction xs generalizing mask with
  | nil => rfl
  | cons x xs ih =>
    obtain ⟨hx, hxs⟩ := List.forall_mem_cons.mp h
    rw [redactItems_cons, walkItems, walkItems, ih hxs, (relates_redactItem mask x).walk hx]

theorem walk_redact (v : Json) (path : Str) : walk (redact v) path = walk v path := by
  induction v using Json.induct generalizing path with
  | arr xs ih => rw [redact, walk, walk, walkItems_redact ih]
  | obj ms ih => rw [redact, walk, walk, redactMembers_eq, walkMembers_redact ih]
  | _ => rfl

/-- **The sanitizer keeps the key paths, needs to run once, masks what is secret and keeps the
rest.** -/
theorem redact_sanitizes (v : Json) :
    keyPaths (redact v) = keyPaths v ∧ redact (redact v) = redact v ∧ Sanitized v (redact v) :=
  ⟨congrArg List.toFinset (walk_redact v []), redact_redact v, sanitized_redact v⟩

end Saltnitor.FakeLlama
