import Saltnitor.Rust.JsonQuote
import Saltnitor.Rust.JsonRead
import Saltnitor.Rust.JsonSort

/-!
# Printed values

`compact` and `pretty` are `serde_json`'s `to_string` and `to_string_pretty`, which differ in their
`Layout` alone. How a number prints is a parameter, and what is printed spells the value with each
number as its own text reads (`spells_print`); a natural number is its digits (`jsonNumber_toDec`).
-/

namespace Rust

/-! ## The text -/

/-- How the items of a value are set apart: what stands before each at a depth, and after a colon. -/
structure Layout where
  lineStart : Nat → Str
  gap : Str
  blank_lineStart : ∀ depth, Blank (lineStart depth)
  blank_gap : Blank gap

namespace Layout

/-- One line, no blanks. -/
def compact : Layout where
  lineStart _ := []
  gap := []
  blank_lineStart _ := blank_nil
  blank_gap := blank_nil

/-- A new line, two blanks a level. -/
def pretty : Layout where
  lineStart depth := '\n' :: List.replicate (2 * depth) ' '
  gap := [' ']
  blank_lineStart depth := by
    intro c hc
    rcases List.mem_cons.mp hc with rfl | hc
    · rfl
    · rw [List.eq_of_mem_replicate hc]
      rfl
  blank_gap := blank_space

end Layout

section Print

variable (lay : Layout) (numText : ℚ → Str)

mutual

def printAt (depth : Nat) : Json → Str
  | .null => "null"
  | .bool true => "true"
  | .bool false => "false"
  | .num n => numText n
  | .str s => quote s
  | .arr [] => "[]"
  | .arr (x :: xs) => '[' :: (printItems (depth + 1) (x :: xs) ++ lay.lineStart depth ++ ("]" : Str))
  | .obj [] => "\x7b\x7d"
  | .obj (m :: ms) =>
    '\x7b' :: (printMembers (depth + 1) (m :: ms) ++ lay.lineStart depth ++ ("\x7d" : Str))

def printItems (depth : Nat) : List Json → Str
  | [] => []
  | x :: xs =>
    lay.lineStart depth ++ printAt depth x ++ (if xs.isEmpty then [] else [',']) ++ printItems depth xs

def printMembers (depth : Nat) : List (Str × Json) → Str
  | [] => []
  | m :: ms =>
    lay.lineStart depth ++ printMember depth m ++ (if ms.isEmpty then [] else [',']) ++
      printMembers depth ms

def printMember (depth : Nat) : Str × Json → Str
  | (key, x) => quote key ++ ':' :: (lay.gap ++ printAt depth x)

end

end Print

/-- `to_string` -/
def compact (numText : ℚ → Str) (v : Json) : Str := printAt .compact numText 0 v

/-- `to_string_pretty` -/
def pretty (numText : ℚ → Str) (v : Json) : Str := printAt .pretty numText 0 v

example : compact (fun _ => ['0']) (.obj [("a", .arr [.num 0, .obj []]), ("b", .str "\"")]) =
    ("\x7b\"a\":[0,\x7b\x7d],\"b\":\"\\\"\"\x7d" : Str) := by
  decide +kernel

example : pretty (fun _ => ['0']) (.obj [("a", .arr [.num 0, .obj []]), ("b", .str "\"")]) =
    ("\x7b\n  \"a\": [\n    0,\n    \x7b\x7d\n  ],\n  \"b\": \"\\\"\"\n\x7d" : Str) := by
  decide +kernel

/-! ## Every number, mapped -/

def Json.mapNum (f : ℚ → ℚ) : Json → Json :=
  Json.fold { null := .null, bool := .bool, num := fun n => .num (f n), str := .str, arr := .arr, obj := .obj }

section

variable {f : ℚ → ℚ} {xs : List Json} {ms : List (Str × Json)}

@[simp] theorem Json.mapNum_arr : Json.mapNum f (.arr xs) = .arr (xs.map (Json.mapNum f)) := Json.fold_arr ..

@[simp] theorem Json.mapNum_obj :
    Json.mapNum f (.obj ms) = .obj (ms.map fun m => (m.1, Json.mapNum f m.2)) := Json.fold_obj ..

theorem Json.depth_mapNum (f : ℚ → ℚ) (v : Json) : (v.mapNum f).depth = v.depth :=
  depth_fold rfl (fun _ => rfl) (fun _ => rfl) (fun _ => rfl) (fun _ => rfl) (fun _ => rfl) v

theorem Json.mapNum_sorted (f : ℚ → ℚ) (v : Json) : v.sorted.mapNum f = (v.mapNum f).sorted := by
  induction v using Json.induct with
  | arr xs ih =>
    rw [sorted_arr, mapNum_arr, mapNum_arr, sorted_arr, List.map_map, List.map_map]
    exact congrArg Json.arr (List.map_congr_left ih)
  | obj ms ih =>
    have hsort := List.map_insertionSort ByName ByName (fun m => (m.1, mapNum f m.2))
      (ms.map fun m => (m.1, m.2.sorted)) fun _ _ _ _ => Iff.rfl
    rw [sorted_obj, mapNum_obj, mapNum_obj, sorted_obj, hsort, List.map_map, List.map_map]
    refine congrArg (fun ms => Json.obj (List.insertionSort ByName ms)) (List.map_congr_left fun m hm => ?_)
    exact congrArg (Prod.mk m.1) (ih m hm)
  | _ => rfl

theorem Json.everyObject_mapNum {P : List Str → Prop} (f : ℚ → ℚ) {v : Json} (h : v.EveryObject P) :
    (v.mapNum f).EveryObject P := by
  induction v using Json.induct with
  | arr xs ih =>
    rw [mapNum_arr, everyObject_arr, List.forall_mem_map]
    exact fun x hx => ih x hx (everyObject_arr.mp h x hx)
  | obj ms ih =>
    obtain ⟨hnames, h⟩ := everyObject_obj.mp h
    rw [mapNum_obj, everyObject_obj, List.map_map, List.forall_mem_map]
    exact ⟨hnames, fun m hm => ih m hm (h m hm)⟩
  | _ => exact Json.everyObject_leaf (fun _ => rfl) (by rintro _ ⟨⟩)

theorem Json.member_read (f : ℚ → ℚ) {v : Json} (h : v.Distinct) (k : Str) :
    (v.mapNum f).sorted.member k = (v.member k).map fun x => (x.mapNum f).sorted := by
  rw [member_sorted (everyObject_mapNum f h)]
  cases v with
  | obj ms => rw [mapNum_obj, member, member, lastOf_map, Option.map_map]; rfl
  | arr xs => rw [mapNum_arr]; rfl
  | _ => rfl

theorem Json.index_read (f : ℚ → ℚ) {v : Json} (h : v.Distinct) (k : Str) :
    (v.mapNum f).sorted.index k = ((v.index k).mapNum f).sorted := by
  rw [index, index, member_read f h]
  cases v.member k <;> rfl

theorem Json.read_eq_str {f : ℚ → ℚ} {v : Json} {s : Str} : (v.mapNum f).sorted = .str s ↔ v = .str s := by
  cases v with
  | arr xs => simp
  | obj ms => simp
  | _ => simp [mapNum, sorted, fold]

end

/-! ## What it spells -/

/-- No number goes on into the text. -/
def EndsNumber (r : Str) : Prop := ∀ c ∈ r.head?, isNumChar c = false

theorem endsNumber_of_head {c : Char} (h : isNumChar c = false) (r : Str) : EndsNumber (c :: r) := by
  rintro _ ⟨⟩
  exact h

theorem endsNumber_nil : EndsNumber [] := nofun

theorem spells_quote (s r : Str) : Spells (.value (.str s)) (quote s ++ r) r := by
  rw [quote, List.cons_append, List.append_assoc]
  exact .str (strText_quote s r)

variable {lay : Layout} {numText : ℚ → Str} {number : ℚ → ℚ}

/-! The text of items and members, up to what follows it. -/

theorem printItems_last (depth : Nat) (x : Json) (r : Str) :
    printItems lay numText depth [x] ++ r = lay.lineStart depth ++ (printAt lay numText depth x ++ r) := by
  simp [printItems]

theorem printItems_next (depth : Nat) (x y : Json) (xs : List Json) (r : Str) :
    printItems lay numText depth (x :: y :: xs) ++ r = lay.lineStart depth ++
      (printAt lay numText depth x ++ ',' :: (printItems lay numText depth (y :: xs) ++ r)) := by
  rw [printItems, if_neg (by simp)]
  simp

theorem printMembers_last (depth : Nat) (key : Str) (x : Json) (r : Str) :
    printMembers lay numText depth [(key, x)] ++ r = lay.lineStart depth ++
      '"' :: (key.flatMap escapeChar ++ '"' :: ':' :: (lay.gap ++ (printAt lay numText depth x ++ r))) := by
  simp [printMembers, printMember, quote]

theorem printMembers_next (depth : Nat) (key : Str) (x : Json) (n : Str × Json) (ms : List (Str × Json))
    (r : Str) : printMembers lay numText depth ((key, x) :: n :: ms) ++ r = lay.lineStart depth ++
      '"' :: (key.flatMap escapeChar ++ '"' :: ':' :: (lay.gap ++
        (printAt lay numText depth x ++ ',' :: (printMembers lay numText depth (n :: ms) ++ r)))) := by
  rw [printMembers, if_neg (by simp)]
  simp [printMember, quote]

/-- A printed value is spelled wherever a number may end. -/
def Prints (lay : Layout) (numText : ℚ → Str) (number : ℚ → ℚ) (v : Json) : Prop :=
  ∀ depth r, EndsNumber r → Spells (.value (v.mapNum number)) (printAt lay numText depth v ++ r) r

/-- What closes a value ends a number before it. -/
theorem endsNumber_close (depth : Nat) {c : Char} (h : isNumChar c = false) (r : Str) :
    EndsNumber (lay.lineStart depth ++ c :: r) := by
  intro d hd
  cases hl : lay.lineStart depth with
  | nil =>
    rw [hl] at hd
    cases hd
    exact h
  | cons e es =>
    rw [hl] at hd
    cases hd
    have hb := lay.blank_lineStart depth d (by rw [hl]; exact List.mem_cons_self)
    simp only [isBlank, Bool.or_eq_true, beq_iff_eq] at hb
    rcases hb with ((rfl | rfl) | rfl) | rfl <;> rfl

theorem spells_printItems {x : Json} {xs : List Json} (h : ∀ y ∈ x :: xs, Prints lay numText number y)
    (depth depth' : Nat) (r : Str) :
    Spells (.elems ((x :: xs).map (Json.mapNum number)))
      (printItems lay numText depth (x :: xs) ++ (lay.lineStart depth' ++ ']' :: r)) r := by
  induction xs generalizing x with
  | nil =>
    rw [printItems_last]
    exact .elem (lay.blank_lineStart depth)
      (h x (List.mem_singleton_self x) depth _ (endsNumber_close depth' rfl r)) (lay.blank_lineStart depth')
  | cons y xs ih =>
    obtain ⟨hx, hxs⟩ := List.forall_mem_cons.mp h
    rw [printItems_next]
    exact .elems (lay.blank_lineStart depth) (hx depth _ (endsNumber_of_head rfl _)) blank_nil (ih hxs)

theorem spells_printMembers {m : Str × Json} {ms : List (Str × Json)}
    (h : ∀ n ∈ m :: ms, Prints lay numText number n.2) (depth depth' : Nat) (r : Str) :
    Spells (.members ((m :: ms).map fun n => (n.1, n.2.mapNum number)))
      (printMembers lay numText depth (m :: ms) ++ (lay.lineStart depth' ++ '\x7d' :: r)) r := by
  induction ms generalizing m with
  | nil =>
    rw [printMembers_last]
    have hclose : EndsNumber (lay.lineStart depth' ++ '\x7d' :: r) := endsNumber_close depth' rfl r
    have hx := h m (List.mem_singleton_self m) depth _ hclose
    exact .member (lay.blank_lineStart depth) (strText_quote m.1 _) blank_nil lay.blank_gap hx
      (lay.blank_lineStart depth')
  | cons n ms ih =>
    obtain ⟨hm, hms⟩ := List.forall_mem_cons.mp h
    rw [printMembers_next]
    exact .members (lay.blank_lineStart depth) (strText_quote m.1 _) blank_nil lay.blank_gap
      (hm depth _ (endsNumber_of_head rfl _)) blank_nil (ih hms)

/-- A value is printed as a text of it, with each number as its own text reads. -/
theorem spells_print (hnum : ∀ n, jsonNumber (numText n) = some (number n)) (v : Json) :
    Prints lay numText number v := by
  induction v using Json.induct with
  | null => exact fun _ r _ => .null r
  | bool b =>
    cases b with
    | true => exact fun _ r _ => .yes r
    | false => exact fun _ r _ => .no r
  | num n => exact fun _ r hr => .num (hnum n) hr
  | str s => exact fun _ r _ => spells_quote s r
  | arr xs ih =>
    intro depth r _
    cases xs with
    | nil => exact .arrNil blank_nil
    | cons x xs =>
      rw [Json.mapNum_arr, printAt, List.cons_append, List.append_assoc, List.append_assoc]
      exact .arr (spells_printItems ih (depth + 1) depth r)
  | obj ms ih =>
    intro depth r _
    cases ms with
    | nil => exact .objNil blank_nil
    | cons m ms =>
      rw [Json.mapNum_obj, printAt, List.cons_append, List.append_assoc, List.append_assoc]
      exact .obj (spells_printMembers ih (depth + 1) depth r)

theorem spellsText_compact (hnum : ∀ n, jsonNumber (numText n) = some (number n)) (v : Json) :
    SpellsText (compact numText v) (v.mapNum number) := by
  have hspells : Spells (.value (v.mapNum number)) (compact numText v ++ []) [] :=
    spells_print hnum v 0 [] endsNumber_nil
  rw [List.append_nil] at hspells
  exact ⟨[], _, [], rfl, blank_nil, hspells, blank_nil⟩

/-- The file that is written of a value: its text and a line feed. -/
theorem spellsText_pretty (hnum : ∀ n, jsonNumber (numText n) = some (number n)) (v : Json) :
    SpellsText (pretty numText v ++ ['\n']) (v.mapNum number) :=
  ⟨[], _, ['\n'], rfl, blank_nil, spells_print hnum v 0 _ (endsNumber_of_head rfl []),
    List.forall_mem_singleton.mpr rfl⟩

/-! ## Natural numbers -/

theorem head?_toDec (n : Nat) (hn : 0 < n) : (toDec n).head? ≠ some '0' := by
  induction n using Nat.strongRecOn with
  | ind n ih =>
    rcases Nat.lt_or_ge n 10 with h | h
    · have hdigit : ∀ n < 10, 0 < n → [Nat.digitChar n].head? ≠ some '0' := by decide
      rw [toDec, Nat.toDigits_of_lt_base h]
      exact hdigit n h hn
    · rw [toDec, Nat.toDigits_of_base_le (by decide) h, List.head?_append_of_ne_nil _ (Nat.toDigits_ne_nil)]
      exact ih (n / 10) (by omega) (by omega)

theorem jsonNumber_toDec (n : Nat) : jsonNumber (toDec n) = some (n : ℚ) := by
  have hdigits (c : Char) (h : c ∈ toDec n) : c.isDigit = true := isDigit_of_mem_toDec h
  have htake : (toDec n).takeWhile Char.isDigit = toDec n := List.takeWhile_eq_self_iff.mpr hdigits
  have hdrop : (toDec n).dropWhile Char.isDigit = [] := List.dropWhile_eq_nil_iff.mpr hdigits
  have hminus : (toDec n).head? ≠ some '-' := by
    intro h
    have := hdigits '-' (List.mem_of_mem_head? h)
    exact absurd this (by decide)
  have hzero : ¬ ((toDec n).head? = some '0' ∧ 1 < (toDec n).length) := by
    rintro ⟨hhead, hlen⟩
    have hn : n = 0 := by
      by_contra hn
      exact head?_toDec n (by omega) hhead
    rw [hn] at hlen
    exact absurd hlen (by decide)
  have hdecimal : parseDecimal (toDec n) = some (n : ℚ) := by
    unfold parseDecimal
    rw [htake, hdrop]
    simp [parseExponent, scale10, digitsVal_toDec, toDec_ne_nil]
  unfold jsonNumber
  simp only [if_neg hminus, htake, hdrop, toDec_ne_nil, hzero, or_self, List.head?_nil, reduceCtorEq,
    false_and, if_false, hdecimal, Option.map_some]

/-! ## Reading back -/

/-- `serde_json::from_str` into a `Value`: nested below its limit, the last of a name's values kept,
the members in the order of their names. -/
def readText (s : Str) : Option Json :=
  (parseText s).bind fun v => if v.depth < 128 then some v.asMap.sorted else none

theorem readText_some {s : Str} {v : Json} (h : readText s = some v) :
    v.Distinct ∧ v.InOrder ∧ v.depth < 128 := by
  obtain ⟨w, -, hw⟩ := Option.bind_eq_some_iff.mp h
  rw [Option.ite_none_right_eq_some, Option.some.injEq] at hw
  obtain ⟨hdepth, rfl⟩ := hw
  refine ⟨Json.distinct_sorted (Json.distinct_asMap w), Json.inOrder_sorted _, ?_⟩
  rw [Json.depth_sorted]
  exact (Json.depth_asMap_le w).trans_lt hdepth

/-- A text of a value is read as that value, with its members in order. -/
theorem readText_of_spells {s : Str} {v : Json} (h : SpellsText s (v.mapNum number)) (hdistinct : v.Distinct)
    (hdepth : v.depth < 128) : readText s = some (v.mapNum number).sorted := by
  rw [readText, parseText_eq_some.mpr h, Option.bind_some, if_pos (by rwa [Json.depth_mapNum]),
    Json.asMap_eq_self (Json.everyObject_mapNum _ hdistinct)]

end Rust
