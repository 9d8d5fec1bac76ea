import Saltnitor.Rust.Text

/-!
# HTTP messages

The part of the `http` crate the daemon reads and writes. A `HeaderName` is a
lower-case token and a `HeaderValue` has no control bytes: both are structures
that carry the check, so no other name or value exists. A `HeaderMap` lists its
fields in iteration order; `get` is the first value of a name, `getAll` all of
them in order.
-/

namespace Saltnitor.Http

open Rust

/-! ## Names and values -/

/-- The bytes the `http` crate allows in a header name (upper case is folded on the way in). -/
def isNameChar (c : Char) : Bool :=
  c.isLower || c.isDigit || "!#$%&'*+-.^_|~".toList.contains c || c.toNat == 0x60

structure HeaderName where
  text : Str
  valid : text ≠ [] ∧ ∀ c ∈ text, isNameChar c = true
  deriving DecidableEq

def isVisible (b : UInt8) : Bool := (32 ≤ b && b < 127) || b == 9

/-- The bytes allowed in a header value. -/
def isValueByte (b : UInt8) : Bool := (32 ≤ b && b != 127) || b == 9

/-- Visible ASCII, a space or a tab. -/
def isVisibleChar (c : Char) : Bool := (0x20 ≤ c.toNat && c.toNat < 0x7f) || c == '\t'

theorem isVisible_iff (b : UInt8) :
    isVisible b = true ↔ 32 ≤ b.toNat ∧ b.toNat < 127 ∨ b.toNat = 9 := by
  simp only [isVisible, Bool.or_eq_true, Bool.and_eq_true, decide_eq_true_eq, beq_iff_eq,
    UInt8.le_iff_toNat_le, UInt8.lt_iff_toNat_lt, ← UInt8.toNat_inj]
  rfl

theorem isVisibleChar_iff (c : Char) :
    isVisibleChar c = true ↔ 32 ≤ c.toNat ∧ c.toNat < 127 ∨ c.toNat = 9 := by
  simp only [isVisibleChar, Bool.or_eq_true, Bool.and_eq_true, decide_eq_true_eq, beq_iff_eq]
  refine or_congr_right ⟨fun h => h ▸ rfl, fun h => ?_⟩
  rw [← Char.ofNat_toNat c, h]

/-- The bytes of a character are visible exactly when it is. -/
theorem visible_utf8EncodeChar (c : Char) :
    (∀ b ∈ String.utf8EncodeChar c, isVisible b = true) ↔ isVisibleChar c = true := by
  rw [isVisibleChar_iff]
  have hc : c.toNat = c.val.toNat := rfl
  fun_cases String.utf8EncodeChar c with
  | case1 => simp [isVisible_iff]; omega
  | case2 => simp [isVisible_iff]; omega
  | case3 => simp [isVisible_iff]; omega
  | case4 => simp [isVisible_iff]; omega

theorem latin1_utf8EncodeChar {c : Char} (h : isVisibleChar c = true) :
    (String.utf8EncodeChar c).map (fun b => Char.ofNat b.toNat) = [c] := by
  have hlt : c.toNat < 128 := by
    rcases (isVisibleChar_iff c).mp h with h | h <;> omega
  have hsize : c.utf8Size = 1 := Char.utf8Size_eq_one_iff.mpr (by
    rw [UInt32.le_iff_toNat_le]
    exact Nat.lt_succ_iff.mp hlt)
  have hbyte : c.val.toUInt8.toNat = c.toNat := Nat.mod_eq_of_lt (a := c.toNat) (by omega)
  rw [String.utf8EncodeChar_eq_singleton hsize, List.map_singleton, hbyte, Char.ofNat_toNat]

theorem isValueByte_of_isVisible {b : UInt8} (h : isVisible b = true) : isValueByte b = true := by
  simp only [isVisible, isValueByte, Bool.or_eq_true, Bool.and_eq_true, decide_eq_true_eq,
    beq_iff_eq, bne_iff_ne] at h ⊢
  refine h.imp_left (And.imp_right fun h he => ?_)
  rw [he] at h
  exact absurd h (by decide)

structure HeaderValue where
  bytes : List UInt8
  valid : ∀ b ∈ bytes, isValueByte b = true
  deriving DecidableEq

namespace HeaderName

def authorization : HeaderName := ⟨"authorization", by decide⟩
def connection : HeaderName := ⟨"connection", by decide⟩
def contentLength : HeaderName := ⟨"content-length", by decide⟩
def contentType : HeaderName := ⟨"content-type", by decide⟩
def retryAfter : HeaderName := ⟨"retry-after", by decide⟩
def xRequestId : HeaderName := ⟨"x-request-id", by decide⟩

/-- `HeaderName::from_bytes`: a name is shorter than 64 KiB. -/
def fromText (s : Str) : Option HeaderName :=
  let text := toAsciiLowercase s
  if h : text.isEmpty = false ∧ text.all isNameChar = true then
    if text.length ≤ 65535 then
      some ⟨text, List.isEmpty_eq_false_iff.mp h.1, List.all_eq_true.mp h.2⟩
    else none
  else none

theorem isNameChar_upper : ∀ n < 91, 65 ≤ n → isNameChar (Char.ofNat n) = false := by decide

theorem toLower_of_isNameChar {c : Char} (h : isNameChar c = true) : c.toLower = c := by
  have hn : ¬ (c.val ≥ 'A'.val ∧ c.val ≤ 'Z'.val) := by
    rintro ⟨h1, h2⟩
    have h1 : 65 ≤ c.toNat := h1
    have h2 : c.toNat ≤ 90 := h2
    have := isNameChar_upper c.toNat (by omega) h1
    rw [Char.ofNat_toNat, h] at this
    cases this
  exact dif_neg hn

theorem toAsciiLowercase_text (n : HeaderName) : toAsciiLowercase n.text = n.text := by
  have h : ∀ c ∈ n.text, c.toLower = id c := fun c hc => toLower_of_isNameChar (n.valid.2 c hc)
  rw [toAsciiLowercase, List.map_congr_left h, List.map_id]

end HeaderName

namespace HeaderValue

/-- The value read byte by byte (ISO 8859-1). -/
def latin1 (v : HeaderValue) : Str := v.bytes.map fun b => Char.ofNat b.toNat

/-- Only visible ASCII and tab are text. -/
def isText (v : HeaderValue) : Bool := v.bytes.all isVisible

/-- `HeaderValue::to_str`. -/
def toStr (v : HeaderValue) : Option Str := if v.isText then some v.latin1 else none

/-- `HeaderValue::from_str`. -/
def fromStr (s : Str) : Option HeaderValue :=
  if h : ∀ b ∈ Rust.bytes s, isValueByte b = true then some ⟨Rust.bytes s, h⟩ else none

/-- `1`. -/
def one : HeaderValue := ⟨[49], by decide⟩

def applicationJson : HeaderValue :=
  -- application/json
  ⟨[97, 112, 112, 108, 105, 99, 97, 116, 105, 111, 110, 47, 106, 115, 111, 110], by decide⟩

def eventStream : HeaderValue :=
  -- text/event-stream
  ⟨[116, 101, 120, 116, 47, 101, 118, 101, 110, 116, 45, 115, 116, 114, 101, 97, 109], by decide⟩

theorem fromStr_bytes {s : Str} {v : HeaderValue} (h : fromStr s = some v) :
    v.bytes = Rust.bytes s := by
  unfold fromStr at h
  split at h
  · cases h; rfl
  · cases h

theorem fromStr_of_visible {s : Str} (h : ∀ c ∈ s, isVisibleChar c = true) :
    ∃ v, fromStr s = some v := by
  have hv : ∀ b ∈ Rust.bytes s, isValueByte b = true := by
    intro b hb
    obtain ⟨c, hc, hb⟩ := List.mem_flatMap.mp hb
    exact isValueByte_of_isVisible ((visible_utf8EncodeChar c).mpr (h c hc) b hb)
  exact ⟨_, dif_pos hv⟩

theorem isVisibleChar_ofNat : ∀ n < 127, 32 ≤ n ∨ n = 9 → isVisibleChar (Char.ofNat n) = true := by decide

theorem fromStr_of_toStr {v : HeaderValue} {s : Str} (h : v.toStr = some s) : ∃ w, fromStr s = some w := by
  rw [toStr, Option.ite_none_right_eq_some, Option.some_inj] at h
  obtain ⟨htext, rfl⟩ := h
  refine fromStr_of_visible fun c hc => ?_
  obtain ⟨b, hb, rfl⟩ := List.mem_map.mp hc
  have hb := (isVisible_iff b).mp (List.all_eq_true.mp htext b hb)
  exact isVisibleChar_ofNat b.toNat (by omega) (by omega)

theorem toStr_of_bytes {v : HeaderValue} {s value : Str} (h : v.bytes = Rust.bytes s) :
    v.toStr = some value ↔ value = s ∧ ∀ c ∈ s, isVisibleChar c = true := by
  have htext : v.isText = true ↔ ∀ c ∈ s, isVisibleChar c = true := by
    simp only [isText, h, Rust.bytes, List.all_flatMap, List.all_eq_true, visible_utf8EncodeChar]
  have hlatin (hs : ∀ c ∈ s, isVisibleChar c = true) : v.latin1 = s := by
    rw [latin1, h, Rust.bytes, List.map_flatMap]
    clear h htext
    induction s with
    | nil => rfl
    | cons c s ih =>
      rw [List.flatMap_cons, latin1_utf8EncodeChar (hs c (List.mem_cons_self ..)),
        ih fun d hd => hs d (List.mem_cons_of_mem _ hd)]
      rfl
  rw [toStr, Option.ite_none_right_eq_some, htext, Option.some_inj]
  exact ⟨fun ⟨hs, hv⟩ => ⟨hv.symm.trans (hlatin hs), hs⟩, fun ⟨hv, hs⟩ => ⟨hs, (hlatin hs).trans hv.symm⟩⟩

end HeaderValue

/-! ## Header maps -/

abbrev HeaderMap := List (HeaderName × HeaderValue)

namespace HeaderMap

variable {h k : HeaderMap} {n m : HeaderName} {v : HeaderValue}

def getAll (h : HeaderMap) (n : HeaderName) : List HeaderValue :=
  h.filterMap fun f => if f.1 = n then some f.2 else none

def get (h : HeaderMap) (n : HeaderName) : Option HeaderValue := (h.getAll n).head?

def containsKey (h : HeaderMap) (n : HeaderName) : Bool := h.any fun f => f.1 = n

def append (h : HeaderMap) (n : HeaderName) (v : HeaderValue) : HeaderMap := h ++ [(n, v)]

/-- `HeaderMap::insert`: one value for the name, in the place of the first one it had. -/
def insert (h : HeaderMap) (n : HeaderName) (v : HeaderValue) : HeaderMap :=
  match h with
  | [] => [(n, v)]
  | f :: h => if f.1 = n then (n, v) :: h.filter (·.1 ≠ n) else f :: insert h n v

/-- `entry(n).or_insert(v)`. -/
def orInsert (h : HeaderMap) (n : HeaderName) (v : HeaderValue) : HeaderMap :=
  if h.containsKey n then h else h.append n v

@[simp] theorem getAll_nil : getAll [] n = [] := rfl

@[simp] theorem getAll_cons {f : HeaderName × HeaderValue} :
    getAll (f :: h) n = if f.1 = n then f.2 :: getAll h n else getAll h n := by
  simp only [getAll, List.filterMap_cons]
  split <;> simp_all

@[simp] theorem getAll_concat : getAll (h ++ k) n = getAll h n ++ getAll k n :=
  List.filterMap_append ..

theorem getAll_eq_nil : h.getAll n = [] ↔ ∀ f ∈ h, f.1 ≠ n := by
  induction h with
  | nil => simp
  | cons f h ih =>
    rw [getAll_cons]
    split <;> simp_all

theorem getAll_filter_ne : getAll (h.filter (·.1 ≠ n)) n = [] := by
  simp [getAll_eq_nil]

theorem containsKey_iff : h.containsKey n = true ↔ h.getAll n ≠ [] := by
  rw [ne_eq, getAll_eq_nil]
  simp [containsKey]

@[simp] theorem getAll_insert_self : (h.insert n v).getAll n = [v] := by
  induction h with
  | nil => simp [insert]
  | cons f h ih =>
    unfold insert
    split
    · rw [getAll_cons, if_pos rfl, getAll_filter_ne]
    · rename_i hf
      rw [getAll_cons, if_neg hf, ih]

theorem getAll_insert_ne (hne : n ≠ m) : (h.insert n v).getAll m = h.getAll m := by
  induction h with
  | nil => simp [insert, hne]
  | cons f h ih =>
    unfold insert
    split
    · rename_i hf
      have hrest : getAll (h.filter (·.1 ≠ n)) m = getAll h m := by
        unfold getAll
        rw [List.filterMap_filter]
        refine List.filterMap_congr fun g _ => ?_
        by_cases hg : g.1 = n
        · simp [hg, hne]
        · simp [hg]
      rw [getAll_cons, if_neg hne, getAll_cons, if_neg (hf ▸ hne), hrest]
    · rw [getAll_cons, getAll_cons, ih]

theorem getAll_orInsert_self :
    (h.orInsert n v).getAll n = if h.containsKey n then h.getAll n else [v] := by
  unfold orInsert
  split
  · rfl
  · rename_i hk
    rw [Bool.not_eq_true, ← Bool.not_eq_true, containsKey_iff, not_not] at hk
    simp [append, hk]

end HeaderMap

/-! ## Requests -/

inductive Method where
  | options
  | get
  | post
  | put
  | delete
  | head
  | trace
  | connect
  | patch
  | extension (name : Str)
  deriving DecidableEq

namespace Method

def asStr : Method → Str
  | options => "OPTIONS"
  | get => "GET"
  | post => "POST"
  | put => "PUT"
  | delete => "DELETE"
  | head => "HEAD"
  | trace => "TRACE"
  | connect => "CONNECT"
  | patch => "PATCH"
  | extension name => name

end Method

/-- Path and raw query. -/
structure Uri where
  path : Str
  query : Option Str
  deriving DecidableEq

/-- A request body as it is read: the chunks that arrive, then the end or a read error. -/
structure BodyStream where
  chunks : List (List UInt8)
  fails : Bool := false
  deriving DecidableEq

/-- The peer's address: the IP it counts as, and how the socket address prints. -/
structure Peer where
  ip : Str
  shown : Str
  deriving DecidableEq

/-- An incoming request; `requestId` and `peer` are its extensions. -/
structure Request where
  method : Method
  uri : Uri
  headers : HeaderMap := []
  body : BodyStream := { chunks := [] }
  requestId : Option Str := none
  peer : Option Peer := none

/-- A request the daemon sends. -/
structure Outgoing where
  method : Method
  url : Str
  headers : HeaderMap
  body : List UInt8

end Saltnitor.Http
