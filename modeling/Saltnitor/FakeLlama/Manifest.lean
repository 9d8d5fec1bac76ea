import Saltnitor.Rust.JsonSort
import Saltnitor.Rust.Utf8

/-!
# The manifest of a capture

A capture is a directory: a file for each endpoint that answered, and `manifest.json`, which says
of every endpoint what its answer was. `replayFile` looks an answer up again. The manifest is
written and read through its JSON value, whatever the order of its members then (`ofJson_sorted`);
the text is the serializer's.
-/

namespace Saltnitor.FakeLlama

open Rust

/-! ## Records -/

inductive Liveness where
  | live
  | degraded
  | down
  | absent
  deriving DecidableEq

inductive Shape where
  | ok
  | drift (added removed : List Str)
  | noBaseline
  | notJson
  deriving DecidableEq

structure EndpointRecord where
  path : Str
  file : Option Str
  status : Option Nat
  latencyMs : Nat
  contentType : Option Str
  liveness : Liveness
  shape : Shape
  deriving DecidableEq

structure Manifest where
  capturedUnix : Nat
  upstream : Str
  endpoints : List EndpointRecord
  deriving DecidableEq

/-- The numbers fit the types they have. -/
def EndpointRecord.Fits (e : EndpointRecord) : Prop :=
  (∀ code ∈ e.status, code < 2 ^ 16) ∧ e.latencyMs < 2 ^ 64

def Manifest.Fits (m : Manifest) : Prop := m.capturedUnix < 2 ^ 64 ∧ ∀ e ∈ m.endpoints, e.Fits

/-! ## As JSON -/

/-- A number of `bits` bits. -/
def readUnsigned (bits : Nat) : Json → Option Nat
  | .num n => if n.den = 1 ∧ 0 ≤ n.num ∧ n.num < 2 ^ bits then some n.num.toNat else none
  | _ => none

/-- A field that may be missing or null. -/
def readOption {α : Type} (read : Json → Option α) : Option Json → Option (Option α)
  | none => some none
  | some .null => some none
  | some v => (read v).map some

def readList {α : Type} (read : Json → Option α) : Json → Option (List α)
  | .arr xs => xs.mapM read
  | _ => none

def optionJson {α : Type} (write : α → Json) : Option α → Json
  | none => .null
  | some a => write a

namespace Liveness

def name : Liveness → Str
  | live => "LIVE"
  | degraded => "DEGRADED"
  | down => "DOWN"
  | absent => "ABSENT"

def ofJson (v : Json) : Option Liveness :=
  [live, degraded, down, absent].find? fun l => v.asStr = some l.name

end Liveness

namespace Shape

/-- Tagged by `kind`. -/
def toJson : Shape → Json
  | ok => .obj [("kind", .str "ok")]
  | drift added removed => .obj [("kind", .str "drift"), ("added", .arr (added.map .str)),
      ("removed", .arr (removed.map .str))]
  | noBaseline => .obj [("kind", .str "no_baseline")]
  | notJson => .obj [("kind", .str "not_json")]

def ofJson (v : Json) : Option Shape := do
  let kind ← (← v.member "kind").asStr
  if kind = "ok" then some ok
  else if kind = "drift" then
    some (drift (← readList Json.asStr (← v.member "added")) (← readList Json.asStr (← v.member "removed")))
  else if kind = "no_baseline" then some noBaseline
  else if kind = "not_json" then some notJson
  else none

end Shape

namespace EndpointRecord

def toJson (e : EndpointRecord) : Json :=
  .obj [("path", .str e.path), ("file", optionJson .str e.file),
    ("status", optionJson (fun code : Nat => .num code) e.status), ("latency_ms", .num e.latencyMs),
    ("content_type", optionJson .str e.contentType), ("liveness", .str e.liveness.name),
    ("shape", e.shape.toJson)]

def ofJson (v : Json) : Option EndpointRecord := do
  some {
    path := ← (← v.member "path").asStr
    file := ← readOption Json.asStr (v.member "file")
    status := ← readOption (readUnsigned 16) (v.member "status")
    latencyMs := ← readUnsigned 64 (← v.member "latency_ms")
    contentType := ← readOption Json.asStr (v.member "content_type")
    liveness := ← Liveness.ofJson (← v.member "liveness")
    shape := ← Shape.ofJson (← v.member "shape") }

end EndpointRecord

namespace Manifest

def toJson (m : Manifest) : Json :=
  .obj [("captured_unix", .num m.capturedUnix), ("upstream", .str m.upstream),
    ("endpoints", .arr (m.endpoints.map EndpointRecord.toJson))]

def ofJson (v : Json) : Option Manifest := do
  some {
    capturedUnix := ← readUnsigned 64 (← v.member "captured_unix")
    upstream := ← (← v.member "upstream").asStr
    endpoints := ← readList EndpointRecord.ofJson (← v.member "endpoints") }

end Manifest

/-! ## Written and read -/

variable {α : Type} {read : Json → Option α} {write : α → Json}

theorem readUnsigned_natCast {bits n : Nat} (h : n < 2 ^ bits) :
    readUnsigned bits (.num (n : ℚ)) = some n := by
  have hlt : (n : Int) < 2 ^ bits := by exact_mod_cast h
  rw [readUnsigned, Rat.den_natCast, Rat.num_natCast, if_pos ⟨rfl, Int.natCast_nonneg n, hlt⟩,
    Int.toNat_natCast]

theorem readOption_optionJson {a : Option α} (h : ∀ b ∈ a, read (write b) = some b ∧ write b ≠ .null) :
    readOption read (some (optionJson write a)) = some a := by
  cases a with
  | none => rfl
  | some b =>
    obtain ⟨hread, hnull⟩ := h b rfl
    rw [optionJson, readOption.eq_3 _ _ hnull, hread]
    rfl

theorem readList_map {as : List α} (h : ∀ a ∈ as, read (write a) = some a) :
    readList read (.arr (as.map write)) = some as := by
  rw [readList]
  induction as with
  | nil => rfl
  | cons a as ih =>
    obtain ⟨ha, has⟩ := List.forall_mem_cons.mp h
    rw [List.map_cons, List.mapM_cons, ha, ih has]
    rfl

theorem readStrings (s : List Str) : readList Json.asStr (.arr (s.map .str)) = some s :=
  readList_map fun _ _ => rfl

theorem readStr_option (s : Option Str) :
    readOption Json.asStr (some (optionJson .str s)) = some s :=
  readOption_optionJson fun _ _ => ⟨rfl, fun h => nomatch h⟩

theorem Liveness.ofJson_name (l : Liveness) : Liveness.ofJson (.str l.name) = some l := by
  cases l <;> decide +kernel

/-! The value is read with its members in order. -/

theorem sorted_optionJson {a : Option α} (h : ∀ b ∈ a, (write b).sorted = write b) :
    (optionJson write a).sorted = optionJson write a := by
  cases a with
  | none => rfl
  | some b => exact h b rfl

theorem sorted_strings (s : List Str) : (Json.arr (s.map .str)).sorted = .arr (s.map .str) := by
  rw [Json.sorted_arr, List.map_map]
  rfl

theorem member_sorted_obj {ms : List (Str × Json)} {m : Str × Json} (h : (ms.map Prod.fst).Nodup)
    (hm : m ∈ ms) : (Json.obj ms).sorted.member m.1 = some m.2.sorted := by
  have hnodup : ((ms.map fun m => (m.1, m.2.sorted)).map Prod.fst).Nodup := by rwa [List.map_map]
  rw [Json.sorted_obj, Json.member, Json.lastOf_perm (Json.perm_sorted ms) hnodup, Json.lastOf_map,
    Json.lastOf_of_mem h hm]
  rfl

theorem Shape.ofJson_sorted (s : Shape) : Shape.ofJson s.toJson.sorted = some s := by
  cases s with
  | drift added removed =>
    have hnodup : (["kind".toList, "added".toList, "removed".toList] : List Str).Nodup := by decide +kernel
    have hmember (i : Nat) {m : Str × Json} (h : (drift added removed).toJson.members[i]? = some m) :
        (drift added removed).toJson.sorted.member m.1 = some m.2.sorted :=
      member_sorted_obj hnodup (List.mem_of_getElem? h)
    have hkind := hmember 0 rfl
    have hadded := hmember 1 rfl
    have hremoved := hmember 2 rfl
    dsimp only at hkind hadded hremoved
    rw [sorted_strings] at hadded hremoved
    rw [ofJson]
    simp only [Option.bind_eq_bind, hkind, hadded, hremoved, Option.bind_some, readStrings]
    rfl
  | _ => rfl

theorem EndpointRecord.ofJson_eq_some {v : Json} {e : EndpointRecord}
    (hpath : (v.member "path").bind Json.asStr = some e.path)
    (hfile : readOption Json.asStr (v.member "file") = some e.file)
    (hstatus : readOption (readUnsigned 16) (v.member "status") = some e.status)
    (hms : (v.member "latency_ms").bind (readUnsigned 64) = some e.latencyMs)
    (htype : readOption Json.asStr (v.member "content_type") = some e.contentType)
    (hliveness : (v.member "liveness").bind Liveness.ofJson = some e.liveness)
    (hshape : (v.member "shape").bind Shape.ofJson = some e.shape) :
    EndpointRecord.ofJson v = some e := by
  obtain ⟨path, hp, hpath⟩ := Option.bind_eq_some_iff.mp hpath
  obtain ⟨ms, hm, hms⟩ := Option.bind_eq_some_iff.mp hms
  obtain ⟨liveness, hl, hliveness⟩ := Option.bind_eq_some_iff.mp hliveness
  obtain ⟨shape, hs, hshape⟩ := Option.bind_eq_some_iff.mp hshape
  simp only [ofJson, Option.bind_eq_bind, Option.bind_some, hp, hpath, hfile, hstatus, hm, hms, htype,
    hl, hliveness, hs, hshape]

theorem Manifest.ofJson_eq_some {v : Json} {m : Manifest}
    (htime : (v.member "captured_unix").bind (readUnsigned 64) = some m.capturedUnix)
    (hupstream : (v.member "upstream").bind Json.asStr = some m.upstream)
    (hendpoints : (v.member "endpoints").bind (readList EndpointRecord.ofJson) = some m.endpoints) :
    Manifest.ofJson v = some m := by
  obtain ⟨time, ht, htime⟩ := Option.bind_eq_some_iff.mp htime
  obtain ⟨upstream, hu, hupstream⟩ := Option.bind_eq_some_iff.mp hupstream
  obtain ⟨endpoints, he, hendpoints⟩ := Option.bind_eq_some_iff.mp hendpoints
  simp only [ofJson, Option.bind_eq_bind, Option.bind_some, ht, htime, hu, hupstream, he, hendpoints]

theorem EndpointRecord.member_sorted (e : EndpointRecord) (i : Nat) {m : Str × Json}
    (h : e.toJson.members[i]? = some m) : e.toJson.sorted.member m.1 = some m.2.sorted := by
  refine member_sorted_obj ?_ (List.mem_of_getElem? h)
  show (["path".toList, "file".toList, "status".toList, "latency_ms".toList, "content_type".toList,
    "liveness".toList, "shape".toList] : List Str).Nodup
  decide +kernel

theorem Manifest.member_sorted (m : Manifest) (i : Nat) {f : Str × Json}
    (h : m.toJson.members[i]? = some f) : m.toJson.sorted.member f.1 = some f.2.sorted := by
  refine member_sorted_obj ?_ (List.mem_of_getElem? h)
  show (["captured_unix".toList, "upstream".toList, "endpoints".toList] : List Str).Nodup
  decide +kernel

theorem EndpointRecord.ofJson_sorted {e : EndpointRecord} (h : e.Fits) :
    EndpointRecord.ofJson e.toJson.sorted = some e := by
  have hpath : e.toJson.sorted.member "path" = some (.str e.path) := e.member_sorted 0 rfl
  have hfile := e.member_sorted 1 rfl
  have hstatus := e.member_sorted 2 rfl
  have hms : e.toJson.sorted.member "latency_ms" = some (.num (e.latencyMs : ℚ)) := e.member_sorted 3 rfl
  have htype := e.member_sorted 4 rfl
  have hliveness : e.toJson.sorted.member "liveness" = some (.str e.liveness.name) := e.member_sorted 5 rfl
  have hshape := e.member_sorted 6 rfl
  dsimp only at hfile hstatus htype hshape
  rw [sorted_optionJson fun _ _ => rfl] at hfile hstatus htype
  refine ofJson_eq_some ?_ ?_ ?_ ?_ ?_ ?_ ?_
  · rw [hpath]; rfl
  · rw [hfile, readStr_option]
  · rw [hstatus]
    exact readOption_optionJson fun code hc =>
      ⟨readUnsigned_natCast (h.1 code hc), fun h => nomatch h⟩
  · rw [hms, Option.bind_some, readUnsigned_natCast h.2]
  · rw [htype, readStr_option]
  · rw [hliveness]
    exact Liveness.ofJson_name e.liveness
  · rw [hshape]
    exact Shape.ofJson_sorted e.shape

/-- A manifest is read back from its value. -/
theorem Manifest.ofJson_sorted {m : Manifest} (h : m.Fits) : Manifest.ofJson m.toJson.sorted = some m := by
  have htime : m.toJson.sorted.member "captured_unix" = some (.num (m.capturedUnix : ℚ)) :=
    m.member_sorted 0 rfl
  have hupstream : m.toJson.sorted.member "upstream" = some (.str m.upstream) := m.member_sorted 1 rfl
  have hendpoints := m.member_sorted 2 rfl
  dsimp only at hendpoints
  rw [Json.sorted_arr, List.map_map] at hendpoints
  refine ofJson_eq_some ?_ ?_ ?_
  · rw [htime, Option.bind_some, readUnsigned_natCast h.1]
  · rw [hupstream]; rfl
  · rw [hendpoints]
    exact readList_map fun e he => EndpointRecord.ofJson_sorted (h.2 e he)

/-! ## Looking an answer up -/

/-- The files of a directory. -/
abbrev Dir := Str → Option (List UInt8)

/-- `fs::read_to_string` -/
def Dir.readToString (dir : Dir) (file : Str) : Option Str := (dir file).bind fromUtf8

/-- The recorded status, content type and body for `path`. -/
def replayFile (read : Str → Option Json) (dir : Dir) (path : Str) : Option (Nat × Str × List UInt8) := do
  let text ← dir.readToString "manifest.json"
  let m ← Manifest.ofJson (← read text)
  let e ← m.endpoints.find? fun e => e.path = path
  let file ← e.file
  let bytes ← dir file
  let ct : Str := e.contentType.getD
    (if (".txt" : Str).isSuffixOf file then "text/plain" else "application/json")
  some (e.status.getD 200, ct, bytes)

end Saltnitor.FakeLlama
