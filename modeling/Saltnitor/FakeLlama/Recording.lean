import Mathlib.Data.Char
import Mathlib.Data.Finset.Sort
import Mathlib.Data.List.Lex
import Saltnitor.FakeLlama.Capture
import Saltnitor.FakeLlama.Engine
import Saltnitor.Rust.JsonPrint

/-!
# What a capture leaves

`capture` asks a server for its endpoints, saves the answers to a directory and describes them in
its manifest. `Leaves` says what a capture that succeeds leaves behind (`capture_ok`): the manifest
is read back as it was written (`read_manifest`), each saved answer as the masked value
(`read_savedText`).
-/

namespace Saltnitor.FakeLlama

open Rust Http

/-! ## The serializer -/

/-- `serde_json` on values: what it prints it reads again, with the members of an object in the order
of their names, and but for the last digits of a number with a fraction. -/
structure Serde where
  read : Str → Option Json
  pretty : Json → Str
  /-- What a number is after it has been printed and read. -/
  number : ℚ → ℚ
  distinct_read : ∀ {s v}, read s = some v → v.Distinct
  inOrder_read : ∀ {s v}, read s = some v → v.InOrder
  depth_read : ∀ {s v}, read s = some v → v.depth < 128
  read_pretty : ∀ {v}, v.Distinct → v.depth < 128 →
    read (pretty v ++ ['\n']) = some (v.mapNum number).sorted
  number_natCast : ∀ n : Nat, n < 2 ^ 64 → number n = n

/-! ## Files -/

def Fs.set (fs : Fs) (dir file : Str) (body : List UInt8) : Fs :=
  fun d f => if d = dir ∧ f = file then some body else fs d f

/-- How a write fails, and how many bytes it has written then if it has opened the file. -/
abbrev WriteFault := Str × Option Nat

/-- `fs::write` -/
def Fs.write (fs : Fs) (dir file : Str) (body : List UInt8) : Option WriteFault → Fs × Except Str Unit
  | none => (fs.set dir file body, .ok ())
  | some (e, none) => (fs, .error e)
  | some (e, some n) => (fs.set dir file (body.take n), .error e)

/-! ## `capture` -/

def endpoints : List (Str × Str) :=
  [("/health", "health.json"), ("/models", "models.json"), ("/v1/models", "v1_models.json"),
    ("/props", "props.json"), ("/slots", "slots.json"), ("/metrics", "metrics.txt")]

/-- Directories are known by their resolved paths. -/
structure CaptureOptions where
  upstream : Str
  out : Str
  baseline : Option Str := none
  bearer : Option Str := none
  slowMs : Nat := 2000

/-- The three digits of a status line. -/
abbrev ThreeDigits := {code : Nat // 100 ≤ code ∧ code < 1000}

/-- What becomes of a request. -/
inductive Fetched where
  | failed (ms : Nat)
  | answered (status : ThreeDigits) (headers : HeaderMap) (body : Except Str (List UInt8)) (ms : Nat)

/-- What a capture meets. -/
structure Meets where
  createFault : Option Str := none
  clientFault : Option Str := none
  fetch : Outgoing → Fetched
  /-- How long it takes to refuse a bearer that is no header value. -/
  refusedMs : Nat := 0
  writeFault : Str → Option WriteFault := fun _ => none
  unixTime : UInt64 := 0

section Capture

variable (S : Serde) (opts : CaptureOptions) (env : Meets)

/-- `none` when the bearer is no header value. -/
def captureRequest (path : Str) : Option Outgoing :=
  let headers : Option HeaderMap :=
    match opts.bearer with
    | none => some []
    | some t => (HeaderValue.fromStr (("Bearer " : Str) ++ t)).map (HeaderMap.append [] .authorization)
  headers.map fun headers =>
    { method := .get, url := opts.upstream.rdropWhile (· == '/') ++ path, headers, body := [] }

def fetched (path : Str) : Fetched :=
  match captureRequest opts path with
  | none => .failed env.refusedMs
  | some r => env.fetch r

/-- The text that is saved of a body. -/
def savedText (body : List UInt8) : Str :=
  match saved S.read body with
  | .value v => S.pretty v ++ ['\n']
  | .text t => t

/-- `BTreeSet::difference`, in the order of the set. -/
def difference (now before : Finset Str) : List Str := (now \ before).sort (· ≤ ·)

/-- The shape of a value beside the one before it. -/
def shapeOf (cur prev : Option Json) : Shape :=
  match cur, prev with
  | none, _ => .notJson
  | some _, none => .noBaseline
  | some cur, some prev =>
    let added := difference (keyPaths cur) (keyPaths prev)
    let removed := difference (keyPaths prev) (keyPaths cur)
    if added.isEmpty && removed.isEmpty then .ok else .drift added removed

def shapeVsBaseline (fs : Fs) (text : Str) (baseline : Option Str) (file : Str) : Shape :=
  shapeOf (S.read text) (baseline.bind fun dir => ((fs dir).readToString file).bind S.read)

def captureEndpoint (fs : Fs) (path file : Str) : Fs × Except Str EndpointRecord :=
  match fetched opts env path with
  | .failed ms =>
    (fs, .ok { path, file := none, status := none, latencyMs := ms % 2 ^ 64, contentType := none,
               liveness := .down, shape := .notJson })
  | .answered status headers body ms =>
    let contentType := (headers.get .contentType).bind HeaderValue.toStr
    let latencyMs := ms % 2 ^ 64
    match body with
    | .error e => (fs, .error (path ++ (": " : Str) ++ e))
    | .ok body =>
      if status.val = 404 then
        (fs, .ok { path, file := none, status := some 404, latencyMs, contentType, liveness := .absent,
                   shape := .notJson })
      else
        let text := savedText S body
        match fs.write opts.out file (bytes text) (env.writeFault file) with
        | (fs, .error e) => (fs, .error (("write " : Str) ++ file ++ (": " : Str) ++ e))
        | (fs, .ok ()) =>
          let liveness : Liveness :=
            if 200 ≤ status.val ∧ status.val < 300 ∧ latencyMs ≤ opts.slowMs then .live else .degraded
          (fs, .ok { path, file := some file, status := some status.val, latencyMs, contentType, liveness,
                     shape := shapeVsBaseline S fs text opts.baseline file })

def captureAll : List (Str × Str) → Fs → Fs × Except Str (List EndpointRecord)
  | [], fs => (fs, .ok [])
  | (path, file) :: rest, fs =>
    match captureEndpoint S opts env fs path file with
    | (fs, .error e) => (fs, .error e)
    | (fs, .ok rec) =>
      match captureAll rest fs with
      | (fs, .error e) => (fs, .error e)
      | (fs, .ok recs) => (fs, .ok (rec :: recs))

def capture (fs : Fs) : Fs × Except Str Manifest :=
  match env.createFault with
  | some e => (fs, .error (("create " : Str) ++ opts.out ++ (": " : Str) ++ e))
  | none =>
    match env.clientFault with
    | some e => (fs, .error e)
    | none =>
      match captureAll S opts env endpoints fs with
      | (fs, .error e) => (fs, .error e)
      | (fs, .ok endpoints) =>
        let m : Manifest := { capturedUnix := env.unixTime.toNat, upstream := opts.upstream, endpoints }
        match fs.write opts.out "manifest.json" (bytes (S.pretty m.toJson ++ ['\n']))
            (env.writeFault "manifest.json") with
        | (fs, .error e) => (fs, .error (("write manifest: " : Str) ++ e))
        | (fs, .ok ()) => (fs, .ok m)

end Capture

/-! ## What is saved can be read -/

section Values

variable {x y : Json} {ms : List (Str × Json)} {xs : List Json} {mask : Bool}

theorem depth_redactItem (mask : Bool) (h : (redact x).depth = x.depth) :
    (redactItem mask x).depth = x.depth := by
  cases x with
  | str s => rfl
  | _ => exact h

theorem depth_redactMember (m : Str × Json) (h : (redact m.2).depth = m.2.depth) :
    (redactMember m).2.depth = m.2.depth := by
  rcases relates_redactMember m with ⟨s, t, hs, ht⟩ | ⟨-, hr⟩
  · rw [hs, ht]
    rfl
  · rw [hr, h]

theorem map_depth_redactItems (h : ∀ x ∈ xs, (redact x).depth = x.depth) :
    (redactItems mask xs).map Json.depth = xs.map Json.depth := by
  induction xs generalizing mask with
  | nil => rfl
  | cons x xs ih =>
    obtain ⟨hx, hxs⟩ := List.forall_mem_cons.mp h
    rw [redactItems_cons, List.map_cons, List.map_cons, ih hxs, depth_redactItem mask hx]

theorem depth_redact (v : Json) : (redact v).depth = v.depth := by
  induction v using Json.induct with
  | arr xs ih => rw [redact, Json.depth_arr, Json.depth_arr, map_depth_redactItems ih]
  | obj ms ih =>
    rw [redact, Json.depth_obj, Json.depth_obj, redactMembers_eq, List.map_map, List.map_map, List.map_map]
    exact congrArg (List.foldr max 0 · + 1) (List.map_congr_left fun m hm => depth_redactMember m (ih m hm))
  | _ => rfl

theorem everyObject_redact {P : List Str → Prop} {v : Json} (h : v.EveryObject P) :
    (redact v).EveryObject P := by
  intro place ms hsub
  obtain ⟨x, hx, hr⟩ := exists_of_sub_redact hsub
  have hkind : Json.kind (.obj ms) = x.kind := hr.kind
  cases x with
  | obj ms₀ =>
    have hkeys : ms.map Prod.fst = ms₀.map Prod.fst := by simpa [Json.kind] using hkind
    rw [hkeys]
    exact h place ms₀ hx
  | _ => cases hkind

theorem walk_mapNum (f : ℚ → ℚ) (v : Json) (path : Str) : walk (v.mapNum f) path = walk v path := by
  induction v using Json.induct generalizing path with
  | arr xs ih =>
    rw [Json.mapNum_arr, walk, walk]
    congr 1
    generalize path ++ ['[', ']'] = path
    induction xs with
    | nil => rfl
    | cons x xs ih' =>
      obtain ⟨hx, hxs⟩ := List.forall_mem_cons.mp ih
      rw [List.map_cons, walkItems, walkItems, hx, ih' hxs]
  | obj ms ih =>
    rw [Json.mapNum_obj, walk, walk]
    congr 1
    induction ms with
    | nil => rfl
    | cons m ms ih' =>
      obtain ⟨hm, hms⟩ := List.forall_mem_cons.mp ih
      obtain ⟨key, x⟩ := m
      rw [List.map_cons, walkMembers, walkMembers, walkMember, walkMember, hm, ih' hms]
  | _ => rfl

theorem keyPaths_mapNum (f : ℚ → ℚ) (v : Json) : keyPaths (v.mapNum f) = keyPaths v :=
  congrArg List.toFinset (walk_mapNum f v [])

end Values

variable {S : Serde} {opts : CaptureOptions} {env : Meets} {fs fs' : Fs} {path file : Str}

/-- A saved value is read back masked, a saved text is none. -/
theorem read_savedText (S : Serde) (body : List UInt8) : S.read (savedText S body) =
    (S.read (sanitizeHome (fromUtf8Lossy body))).map fun v => (redact v).mapNum S.number := by
  rw [savedText, saved]
  cases h : S.read (sanitizeHome (fromUtf8Lossy body)) with
  | none => exact h
  | some v =>
    have horder : ((redact v).mapNum S.number).InOrder :=
      Json.everyObject_mapNum _ (everyObject_redact (S.inOrder_read h))
    rw [Option.map_some, ← Json.sorted_eq_self horder]
    exact S.read_pretty (everyObject_redact (S.distinct_read h)) (by rw [depth_redact]; exact S.depth_read h)

/-- The shapes of what is saved are the shapes of what was answered. -/
theorem shapeOf_savedText (body body' : List UInt8) :
    shapeOf (S.read (savedText S body)) (S.read (savedText S body')) =
      shapeOf (S.read (sanitizeHome (fromUtf8Lossy body))) (S.read (sanitizeHome (fromUtf8Lossy body'))) := by
  have hpaths (v : Json) : keyPaths ((redact v).mapNum S.number) = keyPaths v :=
    (keyPaths_mapNum _ _).trans (congrArg List.toFinset (walk_redact v []))
  rw [read_savedText, read_savedText]
  cases S.read (sanitizeHome (fromUtf8Lossy body)) with
  | none => rfl
  | some cur =>
    cases S.read (sanitizeHome (fromUtf8Lossy body')) with
    | none => rfl
    | some prev => rw [Option.map_some, Option.map_some, shapeOf, shapeOf, hpaths, hpaths]

/-! The manifest is within the limits of the reader. -/

/-- A value that a reader takes back, its members in order: no name is there twice, it nests no deeper
than `n`, and printing does not change its numbers. -/
structure ReadsBack (S : Serde) (n : Nat) (v : Json) : Prop where
  distinct : v.Distinct
  depth : v.depth ≤ n
  number : v.mapNum S.number = v

theorem readsBack_leaf {n : Nat} {v : Json} (h : ∀ i, v.child i = none) (hobj : ∀ ms, v ≠ .obj ms)
    (hdepth : v.depth = 0) (hnum : v.mapNum S.number = v) : ReadsBack S n v :=
  ⟨Json.distinct_leaf h hobj, hdepth ▸ Nat.zero_le n, hnum⟩

theorem readsBack_str (n : Nat) (s : Str) : ReadsBack S n (.str s) :=
  readsBack_leaf (fun _ => rfl) nofun rfl rfl

theorem readsBack_null (n : Nat) : ReadsBack S n .null := readsBack_leaf (fun _ => rfl) nofun rfl rfl

theorem readsBack_nat (n : Nat) {k : Nat} (hk : k < 2 ^ 64) : ReadsBack S n (.num (k : ℚ)) :=
  readsBack_leaf (fun _ => rfl) nofun rfl (congrArg Json.num (S.number_natCast k hk))

theorem readsBack_option (n : Nat) {α : Type} {write : α → Json} {a : Option α}
    (h : ∀ b ∈ a, ReadsBack S n (write b)) : ReadsBack S n (optionJson write a) := by
  cases a with
  | none => exact readsBack_null n
  | some b => exact h b rfl

theorem readsBack_arr {n : Nat} {xs : List Json} (h : ∀ x ∈ xs, ReadsBack S n x) :
    ReadsBack S (n + 1) (.arr xs) where
  distinct := Json.distinct_arr.mpr fun x hx => (h x hx).distinct
  depth := by
    rw [Json.depth_arr]
    exact Nat.succ_le_succ (Json.foldr_max_le.mpr (List.forall_mem_map.mpr fun x hx => (h x hx).depth))
  number := by
    rw [Json.mapNum_arr, List.map_congr_left fun x hx => (h x hx).number, List.map_id']

theorem readsBack_obj {n : Nat} {ms : List (Str × Json)} (hnodup : (ms.map Prod.fst).Nodup)
    (h : ∀ m ∈ ms, ReadsBack S n m.2) : ReadsBack S (n + 1) (.obj ms) where
  distinct := Json.distinct_obj.mpr ⟨hnodup, fun m hm => (h m hm).distinct⟩
  depth := by
    rw [Json.depth_obj, List.map_map]
    exact Nat.succ_le_succ (Json.foldr_max_le.mpr (List.forall_mem_map.mpr fun m hm => (h m hm).depth))
  number := by
    have hms (m) (hm : m ∈ ms) : (m.1, m.2.mapNum S.number) = m := by rw [(h m hm).number]
    rw [Json.mapNum_obj, List.map_congr_left hms, List.map_id']

theorem readsBack_shape (s : Shape) : ReadsBack S 2 s.toJson := by
  have hstrs (ss : List Str) : ReadsBack S 1 (.arr (ss.map .str)) :=
    readsBack_arr (List.forall_mem_map.mpr fun s _ => readsBack_str 0 s)
  have hkind (kind : Str) : ReadsBack S 2 (.obj [("kind", .str kind)]) :=
    readsBack_obj (List.nodup_singleton _) (List.forall_mem_singleton.mpr (readsBack_str 1 kind))
  cases s with
  | drift added removed =>
    refine readsBack_obj ?_ ?_
    · show (["kind".toList, "added".toList, "removed".toList] : List Str).Nodup
      decide +kernel
    · simp only [List.forall_mem_cons]
      exact ⟨readsBack_str 1 _, hstrs added, hstrs removed, List.forall_mem_nil _⟩
  | _ => exact hkind _

theorem readsBack_endpoint {e : EndpointRecord} (h : e.Fits) : ReadsBack S 3 e.toJson := by
  refine readsBack_obj ?_ ?_
  · show (["path".toList, "file".toList, "status".toList, "latency_ms".toList, "content_type".toList,
      "liveness".toList, "shape".toList] : List Str).Nodup
    decide +kernel
  · simp only [List.forall_mem_cons]
    exact ⟨readsBack_str 2 _, readsBack_option 2 fun s _ => readsBack_str 2 s,
      readsBack_option 2 fun code hc => readsBack_nat 2 ((h.1 code hc).trans (by decide)),
      readsBack_nat 2 h.2, readsBack_option 2 fun s _ => readsBack_str 2 s, readsBack_str 2 _,
      readsBack_shape e.shape, List.forall_mem_nil _⟩

theorem readsBack_manifest {m : Manifest} (h : m.Fits) : ReadsBack S 5 m.toJson := by
  refine readsBack_obj ?_ ?_
  · show (["captured_unix".toList, "upstream".toList, "endpoints".toList] : List Str).Nodup
    decide +kernel
  · simp only [List.forall_mem_cons]
    exact ⟨readsBack_nat 4 h.1, readsBack_str 4 _,
      readsBack_arr (List.forall_mem_map.mpr fun e he => readsBack_endpoint (h.2 e he)), List.forall_mem_nil _⟩

/-- The manifest that is written is the one that is read. -/
theorem read_manifest {m : Manifest} (h : m.Fits) :
    (S.read (S.pretty m.toJson ++ ['\n'])).bind Manifest.ofJson = some m := by
  have hback := readsBack_manifest (S := S) h
  rw [S.read_pretty hback.distinct (hback.depth.trans_lt (by decide)), hback.number, Option.bind_some,
    Manifest.ofJson_sorted h]

/-! ## What a capture leaves -/

/-- The answer of an endpoint. -/
structure Kept where
  status : ThreeDigits
  contentType : Option Str
  body : List UInt8
  deriving DecidableEq

/-- The answer that is kept of an endpoint; that there is none is kept too. -/
def kept (opts : CaptureOptions) (env : Meets) (path : Str) : Option Kept :=
  match fetched opts env path with
  | .answered status headers (.ok body) _ =>
    if status.val = 404 then none
    else some ⟨status, (headers.get .contentType).bind HeaderValue.toStr, body⟩
  | _ => none

/-- The record and the file of an endpoint. -/
structure Recorded (S : Serde) (opts : CaptureOptions) (env : Meets) (fs : Fs) (endpoint : Str × Str)
    (e : EndpointRecord) : Prop where
  path : e.path = endpoint.1
  fits : e.Fits
  absent : kept opts env endpoint.1 = none → e.file = none
  present : ∀ k, kept opts env endpoint.1 = some k → e.file = some endpoint.2 ∧
    e.status = some k.status.val ∧ e.contentType = k.contentType ∧
    fs opts.out endpoint.2 = some (bytes (savedText S k.body)) ∧
    e.shape = shapeVsBaseline S fs (savedText S k.body) opts.baseline endpoint.2

theorem Fs.set_self (fs : Fs) (dir file : Str) (body : List UInt8) :
    fs.set dir file body dir file = some body :=
  if_pos ⟨rfl, rfl⟩

theorem Fs.set_file (fs : Fs) (dir : Str) {file g : Str} (body : List UInt8) (d : Str) (h : g ≠ file) :
    fs.set dir file body d g = fs d g := if_neg fun hand => h hand.2

theorem Fs.set_dir (fs : Fs) {dir d : Str} (file : Str) (body : List UInt8) (g : Str) (h : d ≠ dir) :
    fs.set dir file body d g = fs d g := if_neg fun hand => h hand.1

theorem Fs.write_ok {dir : Str} {body : List UInt8} {fault : Option WriteFault}
    (h : fs.write dir file body fault = (fs', .ok ())) : fs' = fs.set dir file body := by
  cases fault with
  | none => exact (Prod.mk.inj h).1.symm
  | some e =>
    obtain ⟨e, _ | n⟩ := e
    · cases h
    · cases h

theorem shapeVsBaseline_congr {text : Str} {baseline : Option Str} (h : ∀ d, fs' d file = fs d file) :
    shapeVsBaseline S fs' text baseline file = shapeVsBaseline S fs text baseline file := by
  rw [shapeVsBaseline, shapeVsBaseline]
  refine congrArg _ (congrArg _ (funext fun dir => ?_))
  rw [Dir.readToString, Dir.readToString, h]

theorem Recorded.mono {e : EndpointRecord} (h : Recorded S opts env fs (path, file) e)
    (hfile : ∀ d, fs' d file = fs d file) : Recorded S opts env fs' (path, file) e where
  path := h.path
  fits := h.fits
  absent := h.absent
  present k hk := by
    obtain ⟨hf, hs, hc, hsaved, hshape⟩ := h.present k hk
    exact ⟨hf, hs, hc, (hfile _).trans hsaved, hshape.trans (shapeVsBaseline_congr hfile).symm⟩

/-- One endpoint: its record, and no file but its own. -/
theorem captureEndpoint_ok {e : EndpointRecord} (h : captureEndpoint S opts env fs path file = (fs', .ok e)) :
    Recorded S opts env fs' (path, file) e ∧
      ∀ d g, d ≠ opts.out ∨ g ≠ file → fs' d g = fs d g := by
  have hms (ms : Nat) : ms % 2 ^ 64 < 2 ^ 64 := Nat.mod_lt _ (by decide)
  unfold captureEndpoint at h
  cases hf : fetched opts env path with
  | failed ms =>
    have hk : kept opts env path = none := by rw [kept, hf]
    rw [hf] at h
    cases h
    exact ⟨⟨rfl, ⟨fun _ hc => (nomatch hc), hms ms⟩, fun _ => rfl, fun k hk' => (nomatch hk.symm.trans hk')⟩,
      fun _ _ _ => rfl⟩
  | answered status headers body ms =>
    rw [hf] at h
    cases body with
    | error e => cases h
    | ok body =>
      dsimp only at h
      by_cases h404 : status.val = 404
      · have hk : kept opts env path = none := by
          rw [kept, hf]
          exact if_pos h404
        rw [if_pos h404] at h
        cases h
        refine ⟨⟨rfl, ⟨?_, hms ms⟩, fun _ => rfl, fun k hk' => (nomatch hk.symm.trans hk')⟩, fun _ _ _ => rfl⟩
        rintro _ ⟨⟩
        decide
      · have hk : kept opts env path =
            some ⟨status, (headers.get .contentType).bind HeaderValue.toStr, body⟩ := by
          rw [kept, hf]
          exact if_neg h404
        rw [if_neg h404] at h
        split at h
        · cases h
        · rename_i fs₁ hw
          obtain rfl := Fs.write_ok hw
          cases h
          refine ⟨⟨rfl, ⟨?_, hms ms⟩, fun hno => (nomatch hk.symm.trans hno), fun k hk' => ?_⟩,
            fun d g hne => ?_⟩
          · rintro _ ⟨⟩
            have := status.property.2
            omega
          · obtain rfl := Option.some.inj (hk.symm.trans hk')
            exact ⟨rfl, rfl, rfl, Fs.set_self .., rfl⟩
          · rcases hne with hne | hne
            · exact Fs.set_dir _ _ _ _ hne
            · exact Fs.set_file _ _ _ _ hne

theorem captureAll_ok {endpoints : List (Str × Str)} (hnodup : (endpoints.map Prod.snd).Nodup)
    {es : List EndpointRecord} (h : captureAll S opts env endpoints fs = (fs', .ok es)) :
    List.Forall₂ (Recorded S opts env fs') endpoints es ∧
      ∀ d g, d ≠ opts.out ∨ g ∉ endpoints.map Prod.snd → fs' d g = fs d g := by
  induction endpoints generalizing fs es with
  | nil =>
    cases h
    exact ⟨.nil, fun _ _ _ => rfl⟩
  | cons endpoint rest ih =>
    obtain ⟨path, file⟩ := endpoint
    obtain ⟨hfile, hrest⟩ := List.nodup_cons.mp hnodup
    rw [captureAll] at h
    split at h
    · cases h
    · rename_i fs₁ e he
      split at h
      · cases h
      · rename_i fs₂ es₂ hes
        cases h
        obtain ⟨hrec, hother⟩ := captureEndpoint_ok he
        obtain ⟨hall, hothers⟩ := ih hrest hes
        refine ⟨.cons (hrec.mono fun d => hothers d file (.inr hfile)) hall, fun d g hg => ?_⟩
        rw [List.map_cons, List.mem_cons, not_or] at hg
        rw [hothers d g (hg.imp_right And.right), hother d g (hg.imp_right And.left)]

theorem nodup_endpoints : (endpoints.map Prod.fst).Nodup ∧ (endpoints.map Prod.snd).Nodup ∧
    ("manifest.json" : Str) ∉ endpoints.map Prod.snd := by
  decide +kernel

/-- What a capture leaves behind. -/
structure Leaves (S : Serde) (opts : CaptureOptions) (env : Meets) (fs fs' : Fs) (m : Manifest) : Prop where
  records : List.Forall₂ (Recorded S opts env fs') endpoints m.endpoints
  fits : m.Fits
  manifest : fs' opts.out "manifest.json" = some (bytes (S.pretty m.toJson ++ ['\n']))
  other : ∀ d g, d ≠ opts.out → fs' d g = fs d g

theorem forall_of_forall₂ {α β : Type} {R : α → β → Prop} {P : β → Prop} {as : List α} {bs : List β}
    (h : List.Forall₂ R as bs) (hP : ∀ a b, R a b → P b) : ∀ b ∈ bs, P b := by
  induction h with
  | nil => exact List.forall_mem_nil _
  | cons hab _ ih => exact List.forall_mem_cons.mpr ⟨hP _ _ hab, ih⟩

theorem capture_ok {m : Manifest} (h : capture S opts env fs = (fs', .ok m)) : Leaves S opts env fs fs' m := by
  rw [capture] at h
  split at h
  · cases h
  split at h
  · cases h
  split at h
  · cases h
  rename_i fs₁ es hall
  dsimp only at h
  split at h
  · cases h
  rename_i fs₂ hw
  obtain rfl := Fs.write_ok hw
  cases h
  obtain ⟨-, hfiles, hmanifest⟩ := nodup_endpoints
  obtain ⟨hrecords, hother⟩ := captureAll_ok hfiles hall
  constructor
  case records =>
    have hne (endpoint) (he : endpoint ∈ endpoints) : endpoint.2 ≠ "manifest.json".toList :=
      fun heq => hmanifest (heq ▸ List.mem_map_of_mem he)
    refine (List.forall₂_and_left _ _ |>.mpr ⟨hne, hrecords⟩).imp fun endpoint e hrec => ?_
    exact hrec.2.mono fun d => Fs.set_file _ _ _ _ hrec.1
  case fits =>
    exact ⟨env.unixTime.toNat_lt, forall_of_forall₂ hrecords fun _ _ hrec => hrec.fits⟩
  case manifest => exact Fs.set_self ..
  case other => exact fun d g hd => (Fs.set_dir _ _ _ _ hd).trans (hother d g (.inl hd))

end Saltnitor.FakeLlama
