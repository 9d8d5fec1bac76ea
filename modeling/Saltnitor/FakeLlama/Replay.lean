import Saltnitor.FakeLlama.Recording

/-!
# Captures replayed and compared

The stand-in that replays a capture answers as the server did, with the texts that were saved
(`replay_capture`). A later capture that takes it as its baseline reports what has become of the
key paths of the answers, whatever was masked in them (`shape_capture`).
-/

namespace Saltnitor.FakeLlama

open Rust Http

variable {S : Serde} {opts : CaptureOptions} {env : Meets} {fs fs' : Fs} {path file : Str}

/-! ## Replay -/

/-- What a file is served as that came without a type. -/
def defaultType (file : Str) : Str :=
  if (".txt" : Str).isSuffixOf file then "text/plain" else "application/json"

/-- The answer to `path` that a capture keeps, as it is replayed. -/
def keptReply (S : Serde) (opts : CaptureOptions) (env : Meets) (path : Str) : Option Reply :=
  (endpoints.find? fun endpoint => endpoint.1 = path).bind fun endpoint =>
    (kept opts env endpoint.1).map fun k =>
      .bytes k.status.val (k.contentType.getD (defaultType endpoint.2)) (bytes (savedText S k.body))

theorem isField_contentType {ct : Str} (h : ∃ v, HeaderValue.fromStr ct = some v) :
    isField ("content-type", ct) = true := by
  obtain ⟨v, hv⟩ := h
  rw [isField, hv, show (HeaderName.fromText "content-type").isSome = true by decide +kernel]
  rfl

/-- A type that was kept can be sent. -/
theorem isField_kept {endpoint : Str} {k : Kept} (h : kept opts env endpoint = some k) (file : Str) :
    isField ("content-type", k.contentType.getD (defaultType file)) = true := by
  refine isField_contentType ?_
  cases ht : k.contentType with
  | none =>
    refine HeaderValue.fromStr_of_visible ?_
    rw [Option.getD_none, defaultType]
    split
    · decide +kernel
    · decide +kernel
  | some ct =>
    unfold kept at h
    split at h
    · split at h
      · cases h
      · cases h
        obtain ⟨v, -, hv⟩ := Option.bind_eq_some_iff.mp ht
        exact HeaderValue.fromStr_of_toStr hv
    · cases h

theorem find_record {endpoints : List (Str × Str)} {es : List EndpointRecord}
    (h : List.Forall₂ (Recorded S opts env fs) endpoints es) (path : Str) :
    Option.Rel (Recorded S opts env fs) (endpoints.find? fun endpoint => endpoint.1 = path)
      (es.find? fun e => e.path = path) := by
  induction h with
  | nil => exact .none
  | @cons endpoint e endpoints es hrec _ ih =>
    by_cases hp : endpoint.1 = path
    · rw [List.find?_cons_of_pos (by simpa using hp), List.find?_cons_of_pos (by simpa [hrec.path] using hp)]
      exact .some hrec
    · rw [List.find?_cons_of_neg (by simpa using hp), List.find?_cons_of_neg (by simpa [hrec.path] using hp)]
      exact ih

theorem replay_leaves {m : Manifest} (h : Leaves S opts env fs fs' m) {st : Engine}
    (hdir : st.scenario.replayFrom = some opts.out) (path : Str) :
    st.replay S.read fs' path = keptReply S opts env path := by
  have htext : (fs' opts.out).readToString "manifest.json" = some (S.pretty m.toJson ++ ['\n']) := by
    rw [Dir.readToString, h.manifest, Option.bind_some, fromUtf8_bytes]
  have hfind := find_record h.records path
  obtain ⟨v, hv, hm⟩ := Option.bind_eq_some_iff.mp (read_manifest (S := S) h.fits)
  have hreplay : replayFile S.read (fs' opts.out) path =
      (m.endpoints.find? fun e => e.path = path).bind fun e => e.file.bind fun file =>
        (fs' opts.out file).bind fun body =>
          some (e.status.getD 200, e.contentType.getD (defaultType file), body) := by
    rw [replayFile]
    simp only [Option.bind_eq_bind, htext, hv, hm, Option.bind_some]
    rfl
  rw [Engine.replay, keptReply]
  simp only [Option.bind_eq_bind, hdir, Option.bind_some, hreplay]
  generalize endpoints.find? (fun endpoint => endpoint.1 = path) = endpoint,
    m.endpoints.find? (fun e => e.path = path) = e at hfind ⊢
  cases hfind with
  | none => rfl
  | @some endpoint e hrec =>
    rw [Option.bind_some, Option.bind_some]
    cases hk : kept opts env endpoint.1 with
    | none =>
      rw [hrec.absent hk]
      rfl
    | some k =>
      obtain ⟨hfile, hstatus, htype, hsaved, -⟩ := hrec.present k hk
      have hcode : statusOr 200 k.status.val = k.status.val := if_pos k.status.property
      rw [hfile, Option.bind_some, hsaved, hstatus, htype, Option.bind_some, Option.bind_some]
      show some (expectValid _ (.bytes (statusOr 200 k.status.val) _ _)) = _
      rw [hcode, expectValid, List.all_cons, isField_kept hk]
      rfl

/-- **A capture is replayed as it was kept**: the stand-in answers a captured path with the status,
the type and the saved text, of which a reader makes the masked value, and any other path itself. -/
theorem replay_capture {m : Manifest} (h : capture S opts env fs = (fs', .ok m)) {st : Engine}
    (hdir : st.scenario.replayFrom = some opts.out) {req : Request} (hget : req.method.asStr = "GET")
    (hfault : st.scenario.routes (routeKey req) = none) :
    (st.handle S.read fs' req).2 = (keptReply S opts env req.uri.path).getD
        ((st.record (requestRecord req)).route "GET" req.uri.path (bodyJson S.read req)).2 ∧
      ∀ k ∈ kept opts env req.uri.path, S.read (savedText S k.body) =
        (S.read (sanitizeHome (fromUtf8Lossy k.body))).map fun v => (redact v).mapNum S.number := by
  refine ⟨?_, fun k _ => read_savedText S k.body⟩
  have hreplay : (st.record (requestRecord req)).replay S.read fs' req.uri.path =
      keptReply S opts env req.uri.path := replay_leaves (capture_ok h) hdir req.uri.path
  have hnone : (st.record (requestRecord req)).scenario.routes (routeKey req) = none := hfault
  rw [Engine.handle, hnone, if_pos hget, hreplay, hget]
  cases keptReply S opts env req.uri.path <;> rfl

/-- A serializer that prints the numerator of a number, which is right for natural numbers. -/
def Serde.naturals : Serde where
  read := readText
  pretty := Rust.pretty fun n => toDec n.num.toNat
  number n := n.num.toNat
  distinct_read h := (readText_some h).1
  inOrder_read h := (readText_some h).2.1
  depth_read h := (readText_some h).2.2
  read_pretty {v} := readText_of_spells (spellsText_pretty (fun n => jsonNumber_toDec n.num.toNat) v)
  number_natCast n _ := by rw [Rat.num_natCast, Int.toNat_natCast]

/-- A server that answers one path, with a prompt. -/
def oneAnswer (url : Str) (body : Str) : Meets where
  fetch r :=
    if r.url = url then .answered ⟨200, by decide⟩ [(.contentType, .applicationJson)] (.ok (bytes body)) 3
    else .failed 0

theorem find_endpoint :
    ∀ endpoint ∈ endpoints, (endpoints.find? fun e => e.1 = endpoint.1) = some endpoint := by
  decide +kernel

theorem exists_ok {α : Type} {a : Fs × Except Str α} (h : a.2.toOption.isSome = true) :
    ∃ fs m, a = (fs, .ok m) := by
  obtain ⟨fs, e | m⟩ := a
  · cases h
  · exact ⟨fs, m, rfl⟩

/-- The prompt is masked, the path of a model has no home, and the rest is replayed. -/
theorem replay_capture_props :
    let body : Str := "\x7b\"prompt\":\"secret\",\"model\":\"/home/al/m\"\x7d"
    let text : Str := "\x7b\n  \"model\": \"$\x7bHOME\x7d/m\",\n  \"prompt\": \"<redacted>\"\n\x7d\n"
    let opts : CaptureOptions := { upstream := "http://h/", out := "/cap" }
    let env := oneAnswer "http://h/props" body
    ∃ fs m, capture Serde.naturals opts env (fun _ _ => none) = (fs, .ok m) ∧
      ((Engine.new { replayFrom := some "/cap" }).handle Serde.naturals.read fs
        { method := .get, uri := ⟨"/props", none⟩ }).2 = .bytes 200 "application/json" (bytes text) := by
  intro body text opts env
  obtain ⟨fs, m, hm⟩ : ∃ fs m, capture Serde.naturals opts env (fun _ _ => none) = (fs, .ok m) :=
    exists_ok (by decide +kernel)
  have hkept : kept opts env "/props" = some ⟨⟨200, by decide⟩, some "application/json", bytes body⟩ := by
    decide +kernel
  have hsaved : savedText Serde.naturals (bytes body) = text := by decide +kernel
  have hreply : keptReply Serde.naturals opts env "/props" =
      some (.bytes 200 "application/json" (bytes text)) := by
    rw [keptReply, find_endpoint ("/props", "props.json") (by decide +kernel), Option.bind_some, hkept,
      Option.map_some, hsaved]
    rfl
  refine ⟨fs, m, hm, (replay_capture hm rfl rfl rfl).1.trans ?_⟩
  show (keptReply Serde.naturals opts env "/props").getD _ = _
  rw [hreply]
  rfl

/-! ## Drift -/

/-- What a shape says of a value beside the one before it. -/
structure Compares (cur prev : Option Json) (shape : Shape) : Prop where
  notJson : shape = .notJson ↔ cur = none
  noBaseline : shape = .noBaseline ↔ cur.isSome = true ∧ prev = none
  ok : shape = .ok ↔ ∃ v w, cur = some v ∧ prev = some w ∧ keyPaths v = keyPaths w
  drift : ∀ added removed, shape = .drift added removed → ∃ v w, cur = some v ∧ prev = some w ∧
    (∀ p, p ∈ added ↔ p ∈ keyPaths v ∧ p ∉ keyPaths w) ∧ (∀ p, p ∈ removed ↔ p ∈ keyPaths w ∧ p ∉ keyPaths v) ∧
    added.Nodup ∧ removed.Nodup ∧ added.Pairwise (· ≤ ·) ∧ removed.Pairwise (· ≤ ·)

theorem mem_difference {now before : Finset Str} {p : Str} :
    p ∈ difference now before ↔ p ∈ now ∧ p ∉ before := by
  rw [difference, Finset.mem_sort, Finset.mem_sdiff]

theorem difference_isEmpty {now before : Finset Str} :
    (difference now before).isEmpty = true ↔ now ⊆ before := by
  rw [List.isEmpty_iff, List.eq_nil_iff_forall_not_mem]
  simp only [mem_difference, not_and, not_not]
  rfl

theorem compares_shapeOf (cur prev : Option Json) : Compares cur prev (shapeOf cur prev) := by
  cases cur with
  | none => constructor <;> simp [shapeOf]
  | some v =>
    cases prev with
    | none => constructor <;> simp [shapeOf]
    | some w =>
      have hsame : ((difference (keyPaths v) (keyPaths w)).isEmpty &&
          (difference (keyPaths w) (keyPaths v)).isEmpty) = true ↔ keyPaths v = keyPaths w := by
        rw [Bool.and_eq_true, difference_isEmpty, difference_isEmpty]
        exact Finset.Subset.antisymm_iff.symm
      rw [shapeOf]
      split_ifs with h
      · constructor <;> simp [hsame.mp h]
      · constructor
        case notJson => simp
        case noBaseline => simp
        case ok => simpa using mt hsame.mpr h
        case drift =>
          rintro _ _ ⟨⟩
          exact ⟨v, w, rfl, rfl, fun _ => mem_difference, fun _ => mem_difference, Finset.sort_nodup _ _,
            Finset.sort_nodup _ _, Finset.pairwise_sort _ _, Finset.pairwise_sort _ _⟩

/-- **A capture reports how the answers' key paths differ from those of its baseline**, whatever was
masked in either; beside its own directory it reports no difference at all. -/
theorem shape_capture {opts' : CaptureOptions} {env' : Meets} {fs'' : Fs} {m m' : Manifest}
    (h : capture S opts env fs = (fs', .ok m)) (h' : capture S opts' env' fs' = (fs'', .ok m'))
    (hbase : opts'.baseline = some opts.out) (hmem : (path, file) ∈ endpoints) {k k' : Kept}
    (hk : kept opts env path = some k) (hk' : kept opts' env' path = some k') :
    ∃ e, (m'.endpoints.find? fun e => e.path = path) = some e ∧
      (opts'.out ≠ opts.out → Compares (S.read (sanitizeHome (fromUtf8Lossy k'.body)))
        (S.read (sanitizeHome (fromUtf8Lossy k.body))) e.shape) ∧
      (opts'.out = opts.out → e.shape = .ok ∨ e.shape = .notJson) := by
  have hrecord {opts : CaptureOptions} {env : Meets} {fs fs' : Fs} {m : Manifest}
      (h : Leaves S opts env fs fs' m) : ∃ e, (m.endpoints.find? fun e => e.path = path) = some e ∧
        Recorded S opts env fs' (path, file) e := by
    have hfind := find_record h.records path
    rw [find_endpoint _ hmem] at hfind
    generalize m.endpoints.find? (fun e => e.path = path) = found at hfind
    cases hfind with
    | some hrec => exact ⟨_, rfl, hrec⟩
  obtain ⟨_, -, hfirst⟩ := hrecord (capture_ok h)
  obtain ⟨e, he, hrec⟩ := hrecord (capture_ok h')
  obtain ⟨-, -, -, hsaved, -⟩ := hfirst.present k hk
  obtain ⟨-, -, -, hsaved', hshape⟩ := hrec.present k' hk'
  refine ⟨e, he, fun hne => ?_, fun heq => ?_⟩
  · have hprev : fs'' opts.out file = some (bytes (savedText S k.body)) :=
      ((capture_ok h').other _ _ (Ne.symm hne)).trans hsaved
    have hread : (fs'' opts.out).readToString file = some (savedText S k.body) := by
      rw [Dir.readToString, hprev, Option.bind_some, fromUtf8_bytes]
    rw [hshape, shapeVsBaseline, hbase, Option.bind_some, hread, Option.bind_some, shapeOf_savedText]
    exact compares_shapeOf _ _
  · have hread : (fs'' opts.out).readToString file = some (savedText S k'.body) := by
      rw [Dir.readToString, ← heq, hsaved', Option.bind_some, fromUtf8_bytes]
    rw [hshape, shapeVsBaseline, hbase, Option.bind_some, hread, Option.bind_some]
    have hself := compares_shapeOf (S.read (savedText S k'.body)) (S.read (savedText S k'.body))
    cases hv : S.read (savedText S k'.body) with
    | none => exact .inr rfl
    | some v =>
      rw [hv] at hself
      exact .inl (hself.ok.mpr ⟨v, v, rfl, rfl, rfl⟩)

/-- The member `a` has become `b`. -/
theorem shape_capture_renamed :
    let opts : CaptureOptions := { upstream := "http://h", out := "/one" }
    let opts' : CaptureOptions := { upstream := "http://h", out := "/two", baseline := some "/one" }
    let env := oneAnswer "http://h/props" "\x7b\"a\":1\x7d"
    let env' := oneAnswer "http://h/props" "\x7b\"b\":1\x7d"
    ∃ fs fs' m m' e, capture Serde.naturals opts env (fun _ _ => none) = (fs, .ok m) ∧
      capture Serde.naturals opts' env' fs = (fs', .ok m') ∧
      (m'.endpoints.find? fun e => e.path = "/props".toList) = some e ∧
      Compares (Serde.naturals.read "\x7b\"b\":1\x7d") (Serde.naturals.read "\x7b\"a\":1\x7d") e.shape := by
  intro opts opts' env env'
  obtain ⟨fs, m, hm⟩ : ∃ fs m, capture Serde.naturals opts env (fun _ _ => none) = (fs, .ok m) :=
    exists_ok (by decide +kernel)
  obtain ⟨fs', m', hm'⟩ : ∃ fs' m', capture Serde.naturals opts' env' fs = (fs', .ok m') := by
    have hfs : fs = (capture Serde.naturals opts env fun _ _ => none).1 := by rw [hm]
    rw [hfs]
    exact exists_ok (by decide +kernel)
  have hk : kept opts env "/props" =
      some ⟨⟨200, by decide⟩, some "application/json", bytes "\x7b\"a\":1\x7d"⟩ := by
    decide +kernel
  have hk' : kept opts' env' "/props" =
      some ⟨⟨200, by decide⟩, some "application/json", bytes "\x7b\"b\":1\x7d"⟩ := by
    decide +kernel
  obtain ⟨e, he, hcompares, -⟩ := shape_capture hm hm' rfl
    (show (("/props".toList : Str), ("props.json".toList : Str)) ∈ endpoints by decide +kernel) hk hk'
  exact ⟨fs, fs', m, m', e, hm, hm', he, hcompares (by decide)⟩

end Saltnitor.FakeLlama
