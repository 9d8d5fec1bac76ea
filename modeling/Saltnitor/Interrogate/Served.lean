import Saltnitor.ControlApi.Credentials
import Saltnitor.Interrogate
import Saltnitor.Rust.JsonPrint

/-!
# The deck and its own daemon

`strike` posts to the daemon the TUI runs: here `send` is `serve`, with the text of the payload on
one side and the text of the answer on the other. `strike_serve` says that the deck tells the code
and the message of every refusal, in the order the daemon checks, and that only the payload's own
model gets a request through to the router.
-/

namespace Saltnitor.Interrogate

open Rust Http ControlApi
open ProxyStream hiding FailsAt

/-! ## Both ends -/

/-- `serde_json` at both ends and the HTTP between them: what is printed is read back, with the members
of an object in the order of their names and but for the last digits of numbers, and a body arrives
whole. -/
structure Ends where
  fromStr : Str → Except Str Json
  readObject : ObjectReader
  /-- `to_string` -/
  text : Json → Str
  /-- What a number is after it has been printed and read. -/
  number : ℚ → ℚ
  /-- How a status prints. -/
  reason : Nat → Str
  /-- How a body is cut on its way. -/
  cut : List UInt8 → List (List UInt8)
  distinct_read : ∀ {s v}, fromStr s = .ok v → v.Distinct
  depth_read : ∀ {s v}, fromStr s = .ok v → v.depth < 128
  read_text : ∀ {v}, v.Distinct → v.depth < 128 → fromStr (text v) = .ok (v.mapNum number).sorted
  object_text : ∀ {ms}, (Json.obj ms).Distinct → (Json.obj ms).depth < 128 →
    readObject (bytes (text (.obj ms))) = .ok ((Json.obj ms).mapNum number).sorted.members
  other_text : ∀ {v}, (∀ ms, v ≠ .obj ms) → ∃ e, readObject (bytes (text v)) = .error e
  flatten_cut : ∀ bs, (cut bs).flatten = bs

theorem readText_compact {v : Json} (hdistinct : v.Distinct) (hdepth : v.depth < 128) :
    readText (compact (fun n => toDec n.num.toNat) v.sorted) =
      some (v.mapNum fun n => n.num.toNat).sorted := by
  rw [readText_of_spells (spellsText_compact (fun n => jsonNumber_toDec n.num.toNat) v.sorted)
      (Json.distinct_sorted hdistinct) (by rwa [Json.depth_sorted]), Json.mapNum_sorted,
    Json.sorted_eq_self (Json.inOrder_sorted _)]

/-- Ends that print the numerator of a number, which is right for natural numbers. -/
def Ends.naturals : Ends where
  fromStr s := (readText s).elim (.error "no JSON") .ok
  readObject body := match (fromUtf8 body).bind readText with
    | some (.obj ms) => .ok ms
    | _ => .error "no object"
  text v := compact (fun n => toDec n.num.toNat) v.sorted
  number n := n.num.toNat
  reason := toDec
  cut body := [body]
  distinct_read {s v} h := by
    cases hr : readText s with
    | none => rw [hr] at h; cases h
    | some u => rw [hr] at h; cases h; exact (readText_some hr).1
  depth_read {s v} h := by
    cases hr : readText s with
    | none => rw [hr] at h; cases h
    | some u => rw [hr] at h; cases h; exact (readText_some hr).2.2
  read_text {v} hdistinct hdepth := by
    rw [readText_compact hdistinct hdepth]
    rfl
  object_text {ms} hdistinct hdepth := by
    rw [fromUtf8_bytes, Option.bind_some, readText_compact hdistinct hdepth, Json.mapNum_obj,
      Json.sorted_obj]
    rfl
  other_text {v} hobj := by
    rw [fromUtf8_bytes, Option.bind_some]
    have hspells := spellsText_compact (fun n => jsonNumber_toDec n.num.toNat) v.sorted
    rw [readText, parseText_eq_some.mpr hspells, Option.bind_some]
    split_ifs
    · cases v with
      | obj ms => exact absurd rfl (hobj ms)
      | _ => exact ⟨_, rfl⟩
    · exact ⟨_, rfl⟩
  flatten_cut body := List.append_nil body

/-- What a streamed body brings before it ends or breaks off, and how it breaks off. -/
abbrev Relays := (Nat → InnerPoll) → Str → Duration → List (List UInt8) × Option Str

namespace Ends

variable (w : Ends)

/-- The request as it arrives; `none` when the bearer is no header value. -/
def request (post : Post) : Option Request :=
  let authorization : Option HeaderMap :=
    match post.authorization with
    | none => some []
    | some a => (HeaderValue.fromStr a).map (HeaderMap.append [] .authorization)
  let body := bytes (w.text post.body)
  authorization.bind fun authorization =>
    (HeaderValue.fromStr (toDec body.length)).map fun length =>
      { method := .post
        uri := ⟨"/v1/chat/completions", none⟩
        headers := (HeaderMap.append [] .contentType .applicationJson ++ authorization).append
          .contentLength length
        body := { chunks := w.cut body } }

/-- The answer as the client hears it. -/
def hears (relays : Relays) (r : Response) : Sent :=
  let status : StatusCode := ⟨r.status, w.reason r.status⟩
  match r.payload with
  | .json v => .answered status (w.cut (bytes (w.text v))) none
  | .text s => .answered status (w.cut (bytes s)) none
  | .events frames =>
    .answered status (frames.map fun v => bytes (("data: " : Str) ++ w.text v ++ ("\n\n" : Str))) none
  | .relay upstream requestId idle =>
    let (pieces, aborted) := relays upstream requestId idle
    .answered status pieces aborted

/-- What a strike meets: the daemon, and two clocks. -/
def outside (relays : Relays) (auth : Auth.AuthState) (api : Api) (env : ServiceEnv)
    (ttftMs elapsedMs : Nat) : Outside where
  fromStr := w.fromStr
  send post :=
    match w.request post with
    | some req => w.hears relays (serve auth api env req).1
    | none => .unreachable "builder error"
  ttftMs := ttftMs
  elapsedMs := elapsedMs

/-- The events of a refusal: its status, its code and its message. -/
def told (e : ApiError) : List Main.Event :=
  fail (w.reason e.code.rendered ++ (": " : Str) ++ e.code.asStr ++ (": " : Str) ++ e.message)
    (w.reason e.code.rendered)

end Ends

/-- What a strike posts of a payload. -/
def asked (payload : Json) : Json :=
  insertMember "timings_per_token" (.bool true) (insertMember "stream" (.bool true) payload)

/-! ## The payload -/

/-- The payload's `model` is the text `m`, not empty. -/
def Names (payload : Json) (m : Str) : Prop := payload.member "model" = some (.str m) ∧ m ≠ []

variable {v : Json} {k key : Str} {b : Bool} {m : Str}

theorem lastOf_filter_append {ms : List (Str × Json)} (h : k ≠ key) (x : Json) :
    Json.lastOf k (ms.filter (fun m => m.1 != key) ++ [(key, x)]) = Json.lastOf k ms := by
  unfold Json.lastOf
  rw [List.foldl_append, List.foldl_cons, List.foldl_nil, if_neg (Ne.symm h)]
  generalize (none : Option Json) = found
  induction ms generalizing found with
  | nil => rfl
  | cons m ms ih =>
    by_cases hm : m.1 = key
    · rw [List.filter_cons_of_neg (by simp [hm]), List.foldl_cons, if_neg (hm ▸ Ne.symm h), ih]
    · rw [List.filter_cons_of_pos (by simp [hm]), List.foldl_cons, List.foldl_cons, ih]

theorem member_insertMember (h : k ≠ key) (x : Json) :
    (insertMember key x v).member k = v.member k := by
  cases v with
  | obj ms => exact lastOf_filter_append h x
  | _ => rfl

theorem distinct_insertMember (h : v.Distinct) (b : Bool) : (insertMember key (.bool b) v).Distinct := by
  cases v with
  | obj ms =>
    obtain ⟨hnodup, hms⟩ := Json.distinct_obj.mp h
    refine Json.distinct_obj.mpr ⟨?_, fun m hm => ?_⟩
    · rw [List.map_append, List.nodup_append]
      refine ⟨hnodup.sublist (List.filter_sublist.map _), List.nodup_singleton _, ?_⟩
      rintro a ha _ hb rfl
      obtain ⟨m, hm, rfl⟩ := List.mem_map.mp ha
      have hne := (List.mem_filter.mp hm).2
      rw [List.mem_singleton.mp hb] at hne
      simp at hne
    · rcases List.mem_append.mp hm with hm | hm
      · exact hms m (List.mem_of_mem_filter hm)
      · rw [List.mem_singleton.mp hm]
        exact Json.distinct_leaf (fun _ => rfl) nofun
  | _ => exact h

theorem depth_insertMember_le (b : Bool) : (insertMember key (.bool b) v).depth ≤ v.depth := by
  cases v with
  | obj ms =>
    rw [insertMember, Json.depth_obj, Json.depth_obj, Nat.add_le_add_iff_right, Json.foldr_max_le]
    intro d hd
    simp only [List.map_map, List.map_append, List.mem_append, List.mem_map, Function.comp_apply] at hd
    rcases hd with ⟨m, hm, rfl⟩ | ⟨m, hm, rfl⟩
    · refine Json.foldr_max_le.mp (Nat.le_refl _) _ ?_
      simp only [List.map_map, List.mem_map, Function.comp_apply]
      exact ⟨m, List.mem_of_mem_filter hm, rfl⟩
    · rw [List.mem_singleton.mp hm]
      exact Nat.zero_le _
  | _ => exact Nat.le_refl _

theorem distinct_asked (h : v.Distinct) : (asked v).Distinct :=
  distinct_insertMember (distinct_insertMember h true) true

theorem depth_asked (h : v.depth < 128) : (asked v).depth < 128 :=
  ((depth_insertMember_le true).trans (depth_insertMember_le true)).trans_lt h

theorem member_asked : (asked v).member "model" = v.member "model" := by
  rw [asked, member_insertMember (by decide), member_insertMember (by decide)]

/-- The daemon finds the payload's own model. -/
theorem namesModel_asked (w : Ends) (hdistinct : v.Distinct) (hdepth : v.depth < 128) :
    NamesModel w.readObject (bytes (w.text (asked v))) m ↔ Names v m := by
  have hd := distinct_asked hdistinct
  have hl := depth_asked hdepth
  have hmember : (asked v).member "model" = v.member "model" := member_asked
  rw [Names, ← hmember, NamesModel]
  by_cases hobj : ∃ ms, asked v = .obj ms
  · obtain ⟨ms, hms⟩ := hobj
    rw [hms] at hd hl ⊢
    have hread (ms' : List (Str × Json)) (h : ms' = ((Json.obj ms).mapNum w.number).sorted.members) :
        Json.lastOf "model" ms' = ((Json.obj ms).member "model").map fun x => (x.mapNum w.number).sorted := by
      rw [h, ← Json.member_read w.number hd, Json.mapNum_obj, Json.sorted_obj]
      rfl
    rw [w.object_text hd hl]
    simp only [Except.ok.injEq, exists_eq_left', hread _ rfl, Option.map_eq_some_iff, Json.read_eq_str,
      exists_eq_right]
  · obtain ⟨e, he⟩ := w.other_text (not_exists.mp hobj)
    have hnone : (asked v).member "model" = none := by
      cases hu : asked v with
      | obj ms => exact absurd ⟨ms, hu⟩ hobj
      | _ => rfl
    rw [he, hnone]
    simp

/-! ## What the deck tells -/

/-- The details are absent or small, as those of every refusal of a chat are. -/
structure Simple (e : ApiError) : Prop where
  distinct : (e.details.getD .null).Distinct
  depth : (e.details.getD .null).depth ≤ 1

theorem distinct_str (s : Str) : (Json.str s).Distinct := Json.distinct_leaf (fun _ => rfl) nofun

theorem simple_of_none {e : ApiError} (h : e.details = none) : Simple e := by
  rw [← Option.not_isSome_iff_eq_none] at h
  have hn : e.details.getD .null = .null := by
    cases hd : e.details with
    | none => rfl
    | some d => rw [hd] at h; exact absurd rfl h
  refine ⟨?_, ?_⟩
  · rw [hn]
    exact Json.distinct_leaf (fun _ => rfl) nofun
  · rw [hn]
    exact Nat.zero_le 1

theorem simple_withRequestId (id : Str) {e : ApiError} (h : Simple e) : Simple (e.withRequestId id) :=
  ⟨h.distinct, h.depth⟩

theorem simple_sendError (f : SendFailure) : Simple (sendError f) := by
  cases f <;> exact simple_of_none rfl

theorem distinct_ofF64 (x : F64) : (Json.ofF64 x).Distinct ∧ (Json.ofF64 x).depth = 0 := by
  cases x with
  | fin q => exact ⟨Json.distinct_leaf (fun _ => rfl) nofun, rfl⟩
  | nan | inf => exact ⟨Json.distinct_leaf (fun _ => rfl) nofun, rfl⟩

theorem simple_oracleRejected (msg : Str) (i : OomInfo) : Simple (oracleRejected msg i) where
  distinct := by
    have hnames : (["need_vram_gb".toList, "total_vram_gb".toList, "need_ram_gb".toList,
        "total_ram_gb".toList] : List Str).Nodup := by decide
    refine Json.distinct_obj.mpr ⟨hnames, ?_⟩
    simp only [List.forall_mem_cons]
    exact ⟨(distinct_ofF64 _).1, (distinct_ofF64 _).1, (distinct_ofF64 _).1, (distinct_ofF64 _).1,
      List.forall_mem_nil _⟩
  depth := by
    show Json.depth (.obj _) ≤ 1
    rw [Json.depth_obj]
    simp [(distinct_ofF64 _).2]

theorem distinct_body {e : ApiError} (h : Simple e) : e.body.Distinct := by
  have hnames : (["code".toList, "message".toList, "type".toList, "details".toList,
      "request_id".toList] : List Str).Nodup := by decide
  have hid : (Json.ofOption e.requestId).Distinct := by
    cases e.requestId with
    | none => exact Json.distinct_leaf (fun _ => rfl) nofun
    | some id => exact distinct_str id
  refine Json.distinct_obj.mpr ⟨List.nodup_singleton _, List.forall_mem_singleton.mpr ?_⟩
  refine Json.distinct_obj.mpr ⟨hnames, ?_⟩
  simp only [List.forall_mem_cons]
  exact ⟨distinct_str _, distinct_str _, distinct_str _, h.distinct, hid, List.forall_mem_nil _⟩

theorem depth_body {e : ApiError} (h : Simple e) : e.body.depth < 128 := by
  have hid : (Json.ofOption e.requestId).depth = 0 := by cases e.requestId <;> rfl
  have hstr (s : Str) : (Json.str s).depth = 0 := rfl
  have hd := h.depth
  rw [ApiError.body, Json.depth_obj, List.map_singleton, List.map_singleton, Json.depth_obj]
  simp only [List.map_cons, List.map_nil, List.foldr_cons, List.foldr_nil, hid, hstr]
  omega

theorem describe_body (w : Ends) {e : ApiError} (h : Simple e) (status : StatusCode) :
    describeErrorBody w.fromStr status (bytes (w.text e.body)) =
      status.text ++ (": " : Str) ++ e.code.asStr ++ (": " : Str) ++ e.message := by
  have hread := w.read_text (distinct_body h) (depth_body h)
  have henvelope : fromSlice w.fromStr (bytes (w.text e.body)) = some (e.body.mapNum w.number).sorted := by
    rw [fromSlice, fromUtf8_bytes, Option.bind_some, hread]
    rfl
  have herror : (e.body.index "error").Distinct :=
    (List.forall_mem_singleton.mp (Json.distinct_obj.mp (distinct_body h)).2 :)
  have hfield (k s : Str) (hk : (e.body.index "error").index k = .str s) :
      (((e.body.mapNum w.number).sorted.index "error").index k).asStr = some s := by
    rw [Json.index_read w.number (distinct_body h), Json.index_read w.number herror, hk]
    rfl
  unfold describeErrorBody
  rw [henvelope]
  simp only [Option.bind_some]
  rw [hfield "code" e.code.asStr rfl, hfield "message" e.message rfl]

variable {relays : Relays} {auth : Auth.AuthState} {api : Api} {env : ServiceEnv} {ttftMs elapsedMs : Nat}
  {controlPort : Nat} {bearer : Option Str} {payload : Str} {req : Request}

/-- A refusal of the daemon is what the deck tells. -/
theorem strike_told (w : Ends) (hv : w.fromStr payload = .ok v)
    (hreq : w.request (requestOf controlPort bearer v) = some req) {e : ApiError} (he : Simple e)
    (hstatus : (serve auth api env req).1.status = e.code.rendered)
    (hpayload : (serve auth api env req).1.payload = .json e.body) :
    strike (w.outside relays auth api env ttftMs elapsedMs) controlPort bearer payload = w.told e := by
  have hbounds := e.code.rendered_bounds
  have hsuccess : StatusCode.isSuccess ⟨e.code.rendered, w.reason e.code.rendered⟩ = false := by
    rw [StatusCode.isSuccess, Bool.and_eq_false_iff]
    right
    simp only [decide_eq_false_iff_not]
    omega
  have hsend : (w.outside relays auth api env ttftMs elapsedMs).send (requestOf controlPort bearer v) =
      .answered ⟨e.code.rendered, w.reason e.code.rendered⟩ (w.cut (bytes (w.text e.body))) none := by
    show (match w.request (requestOf controlPort bearer v) with
      | some req => w.hears relays (serve auth api env req).1
      | none => .unreachable "builder error") = _
    rw [hreq]
    dsimp only
    rw [Ends.hears, hpayload, hstatus]
  unfold strike
  rw [show (w.outside relays auth api env ttftMs elapsedMs).fromStr payload = .ok v from hv]
  dsimp only
  rw [hsend]
  dsimp only
  rw [hsuccess, if_neg (by decide), if_pos rfl, w.flatten_cut]
  rw [show (w.outside relays auth api env ttftMs elapsedMs).fromStr = w.fromStr from rfl,
    describe_body w he]
  rfl

/-! ## The daemon's way -/

/-- The answer of the service to a chat: the handler's, under an id, or the refusal of the key. -/
theorem serve_chat (auth : Auth.AuthState) (api : Api) (env : ServiceEnv)
    (huri : req.uri = ⟨"/v1/chat/completions", none⟩) (hmethod : req.method = .post) :
    (Auth.Admitted auth req → ∃ (id : Str) (headers : HeaderMap) (log : List Str),
      (HeaderValue.fromStr id).isSome = true ∧
      contentLength headers = contentLength req.headers ∧
      (serve auth api env req).1.status = (hChat api env.chat id headers req.body).1.status ∧
      (serve auth api env req).1.payload = (hChat api env.chat id headers req.body).1.payload ∧
      (serve auth api env req).2.2 = log.map .logLine ++ (hChat api env.chat id headers req.body).2) ∧
    (¬ Auth.Admitted auth req → ∃ (id : Str) (log : List Str),
      let e : ApiError := { code := .authRequired, message := "missing or invalid credentials"
                            requestId := some id }
      (serve auth api env req).1.status = e.code.rendered ∧
      (serve auth api env req).1.payload = .json e.body ∧
      (serve auth api env req).2.2 = log.map .logLine) := by
  obtain ⟨value, hvalue, -, req', hreq', hs⟩ := requestIdMiddleware_eq env.minted (authLayer auth api env) req
  have hadm : Auth.Admitted auth req' ↔ Auth.Admitted auth req := by
    rw [hreq']
    exact admitted_withId
  rw [← hadm, serve, hs]
  dsimp only
  have huri' : req'.uri = ⟨"/v1/chat/completions", none⟩ := by rw [hreq']; exact huri
  constructor
  · intro ha
    obtain ⟨log, hresp, heff⟩ := authLayer_admitted api env ha
    obtain ⟨handler, hhandler, -, hdispatch⟩ : ∃ handler : Handler,
        handlerFor req'.uri.path = some handler ∧ req'.method = handler.method ∧
          dispatch api env (Auth.passed auth req') = handler.run api env (Auth.passed auth req') :=
      dispatch_admitted _ _ ha
    have hchat : handler = .chat := by
      rw [huri'] at hhandler
      exact Option.some.inj (hhandler.symm.trans (by decide))
    subst hchat
    have hpassed : Auth.passed auth req' = req' := by
      unfold Auth.passed
      rw [show Auth.queryValid auth req' = false by rw [Auth.queryValid, Auth.queryToken, huri']; rfl,
        if_neg (by decide)]
    rw [hpassed] at hdispatch hresp heff
    have hid : req'.requestId = some (chosenId env.minted req) := by rw [hreq']
    have hrun : Handler.run api env req' .chat =
        hChat api env.chat (chosenId env.minted req) req'.headers req.body := by
      rw [Handler.run, extension, hid]
      rw [hreq']
    rw [hdispatch, hrun] at hresp heff
    refine ⟨chosenId env.minted req, req'.headers, log, by rw [hvalue]; rfl, ?_, ?_, ?_, heff⟩
    · rw [hreq', contentLength, get_insert (by decide), contentLength]
    · rw [hresp]
    · rw [hresp]
  · intro ha
    obtain ⟨log, hresp, heff⟩ := authLayer_refused api env ha
    have hrefusal : Auth.refusal req' = { code := .authRequired, message := "missing or invalid credentials"
                                          requestId := some (chosenId env.minted req) } := by
      have hm : req'.method = .post := by rw [hreq']; exact hmethod
      unfold Auth.refusal Auth.withId
      rw [show req'.requestId = some (chosenId env.minted req) by rw [hreq'], huri', hm]
      rfl
    refine ⟨chosenId env.minted req, log, ?_, ?_, heff⟩
    · rw [hresp, hrefusal]
      rfl
    · rw [hresp, hrefusal]
      rfl

/-! ## What declines a payload -/

/-- The step that turns the payload away, whose text has `size` bytes. -/
def Declines (api : Api) (env : ChatEnv) (v : Json) (size : Nat) : Step → Prop
  | .body => api.limits.maxBodyBytes < size
  | .model => size ≤ api.limits.maxBodyBytes ∧ ¬ ∃ m, Names v m
  | .profile => size ≤ api.limits.maxBodyBytes ∧ ∃ m, Names v m ∧ api.profile m = none
  | .oracle => size ≤ api.limits.maxBodyBytes ∧ ∃ m prof, Names v m ∧ api.profile m = some prof ∧
      ¬ Resident env m ∧ ¬ Admits api env prof
  | .load => size ≤ api.limits.maxBodyBytes ∧ ∃ m prof, Names v m ∧ api.profile m = some prof ∧
      ¬ Resident env m ∧ Admits api env prof ∧ ¬ ∃ r, Warmed api env.ensure m r

/-- Nothing does: the payload's model is configured, and resident or loaded for it. -/
structure Passes (api : Api) (env : ChatEnv) (v : Json) (size : Nat) (m : Str) (prof : ProfileMeta) :
    Prop where
  small : size ≤ api.limits.maxBodyBytes
  named : Names v m
  configured : api.profile m = some prof
  resident : Resident env m ∨ Admits api env prof ∧ ∃ r, Warmed api env.ensure m r

variable {w : Ends} {chat : ChatEnv} {headers : HeaderMap} {rid : Str} {step : Step} {prof : ProfileMeta}

theorem uri_request {post : Post} (h : w.request post = some req) :
    req.uri = ⟨"/v1/chat/completions", none⟩ ∧ req.method = .post ∧
      req.body = { chunks := w.cut (bytes (w.text post.body)) } ∧
      ∀ n, contentLength req.headers = some n → n = (bytes (w.text post.body)).length := by
  obtain ⟨authorization, hauth, h⟩ := Option.bind_eq_some_iff.mp h
  obtain ⟨length, hlength, rfl⟩ := Option.map_eq_some_iff.mp h
  refine ⟨rfl, rfl, rfl, fun n hn => ?_⟩
  have hauthorization : authorization.getAll .contentLength = [] := by
    have hne : HeaderName.authorization ≠ .contentLength := by decide
    cases ha : post.authorization with
    | none =>
      rw [ha] at hauth
      cases hauth
      rfl
    | some a =>
      rw [ha] at hauth
      obtain ⟨value, -, rfl⟩ := Option.map_eq_some_iff.mp hauth
      simp [HeaderMap.append, hne]
  have hget : (((HeaderMap.append [] .contentType .applicationJson ++ authorization).append
      .contentLength length).get .contentLength) = some length := by
    have hne : HeaderName.contentType ≠ .contentLength := by decide
    simp [HeaderMap.get, HeaderMap.append, hauthorization, hne]
  rw [contentLength, hget, Option.bind_some] at hn
  obtain ⟨text, htext, hn⟩ := Option.bind_eq_some_iff.mp hn
  obtain ⟨rfl, -⟩ := (HeaderValue.toStr_of_bytes (HeaderValue.fromStr_bytes hlength)).mp htext
  exact eq_of_parseUnsigned_toDec hn

theorem withinLimit_iff_size {size max : Nat} {body : BodyStream} (hfails : body.fails = false)
    (hbody : body.chunks.flatten.length = size)
    (hlength : ∀ n, contentLength headers = some n → n = size) :
    WithinLimit body (contentLength headers) max ↔ size ≤ max := by
  refine ⟨fun h => hbody ▸ h.actual, fun h => ⟨hfails, fun n hn => ?_, hbody ▸ h⟩⟩
  rw [hlength n hn]
  exact h

/-- The steps of the handler, as the payload decides them. -/
theorem failsAt_iff_declines {size : Nat} {body : BodyStream}
    (hwithin : WithinLimit body (contentLength headers) api.limits.maxBodyBytes ↔
      size ≤ api.limits.maxBodyBytes)
    (hnames : ∀ m, NamesModel chat.read body.chunks.flatten m ↔ Names v m) :
    FailsAt api chat headers body step ↔ Declines api chat v size step := by
  cases step with
  | body => rw [FailsAt, Declines, hwithin, Nat.not_le]
  | model => simp only [FailsAt, Declines, hwithin, hnames]
  | profile =>
    simp only [FailsAt, Declines, Accepted, hwithin, hnames, and_assoc, exists_and_left]
  | oracle =>
    simp only [FailsAt, Declines, Accepted, hwithin, hnames, and_assoc, exists_and_left]
  | load =>
    simp only [FailsAt, Declines, Accepted, hwithin, hnames, and_assoc, exists_and_left]

theorem details_of_validateChatBody {read : ObjectReader} {body : List UInt8} {e : ApiError}
    (h : ProxyStream.validateChatBody read body = .error e) : e.details = none := by
  unfold ProxyStream.validateChatBody at h
  split at h
  · cases h
    rfl
  · split at h
    · split at h
      · cases h
      · cases h
        rfl
    · cases h
      rfl
    · cases h
      rfl

theorem details_of_readBodyLimited {body : BodyStream} {len : Option Nat} {max : Nat} {e : ApiError}
    (h : readBodyLimited body len max = .error e) : e.details = none := by
  unfold readBodyLimited at h
  split at h
  · cases h
    rfl
  · split at h
    · cases h
    · cases h
      rfl

/-- A step that turns a chat away says so with an envelope of its code. -/
theorem hChat_simple (rid : Str) {body : BodyStream} (h : FailsAt api chat headers body step) :
    ∃ e : ApiError, e.code = step.code ∧ Simple e ∧
      (hChat api chat rid headers body).1 = (e.withRequestId rid).intoResponse := by
  cases step with
  | body =>
    cases hb : readBodyLimited body (contentLength headers) api.limits.maxBodyBytes with
    | ok bytes => exact absurd (readBodyLimited_eq_ok.mp hb).1 h
    | error e =>
      refine ⟨e, code_of_readBodyLimited hb, simple_of_none (details_of_readBodyLimited hb), ?_⟩
      rw [hChat, hb]
  | model =>
    obtain ⟨hlimit, hm⟩ := h
    cases hv : ProxyStream.validateChatBody chat.read body.chunks.flatten with
    | ok m => exact absurd ⟨m, validateChatBody_eq_ok.mp hv⟩ hm
    | error e =>
      refine ⟨e, code_of_validateChatBody hv, simple_of_none (details_of_validateChatBody hv), ?_⟩
      rw [hChat, readBodyLimited_eq_ok.mpr ⟨hlimit, rfl⟩]
      dsimp only
      rw [hv]
  | profile =>
    obtain ⟨m, hacc, hp⟩ := h
    refine ⟨unknownModel m (("unknown profile '" : Str) ++ m ++ ("'" : Str)), rfl, simple_of_none rfl, ?_⟩
    rw [hChat_accepted hacc, ensure_unknown { profile := m } hp]
    rfl
  | oracle =>
    obtain ⟨m, prof, hacc, hp, hr, ha⟩ := h
    obtain ⟨info, he⟩ := ensure_chat_refused hp hr ha
    obtain ⟨e, hcode, hsimple, hrefusal⟩ : ∃ e : ApiError, e.code = .oracleRejected ∧ Simple e ∧
        chatRefusal m (.oom info) = some e := ⟨_, rfl, simple_oracleRejected _ info, rfl⟩
    refine ⟨e, hcode, hsimple, ?_⟩
    rw [hChat_accepted hacc, he]
    dsimp only
    rw [hrefusal]
  | load =>
    obtain ⟨m, prof, hacc, hp, hr, ha, hw⟩ := h
    obtain ⟨e, he⟩ := ensure_chat_failed hp hr ha hw
    refine ⟨loadFailed e, rfl, simple_of_none rfl, ?_⟩
    rw [hChat_accepted hacc, he]
    rfl

/-- The router's bearer, if there is one, is a header value. -/
def Sendable (api : Api) : Prop :=
  ∀ b ∈ api.inferBearer, (HeaderValue.fromStr (("Bearer " : Str) ++ b)).isSome = true

theorem sendable_iff (headers : HeaderMap) (hrid : (HeaderValue.fromStr rid).isSome = true) :
    Sendable api ↔ (upstreamHeaders api.inferBearer headers rid).isSome = true := by
  obtain ⟨value, hvalue⟩ := Option.isSome_iff_exists.mp hrid
  rw [Sendable, upstreamHeaders, hvalue]
  cases api.inferBearer with
  | none => exact iff_of_true (fun _ hb => absurd hb (Option.not_mem_none _)) rfl
  | some b => simp

/-- A chat that every step lets through is handed to the router last, if it can be sent at all. -/
theorem hChat_passes {body : BodyStream} (hrid : (HeaderValue.fromStr rid).isSome = true)
    (h : Ready api chat headers body m prof) :
    (¬ Sendable api → (hChat api chat rid headers body).1 =
        ((sendError (.connection "builder error")).withRequestId rid).intoResponse ∧
      ∀ up, .chat up ∉ (hChat api chat rid headers body).2) ∧
    (Sendable api → ∃ before up, (hChat api chat rid headers body).2 = before ++ [.chat up] ∧
      (∀ x, .chat x ∉ before) ∧ up.body = body.chunks.flatten ∧
      ∀ f, chat.upstream = .error f →
        (hChat api chat rid headers body).1 = ((sendError f).withRequestId rid).intoResponse) := by
  have hno (up : Outgoing) : .chat up ∉ (ensure api chat.ensure .none { profile := m }).2 :=
    chat_not_mem_ensure _ up
  rw [hChat_ready h, sendable_iff headers hrid]
  unfold forward
  cases hup : upstreamHeaders api.inferBearer headers rid with
  | none =>
    refine ⟨fun _ => ⟨rfl, fun up => ?_⟩, nofun⟩
    simpa using hno up
  | some sent =>
    refine ⟨fun hnone => absurd rfl hnone, fun _ => ⟨_, _, rfl, hno, rfl, fun f hf => ?_⟩⟩
    rw [hf]

theorem passes_or_declines (api : Api) (chat : ChatEnv) (v : Json) (size : Nat) :
    (∃ m prof, Passes api chat v size m prof) ∨ ∃ step, Declines api chat v size step := by
  by_cases hsize : size ≤ api.limits.maxBodyBytes
  swap
  · exact .inr ⟨.body, Nat.not_le.mp hsize⟩
  by_cases hm : ∃ m, Names v m
  swap
  · exact .inr ⟨.model, hsize, hm⟩
  obtain ⟨m, hm⟩ := hm
  cases hp : api.profile m with
  | none => exact .inr ⟨.profile, hsize, m, hm, hp⟩
  | some prof =>
    by_cases hr : Resident chat m
    · exact .inl ⟨m, prof, hsize, hm, hp, .inl hr⟩
    by_cases ha : Admits api chat prof
    swap
    · exact .inr ⟨.oracle, hsize, m, prof, hm, hp, hr, ha⟩
    by_cases hw : ∃ r, Warmed api chat.ensure m r
    · exact .inl ⟨m, prof, hsize, hm, hp, .inr ⟨ha, hw⟩⟩
    · exact .inr ⟨.load, hsize, m, prof, hm, hp, hr, ha, hw⟩

/-! ## The key -/

/-- The daemon takes the key: it needs none, or the bearer is the token, blanks before it aside. -/
def Takes (auth : Auth.AuthState) (bearer : Option Str) : Prop :=
  auth.token = none ∨ ∃ b, bearer = some b ∧ auth.token = some (b.dropWhile (· == ' ')) ∧
    b.dropWhile (· == ' ') ≠ [] ∧ ∀ c ∈ b, isVisibleChar c = true

/-- The value that is sent of a bearer, as text. -/
theorem authorization_request {post : Post} (h : w.request post = some req) :
    (req.headers.get .authorization).bind HeaderValue.toStr =
      post.authorization.filter fun a => a.all isVisibleChar := by
  obtain ⟨authorization, hauth, h⟩ := Option.bind_eq_some_iff.mp h
  obtain ⟨length, -, rfl⟩ := Option.map_eq_some_iff.mp h
  have htype : HeaderName.contentType ≠ .authorization := by decide
  have hlen : HeaderName.contentLength ≠ .authorization := by decide
  cases ha : post.authorization with
  | none =>
    rw [ha] at hauth
    cases hauth
    simp [HeaderMap.get, HeaderMap.append, htype, hlen]
  | some a =>
    rw [ha] at hauth
    obtain ⟨value, hvalue, rfl⟩ := Option.map_eq_some_iff.mp hauth
    have hget : (((HeaderMap.append [] .contentType .applicationJson ++
        HeaderMap.append [] .authorization value).append .contentLength length).get .authorization) =
          some value := by
      simp [HeaderMap.get, HeaderMap.append, htype]
    rw [hget, Option.bind_some, Option.filter_some]
    by_cases hvis : ∀ c ∈ a, isVisibleChar c = true
    · rw [if_pos (List.all_eq_true.mpr hvis)]
      exact (HeaderValue.toStr_of_bytes (HeaderValue.fromStr_bytes hvalue)).mpr ⟨rfl, hvis⟩
    · rw [if_neg (by rwa [List.all_eq_true])]
      by_contra hne
      obtain ⟨text, htext⟩ := Option.ne_none_iff_exists'.mp hne
      exact hvis ((HeaderValue.toStr_of_bytes (HeaderValue.fromStr_bytes hvalue)).mp htext).2

theorem bearerFromHeader_bearer (b : Str) : Auth.bearerFromHeader (("Bearer " : Str) ++ b) =
    if b.dropWhile (· == ' ') = [] then none else some (b.dropWhile (· == ' ')) := by
  have hsplit : splitOnce ' ' (("Bearer" : Str) ++ ' ' :: b) = some (("Bearer" : Str), b) :=
    splitOnce_append (by decide)
  have hword : eqIgnoreAsciiCase ("Bearer" : Str) "bearer" = true := by decide
  rw [show ("Bearer " : Str) ++ b = ("Bearer" : Str) ++ ' ' :: b from rfl, Auth.bearerFromHeader, hsplit]
  simp only [hword, List.isEmpty_iff]
  rfl

theorem tokenRead_iff {t : Str} :
    ((bearer.map fun b => ("Bearer " : Str) ++ b).filter fun a => a.all isVisibleChar).bind
        Auth.bearerFromHeader = some t ↔
      ∃ b, bearer = some b ∧ b.dropWhile (· == ' ') = t ∧ t ≠ [] ∧ ∀ c ∈ b, isVisibleChar c = true := by
  cases bearer with
  | none =>
    rw [Option.map_none, Option.filter_none, Option.bind_none]
    exact ⟨nofun, nofun⟩
  | some b =>
    have hblanks : ("Bearer " : Str).all isVisibleChar = true := by decide
    have hall : (("Bearer " : Str) ++ b).all isVisibleChar = b.all isVisibleChar := by
      rw [List.all_append, hblanks, Bool.true_and]
    rw [Option.map_some, Option.filter_some, hall]
    constructor
    · intro h
      by_cases hvis : b.all isVisibleChar = true
      · rw [if_pos hvis, Option.bind_some, bearerFromHeader_bearer] at h
        obtain ⟨hne, ht⟩ := Option.ite_none_left_eq_some.mp h
        cases ht
        exact ⟨b, rfl, rfl, hne, List.all_eq_true.mp hvis⟩
      · rw [if_neg hvis] at h
        cases h
    · rintro ⟨_, ⟨⟩, rfl, hne, hvis⟩
      rw [if_pos (List.all_eq_true.mpr hvis), Option.bind_some, bearerFromHeader_bearer, if_neg hne]

theorem routed_chat {r : Auth.RoutePolicy} (huri : req.uri = ⟨"/v1/chat/completions", none⟩)
    (hmethod : req.method = .post) : Auth.Routed req r ↔
      r = { path := "/v1/chat/completions", methods := [.post], auth := .required, scope := .inference,
            queryTokenCompat := false } := by
  have hpolicy : Auth.policyFor ("/v1/chat/completions" : Str) =
    some { path := "/v1/chat/completions", methods := [.post], auth := .required, scope := .inference,
           queryTokenCompat := false } := by decide
  rw [Auth.routed_iff, huri, hmethod, hpolicy, Option.some.injEq]
  constructor
  · exact fun h => h.1.symm
  · rintro rfl
    exact ⟨rfl, List.mem_singleton_self _⟩

/-- The strike is admitted exactly when the daemon takes the deck's key. -/
theorem admitted_iff_takes (hreq : w.request (requestOf controlPort bearer v) = some req) :
    Auth.Admitted auth req ↔ Takes auth bearer := by
  obtain ⟨huri, hmethod, -, -⟩ := uri_request hreq
  have hbearer : (∃ t, auth.token = some t ∧ Auth.PresentsBearer req.headers t) ↔
      ∃ b, bearer = some b ∧ auth.token = some (b.dropWhile (· == ' ')) ∧
        b.dropWhile (· == ' ') ≠ [] ∧ ∀ c ∈ b, isVisibleChar c = true := by
    have hread : (∃ t, auth.token = some t ∧ Auth.PresentsBearer req.headers t) ↔
        ∃ t, auth.token = some t ∧ ∃ b, bearer = some b ∧ b.dropWhile (· == ' ') = t ∧ t ≠ [] ∧
          ∀ c ∈ b, isVisibleChar c = true := by
      rw [← Auth.bearerValid_iff, Auth.bearerValid, authorization_request hreq, Auth.any_tokenMatches]
      exact exists_congr fun t => and_congr_right fun _ => tokenRead_iff
    rw [hread]
    constructor
    · rintro ⟨_, ht, b, hb, rfl, hrest⟩
      exact ⟨b, hb, ht, hrest⟩
    · rintro ⟨b, hb, ht, hrest⟩
      exact ⟨_, ht, b, hb, rfl, hrest⟩
  constructor
  · rintro ⟨r, hr, hcred⟩
    cases (routed_chat huri hmethod).mp hr
    rcases hcred with hpublic | hnone | ⟨t, ht, hb | ⟨-, hcompat, -⟩⟩
    · cases hpublic
    · exact .inl hnone
    · exact .inr (hbearer.mp ⟨t, ht, hb⟩)
    · cases hcompat
  · have hr := (routed_chat huri hmethod).mpr rfl
    rintro (hnone | hb)
    · exact ⟨_, hr, .inr (.inl hnone)⟩
    · obtain ⟨t, ht, hpresents⟩ := hbearer.mpr hb
      exact ⟨_, hr, .inr (.inr ⟨t, ht, .inl hpresents⟩)⟩

/-! ## The whole way -/

/-- The daemon answers with the envelope of `e` under the request's id, and the deck tells it. -/
structure Tells (w : Ends) (response : Response) (e : ApiError) (events : List Main.Event) : Prop where
  status : response.status = e.code.rendered
  envelope : ∃ id, response.payload = .json (e.withRequestId id).body
  told : events = w.told e

/-- What comes of the payload `v`: the answer of the daemon, what it sent, the events of the deck. -/
structure Answered (w : Ends) (auth : Auth.AuthState) (api : Api) (env : ServiceEnv) (bearer : Option Str)
    (v : Json) (events : List Main.Event) (response : Response) (effects : List Effect) : Prop where
  /-- The key comes first. -/
  key : ¬ Takes auth bearer →
    Tells w response { code := .authRequired, message := "missing or invalid credentials" } events ∧
      ∀ x ∈ effects, ∃ line, x = .logLine line
  declined : Takes auth bearer → ∀ step,
    Declines api env.chat v (bytes (w.text (asked v))).length step →
      ∃ e : ApiError, e.code = step.code ∧ Tells w response e events ∧ ∀ up, .chat up ∉ effects
  /-- A bearer that cannot be sent is told, and nothing is sent. -/
  unsendable : Takes auth bearer → ∀ m prof,
    Passes api env.chat v (bytes (w.text (asked v))).length m prof → ¬ Sendable api →
      Tells w response (sendError (.connection "builder error")) events ∧ ∀ up, .chat up ∉ effects
  /-- The router is sent the payload, once; if it does not answer the deck says so. -/
  passed : Takes auth bearer → ∀ m prof,
    Passes api env.chat v (bytes (w.text (asked v))).length m prof → Sendable api →
      ∃ before up, effects = before ++ [.chat up] ∧ (∀ x, .chat x ∉ before) ∧
        up.body = bytes (w.text (asked v)) ∧
        ∀ f, env.chat.upstream = .error f → Tells w response (sendError f) events
  covered : (∃ m prof, Passes api env.chat v (bytes (w.text (asked v))).length m prof) ∨
    ∃ step, Declines api env.chat v (bytes (w.text (asked v))).length step

/-- **The deck says what its daemon refused, and why**: the key, the size, the model, the profile, the
room, the load, in this order; and what the router is sent is the payload, for the model it names. -/
theorem strike_serve {w : Ends} {relays : Relays} {auth : Auth.AuthState} {api : Api} {env : ServiceEnv}
    {ttftMs elapsedMs controlPort : Nat} {bearer : Option Str} {payload : Str} {v : Json} {req : Request}
    (hread : env.chat.read = w.readObject) (hv : w.fromStr payload = .ok v)
    (hreq : w.request (requestOf controlPort bearer v) = some req) :
    Answered w auth api env bearer v
      (strike (w.outside relays auth api env ttftMs elapsedMs) controlPort bearer payload)
      (serve auth api env req).1 (serve auth api env req).2.2 := by
  obtain ⟨huri, hmethod, hbody, hlength⟩ := uri_request hreq
  obtain ⟨hadmitted, hrefused⟩ := serve_chat auth api env huri hmethod
  have htakes : Auth.Admitted auth req ↔ Takes auth bearer := admitted_iff_takes hreq
  have hflat : req.body.chunks.flatten = bytes (w.text (asked v)) := by
    rw [hbody]
    exact w.flatten_cut _
  have hfails : req.body.fails = false := by rw [hbody]
  have hnames (m : Str) : NamesModel env.chat.read req.body.chunks.flatten m ↔ Names v m := by
    rw [hflat, hread]
    exact namesModel_asked w (w.distinct_read hv) (w.depth_read hv)
  have hwithin {headers : HeaderMap} (h : contentLength headers = contentLength req.headers) :
      WithinLimit req.body (contentLength headers) api.limits.maxBodyBytes ↔
        (bytes (w.text (asked v))).length ≤ api.limits.maxBodyBytes :=
    withinLimit_iff_size hfails (congrArg List.length hflat) (h ▸ hlength)
  have tells {e : ApiError} {id : Str} (hsimple : Simple e)
      (hstatus : (serve auth api env req).1.status = e.code.rendered)
      (hpayload : (serve auth api env req).1.payload = .json (e.withRequestId id).body) :
      Tells w (serve auth api env req).1 e
        (strike (w.outside relays auth api env ttftMs elapsedMs) controlPort bearer payload) :=
    ⟨hstatus, ⟨id, hpayload⟩,
      (strike_told w hv hreq (simple_withRequestId id hsimple) hstatus hpayload).trans rfl⟩
  constructor
  case key =>
    intro hno
    obtain ⟨id, log, hstatus, hpayload, heff⟩ := hrefused (mt htakes.mp hno)
    refine ⟨tells (simple_of_none rfl) hstatus hpayload, fun x hx => ?_⟩
    rw [heff] at hx
    obtain ⟨line, -, rfl⟩ := List.mem_map.mp hx
    exact ⟨line, rfl⟩
  case declined =>
    intro hyes step hstep
    obtain ⟨id, headers, log, -, hlen, hstatus, hpayload, heff⟩ := hadmitted (htakes.mpr hyes)
    have hfail := (failsAt_iff_declines (hwithin hlen) hnames).mpr hstep
    obtain ⟨e, hcode, hsimple, hresp⟩ := hChat_simple id hfail
    rw [hresp] at hstatus hpayload
    refine ⟨e, hcode, tells hsimple hstatus hpayload, fun up hup => ?_⟩
    rw [heff] at hup
    exact (hChat_failsAt hfail).no_chat up (by simpa using hup)
  case unsendable =>
    intro hyes m prof hp hno
    obtain ⟨id, headers, log, hid, hlen, hstatus, hpayload, heff⟩ := hadmitted (htakes.mpr hyes)
    have hready : Ready api env.chat headers req.body m prof :=
      ⟨⟨(hwithin hlen).mpr hp.small, (hnames m).mpr hp.named⟩, hp.configured, hp.resident⟩
    obtain ⟨hresp, hnone⟩ := (hChat_passes hid hready).1 hno
    rw [hresp] at hstatus hpayload
    refine ⟨tells (simple_sendError _) hstatus hpayload, fun up hup => ?_⟩
    rw [heff] at hup
    exact hnone up (by simpa using hup)
  case passed =>
    intro hyes m prof hp hsend
    obtain ⟨id, headers, log, hid, hlen, hstatus, hpayload, heff⟩ := hadmitted (htakes.mpr hyes)
    have hready : Ready api env.chat headers req.body m prof :=
      ⟨⟨(hwithin hlen).mpr hp.small, (hnames m).mpr hp.named⟩, hp.configured, hp.resident⟩
    obtain ⟨before, up, hlast, hno, hup, hfail⟩ := (hChat_passes hid hready).2 hsend
    refine ⟨log.map .logLine ++ before, up, ?_, fun x => by simpa using hno x, hup.trans hflat, fun f hf => ?_⟩
    · rw [heff, hlast, List.append_assoc]
    · rw [hfail f hf] at hstatus hpayload
      exact tells (simple_sendError f) hstatus hpayload
  case covered => exact passes_or_declines ..

/-- A model that is not configured, asked for with the key. -/
theorem strike_serve_unknown :
    let v : Json := .obj [("model", .str "C")]
    let auth : Auth.AuthState := { token := some "key", allowQueryToken := false }
    let env : ServiceEnv :=
      { minted := sampleUuid, now := 0, json := fun _ => .error ⟨415, ""⟩, query := fun _ => .error ""
        notAllowed := ⟨405, [], .text ""⟩, noExtension := ⟨500, [], .text ""⟩
        chat := { read := Ends.naturals.readObject, ensure := ⟨none, card24, .error "", 0⟩
                  upstream := .error .timeout } }
    ∃ req, Ends.naturals.request (requestOf 11435 (some "key") v) = some req ∧
      (∃ e : ApiError, e.code = .modelNotFound ∧ Tells Ends.naturals (serve auth pairApi env req).1 e
        (strike (Ends.naturals.outside (fun _ _ _ => ([], none)) auth pairApi env 0 0) 11435 (some "key")
          (Ends.naturals.text v))) ∧
      ∀ up, .chat up ∉ (serve auth pairApi env req).2.2 := by
  intro v auth env
  have hsmall : (bytes (Ends.naturals.text (asked (.obj [("model", .str "C")])))).length ≤
      pairApi.limits.maxBodyBytes := by decide +kernel
  have hunknown : pairApi.profile "C" = none := by decide
  obtain ⟨req, hreq⟩ := Option.isSome_iff_exists.mp
    (show (Ends.naturals.request (requestOf 11435 (some "key") v)).isSome = true by decide +kernel)
  have hdistinct : v.Distinct :=
    Json.distinct_obj.mpr ⟨List.nodup_singleton _, List.forall_mem_singleton.mpr (distinct_str _)⟩
  have hread : Ends.naturals.fromStr (Ends.naturals.text v) = .ok v :=
    Ends.naturals.read_text hdistinct (by decide)
  have htakes : Takes auth (some "key") :=
    .inr ⟨_, rfl, rfl, by decide, by decide⟩
  have hdeclines : Declines pairApi env.chat v
      (bytes (Ends.naturals.text (asked v))).length .profile :=
    ⟨hsmall, "C", ⟨rfl, by decide⟩, hunknown⟩
  have hanswered : Answered Ends.naturals auth pairApi env (some "key") v
      (strike (Ends.naturals.outside (fun _ _ _ => ([], none)) auth pairApi env 0 0) 11435 (some "key")
        (Ends.naturals.text v)) (serve auth pairApi env req).1 (serve auth pairApi env req).2.2 :=
    strike_serve rfl hread hreq
  obtain ⟨e, hcode, htells, hsent⟩ := hanswered.declined htakes .profile hdeclines
  exact ⟨req, hreq, ⟨e, hcode, htells⟩, hsent⟩

end Saltnitor.Interrogate
