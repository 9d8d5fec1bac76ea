import Saltnitor.Error
import Saltnitor.ProxyStream.Abort

/-!
# Request bodies

`readBodyLimited` reads a body up to the configured limit and `validateChatBody`
finds the model it names. The JSON reader is `serde_json`'s, a parameter: it
gives the members of an object in order, or says why the text is none.
-/

namespace Saltnitor.ProxyStream

open Rust Http

structure ProxyLimits where
  connect : Duration
  firstByte : Duration
  idle : Duration
  maxBodyBytes : Nat

/-! ## Reading -/

/-- `axum::body::to_bytes`: all the bytes, unless a chunk passes the limit or reading fails. -/
def toBytes : Nat → List (List UInt8) → Bool → Option (List UInt8)
  | _, [], fails => if fails then none else some []
  | limit, c :: cs, fails =>
    if limit < c.length then none else (toBytes (limit - c.length) cs fails).map (c ++ ·)

theorem toBytes_eq_some {limit : Nat} {chunks : List (List UInt8)} {fails : Bool}
    {bs : List UInt8} : toBytes limit chunks fails = some bs ↔
      fails = false ∧ chunks.flatten.length ≤ limit ∧ chunks.flatten = bs := by
  induction chunks generalizing limit bs with
  | nil => simp [toBytes, eq_comm]
  | cons c cs ih =>
    unfold toBytes
    split
    · rename_i hc
      simp only [reduceCtorEq, List.flatten_cons, List.length_append, false_iff, not_and]
      omega
    · rename_i hc
      simp only [Option.map_eq_some_iff, ih, List.flatten_cons, List.length_append]
      constructor
      · rintro ⟨rest, ⟨hf, hl, rfl⟩, rfl⟩
        exact ⟨hf, by omega, rfl⟩
      · rintro ⟨hf, hl, rfl⟩
        exact ⟨_, ⟨hf, by omega, rfl⟩, rfl⟩

def contentLength (h : HeaderMap) : Option Nat :=
  ((h.get .contentLength).bind HeaderValue.toStr).bind (parseUnsigned 64)

/-- A declared length above the limit is refused before anything is read. -/
def readBodyLimited (body : BodyStream) (contentLength : Option Nat) (max : Nat) :
    Except ApiError (List UInt8) :=
  let tooLarge : ApiError :=
    { code := .payloadTooLarge
      message := ("request body exceeds max_body_bytes (" : Str) ++ toDec max ++ (")" : Str) }
  if contentLength.any (max < ·) then .error tooLarge
  else
    match toBytes max body.chunks body.fails with
    | some b => .ok b
    | none => .error tooLarge

/-- The body was read to its end and kept to the limit, declared and actual. -/
structure WithinLimit (body : BodyStream) (contentLength : Option Nat) (max : Nat) : Prop where
  ended : body.fails = false
  declared : ∀ n, contentLength = some n → n ≤ max
  actual : body.chunks.flatten.length ≤ max

theorem readBodyLimited_eq_ok {body : BodyStream} {len : Option Nat} {max : Nat} {bs : List UInt8} :
    readBodyLimited body len max = .ok bs ↔
      WithinLimit body len max ∧ body.chunks.flatten = bs := by
  have hlen : len.any (max < ·) = true ↔ ¬ ∀ n, len = some n → n ≤ max := by
    cases len <;> simp
  unfold readBodyLimited
  split
  · rename_i hd
    simp only [reduceCtorEq, false_iff, not_and]
    exact fun h => absurd h.declared (hlen.mp hd)
  · rename_i hd
    rw [hlen, not_not] at hd
    cases ht : toBytes max body.chunks body.fails with
    | some b =>
      obtain ⟨hf, hl, rfl⟩ := toBytes_eq_some.mp ht
      simp only [Except.ok.injEq]
      exact ⟨fun h => ⟨⟨hf, hd, hl⟩, h⟩, And.right⟩
    | none =>
      simp only [reduceCtorEq, false_iff, not_and]
      rintro h rfl
      rw [toBytes_eq_some.mpr ⟨h.ended, h.actual, rfl⟩] at ht
      cases ht

theorem code_of_readBodyLimited {body : BodyStream} {len : Option Nat} {max : Nat} {e : ApiError}
    (h : readBodyLimited body len max = .error e) : e.code = .payloadTooLarge := by
  unfold readBodyLimited at h
  split at h
  · cases h
    rfl
  · split at h
    · cases h
    · cases h
      rfl

/-- More than `max` bytes are declared, or come. -/
def OverLimit (body : BodyStream) (contentLength : Option Nat) (max : Nat) : Prop :=
  (∃ n, contentLength = some n ∧ max < n) ∨ max < body.chunks.flatten.length

/-- A body within the limit is read, and one over it, and no other, is refused as too large. -/
structure ReadsOrRefuses (body : BodyStream) (contentLength : Option Nat) (max : Nat) : Prop where
  reads : WithinLimit body contentLength max →
    readBodyLimited body contentLength max = .ok body.chunks.flatten
  refuses : (∃ e, readBodyLimited body contentLength max = .error e ∧ e.code = .payloadTooLarge) ↔
    OverLimit body contentLength max

theorem withinLimit_iff {body : BodyStream} {len : Option Nat} {max : Nat} :
    WithinLimit body len max ↔ body.fails = false ∧ ¬ OverLimit body len max := by
  simp only [OverLimit, not_or, not_exists, not_and, Nat.not_lt]
  exact ⟨fun h => ⟨h.ended, h.declared, h.actual⟩, fun h => ⟨h.1, h.2.1, h.2.2⟩⟩

theorem refused_iff {body : BodyStream} {len : Option Nat} {max : Nat} :
    (∃ e, readBodyLimited body len max = .error e ∧ e.code = .payloadTooLarge) ↔
      ¬ WithinLimit body len max := by
  constructor
  · rintro ⟨e, he, -⟩ h
    rw [readBodyLimited_eq_ok.mpr ⟨h, rfl⟩] at he
    cases he
  · intro h
    cases hr : readBodyLimited body len max with
    | error e => exact ⟨e, rfl, code_of_readBodyLimited hr⟩
    | ok bs => exact absurd (readBodyLimited_eq_ok.mp hr).1 h

/-- **What is too large is told from the rest** unless reading a body within the limit fails. -/
theorem readsOrRefuses_iff (body : BodyStream) (contentLength : Option Nat) (max : Nat) :
    ReadsOrRefuses body contentLength max ↔
      (body.fails = true → OverLimit body contentLength max) := by
  constructor
  · intro h hf
    refine h.refuses.mp (refused_iff.mpr fun hw => ?_)
    cases hw.ended.symm.trans hf
  · intro h
    refine ⟨fun hw => readBodyLimited_eq_ok.mpr ⟨hw, rfl⟩, ?_⟩
    rw [refused_iff, withinLimit_iff, not_and, not_not]
    cases hf : body.fails with
    | true => exact ⟨fun _ => h hf, fun ho hfalse => nomatch hfalse⟩
    | false => exact ⟨fun ho => ho rfl, fun ho _ => ho⟩

/-- Three bytes of ten come and the connection breaks. -/
theorem not_readsOrRefuses_broken :
    (∃ e, readBodyLimited { chunks := [[1, 2, 3]], fails := true } none 10 = .error e ∧
      e.code = .payloadTooLarge ∧ e.message = ("request body exceeds max_body_bytes (10)" : Str)) ∧
    ¬ ReadsOrRefuses { chunks := [[1, 2, 3]], fails := true } none 10 := by
  refine ⟨⟨_, rfl, rfl, by decide +kernel⟩, fun h => ?_⟩
  have hover := h.refuses.mp ⟨_, rfl, rfl⟩
  revert hover
  simp [OverLimit]

/-! ## The model a body names -/

/-- The members of the object a text spells, as `serde_json` hands them out, or its error. -/
abbrev ObjectReader := List UInt8 → Except Str (List (Str × Json))

def validateChatBody (read : ObjectReader) (body : List UInt8) : Except ApiError Str :=
  match read body with
  | .error e =>
    .error { code := .requestInvalid, message := ("body must be a JSON object: " : Str) ++ e }
  | .ok members =>
    match Json.lastOf "model" members with
    | some (.str m) =>
      if m ≠ [] then .ok m
      else .error { code := .requestInvalid, message := "'model' must be a non-empty string" }
    | some _ =>
      .error { code := .requestInvalid, message := "'model' must be a non-empty string" }
    | none => .error { code := .requestInvalid, message := "missing 'model' in request body" }

/-- The body is an object whose last `model` member is the text `m`, not empty. -/
def NamesModel (read : ObjectReader) (body : List UInt8) (m : Str) : Prop :=
  ∃ members, read body = .ok members ∧ Json.lastOf "model" members = some (.str m) ∧ m ≠ []

theorem validateChatBody_eq_ok {read : ObjectReader} {body : List UInt8} {m : Str} :
    validateChatBody read body = .ok m ↔ NamesModel read body m := by
  unfold validateChatBody NamesModel
  cases read body with
  | error e => simp
  | ok members =>
    simp only [Except.ok.injEq, exists_eq_left']
    cases Json.lastOf "model" members with
    | none => simp
    | some v =>
      cases v with
      | str s =>
        by_cases hs : s = []
        · subst hs
          simp only [ne_eq, not_true_eq_false, if_false, reduceCtorEq, Option.some.injEq,
            Json.str.injEq, false_iff, not_and, not_not]
          exact Eq.symm
        · simp only [ne_eq, hs, not_false_eq_true, if_true, Except.ok.injEq, Option.some.injEq,
            Json.str.injEq]
          exact ⟨fun h => ⟨h, h ▸ hs⟩, And.left⟩
      | _ => simp

theorem code_of_validateChatBody {read : ObjectReader} {body : List UInt8} {e : ApiError}
    (h : validateChatBody read body = .error e) : e.code = .requestInvalid := by
  unfold validateChatBody at h
  split at h
  · cases h
    rfl
  · split at h
    · split at h
      · cases h
      · cases h
        rfl
    · cases h
      rfl
    · cases h
      rfl

end Saltnitor.ProxyStream
