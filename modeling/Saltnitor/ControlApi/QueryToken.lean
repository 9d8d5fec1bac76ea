import Mathlib.Data.List.Flatten
import Saltnitor.ControlApi.Service

/-!
# The token in the query

The layer takes `token=` out of the URI of a request whose first `token=` is the
configured one, and of no other: a second one alone, or one beside a good header,
stays. `Redacts` says what the handler should see; `redacts_iff` says when it does.
The parser of the `http` crate and the form reader behind the handler are outside.
-/

namespace Saltnitor.ControlApi

open Rust Http Auth

/-! ## What is outside -/

/-- `str::parse::<Uri>`: a route's path is read back, alone or with a query of legal characters
behind it, up to a length. -/
structure UriReader where
  parse : Str → Option Uri
  queryChar : Char → Bool
  maxLen : Nat
  path : ∀ p ∈ policy, parse p.path = some ⟨p.path, none⟩
  query : ∀ p ∈ policy, ∀ q : Str, (∀ c ∈ q, queryChar c = true) →
    (bytes (p.path ++ '?' :: q)).length ≤ maxLen → parse (p.path ++ '?' :: q) = some ⟨p.path, some q⟩

/-- A URI the reader has read: its query is legal and not too long. -/
def UriReader.Came (r : UriReader) (uri : Uri) : Prop :=
  ∀ q, uri.query = some q → (∀ c ∈ q, r.queryChar c = true) ∧
    (bytes (uri.path ++ '?' :: q)).length ≤ r.maxLen

/-- The parameters of the raw query. -/
def params (uri : Uri) : List Str :=
  match uri.query with
  | none => []
  | some q => q.splitOn '&'

/-- `Query<EnsureRequest>`: each parameter is decoded on both sides of its first `=`, and only
`profile` and `force` are read, in order. -/
structure FormReader where
  /-- `+` and `%XX`. -/
  decode : Str → Str
  read : List (Str × Str) → Except Str EnsureRequest
  plain : decode ("token" : Str) = ("token" : Str)

namespace FormReader

def pair (r : FormReader) (kv : Str) : Str × Str :=
  match splitOnce '=' kv with
  | some (name, value) => (r.decode name, r.decode value)
  | none => (r.decode kv, [])

def query (r : FormReader) (uri : Uri) : Except Str EnsureRequest :=
  r.read (((params uri).map r.pair).filter fun p => p.1 = ("profile" : Str) ∨ p.1 = ("force" : Str))

end FormReader

/-! ## The layer with its parser -/

/-- `strip_query_token`, with the parser it ends in. -/
def stripQueryTokenBy (parse : Str → Option Uri) (uri : Uri) : Uri :=
  match uri.query with
  | none => uri
  | some q =>
    let kept := (q.splitOn '&').filter fun kv => !List.isPrefixOf ("token=" : Str) kv
    let pq := if kept.isEmpty then uri.path else uri.path ++ '?' :: ['&'].intercalate kept
    (parse pq).getD uri

/-- The request as the handler sees it. -/
def passedBy (parse : Str → Option Uri) (auth : AuthState) (req : Request) : Request :=
  if queryValid auth req then { req with uri := stripQueryTokenBy parse req.uri } else req

/-! ### The parser never fails -/

/-- Leaving out pieces leaves out characters. -/
theorem intercalate_sublist {α : Type*} {c : α} {xs ys : List (List α)} (h : xs.Sublist ys) :
    ([c].intercalate xs).Sublist ([c].intercalate ys) := by
  induction h with
  | slnil => exact .refl _
  | @cons xs ys a h ih =>
    by_cases hys : ys = []
    · subst hys
      rw [List.sublist_nil.mp h]
      exact List.nil_sublist _
    · rw [List.intercalate_cons_of_ne_nil hys]
      exact ih.trans (List.sublist_append_right ..)
  | @cons_cons xs ys a h ih =>
    by_cases hys : ys = []
    · subst hys
      rw [List.sublist_nil.mp h]
    · rw [List.intercalate_cons_of_ne_nil hys]
      by_cases hxs : xs = []
      · subst hxs
        rw [List.intercalate_singleton, List.append_assoc]
        exact List.sublist_append_left ..
      · rw [List.intercalate_cons_of_ne_nil hxs]
        exact (List.Sublist.refl _).append ih

theorem stripQueryTokenBy_eq {r : UriReader} {uri : Uri} (hp : ∃ p ∈ policy, p.path = uri.path)
    (hc : r.Came uri) : stripQueryTokenBy r.parse uri = stripQueryToken uri := by
  obtain ⟨p, hpol, hpath⟩ := hp
  unfold stripQueryTokenBy stripQueryToken
  cases hq : uri.query with
  | none => rfl
  | some q =>
    dsimp only
    split
    · rw [← hpath, r.path p hpol]
      rfl
    · obtain ⟨hchars, hlen⟩ := hc q hq
      have hsub := intercalate_sublist (c := '&')
        (List.filter_sublist (p := fun kv => !List.isPrefixOf ("token=" : Str) kv) (l := q.splitOn '&'))
      rw [List.intercalate_splitOn] at hsub
      have hfit := ((List.Sublist.refl p.path).append (hsub.cons_cons '?')).flatMap String.utf8EncodeChar
      rw [← hpath] at hlen ⊢
      rw [r.query p hpol _ (fun c hm => hchars c (hsub.subset hm)) (hfit.length_le.trans hlen)]
      rfl

theorem exists_policy {auth : AuthState} {now : Nat} {req : Request}
    (h : decision auth now req = none) : ∃ p ∈ policy, p.path = req.uri.path := by
  obtain ⟨p, ⟨hp, hpath, -⟩, -⟩ := decision_eq_none_iff.mp h
  exact ⟨p, hp, hpath⟩

theorem middleware_passedBy {r : UriReader} {auth : AuthState} {now : Nat} {req : Request}
    (hc : r.Came req.uri) (h : decision auth now req = none) :
    (middleware auth now req).2.2 = .pass (passedBy r.parse auth req) := by
  obtain ⟨p, hr, hcred⟩ := decision_eq_none_iff.mp h
  rw [middleware_admitted hr hcred, passed, passedBy, stripQueryTokenBy_eq (exists_policy h) hc]

/-! ## What the handler should see -/

def isToken (kv : Str) : Bool := List.isPrefixOf ("token=" : Str) kv

/-- No token, everything else as it came, and the same request to ensure. -/
structure Redacts (form : FormReader) (req seen : Request) : Prop where
  noToken : ∀ kv ∈ params seen.uri, isToken kv = false
  path : seen.uri.path = req.uri.path
  others : (params seen.uri).filter (!isToken ·) = (params req.uri).filter (!isToken ·)
  ensure : form.query seen.uri = form.query req.uri

theorem FormReader.query_filter (form : FormReader) (uri : Uri) :
    form.query uri = form.read ((((params uri).filter (!isToken ·)).map form.pair).filter
      fun p => p.1 = ("profile" : Str) ∨ p.1 = ("force" : Str)) := by
  have hname {kv : Str} (h : isToken kv = true) : (form.pair kv).1 = ("token" : Str) := by
    obtain ⟨v, rfl⟩ := List.isPrefixOf_iff_prefix.mp h
    have hsplit : splitOnce '=' (("token=" : Str) ++ v) = some (("token" : Str), v) :=
      splitOnce_append (a := ("token" : Str)) (b := v) (by decide)
    rw [FormReader.pair, hsplit]
    exact form.plain
  have hother : ¬ (("token" : Str) = ("profile" : Str) ∨ ("token" : Str) = ("force" : Str)) := by
    decide
  rw [FormReader.query, List.filter_map, List.filter_map, List.filter_filter]
  congr 2
  refine List.filter_congr fun kv _ => ?_
  cases ht : isToken kv with
  | false => rw [Bool.not_false, Bool.and_true]
  | true => rw [Function.comp_apply, hname ht, decide_eq_false hother, Bool.false_and]

theorem params_strip (uri : Uri) :
    params (stripQueryToken uri) = (params uri).filter (!isToken ·) := by
  unfold stripQueryToken
  cases hq : uri.query with
  | none => simp [params, hq]
  | some q =>
    rw [show params uri = q.splitOn '&' by rw [params, hq]]
    dsimp only
    split
    · rename_i he
      exact (List.isEmpty_iff.mp he).symm
    · rename_i he
      rw [List.isEmpty_iff] at he
      exact List.splitOn_intercalate '&'
        (fun kv hkv => not_mem_of_mem_splitOn (List.mem_of_mem_filter hkv)) he

theorem path_strip (uri : Uri) : (stripQueryToken uri).path = uri.path := by
  unfold stripQueryToken
  split <;> rfl

theorem redacts_strip (form : FormReader) (req : Request) :
    Redacts form req { req with uri := stripQueryToken req.uri } where
  noToken kv hkv := by
    rw [params_strip] at hkv
    simpa using (List.mem_filter.mp hkv).2
  path := path_strip req.uri
  others := by simp only [params_strip, List.filter_filter, Bool.and_self]
  ensure := by
    rw [form.query_filter, form.query_filter]
    simp only [params_strip, List.filter_filter, Bool.and_self]

/-- **The handler sees no token if and only if there is none in the query, or the first one is the
configured token**; its path, the other parameters and what they ask for are then as they came. -/
theorem redacts_iff (uris : UriReader) (form : FormReader) {auth : AuthState} {now : Nat}
    {req : Request} (hc : uris.Came req.uri) (h : decision auth now req = none) :
    (middleware auth now req).2.2 = .pass (passedBy uris.parse auth req) ∧
      (Redacts form req (passedBy uris.parse auth req) ↔
        (∀ kv ∈ params req.uri, isToken kv = false) ∨
          ∃ t, auth.token = some t ∧ PresentsQuery req.uri t) := by
  refine ⟨middleware_passedBy hc h, ?_⟩
  rw [← queryValid_iff, passedBy, stripQueryTokenBy_eq (exists_policy h) hc]
  by_cases hv : queryValid auth req = true
  · rw [if_pos hv]
    exact iff_of_true (redacts_strip form req) (.inr hv)
  · rw [if_neg hv, or_iff_left hv]
    exact ⟨fun hr => hr.noToken, fun hn => ⟨hn, rfl, rfl, rfl⟩⟩

/-! ### Two tokens beside a header -/

/-- A reader of paths and queries without fragments. -/
def plainUris : UriReader where
  parse s :=
    match splitOnce '?' s with
    | some (path, query) => some ⟨path, some query⟩
    | none => some ⟨s, none⟩
  queryChar c := isVisibleChar c && c != ' ' && c != '#'
  maxLen := 65534
  path := by decide +kernel
  query p hp q _ _ := by
    have hn : ∀ p ∈ policy, '?' ∉ p.path := by decide +kernel
    rw [splitOnce_append (hn p hp)]

/-- A reader of parameters without escapes: the last profile. -/
def plainForm : FormReader where
  decode s := s
  read ps :=
    match Json.lastOf ("profile" : Str) ps with
    | some profile => .ok { profile }
    | none => .error "Failed to deserialize query string: missing field \u0060profile\u0060"
  plain := rfl

def tokenAuth : AuthState where
  token := some "s3cr3t"
  allowQueryToken := true

def streamRequest (query : Str) : Request where
  method := .get
  uri := ⟨"/v1/ensure/stream", some query⟩
  headers := [(.authorization, ⟨bytes "Bearer s3cr3t", by decide +kernel⟩)]

theorem redacts_first :
    ¬ (∀ kv ∈ params (streamRequest "profile=A&token=s3cr3t&token=old").uri, isToken kv = false) ∧
      Redacts plainForm (streamRequest "profile=A&token=s3cr3t&token=old")
        (passedBy plainUris.parse tokenAuth (streamRequest "profile=A&token=s3cr3t&token=old")) := by
  refine ⟨by decide +kernel, (@redacts_iff plainUris plainForm _ 0 _ ?_ ?_).2.mpr (.inr ?_)⟩
  · rintro q ⟨⟩
    exact ⟨by decide +kernel, by decide +kernel⟩
  · decide +kernel
  · rw [← queryValid_iff]
    decide +kernel

/-- An old token in front of the configured one: the handler sees both. -/
theorem not_redacts_second :
    decision tokenAuth 0 (streamRequest "profile=A&token=old&token=s3cr3t") = none ∧
      ¬ Redacts plainForm (streamRequest "profile=A&token=old&token=s3cr3t")
        (passedBy plainUris.parse tokenAuth (streamRequest "profile=A&token=old&token=s3cr3t")) := by
  refine ⟨by decide +kernel, fun h => ?_⟩
  have hseen : ("token=s3cr3t" : Str) ∈ params (passedBy plainUris.parse tokenAuth
      (streamRequest "profile=A&token=old&token=s3cr3t")).uri := by decide +kernel
  exact absurd (h.noToken _ hseen) (by decide +kernel)

end Saltnitor.ControlApi
