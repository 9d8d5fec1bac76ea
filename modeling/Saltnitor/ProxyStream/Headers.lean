import Saltnitor.Http

/-!
# Header forwarding

`forwardableRequestHeaders` and `forwardableResponseHeaders` filter what crosses
the proxy; `upstreamHeaders` are the headers of the request `forward` builds.
RFC 9110 §7.6.1 makes a header hop-by-hop when some member of some `Connection`
line names it (`ConnectionNames`); the code reads the first line only, and only
if it is text. `endToEnd` is the filter the RFC asks for, `FirstLineDecides` the
maps on which the two agree.
-/

namespace Saltnitor.ProxyStream

open Rust Http

/-! ## The code's filters -/

/-- RFC 9110 §7.6.1. -/
def hopByHop : List Str :=
  ["connection", "keep-alive", "proxy-connection", "te", "trailer", "transfer-encoding", "upgrade"]

/-- Never forwarded upstream. -/
def clientCredentials : List Str := ["authorization", "cookie", "proxy-authorization"]

def isHopByHop (name : Str) (connectionHeader : Option Str) : Bool :=
  let n := toAsciiLowercase name
  hopByHop.contains n ||
    connectionHeader.any fun c => (c.splitOn ',').any fun t => eqIgnoreAsciiCase (trim t) n

/-- The first `Connection` line, if it is text. -/
def connectionValue (h : HeaderMap) : Option Str := (h.get .connection).bind HeaderValue.toStr

def forwardableRequestHeaders (h : HeaderMap) : HeaderMap :=
  let conn := connectionValue h
  h.filter fun f =>
    let s := f.1.text
    !isHopByHop s conn && !clientCredentials.contains s && s != ("host" : Str) &&
      s != ("content-length" : Str) && s != ("x-request-id" : Str)

def forwardableResponseHeaders (h : HeaderMap) : HeaderMap :=
  let conn := connectionValue h
  h.filter fun f => !isHopByHop f.1.text conn && f.1.text != ("x-request-id" : Str)

/-- The headers of the request `forward` sends; `none` when the request cannot be built. -/
def upstreamHeaders (upstreamBearer : Option Str) (reqHeaders : HeaderMap) (requestId : Str) :
    Option HeaderMap := do
  let id ← HeaderValue.fromStr requestId
  let h := HeaderMap.append [] .xRequestId id ++ forwardableRequestHeaders reqHeaders
  match upstreamBearer with
  | none => some h
  | some b => (HeaderValue.fromStr (("Bearer " : Str) ++ b)).map (h.append .authorization)

/-! ## The RFC's filter -/

/-- Optional white space of a header value. -/
def isOws (c : Char) : Bool := c == ' ' || c == '\t'

/-- The members of one comma-separated header line. -/
def lineMembers (v : HeaderValue) : List Str := (v.latin1.splitOn ',').map (trimMatches isOws)

def Names (v : HeaderValue) (n : HeaderName) : Prop :=
  ∃ m ∈ lineMembers v, toAsciiLowercase m = n.text

instance (v : HeaderValue) (n : HeaderName) : Decidable (Names v n) :=
  inferInstanceAs (Decidable (∃ m ∈ lineMembers v, _))

/-- Some member of some `Connection` line of `h` is `n`. -/
def ConnectionNames (h : HeaderMap) (n : HeaderName) : Prop := ∃ v ∈ h.getAll .connection, Names v n

instance (h : HeaderMap) (n : HeaderName) : Decidable (ConnectionNames h n) :=
  inferInstanceAs (Decidable (∃ v ∈ h.getAll .connection, _))

/-- What a request never carries upstream. -/
def requestOwned : List Str :=
  clientCredentials ++ (["host", "content-length", "x-request-id"] : List Str)

/-- What a response never carries downstream. -/
def responseOwned : List Str := ["x-request-id"]

/-- `n` is not dropped for its own sake. -/
def Passes (owned : List Str) (n : HeaderName) : Prop := n.text ∉ hopByHop ∧ n.text ∉ owned

instance (owned : List Str) (n : HeaderName) : Decidable (Passes owned n) :=
  inferInstanceAs (Decidable (_ ∧ _))

/-- The end-to-end fields of `h`, in order. -/
def endToEnd (owned : List Str) (h : HeaderMap) : HeaderMap :=
  h.filter fun f => Passes owned f.1 ∧ ¬ ConnectionNames h f.1

/-- The first `Connection` line is text and names `n`. -/
def FirstLineNames (h : HeaderMap) (n : HeaderName) : Prop :=
  ∃ v, h.get .connection = some v ∧ v.isText = true ∧ Names v n

/-- Each field of `h` that some `Connection` line names is named by the first one, which is text. -/
def FirstLineDecides (owned : List Str) (h : HeaderMap) : Prop :=
  ∀ f ∈ h, Passes owned f.1 → ConnectionNames h f.1 → FirstLineNames h f.1

/-! ## Reading a text line -/

theorem isOws_eq_isWhitespace : ∀ n < 256, isVisible (UInt8.ofNat n) = true →
    isWhitespace (Char.ofNat n) = isOws (Char.ofNat n) := by decide +kernel

/-- On a text line, trimming Unicode white space trims optional white space. -/
theorem trim_member {v : HeaderValue} (hv : v.isText = true) {t : Str}
    (ht : t ∈ v.latin1.splitOn ',') : trim t = trimMatches isOws t := by
  refine trimMatches_congr fun c hc => ?_
  obtain ⟨b, hb, rfl⟩ := List.mem_map.mp (mem_of_mem_splitOn ht hc)
  exact isOws_eq_isWhitespace b.toNat b.toNat_lt (by simpa using List.all_eq_true.mp hv b hb)

theorem isHopByHop_none {n : HeaderName} : isHopByHop n.text none = true ↔ n.text ∈ hopByHop := by
  simp [isHopByHop, n.toAsciiLowercase_text]

theorem isHopByHop_some {n : HeaderName} {v : HeaderValue} (hv : v.isText = true) :
    isHopByHop n.text (some v.latin1) = true ↔ n.text ∈ hopByHop ∨ Names v n := by
  have hm : ∀ t ∈ v.latin1.splitOn ',',
      (eqIgnoreAsciiCase (trim t) n.text = true ↔
        toAsciiLowercase (trimMatches isOws t) = n.text) := fun t ht => by
    rw [eqIgnoreAsciiCase_iff, n.toAsciiLowercase_text, trim_member hv ht]
  simp only [isHopByHop, n.toAsciiLowercase_text, Bool.or_eq_true, List.contains_iff_mem,
    Option.any_some, List.any_eq_true, Names, lineMembers, List.mem_map]
  refine or_congr_right ⟨?_, ?_⟩
  · rintro ⟨t, ht, he⟩
    exact ⟨_, ⟨t, ht, rfl⟩, (hm t ht).mp he⟩
  · rintro ⟨_, ⟨t, ht, rfl⟩, he⟩
    exact ⟨t, ht, (hm t ht).mpr he⟩

theorem isHopByHop_iff {h : HeaderMap} {n : HeaderName} :
    isHopByHop n.text (connectionValue h) = true ↔ n.text ∈ hopByHop ∨ FirstLineNames h n := by
  cases hg : h.get .connection with
  | none => simp [connectionValue, FirstLineNames, hg, isHopByHop_none]
  | some v =>
    by_cases hv : v.isText = true
    · have : connectionValue h = some v.latin1 := by simp [connectionValue, hg, HeaderValue.toStr, hv]
      rw [this, isHopByHop_some hv]
      simp [FirstLineNames, hg, hv]
    · have : connectionValue h = none := by simp [connectionValue, hg, HeaderValue.toStr, hv]
      rw [this, isHopByHop_none]
      simp [FirstLineNames, hg, hv]

/-! ## Where the two filters agree -/

theorem FirstLineNames.connectionNames {h : HeaderMap} {n : HeaderName} (hf : FirstLineNames h n) :
    ConnectionNames h n := by
  obtain ⟨v, hg, -, hv⟩ := hf
  exact ⟨v, List.mem_of_head? hg, hv⟩

theorem filter_eq_filter {α : Type*} {p q : α → Bool} {l : List α} :
    l.filter p = l.filter q ↔ ∀ a ∈ l, p a = q a := by
  refine ⟨fun h a ha => ?_, List.filter_congr⟩
  have : a ∈ l.filter p ↔ a ∈ l.filter q := h ▸ Iff.rfl
  rw [List.mem_filter, List.mem_filter] at this
  exact Bool.eq_iff_iff.mpr (by simpa [ha] using this)

/-- A filter that drops the owned names and the first line's names is the RFC's filter exactly
where the first line decides. -/
theorem filter_eq_endToEnd {owned : List Str} {h : HeaderMap}
    {keep : HeaderName × HeaderValue → Bool}
    (hk : ∀ f, keep f = true ↔ Passes owned f.1 ∧ ¬ FirstLineNames h f.1) :
    h.filter keep = endToEnd owned h ↔ FirstLineDecides owned h := by
  rw [endToEnd, filter_eq_filter]
  refine forall₂_congr fun f _ => ?_
  rw [Bool.eq_iff_iff, hk, decide_eq_true_iff]
  refine ⟨fun he hp hc => ?_, fun hd => and_congr_right fun hp => not_congr ⟨?_, hd hp⟩⟩
  · exact by_contra fun hn => (he.mp ⟨hp, hn⟩).2 hc
  · exact FirstLineNames.connectionNames

theorem forwardableRequestHeaders_iff {h : HeaderMap} :
    forwardableRequestHeaders h = endToEnd requestOwned h ↔ FirstLineDecides requestOwned h := by
  refine filter_eq_endToEnd fun f => ?_
  have hh := isHopByHop_iff (h := h) (n := f.1)
  simp only [Bool.and_eq_true, Bool.not_eq_true', ← Bool.not_eq_true, hh, bne_iff_ne, Passes,
    requestOwned, List.contains_iff_mem, List.mem_append, List.mem_cons, List.not_mem_nil, or_false,
    not_or, and_assoc]
  constructor
  · rintro ⟨hop, first, cred, host, len, rid⟩
    exact ⟨hop, cred, host, len, rid, first⟩
  · rintro ⟨hop, cred, host, len, rid, first⟩
    exact ⟨hop, first, cred, host, len, rid⟩

theorem forwardableResponseHeaders_iff {h : HeaderMap} :
    forwardableResponseHeaders h = endToEnd responseOwned h ↔
      FirstLineDecides responseOwned h := by
  refine filter_eq_endToEnd fun f => ?_
  have hh := isHopByHop_iff (h := h) (n := f.1)
  simp only [Bool.and_eq_true, Bool.not_eq_true', ← Bool.not_eq_true, hh, bne_iff_ne, Passes,
    responseOwned, List.mem_cons, List.not_mem_nil, or_false, not_or, and_assoc]
  exact and_congr_right fun _ => and_comm

theorem getAll_forwardableRequestHeaders {h : HeaderMap} {n : HeaderName}
    (hn : n.text ∈ clientCredentials ∨ n.text = ("x-request-id" : Str)) :
    HeaderMap.getAll (forwardableRequestHeaders h) n = [] := by
  rw [HeaderMap.getAll_eq_nil]
  rintro f hf rfl
  have hf := (List.mem_filter.mp hf).2
  simp only [Bool.and_eq_true, Bool.not_eq_true', bne_iff_ne] at hf
  rcases hn with hc | hx
  · rw [List.contains_iff_mem.mpr hc] at hf
    exact absurd hf.1.1.1.2 (by decide)
  · exact hf.2 hx

/-- The upstream credential is the configured bearer and nothing else. -/
theorem authorization_upstream {bearer : Option Str} {req up : HeaderMap} {id : Str}
    (h : upstreamHeaders bearer req id = some up) :
    (up.getAll .authorization).map HeaderValue.bytes =
      (bearer.map fun b => bytes (("Bearer " : Str) ++ b)).toList := by
  have hreq : HeaderMap.getAll (forwardableRequestHeaders req) .authorization = [] :=
    getAll_forwardableRequestHeaders (.inl (by decide))
  have hid : HeaderName.xRequestId ≠ .authorization := by decide
  obtain ⟨v, -, h⟩ := Option.bind_eq_some_iff.mp h
  cases bearer with
  | none =>
    cases h
    simp [HeaderMap.append, hreq, hid]
  | some b =>
    obtain ⟨w, hw, rfl⟩ := Option.map_eq_some_iff.mp h
    rw [Option.map_some, ← HeaderValue.fromStr_bytes hw]
    simp [HeaderMap.append, hreq, hid]

/-- The headers that cross the proxy are exactly the end-to-end ones, in both directions, and the
only credential sent upstream is the configured one. -/
def CrossesExactly (bearer : Option Str) (req resp : HeaderMap) (id : Str) : Prop :=
  forwardableRequestHeaders req = endToEnd requestOwned req ∧
  forwardableResponseHeaders resp = endToEnd responseOwned resp ∧
  ∀ up, upstreamHeaders bearer req id = some up →
    (up.getAll .authorization).map HeaderValue.bytes =
      (bearer.map fun b => bytes (("Bearer " : Str) ++ b)).toList

/-- **Only the first `Connection` line counts.** The filters are the RFC's exactly on the requests
and responses whose first `Connection` line is text and names what the others name. -/
theorem crossesExactly_iff (bearer : Option Str) (req resp : HeaderMap) (id : Str) :
    CrossesExactly bearer req resp id ↔
      FirstLineDecides requestOwned req ∧ FirstLineDecides responseOwned resp := by
  rw [CrossesExactly, forwardableRequestHeaders_iff, forwardableResponseHeaders_iff]
  exact and_congr_right fun _ => and_iff_left fun _ h => authorization_upstream h

/-- A private header named by the second of two `Connection` lines. -/
def twoLines : HeaderMap :=
  [(.connection, ⟨[99, 108, 111, 115, 101], by decide⟩),  -- close
   (.connection, ⟨[120, 45, 107], by decide⟩),  -- x-k
   (⟨"x-k", by decide⟩, .one)]

theorem not_crossesExactly_twoLines : ¬ CrossesExactly none twoLines [] "r" := fun h =>
  absurd h.1 (by decide)

end Saltnitor.ProxyStream
