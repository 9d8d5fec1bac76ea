import Saltnitor.Auth
import Saltnitor.Config.Load

/-!
# The control token

`resolveControlToken` takes the token from the config, from the environment or
from a private key file, and the middleware compares it with what a request
presents. `TokenLaw` says what a configured token is for; it holds of the tokens that are `Usable`,
and not every source makes sure of that.
-/

namespace Saltnitor.Config

open Rust Http Auth

/-! ## Sources -/

structure Metadata where
  isFile : Bool
  mode : Nat
  uid : Nat

/-- The file system, as the daemon's user sees it. -/
structure KeyFiles where
  myUid : Nat
  metadata : Str → Except Str Metadata
  readToString : Str → Except Str Str

/-- `{:04o}`. -/
def octal4 (n : Nat) : Str := (Nat.toDigits 8 n).leftpad 4 '0'

def validateKeyFile (isFile : Bool) (mode ownerUid myUid : Nat) : Except Str Unit :=
  if !isFile then .error "not a regular file"
  else if mode &&& 0o077 ≠ 0 then
    .error (("mode " : Str) ++ octal4 (mode &&& 0o7777) ++
      (" is readable by group or others; chmod 600" : Str))
  else if ownerUid ≠ myUid then
    .error (("owned by uid " : Str) ++ toDec ownerUid ++ (", not the daemon user " : Str) ++
      toDec myUid)
  else .ok ()

/-- The token without the line ends behind it. -/
def tokenText (text : Str) : Str := text.rdropWhile fun c => c == '\n' || c == '\r'

/-- The note for a token in the config itself. -/
def literalNote : Str :=
  ("control_token: a literal secret in config.toml is deprecated; " : Str) ++
    ("use control_token_env or control_token_file (REQ-SEC-003)" : Str)

section Resolve

variable (files : KeyFiles) (cfg : ConfigV1) (file : ConfigPath) (env : Env)

def envToken (name : Str) : Except ConfigError Str :=
  match (env name).filter (· ≠ []) with
  | some v => .ok v
  | none => .error (configError file "control_token_env" "an environment variable with a value"
      (name ++ (" is unset or empty" : Str)))

def fileToken (path : Str) : Except ConfigError Str :=
  let err := configError file "control_token_file"
  match files.metadata path with
  | .error e => .error (err "a readable file" e)
  | .ok m =>
    match validateKeyFile m.isFile m.mode m.uid files.myUid with
    | .error e => .error (err "a private key file" e)
    | .ok () =>
      match files.readToString path with
      | .error e => .error (err "a readable file" e)
      | .ok text =>
        if tokenText text = [] then .error (err "a non-empty token" "empty file")
        else .ok (tokenText text)

/-- How many sources are set. -/
def sources : Nat :=
  [cfg.controlToken.isSome, cfg.controlTokenEnv.isSome, cfg.controlTokenFile.isSome].count true

/-- The token, if one is configured, and the notes with what there is to say about it. -/
def resolveControlToken (notes : List Str) : Except ConfigError (Option Str) × List Str :=
  if 1 < sources cfg then
    (.error (configError file "control_token"
      "exactly one of control_token, control_token_env, control_token_file"
      (toDec (sources cfg) ++ (" set" : Str))), notes)
  else
    match cfg.controlToken, cfg.controlTokenEnv, cfg.controlTokenFile with
    | some t, _, _ => (.ok (some t), notes ++ [literalNote])
    | none, some name, _ => ((envToken file env name).map some, notes)
    | none, none, some path => ((fileToken files file path).map some, notes)
    | none, none, none => (.ok none, notes)

end Resolve

/-! ## What a token is for -/

/-- `Authorization: Bearer t`, as text. -/
def bearerText (t : Str) : Str := ("Bearer " : Str) ++ t

/-- Every credential the request presents is empty. -/
def PresentsNothing (req : Request) : Prop :=
  ∀ x, PresentsBearer req.headers x ∨ PresentsQuery req.uri x → x = []

/-- The token is something, the header that carries it exists and passes every protected route, and
nothing does not. -/
structure TokenLaw (t : Str) : Prop where
  nonempty : t ≠ []
  bearer : ∃ v, HeaderValue.fromStr (bearerText t) = some v ∧
    ∀ (auth : AuthState) (now : Nat) (req : Request) (r : RoutePolicy), auth.token = some t →
      Routed req r → r.auth = .required → req.headers.get .authorization = some v →
      decision auth now req = none
  nothing : ∀ (auth : AuthState) (now : Nat) (req : Request) (r : RoutePolicy),
    auth.token = some t → Routed req r → r.auth = .required → PresentsNothing req →
    decision auth now req ≠ none

/-- Some text, all of it visible, that does not begin with a space. -/
def Presentable (t : Str) : Prop :=
  t ≠ [] ∧ t.head? ≠ some ' ' ∧ ∀ c ∈ t, isVisibleChar c = true

instance (t : Str) : Decidable (Presentable t) := inferInstanceAs (Decidable (_ ∧ _ ∧ _))

theorem bearerText_eq (t : Str) :
    bearerText t = ("Bearer" : Str) ++ List.replicate (0 + 1) ' ' ++ t := by
  have hword : ("Bearer " : Str) = ("Bearer" : Str) ++ List.replicate (0 + 1) ' ' := by
    decide +kernel
  show ("Bearer " : Str) ++ t = _
  rw [hword]

theorem carriesBearer_bearerText {t : Str} :
    CarriesBearer (bearerText t) t ↔ t ≠ [] ∧ t.head? ≠ some ' ' := by
  constructor
  · rintro ⟨scheme, n, -, -, hne, hhead⟩
    exact ⟨hne, hhead⟩
  · rintro ⟨hne, hhead⟩
    exact ⟨_, 0, bearerText_eq t, by decide +kernel, hne, hhead⟩

theorem visible_bearerText {t : Str} :
    (∀ c ∈ bearerText t, isVisibleChar c = true) ↔ ∀ c ∈ t, isVisibleChar c = true := by
  have hb : ∀ c ∈ ("Bearer " : Str), isVisibleChar c = true := by decide +kernel
  constructor
  · intro h c hc
    exact h c (List.mem_append_right _ hc)
  · intro h c hc
    rcases List.mem_append.mp hc with hc | hc
    · exact hb c hc
    · exact h c hc

theorem presentsBearer_bearerText {h : HeaderMap} {v : HeaderValue} {t : Str}
    (hv : HeaderValue.fromStr (bearerText t) = some v) (hh : h.get .authorization = some v) :
    PresentsBearer h t ↔ Presentable t := by
  have hs (value : Str) : v.toStr = some value ↔
      value = bearerText t ∧ ∀ c ∈ t, isVisibleChar c = true := by
    rw [HeaderValue.toStr_of_bytes (HeaderValue.fromStr_bytes hv), visible_bearerText]
  constructor
  · rintro ⟨v', value, hget, hstr, hc⟩
    cases hh.symm.trans hget
    obtain ⟨rfl, hvis⟩ := (hs value).mp hstr
    obtain ⟨hne, hhead⟩ := carriesBearer_bearerText.mp hc
    exact ⟨hne, hhead, hvis⟩
  · rintro ⟨hne, hhead, hvis⟩
    exact ⟨v, _, hh, (hs _).mpr ⟨rfl, hvis⟩, carriesBearer_bearerText.mpr ⟨hne, hhead⟩⟩

theorem tokenLaw_of_presentable {t : Str} (h : Presentable t) : TokenLaw t := by
  obtain ⟨v, hv⟩ := HeaderValue.fromStr_of_visible (visible_bearerText.mpr h.2.2)
  refine ⟨h.1, ⟨v, hv, fun auth now req r ht hr _ hget => ?_⟩, fun auth now req r ht hr hp hn hd => ?_⟩
  · exact decision_eq_none_iff.mpr
      ⟨r, hr, .inr (.inr ⟨t, ht, .inl ((presentsBearer_bearerText hv hget).mpr h)⟩)⟩
  · obtain ⟨r', hr', hc⟩ := decision_eq_none_iff.mp hd
    have hrr : r' = r := policy_path_inj r' hr'.1 r hr.1 (hr'.2.1.trans hr.2.1.symm)
    rw [hrr] at hc
    rcases hc with hc | hc | ⟨t', ht', hc⟩
    · rw [hp] at hc
      cases hc
    · cases ht.symm.trans hc
    · cases ht.symm.trans ht'
      exact h.1 (hn t (hc.imp_right fun hc => hc.2.2.2))

/-- A request for the status, with the given header. -/
def statusRequest (v : HeaderValue) : Request where
  method := .get
  uri := { path := "/v1/status", query := none }
  headers := [(.authorization, v)]

/-- A token that keeps the law is presentable: the status route reads its header. -/
theorem presentable_of_tokenLaw {t : Str} (h : TokenLaw t) : Presentable t := by
  obtain ⟨v, hv, hb⟩ := h.bearer
  obtain ⟨r, hr⟩ : ∃ r, Routed (statusRequest v) r ∧ r.auth = .required := by
    have hget : Method.get ∈ policy[2].methods := by decide
    exact ⟨policy[2], ⟨List.getElem_mem _, rfl, hget⟩, rfl⟩
  have hget : (statusRequest v).headers.get .authorization = some v := rfl
  have hd := hb { token := some t, allowQueryToken := false } 0 (statusRequest v) r rfl hr.1 hr.2 hget
  obtain ⟨r', hr', hc⟩ := decision_eq_none_iff.mp hd
  have hrr : r' = r := policy_path_inj r' hr'.1 r hr.1.1 (hr'.2.1.trans hr.1.2.1.symm)
  rw [hrr] at hc
  rcases hc with hc | hc | ⟨t', ht', hc⟩
  · rw [hr.2] at hc
    cases hc
  · cases hc
  · cases ht'
    rcases hc with hc | ⟨hallow, -⟩
    · exact (presentsBearer_bearerText hv hget).mp hc
    · cases hallow

theorem tokenLaw_iff (t : Str) : TokenLaw t ↔ Presentable t :=
  ⟨presentable_of_tokenLaw, tokenLaw_of_presentable⟩

/-! ## The sources -/

section Sources

variable (files : KeyFiles) (cfg : ConfigV1) (env : Env)

/-- The text of the source that is set is presentable. -/
def Usable : Prop :=
  match cfg.controlToken, cfg.controlTokenEnv, cfg.controlTokenFile with
  | some t, _, _ => Presentable t
  | none, some name, _ => ∀ v ∈ env name, Presentable v
  | none, none, some path => ∀ text, files.readToString path = .ok text → Presentable (tokenText text)
  | none, none, none => True

variable {files cfg env} {file : ConfigPath} {notes notes' : List Str} {t : Str}

theorem envToken_eq_ok {name : Str} (h : envToken file env name = .ok t) : env name = some t := by
  unfold envToken at h
  split at h
  · rename_i v hv
    cases h
    exact (Option.filter_eq_some_iff.mp hv).1
  · cases h

theorem fileToken_eq_ok {path : Str} (h : fileToken files file path = .ok t) :
    ∃ text, files.readToString path = .ok text ∧ tokenText text = t := by
  unfold fileToken at h
  dsimp only at h
  split at h
  · cases h
  split at h
  · cases h
  split at h
  · cases h
  rename_i text htext
  split at h
  · cases h
  cases h
  exact ⟨text, htext, rfl⟩

theorem usable_iff (h : resolveControlToken files cfg file env notes = (.ok (some t), notes')) :
    Usable files cfg env ↔ Presentable t := by
  unfold resolveControlToken at h
  unfold Usable
  split at h
  · cases h
  split at h
  · cases h
    exact Iff.rfl
  · rename_i name _ _
    cases hv : envToken file env name with
    | error e => rw [hv] at h; cases h
    | ok v =>
      rw [hv] at h
      cases h
      rw [envToken_eq_ok hv]
      simp
  · rename_i path _ _ _
    cases hv : fileToken files file path with
    | error e => rw [hv] at h; cases h
    | ok v =>
      rw [hv] at h
      cases h
      obtain ⟨text, htext, rfl⟩ := fileToken_eq_ok hv
      rw [htext]
      simp
  · cases h

/-- **A resolved token keeps the law** exactly when its source gives one that a request can present. -/
theorem tokenLaw_of_resolved
    (h : resolveControlToken files cfg file env notes = (.ok (some t), notes')) :
    TokenLaw t ↔ Usable files cfg env := by
  rw [tokenLaw_iff, usable_iff h]

end Sources

/-! ## A token of each kind -/

/-- No key file, and a directory that is not to be looked into. -/
def sampleKeyFiles : KeyFiles where
  myUid := 1000
  metadata path := if ("/root/" : Str) <+: path then .error "Permission denied (os error 13)"
    else .error "No such file or directory (os error 2)"
  readToString _ := .error "No such file or directory (os error 2)"

def sampleEnv : Env := fun name => if name = ("SALTNITOR_TOKEN" : Str) then some "s3cret" else none

theorem tokenLaw_of_env :
    resolveControlToken sampleKeyFiles { controlTokenEnv := some "SALTNITOR_TOKEN" }
      { shown := "config.toml", parent := some [] } sampleEnv [] = (.ok (some "s3cret"), []) ∧
    TokenLaw "s3cret" := by
  have h : resolveControlToken sampleKeyFiles { controlTokenEnv := some "SALTNITOR_TOKEN" }
      { shown := "config.toml", parent := some [] } sampleEnv [] = (.ok (some "s3cret"), []) := by
    decide +kernel
  refine ⟨h, (tokenLaw_of_resolved h).mpr fun v hv => ?_⟩
  have henv : sampleEnv "SALTNITOR_TOKEN" = some "s3cret" := by decide +kernel
  cases henv.symm.trans hv
  decide +kernel

/-- An empty literal is taken for a token. -/
theorem not_tokenLaw_empty :
    ¬ ∀ (files : KeyFiles) (cfg : ConfigV1) (file : ConfigPath) (env : Env) (notes notes' : List Str)
      (t : Str), resolveControlToken files cfg file env notes = (.ok (some t), notes') →
      TokenLaw t := by
  intro h
  have hempty : resolveControlToken sampleKeyFiles { controlToken := some [] }
      { shown := "config.toml", parent := some [] } sampleEnv [] =
      (.ok (some []), [literalNote]) := by decide +kernel
  exact (h _ _ _ _ _ _ _ hempty).nonempty rfl

end Saltnitor.Config
