import Saltnitor.Config.Token

/-!
# What a start fails with

A config that deserializes is checked, its paths are expanded and its token is resolved; the first of
these that goes wrong is told. A `Fault` is what is told. `StartFault` says which one it is by what
the config, the environment and the key files are, and faults that differ print differently
(`Fault.render_inj`).
-/

namespace Saltnitor.Config

open Rust

/-! ## Faults -/

theorem render_configError (file : ConfigPath) (key expected found : Str) :
    (configError file key expected found).unplaced.render = file.shown ++ (": " : Str) ++
      (if key = [] then [] else key ++ (": " : Str)) ++ ("expected " : Str) ++
      (expected ++ ((", found " : Str) ++ found)) := by
  simp only [ConfigError.render, ConfigError.unplaced, ConfigError.place, configError,
    List.append_nil, List.append_assoc]
  rfl

theorem render_configError_iff {file : ConfigPath} {key expected found found' : Str} :
    (configError file key expected found).unplaced.render =
      (configError file key expected found').unplaced.render ↔ found = found' := by
  rw [render_configError, render_configError, List.append_right_inj, List.append_right_inj,
    List.append_right_inj]

/-- What a start fails with: the key, what is expected there, and what is found. -/
structure Fault where
  key : Str
  expected : Str
  found : Str

namespace Fault

def error (x : Fault) (file : ConfigPath) : ConfigError := configError file x.key x.expected x.found

/-- The text before what is found. -/
def lead (key expected : Str) : Str :=
  key ++ (": expected " : Str) ++ expected ++ (", found " : Str)

/-- The keys of the faults that can differ, with what is expected. -/
def kinds : List (Str × Str) :=
  [("router_ini", "an expandable path"), ("control_token_file", "an expandable path"),
    ("control_token", "exactly one of control_token, control_token_env, control_token_file"),
    ("control_token_env", "an environment variable with a value"),
    ("control_token_file", "a readable file"), ("control_token_file", "a private key file"),
    ("control_token_file", "a non-empty token")]

theorem eq_of_lead : ∀ p ∈ kinds, p.1 ≠ [] ∧
    ∀ q ∈ kinds, lead p.1 p.2 <+: lead q.1 q.2 → p = q := by decide +kernel

theorem render_error {x : Fault} {file : ConfigPath} (hk : x.key ≠ []) :
    (x.error file).unplaced.render = (file.shown ++ (": " : Str)) ++ (lead x.key x.expected ++ x.found) := by
  rw [error, render_configError, if_neg hk, lead]
  simp only [List.append_assoc]
  rfl

/-- Faults that print alike are the same. -/
theorem render_inj {x y : Fault} {file : ConfigPath} (hx : (x.key, x.expected) ∈ kinds)
    (hy : (y.key, y.expected) ∈ kinds) :
    (x.error file).unplaced.render = (y.error file).unplaced.render ↔ x = y := by
  refine ⟨fun h => ?_, fun h => by rw [h]⟩
  obtain ⟨hkx, hleadx⟩ := eq_of_lead _ hx
  obtain ⟨hky, hleady⟩ := eq_of_lead _ hy
  rw [render_error hkx, render_error hky, List.append_right_inj] at h
  have hpre : lead x.key x.expected <+: lead y.key y.expected ++ y.found := ⟨_, h⟩
  have hkind : (x.key, x.expected) = (y.key, y.expected) := by
    rcases List.prefix_or_prefix_of_prefix hpre (List.prefix_append _ _) with hl | hl
    · exact hleadx _ hy hl
    · exact (hleady _ hx hl).symm
  obtain ⟨hkey, hexpected⟩ := Prod.mk.inj hkind
  rw [hkey, hexpected, List.append_right_inj] at h
  cases x
  cases y
  simp only at hkey hexpected h
  rw [hkey, hexpected, h]

end Fault

/-- The path of a key, where there is one, does not expand. -/
def Unexpandable (file : ConfigPath) (env : Env) (p : Option Str) (why : Str) : Prop :=
  ∃ raw, p = some raw ∧ expandPath raw (file.parent.getD ".") env = .error why

/-- The first path that does not expand. -/
inductive PathFault (file : ConfigPath) (env : Env) (cfg : ConfigV1) : Fault → Prop
  | routerIni {why : Str} (h : Unexpandable file env cfg.routerIni why) :
      PathFault file env cfg ⟨"router_ini", "an expandable path", why⟩
  | controlTokenFile {why : Str} (hini : ∀ why, ¬ Unexpandable file env cfg.routerIni why)
      (h : Unexpandable file env cfg.controlTokenFile why) :
      PathFault file env cfg ⟨"control_token_file", "an expandable path", why⟩

/-- The variable is not set, or empty. -/
def Unset (env : Env) (name : Str) : Prop := ∀ v ∈ env name, v = []

/-- What is wrong with a key file: what is expected of it, and what is there. -/
inductive KeyFault (files : KeyFiles) (path : Str) : Str → Str → Prop
  | unreached {e : Str} (h : files.metadata path = .error e) : KeyFault files path "a readable file" e
  | notPrivate {m : Metadata} {why : Str} (h : files.metadata path = .ok m)
      (hv : validateKeyFile m.isFile m.mode m.uid files.myUid = .error why) :
      KeyFault files path "a private key file" why
  | unreadable {m : Metadata} {e : Str} (h : files.metadata path = .ok m)
      (hv : validateKeyFile m.isFile m.mode m.uid files.myUid = .ok ())
      (hr : files.readToString path = .error e) : KeyFault files path "a readable file" e
  | empty {m : Metadata} {text : Str} (h : files.metadata path = .ok m)
      (hv : validateKeyFile m.isFile m.mode m.uid files.myUid = .ok ())
      (hr : files.readToString path = .ok text) (ht : tokenText text = []) :
      KeyFault files path "a non-empty token" "empty file"

/-- What keeps a validated config from having a token. -/
inductive TokenFault (files : KeyFiles) (cfg : ConfigV1) (env : Env) : Fault → Prop
  | sources (h : 1 < sources cfg) : TokenFault files cfg env ⟨"control_token",
      "exactly one of control_token, control_token_env, control_token_file",
      toDec (sources cfg) ++ (" set" : Str)⟩
  | name {name : Str} (hone : ¬ 1 < sources cfg) (ht : cfg.controlToken = none)
      (hn : cfg.controlTokenEnv = some name) (hu : Unset env name) :
      TokenFault files cfg env ⟨"control_token_env", "an environment variable with a value",
        name ++ (" is unset or empty" : Str)⟩
  | file {path expected found : Str} (ht : cfg.controlToken = none) (hn : cfg.controlTokenEnv = none)
      (hf : cfg.controlTokenFile = some path) (h : KeyFault files path expected found) :
      TokenFault files cfg env ⟨"control_token_file", expected, found⟩

/-- What is checked before any path is expanded. -/
def checked (debug : Str → Str) (file : ConfigPath) (cfg : ConfigV1) : Except ConfigError Unit :=
  checkSchemaVersion file cfg.schemaVersion >>= fun _ => checkRouterBase debug file cfg.routerBase

/-- What a config that deserializes fails with, if the checks before the paths let it through. -/
inductive StartFault (debug : Str → Str) (files : KeyFiles) (file : ConfigPath) (cfg : ConfigV1)
    (env : Env) : Fault → Prop
  | path {x : Fault} (hc : checked debug file cfg = .ok ()) (h : PathFault file env cfg x) :
      StartFault debug files file cfg env x
  | token {x : Fault} {out : ConfigV1} (hv : validate debug cfg file env = .ok out)
      (h : TokenFault files out env x) : StartFault debug files file cfg env x

section Results

variable {ε α β γ : Type} {x : Except ε α}

theorem bind_eq_ok {f : α → Except ε γ} {c : γ} :
    x >>= f = .ok c ↔ ∃ a, x = .ok a ∧ f a = .ok c := by
  cases x with
  | error e => exact ⟨(fun h => nomatch h), fun ⟨_, h, _⟩ => nomatch h⟩
  | ok a => exact ⟨fun h => ⟨a, rfl, h⟩, fun ⟨_, h, hf⟩ => Except.ok.inj h ▸ hf⟩

theorem map_eq_error {f : α → β} {err : ε} : x.map f = .error err ↔ x = .error err := by
  cases x with
  | error _ => exact ⟨fun h => by cases h; rfl, fun h => by cases h; rfl⟩
  | ok _ => exact iff_of_false (fun h => nomatch h) fun h => nomatch h

end Results

section Faults

variable {debug : Str → Str} {files : KeyFiles} {cfg out : ConfigV1} {file : ConfigPath}
  {env : Env} {notes : List Str} {e : ConfigError} {x y : Fault}

/-! ## The paths -/

theorem expandKey_error {key : Str} {p : Option Str} : expandKey file env key p = .error e ↔
    ∃ why, Unexpandable file env p why ∧ e = configError file key "an expandable path" why := by
  cases p with
  | none => exact iff_of_false (fun h => nomatch h) fun ⟨_, ⟨_, h, _⟩, _⟩ => nomatch h
  | some raw =>
    simp only [expandKey, Unexpandable, Option.some.injEq, exists_eq_left']
    cases expandPath raw (file.parent.getD ".") env with
    | ok s => exact iff_of_false (fun h => nomatch h) fun ⟨_, h, _⟩ => nomatch h
    | error why =>
      exact ⟨fun h => ⟨why, rfl, (Except.error.inj h).symm⟩,
        fun ⟨why', h, he⟩ => by rw [he, Except.error.inj h]⟩

theorem validate_of_checked (hc : checked debug file cfg = .ok ()) : validate debug cfg file env =
    (expandKey file env "router_ini" cfg.routerIni >>= fun routerIni =>
      expandKey file env "control_token_file" cfg.controlTokenFile >>= fun controlTokenFile =>
        .ok { cfg with routerIni, controlTokenFile }) := by
  obtain ⟨⟨⟩, hs, hr⟩ := bind_eq_ok.mp hc
  rw [validate, hs, hr]
  rfl

theorem validate_of_unchecked (hc : checked debug file cfg = .error e) :
    validate debug cfg file env = .error e := by
  cases hs : checkSchemaVersion file cfg.schemaVersion with
  | error e' =>
    rw [checked, hs] at hc
    rw [validate, hs]
    cases hc
    rfl
  | ok u =>
    rw [checked, hs] at hc
    rw [validate, hs]
    change checkRouterBase debug file cfg.routerBase = _ at hc
    change (checkRouterBase debug file cfg.routerBase >>= _) = _
    rw [hc]
    rfl

theorem checked_of_validate (h : validate debug cfg file env = .ok out) :
    checked debug file cfg = .ok () := by
  unfold validate at h
  obtain ⟨⟨⟩, hs, h⟩ := bind_eq_ok.mp h
  obtain ⟨⟨⟩, hr, -⟩ := bind_eq_ok.mp h
  exact bind_eq_ok.mpr ⟨(), hs, hr⟩

theorem validate_ok (h : validate debug cfg file env = .ok out) :
    out.controlToken = cfg.controlToken ∧ out.controlTokenEnv = cfg.controlTokenEnv ∧
      expandKey file env "control_token_file" cfg.controlTokenFile = .ok out.controlTokenFile := by
  unfold validate at h
  obtain ⟨-, -, h⟩ := bind_eq_ok.mp h
  obtain ⟨-, -, h⟩ := bind_eq_ok.mp h
  obtain ⟨routerIni, -, h⟩ := bind_eq_ok.mp h
  obtain ⟨controlTokenFile, hf, h⟩ := bind_eq_ok.mp h
  cases h
  exact ⟨rfl, rfl, hf⟩

theorem isSome_expandKey {key : Str} {p q : Option Str}
    (h : expandKey file env key p = .ok q) : q.isSome = p.isSome := by
  unfold expandKey at h
  split at h
  · cases h
    rfl
  · split at h
    · cases h
      rfl
    · cases h

theorem validate_error (hc : checked debug file cfg = .ok ()) :
    validate debug cfg file env = .error e ↔ ∃ x, PathFault file env cfg x ∧ e = x.error file := by
  rw [validate_of_checked hc]
  cases hi : expandKey file env "router_ini" cfg.routerIni with
  | error e' =>
    obtain ⟨why, hu, rfl⟩ := expandKey_error.mp hi
    constructor
    · intro h
      exact ⟨_, .routerIni hu, (Except.error.inj h).symm⟩
    · rintro ⟨x, hx, rfl⟩
      cases hx with
      | routerIni h =>
        exact congrArg _ (Except.error.inj (hi.symm.trans (expandKey_error.mpr ⟨_, h, rfl⟩)))
      | controlTokenFile hini => exact absurd hu (hini why)
  | ok routerIni =>
    have hini (why : Str) : ¬ Unexpandable file env cfg.routerIni why := by
      intro h
      cases hi.symm.trans (expandKey_error.mpr ⟨why, h, rfl⟩)
    have hstep : ((Except.ok routerIni : Except ConfigError (Option Str)) >>= fun routerIni =>
        expandKey file env "control_token_file" cfg.controlTokenFile >>= fun controlTokenFile =>
          Except.ok { cfg with routerIni, controlTokenFile }) = .error e ↔
        expandKey file env "control_token_file" cfg.controlTokenFile = .error e := by
      change (expandKey file env "control_token_file" cfg.controlTokenFile >>= _) = _ ↔ _
      cases expandKey file env "control_token_file" cfg.controlTokenFile with
      | ok q => exact iff_of_false (fun h => nomatch h) fun h => nomatch h
      | error e' => exact ⟨fun h => by cases h; rfl, fun h => by cases h; rfl⟩
    rw [hstep, expandKey_error]
    constructor
    · rintro ⟨why, hu, rfl⟩
      exact ⟨_, .controlTokenFile hini hu, rfl⟩
    · rintro ⟨x, hx, rfl⟩
      cases hx with
      | routerIni h => exact absurd h (hini _)
      | controlTokenFile _ h => exact ⟨_, h, rfl⟩

/-! ## The token -/

theorem envToken_error {name : Str} :
    envToken file env name = .error e ↔ Unset env name ∧
      e = configError file "control_token_env" "an environment variable with a value"
        (name ++ (" is unset or empty" : Str)) := by
  have hfilter : (env name).filter (· ≠ []) = none ↔ Unset env name := by
    simp [Unset, Option.filter_eq_none_iff]
  unfold envToken
  split
  · rename_i v hv
    refine iff_of_false (fun h => nomatch h) fun h => ?_
    rw [hfilter.mpr h.1] at hv
    cases hv
  · rename_i hv
    exact ⟨fun h => ⟨hfilter.mp hv, (Except.error.inj h).symm⟩, fun h => h.2 ▸ rfl⟩

theorem fileToken_error {path : Str} :
    fileToken files file path = .error e ↔ ∃ expected found, KeyFault files path expected found ∧
      e = configError file "control_token_file" expected found := by
  constructor
  · intro h
    unfold fileToken at h
    cases hm : files.metadata path with
    | error why =>
      rw [hm] at h
      exact ⟨_, _, .unreached hm, (Except.error.inj h).symm⟩
    | ok m =>
      rw [hm] at h
      cases hv : validateKeyFile m.isFile m.mode m.uid files.myUid with
      | error why =>
        simp only [hv] at h
        exact ⟨_, _, .notPrivate hm hv, (Except.error.inj h).symm⟩
      | ok =>
        cases hr : files.readToString path with
        | error why =>
          simp only [hv, hr] at h
          exact ⟨_, _, .unreadable hm hv hr, (Except.error.inj h).symm⟩
        | ok text =>
          simp only [hv, hr] at h
          split at h
          · rename_i ht
            exact ⟨_, _, .empty hm hv hr ht, (Except.error.inj h).symm⟩
          · cases h
  · rintro ⟨expected, found, hf, rfl⟩
    unfold fileToken
    cases hf with
    | unreached h => rw [h]
    | notPrivate h hv => simp only [h, hv]
    | unreadable h hv hr => simp only [h, hv, hr]
    | empty h hv hr ht => simp only [h, hv, hr, ht, if_true]

theorem sources_eq (cfg : ConfigV1) : sources cfg = cfg.controlToken.isSome.toNat +
    cfg.controlTokenEnv.isSome.toNat + cfg.controlTokenFile.isSome.toNat := by
  unfold sources
  cases cfg.controlToken.isSome <;> cases cfg.controlTokenEnv.isSome <;>
    cases cfg.controlTokenFile.isSome <;> rfl

theorem resolve_error : (resolveControlToken files cfg file env notes).1 = .error e ↔
    ∃ x, TokenFault files cfg env x ∧ e = x.error file := by
  unfold resolveControlToken
  by_cases hone : 1 < sources cfg
  · rw [if_pos hone]
    refine ⟨fun h => ⟨_, .sources hone, (Except.error.inj h).symm⟩, ?_⟩
    rintro ⟨x, hx, rfl⟩
    cases hx with
    | sources => rfl
    | name h => exact absurd hone h
    | file ht hn hf => exact absurd hone (by simp [sources_eq, ht, hn, hf])
  rw [if_neg hone]
  cases hct : cfg.controlToken with
  | some t =>
    refine iff_of_false (fun h => nomatch h) ?_
    rintro ⟨x, hx, -⟩
    cases hx with
    | sources h => exact hone h
    | name _ ht => cases hct.symm.trans ht
    | file ht => cases hct.symm.trans ht
  | none =>
  cases hce : cfg.controlTokenEnv with
  | some name =>
    refine map_eq_error.trans (envToken_error.trans ⟨fun h => ⟨_, .name hone hct hce h.1, h.2⟩, ?_⟩)
    rintro ⟨x, hx, rfl⟩
    cases hx with
    | sources h => exact absurd h hone
    | name _ _ hn hu =>
      cases hce.symm.trans hn
      exact ⟨hu, rfl⟩
    | file _ hn => cases hce.symm.trans hn
  | none =>
  cases hcf : cfg.controlTokenFile with
  | some path =>
    refine map_eq_error.trans (fileToken_error.trans ⟨?_, ?_⟩)
    · rintro ⟨expected, found, hk, he⟩
      exact ⟨_, .file hct hce hcf hk, he⟩
    · rintro ⟨x, hx, rfl⟩
      cases hx with
      | sources h => exact absurd h hone
      | name _ _ hn => cases hce.symm.trans hn
      | file _ _ hf hk =>
        cases hcf.symm.trans hf
        exact ⟨_, _, hk, rfl⟩
  | none =>
    refine iff_of_false (fun h => nomatch h) ?_
    rintro ⟨x, hx, -⟩
    cases hx with
    | sources h => exact hone h
    | name _ _ hn => cases hce.symm.trans hn
    | file _ _ hf => cases hcf.symm.trans hf

/-- An error leaves the notes, a token that stands in the config is noted. -/
theorem resolve_notes :
    (∀ e, (resolveControlToken files cfg file env notes).1 = .error e →
      (resolveControlToken files cfg file env notes).2 = notes) ∧
    ∀ t, (resolveControlToken files cfg file env notes).1 = .ok t →
      (resolveControlToken files cfg file env notes).2 =
        if cfg.controlToken.isSome then notes ++ [literalNote] else notes := by
  unfold resolveControlToken
  by_cases hone : 1 < sources cfg
  · rw [if_pos hone]
    exact ⟨fun _ _ => rfl, (fun _ h => nomatch h)⟩
  · rw [if_neg hone]
    cases hct : cfg.controlToken with
    | some t => exact ⟨(fun _ h => nomatch h), fun _ _ => rfl⟩
    | none =>
      cases cfg.controlTokenEnv with
      | some name => exact ⟨fun _ _ => rfl, fun _ _ => rfl⟩
      | none =>
        cases cfg.controlTokenFile with
        | some path => exact ⟨fun _ _ => rfl, fun _ _ => rfl⟩
        | none => exact ⟨fun _ _ => rfl, fun _ _ => rfl⟩

/-! ## The whole start -/

theorem PathFault.mem (h : PathFault file env cfg x) : (x.key, x.expected) ∈ Fault.kinds := by
  cases h with
  | routerIni => exact List.mem_of_getElem? (i := 0) rfl
  | controlTokenFile => exact List.mem_of_getElem? (i := 1) rfl

theorem TokenFault.mem (h : TokenFault files cfg env x) : (x.key, x.expected) ∈ Fault.kinds := by
  cases h with
  | sources => exact List.mem_of_getElem? (i := 2) rfl
  | name => exact List.mem_of_getElem? (i := 3) rfl
  | file _ _ _ h =>
    cases h with
    | unreached | unreadable => exact List.mem_of_getElem? (i := 4) rfl
    | notPrivate => exact List.mem_of_getElem? (i := 5) rfl
    | empty => exact List.mem_of_getElem? (i := 6) rfl

theorem StartFault.mem (h : StartFault debug files file cfg env x) :
    (x.key, x.expected) ∈ Fault.kinds := by
  cases h with
  | path _ h => exact h.mem
  | token _ h => exact h.mem

theorem StartFault.checked (h : StartFault debug files file cfg env x) :
    Config.checked debug file cfg = .ok () := by
  cases h with
  | path hc => exact hc
  | token hv => exact checked_of_validate hv

theorem Unexpandable.unique {p : Option Str} {why why' : Str} (h : Unexpandable file env p why)
    (h' : Unexpandable file env p why') : why = why' := by
  obtain ⟨raw, rfl, hr⟩ := h
  obtain ⟨raw', heq, hr'⟩ := h'
  cases heq
  exact Except.error.inj (hr.symm.trans hr')

/-- A path that goes wrong is all that goes wrong. -/
theorem StartFault.eq_of_path (hp : PathFault file env cfg x)
    (h : StartFault debug files file cfg env y) : y = x := by
  cases h with
  | token hv =>
    cases hv.symm.trans ((validate_error (checked_of_validate hv)).mpr ⟨x, hp, rfl⟩)
  | path _ hq =>
    cases hp with
    | routerIni h =>
      cases hq with
      | routerIni h' => rw [h.unique h']
      | controlTokenFile hini => exact absurd h (hini _)
    | controlTokenFile hini h =>
      cases hq with
      | routerIni h' => exact absurd h' (hini _)
      | controlTokenFile _ h' => rw [h.unique h']

end Faults

end Saltnitor.Config
