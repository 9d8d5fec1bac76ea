import Mathlib.Data.List.Forall2
import Saltnitor.Config.Faults

/-!
# Diagnostics and secrets

Two configs that differ in nothing but the values of the keys that hold a credential, or name
where one lives, should start alike: the same diagnostic, the same notes. They do, step by step,
except where a diagnostic prints such a value: the name of an unset variable, what was found
under `client_key_env`, what is wrong with the key file a path leads to, and the variable that a
credential in `HOME` names.
-/

namespace Saltnitor.Config

open Rust

/-! ## Results with the same error -/

/-- Both fail with the same error, or neither fails. -/
inductive EqErr {ε α β : Type} : Except ε α → Except ε β → Prop
  | error (e : ε) : EqErr (.error e) (.error e)
  | ok (a : α) (b : β) : EqErr (.ok a) (.ok b)

section EqErr

variable {ε α β γ δ : Type} {x : Except ε α} {x' : Except ε β}

theorem EqErr.refl (x : Except ε α) : EqErr x x := by
  cases x with
  | error e => exact .error e
  | ok a => exact .ok a a

theorem EqErr.bind {f : α → Except ε γ} {f' : β → Except ε δ} (h : EqErr x x')
    (hf : ∀ a b, x = .ok a → x' = .ok b → EqErr (f a) (f' b)) : EqErr (x >>= f) (x' >>= f') := by
  cases h with
  | error e => exact .error e
  | ok a b => exact hf a b rfl rfl

theorem EqErr.map (h : EqErr x x') (f : α → γ) (f' : β → δ) : EqErr (x.map f) (x'.map f') := by
  cases h with
  | error e => exact .error e
  | ok a b => exact .ok _ _

theorem exists_of_isSome_eq {p : Option α} {q : Option β} {a : α} (h : p.isSome = q.isSome)
    (hp : p = some a) : ∃ b, q = some b := by
  rw [hp] at h
  exact Option.isSome_iff_exists.mp h.symm

theorem none_of_isSome_eq {p : Option α} {q : Option β} (h : p.isSome = q.isSome)
    (hp : p = none) : q = none := by
  rw [hp] at h
  exact Option.isNone_iff_eq_none.mp (Option.not_isSome q ▸ h ▸ rfl)

end EqErr

/-! ## Paths -/

section Paths

variable {env env' : Env}

/-- Which variables are undefined depends on which are set. -/
theorem eqErr_expandVars (h : ∀ v, (env v).isSome = (env' v).isSome) (s : Str) (skip : Nat) :
    EqErr (expandVars env s skip) (expandVars env' s skip) := by
  induction s generalizing skip with
  | nil => exact .refl _
  | cons c s ih =>
    cases skip with
    | succ skip => exact ih skip
    | zero =>
      unfold expandVars
      split
      · refine (EqErr.refl (variableName s)).bind fun a b ha hb => ?_
        cases ha.symm.trans hb
        dsimp only
        split
        · exact .error _
        · have hname := h a.1
          cases hv : env a.1 with
          | none =>
            cases hv' : env' a.1 with
            | none => exact .error _
            | some v' => rw [hv, hv'] at hname; cases hname
          | some v =>
            cases hv' : env' a.1 with
            | none => rw [hv, hv'] at hname; cases hname
            | some v' => exact (ih a.2).bind fun _ _ _ _ => .ok _ _
      · exact (ih 0).bind fun _ _ _ _ => .ok _ _

theorem expandVars_append {t : Str} (ht : '$' ∉ t) (s : Str) :
    expandVars env (t ++ s) 0 = (expandVars env s 0).map (t ++ ·) := by
  induction t with
  | nil => cases h : expandVars env s 0 <;> simp [h, Except.map]
  | cons c t ih =>
    have hc : c ≠ '$' := fun he => ht (he ▸ List.mem_cons_self ..)
    rw [List.cons_append, expandVars, if_neg hc, ih fun hm => ht (List.mem_cons_of_mem _ hm)]
    cases expandVars env s 0 <;> rfl

/-- The values of `HOME` expand alike: they are the same, or hold no variable. -/
def HomeAlike (env env' : Env) : Prop :=
  env "HOME" = env' "HOME" ∨ ∀ home, env "HOME" = some home ∨ env' "HOME" = some home → '$' ∉ home

theorem eqErr_expandPath (h : ∀ v, (env v).isSome = (env' v).isSome) (hh : HomeAlike env env')
    (raw base : Str) : EqErr (expandPath raw base env) (expandPath raw base env') := by
  unfold expandPath expandHome
  split
  · cases hv : env "HOME" with
    | none =>
      rw [none_of_isSome_eq (h "HOME") hv]
      exact .error _
    | some home =>
      obtain ⟨home', hv'⟩ := exists_of_isSome_eq (h "HOME") hv
      rw [hv']
      have hexp : EqErr (expandVars env (home ++ raw.drop 1) 0)
          (expandVars env' (home' ++ raw.drop 1) 0) := by
        rcases hh with hh | hh
        · rw [hv, hv'] at hh
          cases hh
          exact eqErr_expandVars h _ 0
        · rw [expandVars_append (hh home (.inl hv)), expandVars_append (hh home' (.inr hv'))]
          exact (eqErr_expandVars h _ 0).map _ _
      exact hexp.bind fun _ _ _ _ => .ok _ _
  · exact (eqErr_expandVars h raw 0).bind fun _ _ _ _ => .ok _ _

end Paths

/-! ## Validation -/

/-- The configs have the same keys that validation looks at. -/
structure SameRest (cfg cfg' : ConfigV1) : Prop where
  schemaVersion : cfg.schemaVersion = cfg'.schemaVersion
  routerBase : cfg.routerBase = cfg'.routerBase
  routerIni : cfg.routerIni = cfg'.routerIni
  controlTokenFile : cfg.controlTokenFile = cfg'.controlTokenFile

theorem SameRest.checked {cfg cfg' : ConfigV1} (h : SameRest cfg cfg') (debug : Str → Str)
    (file : ConfigPath) : checked debug file cfg = Config.checked debug file cfg' := by
  rw [Config.checked, Config.checked, h.schemaVersion, h.routerBase]

/-! ## Two documents -/

/-- The keys that hold a credential or name where one lives. -/
def secretKeys : List Str := ["control_token", "infer_bearer", "control_token_env", "client_key_env"]

/-- The values are the same, or of one type under a key of `secretKeys`. -/
def SameButSecret (key : Str) (v v' : Toml) : Prop := v = v' ∨ key ∈ secretKeys ∧ v.kind = v'.kind

def Entry.Alike (e e' : Entry) : Prop := e.key = e'.key ∧ SameButSecret e.key e.value e'.value

/-- The documents differ in nothing but the values of secret keys. -/
def Alike (d d' : List Entry) : Prop := List.Forall₂ Entry.Alike d d'

section Documents

variable {d d' : List Entry}

theorem SameButSecret.kind {key : Str} {v v' : Toml} (h : SameButSecret key v v') :
    v.kind = v'.kind := by
  rcases h with rfl | ⟨-, h⟩
  · rfl
  · exact h

theorem Alike.valueOf (h : Alike d d') (key : Str) :
    valueOf d key = none ∧ valueOf d' key = none ∨
      ∃ v v', valueOf d key = some v ∧ valueOf d' key = some v' ∧ SameButSecret key v v' := by
  induction h with
  | nil => exact .inl ⟨rfl, rfl⟩
  | @cons e e' d d' he _ ih =>
    obtain ⟨hk, hv⟩ := he
    by_cases hkey : e.key = key
    · refine .inr ⟨e.value, e'.value, ?_, ?_, hkey ▸ hv⟩
      · simp [Config.valueOf, hkey]
      · simp [Config.valueOf, ← hk, hkey]
    · have h1 : Config.valueOf (e :: d) key = Config.valueOf d key := by
        simp [Config.valueOf, hkey]
      have h2 : Config.valueOf (e' :: d') key = Config.valueOf d' key := by
        simp [Config.valueOf, ← hk, hkey]
      rw [h1, h2]
      exact ih

theorem Alike.stringAt_isSome (h : Alike d d') (key : Str) :
    (stringAt d key).isSome = (stringAt d' key).isSome := by
  rcases h.valueOf key with ⟨hv, hv'⟩ | ⟨v, v', hv, hv', hs⟩
  · simp only [stringAt, hv, hv']
  · have hkind := hs.kind
    simp only [stringAt, hv, hv']
    cases v <;> cases v' <;> first | rfl | cases hkind

theorem Alike.valueOf_eq (h : Alike d d') {key : Str} (hk : key ∉ secretKeys) :
    Config.valueOf d key = Config.valueOf d' key := by
  rcases h.valueOf key with ⟨hv, hv'⟩ | ⟨v, v', hv, hv', rfl | ⟨hs, -⟩⟩
  · rw [hv, hv']
  · rw [hv, hv']
  · exact absurd hs hk

theorem Alike.stringAt_eq (h : Alike d d') {key : Str} (hk : key ∉ secretKeys) :
    stringAt d key = stringAt d' key := by
  rw [stringAt, stringAt, h.valueOf_eq hk]

theorem Alike.sameRest (h : Alike d d') : SameRest (ofEntries d) (ofEntries d') where
  schemaVersion := by
    have hv : Config.valueOf d "schema_version" = Config.valueOf d' "schema_version" :=
      h.valueOf_eq (by decide)
    simp only [ofEntries, hv]
  routerBase := h.stringAt_eq (by decide)
  routerIni := h.stringAt_eq (by decide)
  controlTokenFile := h.stringAt_eq (by decide)

/-- What a key of `secretKeys` reports of a value that is no string. -/
def typeError (serde : Serde) (v : Toml) : Str :=
  ("invalid type: " : Str) ++ serde.unexpected v ++ (", expected a string" : Str)

/-- The first error of both documents is raised by the same key: by the same value, or by two of one
type under a secret key. -/
inductive FirstErrors (serde : Serde) : Option (Entry × Str × Str) → Option (Entry × Str × Str) →
    Prop
  | none : FirstErrors serde none none
  | same {e e' : Entry} {path message : Str} (hk : e.key = e'.key) (hv : e.value = e'.value) :
      FirstErrors serde (some (e, path, message)) (some (e', path, message))
  | secret {e e' : Entry} (hs : e.key ∈ secretKeys) (hk : e.key = e'.key)
      (hv : e.value.kind = e'.value.kind) :
      FirstErrors serde (some (e, e.key, typeError serde e.value))
        (some (e', e.key, typeError serde e'.value))

theorem secretKeys_subset : ∀ key ∈ secretKeys, key ∈ stringKeys := by decide

theorem Alike.firstErrors (h : Alike d d') (serde : Serde) :
    FirstErrors serde (serde.firstError d) (serde.firstError d') := by
  induction h with
  | nil => exact .none
  | @cons e e' d d' he _ ih =>
    obtain ⟨hk, hv⟩ := he
    simp only [Serde.firstError, List.findSome?_cons]
    rcases hv with hv | ⟨hs, hv⟩
    · rw [← hk, ← hv]
      cases serde.entry e.key e.value with
      | none => exact ih
      | some err => exact .same hk hv
    · have hstring := serde.entry_string e.key (secretKeys_subset e.key hs)
      rw [← hk, hstring, hstring, ← hv]
      by_cases hkind : e.value.kind = .string
      · simp only [if_pos hkind]
        exact ih
      · simp only [if_neg hkind]
        exact .secret hs hk hv

end Documents

/-! ## What a type error shows -/

theorem rsplitOnce_append {pat a b : Str} (h : rsplitOnce pat (pat ++ b) = some ([], b)) :
    rsplitOnce pat (a ++ (pat ++ b)) = some (a, b) := by
  induction a with
  | nil => exact h
  | cons c a ih => rw [List.cons_append, rsplitOnce, ih]

theorem not_prefix_of_head {p q : Str} (rest : Str) (hp : p ≠ []) (hq : q ≠ [])
    (h : p.head? ≠ q.head?) : ¬ p <+: q ++ rest := by
  rintro ⟨t, ht⟩
  refine h ?_
  rw [← List.head?_append_of_ne_nil p hp, ht, List.head?_append_of_ne_nil q hq]

theorem humanize_typeError (serde : Serde) (key : Str) (v : Toml) :
    humanize key (typeError serde v) =
      { key, expected := "string", found := serde.unexpected v } := by
  have hassoc : typeError serde v =
      ("invalid type: " : Str) ++ (serde.unexpected v ++ (", expected a string" : Str)) :=
    List.append_assoc ..
  have hsplit : rsplitOnce (", expected " : Str)
      (serde.unexpected v ++ (", expected a string" : Str)) =
        some (serde.unexpected v, ("a string" : Str)) :=
    rsplitOnce_append (b := ("a string" : Str)) (by decide +kernel)
  have hfound : foundExpected "invalid type: " (typeError serde v) =
      some (serde.unexpected v, ("a string" : Str)) := by
    rw [foundExpected, hassoc, isPrefixOf?_eq_some.mpr rfl, Option.bind_some, hsplit]
  have hunknown : List.isPrefixOf? ("unknown field `" : Str) (typeError serde v) = none := by
    rw [hassoc]
    exact isPrefixOf?_eq_none.mpr (not_prefix_of_head _ (by decide) (by decide) (by decide))
  have hmissing : List.isPrefixOf? ("missing field `" : Str) (typeError serde v) = none := by
    rw [hassoc]
    exact isPrefixOf?_eq_none.mpr (not_prefix_of_head _ (by decide) (by decide) (by decide))
  have htype : typeName "a string" = "string" := by decide
  simp only [humanize, hunknown, hmissing, hfound, htype]

theorem firstWord_append {w rest : Str} (hw : w ≠ []) (hn : ∀ c ∈ w, isWhitespace c = false)
    (hrest : ∀ c ∈ rest.head?, c = ' ') : firstWord (w ++ rest) = w := by
  cases rest with
  | nil => rw [List.append_nil, firstWord, splitWhitespace_of_no_blank hw hn]; rfl
  | cons c rest =>
    have hc : c = ' ' := hrest c rfl
    rw [firstWord, hc, splitWhitespace_word hw hn (by decide)]
    rfl

theorem shownFor_unexpected (serde : Serde) {key : Str} (hk : isSecretKey key = true) (v : Toml) :
    shownFor key (serde.unexpected v) = v.kind.word := by
  obtain ⟨rest, hrest, hblank⟩ := serde.unexpected_word v
  have hword : v.kind.word ≠ [] ∧ v.kind.word.head? ≠ some 'u' ∧
      ∀ c ∈ v.kind.word, isWhitespace c = false := by
    cases v.kind <;> decide
  have hun : List.isPrefixOf ("unknown key" : Str) (v.kind.word ++ rest) = false := by
    rw [Bool.eq_false_iff, ne_eq, List.isPrefixOf_iff_prefix]
    exact not_prefix_of_head rest (by decide) hword.1 hword.2.1.symm
  rw [shownFor, hrest, hk, hun, Bool.not_false, Bool.and_self, if_pos rfl,
    firstWord_append hword.1 hword.2.2 hblank]

/-! ## Starting -/

/-- `parse`, then `resolve_control_token`. -/
def startup (serde : Serde) (debug : Str → Str) (files : KeyFiles) (file : ConfigPath) (text : Str)
    (env : Env) (notes : List Str) : Except ConfigError (Option Str) × List Str :=
  match parse serde debug text file env with
  | .error e => (.error e, notes)
  | .ok cfg => resolveControlToken files cfg file env notes

/-- Where both fail they print the same, up to the place, and note the same; where both succeed they
note the same. -/
def SameDiagnostics (r r' : Except ConfigError (Option Str) × List Str) : Prop :=
  (∀ e e', r.1 = .error e → r'.1 = .error e' →
    e.unplaced.render = e'.unplaced.render ∧ r.2 = r'.2) ∧
  ∀ t t', r.1 = .ok t → r'.1 = .ok t' → r.2 = r'.2

theorem sameDiagnostics_error {e e' : ConfigError} {notes : List Str} :
    SameDiagnostics (.error e, notes) (.error e', notes) ↔
      e.unplaced.render = e'.unplaced.render :=
  ⟨fun h => (h.1 e e' rfl rfl).1, fun h => ⟨fun _ _ he he' => by cases he; cases he'; exact ⟨h, rfl⟩,
    fun _ _ ht _ => nomatch ht⟩⟩

/-! ### Which faults differ -/

/-- Both runs look the token up under a name, find nothing, and the names differ. -/
def NameShown (cfg cfg' : ConfigV1) (env env' : Env) : Prop :=
  cfg.controlToken = none ∧ cfg.controlTokenFile = none ∧
    ∃ name name', cfg.controlTokenEnv = some name ∧ cfg'.controlTokenEnv = some name' ∧
      Unset env name ∧ Unset env' name' ∧ name ≠ name'

/-- The token lives in a file only, and the files of the two runs have different faults. -/
def FileShown (files : KeyFiles) (cfg cfg' : ConfigV1) : Prop :=
  cfg.controlToken = none ∧ cfg.controlTokenEnv = none ∧
    ∃ path path' expected found expected' found', cfg.controlTokenFile = some path ∧
      cfg'.controlTokenFile = some path' ∧ KeyFault files path expected found ∧
      KeyFault files path' expected' found' ∧ (expected, found) ≠ (expected', found')

/-- A path goes wrong in one run, and the other goes wrong too, but not so. -/
def PathShown (debug : Str → Str) (files : KeyFiles) (file : ConfigPath) (cfg cfg' : ConfigV1)
    (env env' : Env) : Prop :=
  ∃ x y, StartFault debug files file cfg env x ∧ StartFault debug files file cfg' env' y ∧
    (PathFault file env cfg x ∨ PathFault file env' cfg' y) ∧ x ≠ y

/-- The same sources are set in two configs. -/
structure SameSources (cfg cfg' : ConfigV1) : Prop where
  controlToken : cfg.controlToken.isSome = cfg'.controlToken.isSome
  controlTokenEnv : cfg.controlTokenEnv.isSome = cfg'.controlTokenEnv.isSome
  controlTokenFile : cfg.controlTokenFile.isSome = cfg'.controlTokenFile.isSome

section Agreement

variable {debug : Str → Str} {files : KeyFiles} {cfg cfg' : ConfigV1} {file : ConfigPath}
  {env env' : Env} {x : Fault}

theorem SameSources.sources (h : SameSources cfg cfg') : sources cfg' = Config.sources cfg := by
  rw [sources_eq, sources_eq, h.controlToken, h.controlTokenEnv, h.controlTokenFile]

/-- What keeps two runs from a token differs in the name of a variable or in the fault of a file. -/
theorem tokenFaults_differ (h : SameSources cfg cfg') :
    (∃ x y, TokenFault files cfg env x ∧ TokenFault files cfg' env' y ∧ x ≠ y) ↔
      NameShown cfg cfg' env env' ∨ FileShown files cfg cfg' := by
  constructor
  · rintro ⟨x, y, hx, hy, hne⟩
    cases hx with
    | sources hs =>
      cases hy with
      | sources => exact absurd (by rw [h.sources]) hne
      | name hone => exact absurd (h.sources.symm ▸ hs) hone
      | file ht hn hf =>
        rw [← h.sources, sources_eq, ht, hn, hf] at hs
        exact absurd hs (by simp)
    | @name name hone ht hn hu =>
      have hfile : cfg.controlTokenFile = none := by
        cases hf : cfg.controlTokenFile with
        | none => rfl
        | some path => exact absurd (by simp [sources_eq, ht, hn, hf]) hone
      cases hy with
      | sources hs => exact absurd (h.sources ▸ hs) hone
      | @name name' _ _ hn' hu' =>
        refine .inl ⟨ht, hfile, name, name', hn, hn', hu, hu', fun heq => hne ?_⟩
        rw [heq]
      | file _ hn' =>
        cases (none_of_isSome_eq h.controlTokenEnv.symm hn').symm.trans hn
    | @file path expected found ht hn hf hk =>
      cases hy with
      | sources hs =>
        rw [h.sources, sources_eq, ht, hn, hf] at hs
        exact absurd hs (by simp)
      | name _ _ hn' => cases (none_of_isSome_eq h.controlTokenEnv hn).symm.trans hn'
      | @file path' expected' found' _ _ hf' hk' =>
        refine .inr ⟨ht, hn, path, path', expected, found, expected', found', hf, hf', hk, hk',
          fun heq => hne ?_⟩
        obtain ⟨rfl, rfl⟩ := Prod.mk.inj heq
        rfl
  · rintro (⟨ht, hf, name, name', hn, hn', hu, hu', hne⟩ |
      ⟨ht, hn, path, path', expected, found, expected', found', hf, hf', hk, hk', hne⟩)
    · have hone : ¬ 1 < sources cfg := by simp [sources_eq, ht, hf, hn]
      have hone' : ¬ 1 < sources cfg' := by rwa [h.sources]
      refine ⟨_, _, .name hone ht hn hu,
        .name hone' (none_of_isSome_eq h.controlToken ht) hn' hu', fun heq => hne ?_⟩
      exact List.append_cancel_right (Fault.mk.inj heq).2.2
    · refine ⟨_, _, .file ht hn hf hk, .file (none_of_isSome_eq h.controlToken ht)
        (none_of_isSome_eq h.controlTokenEnv hn) hf' hk', fun heq => hne ?_⟩
      obtain ⟨-, rfl, rfl⟩ := Fault.mk.inj heq
      rfl

theorem unexpandable_iff (h : ∀ v, (env v).isSome = (env' v).isSome) (hh : HomeAlike env env')
    {p : Option Str} {why : Str} : Unexpandable file env p why ↔ Unexpandable file env' p why := by
  refine exists_congr fun raw => and_congr_right fun _ => ?_
  generalize hx : expandPath raw (file.parent.getD ".") env = r
  generalize hx' : expandPath raw (file.parent.getD ".") env' = r'
  have hp : EqErr r r' := hx ▸ hx' ▸ eqErr_expandPath h hh raw _
  cases hp with
  | error => exact ⟨fun h => by cases h; rfl, fun h => by cases h; rfl⟩
  | ok => exact iff_of_false (fun h => nomatch h) fun h => nomatch h

theorem pathFault_iff (hc : SameRest cfg cfg') (h : ∀ v, (env v).isSome = (env' v).isSome)
    (hh : HomeAlike env env') : PathFault file env cfg x ↔ PathFault file env' cfg' x := by
  constructor
  · rintro (hu | ⟨hini, hu⟩)
    · exact .routerIni (hc.routerIni ▸ (unexpandable_iff h hh).mp hu)
    · exact .controlTokenFile (fun why hw => hini why ((unexpandable_iff h hh).mpr (hc.routerIni ▸ hw)))
        (hc.controlTokenFile ▸ (unexpandable_iff h hh).mp hu)
  · rintro (hu | ⟨hini, hu⟩)
    · exact .routerIni ((unexpandable_iff h hh).mpr (hc.routerIni ▸ hu))
    · exact .controlTokenFile (fun why hw => hini why (hc.routerIni ▸ (unexpandable_iff h hh).mp hw))
        ((unexpandable_iff h hh).mpr (hc.controlTokenFile ▸ hu))

/-- Which paths go wrong, and how, depends on the value of `HOME` only. -/
theorem not_pathShown (hc : SameRest cfg cfg') (h : ∀ v, (env v).isSome = (env' v).isSome)
    (hh : HomeAlike env env') : ¬ PathShown debug files file cfg cfg' env env' := by
  rintro ⟨x, y, hx, hy, hp | hp, hne⟩
  · exact hne (hy.eq_of_path ((pathFault_iff hc h hh).mp hp)).symm
  · exact hne (hx.eq_of_path ((pathFault_iff hc h hh).mpr hp))

/-- The faults agree unless two tokens or two paths tell the runs apart. -/
theorem startFaults_agree (hsources : ∀ out out', validate debug cfg file env = .ok out →
      validate debug cfg' file env' = .ok out' → SameSources out out') :
    (∀ x y, StartFault debug files file cfg env x → StartFault debug files file cfg' env' y → x = y) ↔
      ¬ (∃ out out', validate debug cfg file env = .ok out ∧ validate debug cfg' file env' = .ok out' ∧
        (NameShown out out' env env' ∨ FileShown files out out')) ∧
      ¬ PathShown debug files file cfg cfg' env env' := by
  constructor
  · refine fun h => ⟨?_, fun ⟨x, y, hx, hy, _, hne⟩ => hne (h x y hx hy)⟩
    rintro ⟨out, out', hv, hv', hshown⟩
    obtain ⟨x, y, hx, hy, hne⟩ := (tokenFaults_differ (hsources _ _ hv hv')).mpr hshown
    exact hne (h x y (.token hv hx) (.token hv' hy))
  · rintro ⟨htoken, hpath⟩ x y hx hy
    by_contra hne
    cases hx with
    | path hc hp => exact hpath ⟨x, y, .path hc hp, hy, .inl hp, hne⟩
    | @token out hv hx =>
      cases hy with
      | path hc hp => exact hpath ⟨x, y, .token hv hx, .path hc hp, .inr hp, hne⟩
      | @token out' hv' hy =>
        exact htoken ⟨out, out', hv, hv',
          (tokenFaults_differ (hsources _ _ hv hv')).mp ⟨x, y, hx, hy, hne⟩⟩

end Agreement

/-! ### The two runs -/

/-- The document names `v` as a variable that holds a credential. -/
def NamesVariable (d : List Entry) (v : Str) : Prop :=
  stringAt d "control_token_env" = some v ∨ stringAt d "client_key_env" = some v

/-- The same variables are set, and have the same values but for those that hold a credential. -/
structure EnvsAlike (d d' : List Entry) (env env' : Env) : Prop where
  set : ∀ v, (env v).isSome = (env' v).isSome
  value : ∀ v, ¬ NamesVariable d v → ¬ NamesVariable d' v → env v = env' v

theorem EnvsAlike.refl (d d' : List Entry) (env : Env) : EnvsAlike d d' env env :=
  ⟨fun _ => rfl, fun _ _ _ => rfl⟩

/-- Both documents are wrong first at `client_key_env`, with values that are worded differently. -/
def ValueShown (serde : Serde) (d d' : List Entry) : Prop :=
  ∃ err err', serde.firstError d = some err ∧ serde.firstError d' = some err' ∧
    err.1.key = ("client_key_env" : Str) ∧
    serde.unexpected err.1.value ≠ serde.unexpected err'.1.value

/-- `HOME` holds a credential with a `$` in it, and a path that it makes goes wrong. -/
def HomeShown (debug : Str → Str) (files : KeyFiles) (file : ConfigPath) (d d' : List Entry)
    (env env' : Env) : Prop :=
  (NamesVariable d "HOME" ∨ NamesVariable d' "HOME") ∧
    (∃ home, (env "HOME" = some home ∨ env' "HOME" = some home) ∧ '$' ∈ home) ∧
    PathShown debug files file (ofEntries d) (ofEntries d') env env'

section Runs

variable {serde : Serde} {debug : Str → Str} {files : KeyFiles} {file : ConfigPath} {text text' : Str}
  {d d' : List Entry} {env env' : Env} {notes : List Str}

theorem startup_of_firstError {err : Entry × Str × Str} (hd : serde.parse text = .ok d)
    (h : serde.firstError d = some err) : startup serde debug files file text env notes =
      (.error (tomlError file.shown text (if err.2.1 = ("." : Str) then [] else err.2.1)
        { message := err.2.2, span := err.1.span }), notes) := by
  simp only [startup, parse, hd, h]

theorem startup_of_entries (hd : serde.parse text = .ok d) (h : serde.firstError d = none) :
    startup serde debug files file text env notes =
      match validate debug (ofEntries d) file env with
      | .error e => (.error e, notes)
      | .ok cfg => resolveControlToken files cfg file env notes := by
  simp only [startup, parse, hd, h]

theorem unplaced_typeError {key : Str} (hk : key ∈ secretKeys) (v : Toml) (span : Option Nat) :
    (tomlError file.shown text (if key = ("." : Str) then [] else key)
      { message := typeError serde v, span }).unplaced =
      (configError file key "string" (shownFor key (serde.unexpected v))).unplaced := by
  have hdot : ∀ key ∈ secretKeys, key ≠ ("." : Str) := by decide
  rw [if_neg (hdot key hk)]
  simp only [tomlError, humanize_typeError, ConfigError.unplaced, configError]

theorem isSecretKey_of_mem : ∀ key ∈ secretKeys, key ≠ ("client_key_env" : Str) →
    isSecretKey key = true := by decide +kernel

theorem shownFor_client_key_env (serde : Serde) (v : Toml) :
    shownFor "client_key_env" (serde.unexpected v) = serde.unexpected v := by
  have hk : isSecretKey "client_key_env" = false := by decide +kernel
  rw [shownFor, hk, Bool.false_and, if_neg (by decide)]

theorem sameDiagnostics_of_firstErrors {err err' : Entry × Str × Str}
    (hd : serde.parse text = .ok d) (hd' : serde.parse text' = .ok d')
    (h : serde.firstError d = some err) (h' : serde.firstError d' = some err')
    (hf : FirstErrors serde (some err) (some err')) :
    SameDiagnostics (startup serde debug files file text env notes)
      (startup serde debug files file text' env' notes) ↔ ¬ ValueShown serde d d' := by
  have hshown : ValueShown serde d d' ↔ err.1.key = ("client_key_env" : Str) ∧
      serde.unexpected err.1.value ≠ serde.unexpected err'.1.value := by
    refine ⟨fun ⟨e, e', he, he', hk⟩ => ?_, fun hk => ⟨err, err', h, h', hk⟩⟩
    cases h.symm.trans he
    cases h'.symm.trans he'
    exact hk
  rw [startup_of_firstError hd h, startup_of_firstError hd' h', sameDiagnostics_error, hshown]
  cases hf with
  | same _ hv => exact iff_of_true rfl fun h => h.2 (by rw [hv])
  | @secret e e' hs _ hv =>
    rw [unplaced_typeError hs, unplaced_typeError hs, render_configError_iff]
    by_cases hk : e.key = ("client_key_env" : Str)
    · rw [hk, shownFor_client_key_env, shownFor_client_key_env]
      simp only [true_and, ne_eq, not_not]
    · have hsecret := isSecretKey_of_mem e.key hs hk
      rw [shownFor_unexpected serde hsecret, shownFor_unexpected serde hsecret, hv]
      exact iff_of_true rfl fun h => hk h.1

variable (debug files file env notes) in
theorem startup_error {e : ConfigError} (hd : serde.parse text = .ok d)
    (h : serde.firstError d = none) (hc : checked debug file (ofEntries d) = .ok ()) :
    (startup serde debug files file text env notes).1 = .error e ↔
      ∃ x, StartFault debug files file (ofEntries d) env x ∧ e = x.error file := by
  rw [startup_of_entries hd h]
  cases hv : validate debug (ofEntries d) file env with
  | error e' =>
    obtain ⟨x, hx, rfl⟩ := (validate_error hc).mp hv
    constructor
    · intro he
      exact ⟨x, .path hc hx, (Except.error.inj he).symm⟩
    · rintro ⟨y, hy, rfl⟩
      rw [hy.eq_of_path hx]
  | ok out =>
    refine resolve_error.trans (exists_congr fun x => and_congr_left fun _ => ?_)
    refine ⟨.token hv, fun hx => ?_⟩
    cases hx with
    | path _ hp => cases hv.symm.trans ((validate_error hc).mpr ⟨x, hp, rfl⟩)
    | token hv' hx =>
      cases hv.symm.trans hv'
      exact hx

variable (debug files file env notes) in
theorem startup_notes (hd : serde.parse text = .ok d) (h : serde.firstError d = none) :
    (∀ e, (startup serde debug files file text env notes).1 = .error e →
      (startup serde debug files file text env notes).2 = notes) ∧
    ∀ t, (startup serde debug files file text env notes).1 = .ok t →
      (startup serde debug files file text env notes).2 =
        if (ofEntries d).controlToken.isSome then notes ++ [literalNote] else notes := by
  rw [startup_of_entries hd h]
  cases hv : validate debug (ofEntries d) file env with
  | error e => exact ⟨fun _ _ => rfl, fun _ ht => nomatch ht⟩
  | ok out =>
    rw [← (validate_ok hv).1]
    exact resolve_notes

/-- Two documents that deserialize are told apart by what they fail with, and by nothing else. -/
theorem sameDiagnostics_iff_faults (hd : serde.parse text = .ok d) (hd' : serde.parse text' = .ok d')
    (h : serde.firstError d = none) (h' : serde.firstError d' = none) (ha : Alike d d') :
    SameDiagnostics (startup serde debug files file text env notes)
      (startup serde debug files file text' env' notes) ↔
      ∀ x y, StartFault debug files file (ofEntries d) env x →
        StartFault debug files file (ofEntries d') env' y → x = y := by
  have hsame := ha.sameRest.checked debug file
  cases hc : checked debug file (ofEntries d) with
  | error e =>
    rw [startup_of_entries hd h, startup_of_entries hd' h', validate_of_unchecked hc,
      validate_of_unchecked (hsame ▸ hc)]
    refine iff_of_true (sameDiagnostics_error.mpr rfl) fun x y hx _ => ?_
    cases hc.symm.trans hx.checked
  | ok u =>
    have hc' : checked debug file (ofEntries d') = .ok () := hsame ▸ hc
    obtain ⟨hne, hno⟩ := startup_notes debug files file env notes hd h
    obtain ⟨hne', hno'⟩ := startup_notes debug files file env' notes hd' h'
    constructor
    · intro hs x y hx hy
      have hex := (startup_error debug files file env notes hd h hc).mpr ⟨x, hx, rfl⟩
      have hey := (startup_error debug files file env' notes hd' h' hc').mpr ⟨y, hy, rfl⟩
      exact (Fault.render_inj hx.mem hy.mem).mp (hs.1 _ _ hex hey).1
    · intro hagree
      refine ⟨fun e e' he he' => ⟨?_, (hne e he).trans (hne' e' he').symm⟩, fun t t' ht ht' => ?_⟩
      · obtain ⟨x, hx, rfl⟩ := (startup_error debug files file env notes hd h hc).mp he
        obtain ⟨y, hy, rfl⟩ := (startup_error debug files file env' notes hd' h' hc').mp he'
        rw [hagree x y hx hy]
      · have htoken : (ofEntries d).controlToken.isSome = (ofEntries d').controlToken.isSome :=
          ha.stringAt_isSome _
        rw [hno t ht, hno' t' ht', htoken]

theorem sameSources_of_validate (ha : Alike d d') {out out' : ConfigV1}
    (hv : validate debug (ofEntries d) file env = .ok out)
    (hv' : validate debug (ofEntries d') file env' = .ok out') : SameSources out out' := by
  obtain ⟨ht, hn, hf⟩ := validate_ok hv
  obtain ⟨ht', hn', hf'⟩ := validate_ok hv'
  refine ⟨?_, ?_, ?_⟩
  · rw [ht, ht']
    exact ha.stringAt_isSome _
  · rw [hn, hn']
    exact ha.stringAt_isSome _
  · rw [isSome_expandKey hf, isSome_expandKey hf', ha.sameRest.controlTokenFile]

theorem pathShown_iff (ha : Alike d d') (he : EnvsAlike d d' env env') :
    PathShown debug files file (ofEntries d) (ofEntries d') env env' ↔
      HomeShown debug files file d d' env env' := by
  refine ⟨fun h => ⟨?_, ?_, h⟩, fun h => h.2.2⟩
  · by_contra hno
    rw [not_or] at hno
    exact not_pathShown ha.sameRest he.set (.inl (he.value _ hno.1 hno.2)) h
  · by_contra hno
    exact not_pathShown ha.sameRest he.set (.inr fun home hhome hd => hno ⟨home, hhome, hd⟩) h

theorem sameDiagnostics_of_entries (hd : serde.parse text = .ok d)
    (hd' : serde.parse text' = .ok d') (h : serde.firstError d = none)
    (h' : serde.firstError d' = none) (ha : Alike d d') (he : EnvsAlike d d' env env') :
    SameDiagnostics (startup serde debug files file text env notes)
      (startup serde debug files file text' env' notes) ↔
      ¬ (∃ cfg cfg', validate debug (ofEntries d) file env = .ok cfg ∧
        validate debug (ofEntries d') file env' = .ok cfg' ∧
        (NameShown cfg cfg' env env' ∨ FileShown files cfg cfg')) ∧
      ¬ HomeShown debug files file d d' env env' := by
  rw [sameDiagnostics_iff_faults hd hd' h h' ha,
    startFaults_agree fun _ _ => sameSources_of_validate ha, pathShown_iff ha he]

/-- **A diagnostic tells no secret**, but for what was found under `client_key_env`, the name of
an unset variable, what is wrong with a key file whose path is made of one, and a path that a
credential in `HOME` makes. -/
theorem sameDiagnostics_iff (hd : serde.parse text = .ok d) (hd' : serde.parse text' = .ok d')
    (ha : Alike d d') (he : EnvsAlike d d' env env') :
    SameDiagnostics (startup serde debug files file text env notes)
      (startup serde debug files file text' env' notes) ↔
      ¬ ValueShown serde d d' ∧
        ¬ (serde.firstError d = none ∧ ∃ cfg cfg', validate debug (ofEntries d) file env = .ok cfg ∧
          validate debug (ofEntries d') file env' = .ok cfg' ∧
          (NameShown cfg cfg' env env' ∨ FileShown files cfg cfg')) ∧
        ¬ (serde.firstError d = none ∧ HomeShown debug files file d d' env env') := by
  have hf := ha.firstErrors serde
  cases hx : serde.firstError d with
  | none =>
    have hx' : serde.firstError d' = none := by
      rw [hx] at hf
      cases hf' : serde.firstError d' with
      | none => rfl
      | some err' => rw [hf'] at hf; cases hf
    have hvalue : ¬ ValueShown serde d d' := fun ⟨_, _, h, _⟩ => nomatch hx.symm.trans h
    rw [sameDiagnostics_of_entries hd hd' hx hx' ha he]
    simp only [hvalue, not_false_eq_true, true_and]
  | some err =>
    obtain ⟨err', hx'⟩ : ∃ err', serde.firstError d' = some err' := by
      rw [hx] at hf
      cases hf' : serde.firstError d' with
      | none => rw [hf'] at hf; cases hf
      | some err' => exact ⟨err', rfl⟩
    rw [hx, hx'] at hf
    rw [sameDiagnostics_of_firstErrors hd hd' hx hx' hf]
    simp only [reduceCtorEq, false_and, not_false_eq_true, and_true]

end Runs

/-! ## Sample documents -/

/-- What serde says of a value after its type. -/
def sampleShown : Toml → Str
  | .string s => (" \"" : Str) ++ s ++ ("\"" : Str)
  | .integer i => (" `" : Str) ++ fmtInt i ++ ("`" : Str)
  | .float shown => (" point `" : Str) ++ shown ++ ("`" : Str)
  | .boolean b => (" `" : Str) ++ (if b then "true" else "false") ++ ("`" : Str)
  | .datetime _ | .table _ | .array _ => []

def sampleUnexpected (v : Toml) : Str := v.kind.word ++ sampleShown v

/-- Lines `key = value`, the value a string or a number. -/
def sampleEntries : Nat → List Str → Except DeError (List Entry)
  | _, [] => .ok []
  | start, l :: ls =>
    match splitOnce '=' l with
    | none => .error { message := "key with no value, expected `=`", span := some start }
    | some (key, value) =>
      (sampleEntries (start + l.length + 1) ls).map fun entries =>
        { key := trim key
          value := match trim value with
            | '"' :: s => .string s.dropLast
            | ds => .integer (digitsVal ds)
          span := some (start + key.length + 2) } :: entries

def sampleParse (text : Str) : Except DeError (List Entry) := sampleEntries 0 (lines text)

/-- The keys that take a string; any other is unknown. -/
def sampleSerde : Serde where
  parse := sampleParse
  entry key v :=
    if stringKeys.contains key then
      if v.kind = .string then none
      else some (key,
        ("invalid type: " : Str) ++ sampleUnexpected v ++ (", expected a string" : Str))
    else some (key, ("unknown field `" : Str) ++ key ++ ("`" : Str))
  unexpected := sampleUnexpected
  entry_string _ hk _ := if_pos (List.contains_iff_mem.mpr hk)
  unexpected_word v := by
    refine ⟨sampleShown v, rfl, fun c hc => ?_⟩
    cases v with
    | string s => exact (Option.some.inj hc).symm
    | integer i => exact (Option.some.inj hc).symm
    | float shown => exact (Option.some.inj hc).symm
    | boolean b => exact (Option.some.inj hc).symm
    | datetime shown => cases hc
    | array vs => cases hc
    | table entries => cases hc

def sampleFile : ConfigPath where
  shown := "config.toml"
  parent := some []

/-- What `text` starts with in `env`. -/
def sampleStart (env : Env) (text : Str) : Except ConfigError (Option Str) × List Str :=
  startup sampleSerde (fun s => s) sampleKeyFiles sampleFile text env []

/-- A wrong type under `control_token` is told without the value. -/
theorem sameDiagnostics_control_token :
    SameDiagnostics (sampleStart sampleEnv "control_token = 7741851\n")
      (sampleStart sampleEnv "control_token = 12\n") := by
  have hd : sampleSerde.parse "control_token = 7741851\n" =
      .ok [{ key := "control_token", value := .integer 7741851, span := some 16 }] := by rfl
  have hd' : sampleSerde.parse "control_token = 12\n" =
      .ok [{ key := "control_token", value := .integer 12, span := some 16 }] := by rfl
  refine (sameDiagnostics_iff hd hd' ?_ (.refl ..)).mpr ⟨?_, ?_, ?_⟩
  · exact .cons ⟨rfl, .inr ⟨by decide, rfl⟩⟩ .nil
  · rintro ⟨err, err', h, h', hk, -⟩
    cases h
    revert hk
    decide
  · rintro ⟨h, -⟩
    cases h
  · rintro ⟨h, -⟩
    cases h

/-- Documents of one entry, which holds a secret. -/
theorem alike_singleton {key : Str} {v v' : Toml} (hk : key ∈ secretKeys) (hv : v.kind = v'.kind)
    (span : Option Nat) : Alike [⟨key, v, span⟩] [⟨key, v', span⟩] :=
  .cons ⟨rfl, .inr ⟨hk, hv⟩⟩ .nil

/-- The law for two texts, each in its environment. -/
def StartAlike (text text' : Str) (env env' : Env) : Prop :=
  ∀ d d', sampleSerde.parse text = .ok d → sampleSerde.parse text' = .ok d' → Alike d d' →
    EnvsAlike d d' env env' → SameDiagnostics (sampleStart env text) (sampleStart env' text')

/-- One variable. -/
def envOf (name value : Str) : Env := fun v => if v = name then some value else none

/-- The client's key is in `K`, and so is the name of the key file. -/
def keyDocument : List Entry :=
  [{ key := "client_key_env", value := .string "K", span := some 17 },
    { key := "control_token_file", value := .string "$K", span := some 42 }]

/-- The client's key is in `HOME`. -/
def homeDocument : List Entry :=
  [{ key := "client_key_env", value := .string "HOME", span := some 17 },
    { key := "router_ini", value := .string "~/r.ini", span := some 37 }]

theorem envsAlike_envOf {d : List Entry} {name : Str} (h : NamesVariable d name) (value value' : Str) :
    EnvsAlike d d (envOf name value) (envOf name value') where
  set v := by
    simp only [envOf]
    split <;> rfl
  value v hno _ := by
    have hv : v ≠ name := by
      rintro rfl
      exact hno h
    simp only [envOf, if_neg hv]

/-- A wrong type under `client_key_env` is told with the value, an unset variable with its
name, what keeps a file from being read with the name that a secret made, and a path that does not
expand with what is in `HOME`. -/
theorem not_startAlike_shown :
    ¬ StartAlike "client_key_env = 7741851\n" "client_key_env = 12\n" sampleEnv sampleEnv ∧
    ¬ StartAlike "control_token_env = \"tok-7741851\"\n" "control_token_env = \"tok-12\"\n"
      sampleEnv sampleEnv ∧
    ¬ StartAlike "client_key_env = \"K\"\ncontrol_token_file = \"$K\"\n"
      "client_key_env = \"K\"\ncontrol_token_file = \"$K\"\n" (envOf "K" "/root/7741851")
      (envOf "K" "/none") ∧
    ¬ StartAlike "client_key_env = \"HOME\"\nrouter_ini = \"~/r.ini\"\n"
      "client_key_env = \"HOME\"\nrouter_ini = \"~/r.ini\"\n" (envOf "HOME" "/a$X7741851")
      (envOf "HOME" "/a$X12") := by
  refine ⟨fun h => ?_, fun h => ?_, fun h => ?_, fun h => ?_⟩
  · have hd : sampleSerde.parse "client_key_env = 7741851\n" =
        .ok [{ key := "client_key_env", value := .integer 7741851, span := some 17 }] := by rfl
    have hd' : sampleSerde.parse "client_key_env = 12\n" =
        .ok [{ key := "client_key_env", value := .integer 12, span := some 17 }] := by rfl
    have hsecret : ("client_key_env" : Str) ∈ secretKeys := by decide
    have hkind : (Toml.integer 7741851).kind = (Toml.integer 12).kind := rfl
    have ha := alike_singleton hsecret hkind (some 17)
    have hs := h _ _ hd hd' ha (.refl ..)
    refine (sameDiagnostics_of_firstErrors hd hd' rfl rfl (ha.firstErrors _)).mp hs ?_
    exact ⟨_, _, rfl, rfl, rfl, by decide⟩
  · have hd : sampleSerde.parse "control_token_env = \"tok-7741851\"\n" =
        .ok [{ key := "control_token_env", value := .string "tok-7741851", span := some 20 }] := by
      rfl
    have hd' : sampleSerde.parse "control_token_env = \"tok-12\"\n" =
        .ok [{ key := "control_token_env", value := .string "tok-12", span := some 20 }] := by rfl
    have hsecret : ("control_token_env" : Str) ∈ secretKeys := by decide
    have hkind : (Toml.string "tok-7741851").kind = (Toml.string "tok-12").kind := rfl
    have ha := alike_singleton hsecret hkind (some 20)
    have hs := h _ _ hd hd' ha (.refl ..)
    have hunset : ∀ name, name ≠ ("SALTNITOR_TOKEN" : Str) → Unset sampleEnv name := by
      intro name hn v hv
      rw [sampleEnv, if_neg hn] at hv
      cases hv
    refine ((sameDiagnostics_of_entries hd hd' rfl rfl ha (.refl ..)).mp hs).1
      ⟨_, _, rfl, rfl, .inl ?_⟩
    exact ⟨rfl, rfl, _, _, rfl, rfl, hunset _ (by decide), hunset _ (by decide), by decide⟩
  · have hd : sampleSerde.parse "client_key_env = \"K\"\ncontrol_token_file = \"$K\"\n" =
        .ok keyDocument := by rfl
    have ha : Alike keyDocument keyDocument := .cons ⟨rfl, .inl rfl⟩ (.cons ⟨rfl, .inl rfl⟩ .nil)
    have he : EnvsAlike keyDocument keyDocument (envOf "K" "/root/7741851") (envOf "K" "/none") :=
      envsAlike_envOf (.inr rfl) _ _
    have hs := h _ _ hd hd ha he
    have hm : sampleKeyFiles.metadata "/root/7741851" =
        .error "Permission denied (os error 13)" := by rfl
    have hm' : sampleKeyFiles.metadata "/none" =
        .error "No such file or directory (os error 2)" := by rfl
    refine ((sameDiagnostics_of_entries hd hd rfl rfl ha he).mp hs).1
      ⟨{ controlTokenFile := some "/root/7741851" }, { controlTokenFile := some "/none" },
        rfl, rfl, .inr ⟨rfl, rfl, _, _, _, _, _, _, rfl, rfl, .unreached hm, .unreached hm', by decide⟩⟩
  · have hd : sampleSerde.parse "client_key_env = \"HOME\"\nrouter_ini = \"~/r.ini\"\n" =
        .ok homeDocument := by rfl
    have ha : Alike homeDocument homeDocument := .cons ⟨rfl, .inl rfl⟩ (.cons ⟨rfl, .inl rfl⟩ .nil)
    have he : EnvsAlike homeDocument homeDocument (envOf "HOME" "/a$X7741851")
        (envOf "HOME" "/a$X12") := envsAlike_envOf (.inr rfl) _ _
    have hs := h _ _ hd hd ha he
    have hx : PathFault sampleFile (envOf "HOME" "/a$X7741851") (ofEntries homeDocument)
        ⟨"router_ini", "an expandable path", "undefined variable X7741851"⟩ :=
      .routerIni ⟨"~/r.ini", rfl, rfl⟩
    have hy : PathFault sampleFile (envOf "HOME" "/a$X12") (ofEntries homeDocument)
        ⟨"router_ini", "an expandable path", "undefined variable X12"⟩ :=
      .routerIni ⟨"~/r.ini", rfl, rfl⟩
    refine ((sameDiagnostics_of_entries hd hd rfl rfl ha he).mp hs).2
      ⟨.inl (.inr rfl), ⟨"/a$X12", .inr rfl, by decide⟩, _, _, .path rfl hx, .path rfl hy, .inl hx, ?_⟩
    intro heq
    exact absurd (Fault.mk.inj heq).2.2 (by decide)

end Saltnitor.Config
