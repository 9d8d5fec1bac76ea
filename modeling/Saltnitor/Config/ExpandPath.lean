import Saltnitor.Config.Secrets
import Saltnitor.Rust.Slice

/-!
# Expanding a path

`expandPathBytes` is the loop of `expand_path` over byte positions, with `none` for
a slice that panics and for a loop that goes on; `expandPathBytes_eq` says it is
`expandPath`. What it should compute is `StandsFor`: the text is read once, as
characters and variables, and each part is replaced by what it stands for.
`singlePass_iff` says for which environments that is what it computes.
-/

namespace Saltnitor.Config

open Rust

/-! ## The loop -/

def isNameByte (b : UInt8) : Bool :=
  (48 ≤ b && b ≤ 57) || (65 ≤ b && b ≤ 90) || (97 ≤ b && b ≤ 122) || b == 95

def isVarChar (c : Char) : Bool := c.isAlphanum || c == '_'

/-- The variable's name in the text after a `$`, and how many bytes it takes. -/
def variableBytes : Str → Option (Except Str (Str × Nat))
  | '\x7b' :: inner =>
    match find '\x7d' inner with
    | none => some (.error "unterminated `$\x7b`")
    | some close => (sliceTo inner close).map fun name => .ok (name, close + 2)
  | after =>
    let n := ((bytes after).takeWhile isNameByte).length
    (sliceTo after n).map fun name => .ok (name, n)

/-- The rounds of the loop from byte `i` on. -/
def expandLoop (env : Env) (s : Str) : Nat → Nat → Str → Option (Except Str Str)
  | 0, _, _ => none
  | fuel + 1, i, out => do
    let rest ← sliceFrom s i
    match find '$' rest with
    | none => some (.ok (out ++ rest))
    | some off =>
      let text ← slice s i (i + off)
      let after ← sliceFrom s (i + off + 1)
      match ← variableBytes after with
      | .error e => some (.error e)
      | .ok (name, consumed) =>
        if name = [] then some (.error "`$` must be followed by a variable name")
        else
          match env name with
          | none => some (.error (("undefined variable " : Str) ++ name))
          | some v => expandLoop env s fuel (i + off + 1 + consumed) (out ++ text ++ v)

/-- A round for every character, and the last one. -/
def expandBytes (env : Env) (s : Str) : Option (Except Str Str) :=
  expandLoop env s (s.length + 1) 0 []

/-- A relative path is joined to the base. -/
def against (base out : Str) : Str := if out.head? = some '/' then out else joinPath base out

def expandPathBytes (raw base : Str) (env : Env) : Option (Except Str Str) :=
  if raw = ("~" : Str) ∨ ("~/" : Str) <+: raw then
    match env "HOME" with
    | none => some (.error "undefined variable HOME")
    | some home => do
      let rest ← sliceFrom raw 1
      (← expandBytes env (home ++ rest)) |>.map (against base) |> some
  else do
    (← expandBytes env raw) |>.map (against base) |> some

/-! ## The loop reads characters -/

section Loop

variable {env : Env} {s t after out : Str}

theorem isVarChar_ascii {c : Char} (h : isVarChar c = true) : c.toNat < 128 := by
  rcases Bool.or_eq_true_iff.mp h with halnum | h
  · have hranges : (c.isUpper = true ∨ c.isLower = true) ∨ c.isDigit = true := by
      rw [← Bool.or_eq_true, ← Bool.or_eq_true]
      exact halnum
    rcases hranges with (h | h) | h
    · have hr : c.toNat ≤ 90 := (of_decide_eq_true h).2
      omega
    · have hr : c.toNat ≤ 122 := of_decide_eq_true (Bool.and_eq_true_iff.mp h).2
      omega
    · have hr : c.toNat ≤ 57 := of_decide_eq_true (Bool.and_eq_true_iff.mp h).2
      omega
  · rw [eq_of_beq h]
    decide

theorem isNameByte_ascii {b : UInt8} (h : isNameByte b = true) : b.toNat < 128 := by
  simp only [isNameByte, Bool.or_eq_true, Bool.and_eq_true, decide_eq_true_eq, beq_iff_eq,
    UInt8.le_iff_toNat_le] at h
  rcases h with h | rfl
  · simp only [UInt8.reduceToNat] at h
    omega
  · decide

theorem isNameByte_ofNat : ∀ n < 128, isNameByte (.ofNat n) = isVarChar (.ofNat n) := by
  decide +kernel

theorem takeWhile_isNameByte (s : Str) :
    (bytes s).takeWhile isNameByte = bytes (s.takeWhile isVarChar) :=
  takeWhile_bytes (fun _ => isNameByte_ascii) (fun _ => isVarChar_ascii) isNameByte_ofNat s

/-- What can follow a `$`: a brace that is not closed, a name in braces, a name or none. -/
theorem after_cases (after : Str) :
    (∃ inner, '\x7d' ∉ inner ∧ after = '\x7b' :: inner) ∨
    (∃ name rest, '\x7d' ∉ name ∧ after = '\x7b' :: (name ++ '\x7d' :: rest)) ∨
    ∃ name rest, after.head? ≠ some '\x7b' ∧ (∀ c ∈ name, isVarChar c = true) ∧
      (∀ c ∈ rest.head?, isVarChar c = false) ∧ after = name ++ rest := by
  by_cases hb : after.head? = some '\x7b'
  · obtain ⟨inner, rfl⟩ := List.head?_eq_some_iff.mp hb
    by_cases hc : '\x7d' ∈ inner
    · obtain ⟨name, rest, rfl, hname⟩ := List.eq_append_cons_of_mem hc
      exact .inr (.inl ⟨name, rest, hname, rfl⟩)
    · exact .inl ⟨inner, hc, rfl⟩
  · refine .inr (.inr ⟨after.takeWhile isVarChar, after.dropWhile isVarChar, hb,
      fun c hc => List.mem_takeWhile_imp hc, fun c hc => ?_, List.takeWhile_append_dropWhile.symm⟩)
    have hd := List.head?_dropWhile_not isVarChar after
    rw [Option.mem_def.mp hc] at hd
    simpa using hd

theorem takeWhile_append_of_head {name rest : Str} {p : Char → Bool} (hn : ∀ c ∈ name, p c = true)
    (hr : ∀ c ∈ rest.head?, p c = false) : (name ++ rest).takeWhile p = name := by
  rw [List.takeWhile_append_of_pos hn]
  cases rest with
  | nil => simp
  | cons c rest => simp [hr c rfl]

variable {inner name rest : Str}

theorem variableName_open (h : '\x7d' ∉ inner) :
    variableName ('\x7b' :: inner) = .error "unterminated `$\x7b`" := by
  have hf : inner.findIdx? (· == '\x7d') = none :=
    List.findIdx?_eq_none_iff.mpr fun c hc => beq_false_of_ne fun he => h (he ▸ hc)
  rw [variableName, hf]

theorem variableName_brace (h : '\x7d' ∉ name) :
    variableName ('\x7b' :: (name ++ '\x7d' :: rest)) = .ok (name, name.length + 2) := by
  have hf : (name ++ '\x7d' :: rest).findIdx? (· == '\x7d') = some name.length := by
    have hnone : name.findIdx? (· == '\x7d') = none :=
      List.findIdx?_eq_none_iff.mpr fun c hc => beq_false_of_ne fun he => h (he ▸ hc)
    rw [List.findIdx?_append, hnone]
    simp [List.findIdx?_cons]
  simp [variableName, hf]

theorem variableName_name (hb : (name ++ rest).head? ≠ some '\x7b')
    (hn : ∀ c ∈ name, isVarChar c = true) (hr : ∀ c ∈ rest.head?, isVarChar c = false) :
    variableName (name ++ rest) = .ok (name, name.length) := by
  have ht := takeWhile_append_of_head hn hr
  unfold isVarChar at ht
  unfold variableName
  split
  · rename_i inner he
    exact absurd (he ▸ rfl) hb
  · simp only [ht]

theorem variableBytes_open (h : '\x7d' ∉ inner) :
    variableBytes ('\x7b' :: inner) = some (.error "unterminated `$\x7b`") := by
  rw [variableBytes, find_eq_none.mpr h]

theorem variableBytes_brace (h : '\x7d' ∉ name) :
    variableBytes ('\x7b' :: (name ++ '\x7d' :: rest)) = some (.ok (name, byteLen name + 2)) := by
  rw [variableBytes, find_append h]
  dsimp only
  rw [sliceTo_append, Option.map_some]

theorem variableBytes_name (hb : (name ++ rest).head? ≠ some '\x7b')
    (hn : ∀ c ∈ name, isVarChar c = true) (hr : ∀ c ∈ rest.head?, isVarChar c = false) :
    variableBytes (name ++ rest) = some (.ok (name, byteLen name)) := by
  unfold variableBytes
  split
  · rename_i inner he
    exact absurd (he ▸ rfl) hb
  · dsimp only
    rw [takeWhile_isNameByte, takeWhile_append_of_head hn hr, ← byteLen, sliceTo_append]
    rfl

/-- A name is read alike in bytes and in characters: it is missing, or takes what was used. -/
theorem variableBytes_spec (after : Str) :
    (∃ e, variableName after = .error e ∧ variableBytes after = some (.error e)) ∨
    ∃ name used rest, after = used ++ rest ∧ variableName after = .ok (name, used.length) ∧
      variableBytes after = some (.ok (name, byteLen used)) := by
  obtain ⟨inner, hc, rfl⟩ | ⟨name, rest, hc, rfl⟩ | ⟨name, rest, hb, hn, hr, rfl⟩ :=
    after_cases after
  · exact .inl ⟨_, variableName_open hc, variableBytes_open hc⟩
  · have hlen : byteLen ('\x7b' :: (name ++ ['\x7d'])) = byteLen name + 2 := by
      have h1 : '\x7b'.utf8Size = 1 := rfl
      have h2 : '\x7d'.utf8Size = 1 := rfl
      rw [byteLen_cons, byteLen_append, byteLen_cons, byteLen_nil]
      omega
    refine .inr ⟨name, '\x7b' :: (name ++ ['\x7d']), rest, by simp, ?_, ?_⟩
    · rw [variableName_brace hc]
      simp
    · rw [variableBytes_brace hc, hlen]
  · exact .inr ⟨name, name, rest, rfl, variableName_name hb hn hr, variableBytes_name hb hn hr⟩

theorem expandVars_skip (used rest : Str) :
    expandVars env (used ++ rest) used.length = expandVars env rest 0 := by
  induction used with
  | nil => rfl
  | cons c used ih => exact ih

theorem expandVars_noName {e : Str} (h : variableName after = .error e) :
    expandVars env ('$' :: after) 0 = .error e := by
  rw [expandVars, if_pos rfl, h]
  rfl

theorem expandVars_var {used : Str} (h : variableName (used ++ rest) = .ok (name, used.length)) :
    expandVars env ('$' :: (used ++ rest)) 0 =
      if name = [] then .error "`$` must be followed by a variable name"
      else
        (env name).elim (.error (("undefined variable " : Str) ++ name) : Except Str Str) fun v =>
          (expandVars env rest 0).map (v ++ ·) := by
  rw [expandVars, if_pos rfl, h]
  dsimp only [bind, Except.bind]
  split
  · rfl
  · cases env name with
    | none => rfl
    | some v =>
      dsimp only
      rw [expandVars_skip]
      cases expandVars env rest 0 <;> rfl

theorem expandLoop_eq (env : Env) {fuel : Nat} (pre s out : Str) (h : s.length < fuel) :
    expandLoop env (pre ++ s) fuel (byteLen pre) out =
      some ((expandVars env s 0).map (out ++ ·)) := by
  induction fuel generalizing pre s out with
  | zero => cases h
  | succ fuel ih =>
    unfold expandLoop
    rw [sliceFrom_append, Option.bind_eq_bind, Option.bind_some]
    by_cases hs : '$' ∈ s
    · obtain ⟨text, after, rfl, htext⟩ := List.eq_append_cons_of_mem hs
      have hdollar : byteLen pre + byteLen text + 1 = byteLen (pre ++ text ++ ['$']) := by
        rw [byteLen_append, byteLen_append]
        rfl
      have hafter : sliceFrom (pre ++ (text ++ '$' :: after)) (byteLen pre + byteLen text + 1) =
          some after := by
        rw [hdollar, ← sliceFrom_append (pre ++ text ++ ['$']) after]
        simp
      have htextSlice : slice (pre ++ (text ++ '$' :: after)) (byteLen pre)
          (byteLen pre + byteLen text) = some text := by
        rw [← List.append_assoc, slice_append]
      rw [find_append htext, expandVars_append htext]
      dsimp only
      rw [htextSlice, Option.bind_some, hafter, Option.bind_some]
      obtain ⟨e, hname, hbytes⟩ | ⟨name, used, rest, rfl, hname, hbytes⟩ := variableBytes_spec after
      · rw [expandVars_noName hname, hbytes]
        rfl
      · rw [expandVars_var hname, hbytes, Option.bind_eq_bind, Option.bind_some]
        dsimp only
        split
        · rfl
        · cases hv : env name with
          | none => rfl
          | some v =>
            have hpos : byteLen pre + byteLen text + 1 + byteLen used =
                byteLen (pre ++ text ++ '$' :: used) := by
              rw [hdollar, ← byteLen_append]
              simp
            have hsplit : pre ++ (text ++ '$' :: (used ++ rest)) =
                pre ++ text ++ '$' :: used ++ rest := by simp
            simp only [List.length_append, List.length_cons] at h
            dsimp only
            rw [hpos, hsplit, ih _ _ _ (by omega)]
            cases expandVars env rest 0 with
            | error e => rfl
            | ok t => simp [Except.map]
    · have hplain : expandVars env (s ++ []) 0 = (expandVars env [] 0).map (s ++ ·) :=
        expandVars_append hs []
      rw [List.append_nil] at hplain
      rw [find_eq_none.mpr hs, hplain]
      simp [expandVars, Except.map]

theorem expandBytes_eq (s : Str) : expandBytes env s = some (expandVars env s 0) := by
  have hloop := expandLoop_eq env [] s [] (Nat.lt_succ_self s.length)
  rw [List.nil_append, byteLen_nil] at hloop
  rw [expandBytes, hloop]
  cases expandVars env s 0 <;> rfl

end Loop

/-! ## What a text stands for -/

/-- A part of a text: a character, or a variable. -/
inductive Part where
  | char (c : Char)
  | var (name : Str)

def Part.value (env : Env) : Part → Option Str
  | .char c => some [c]
  | .var name => env name

/-- What the parts stand for, if every variable is defined. -/
def values (env : Env) : List Part → Option Str
  | [] => some []
  | p :: ps => (p.value env).bind fun v => (values env ps).map (v ++ ·)

/-- The text is read once, from the left. -/
inductive Reads : Str → List Part → Prop
  | nil : Reads [] []
  | char {c : Char} {s : Str} {ps : List Part} (hc : c ≠ '$') (h : Reads s ps) :
      Reads (c :: s) (.char c :: ps)
  | name {name rest : Str} {ps : List Part} (hne : name ≠ [])
      (hname : ∀ c ∈ name, isVarChar c = true) (hrest : ∀ c ∈ rest.head?, isVarChar c = false)
      (h : Reads rest ps) : Reads ('$' :: (name ++ rest)) (.var name :: ps)
  | brace {name rest : Str} {ps : List Part} (hne : name ≠ []) (hname : '\x7d' ∉ name)
      (h : Reads rest ps) : Reads ('$' :: '\x7b' :: (name ++ '\x7d' :: rest)) (.var name :: ps)

/-- What follows the `$` is no name, an empty one, or a brace that is not closed. -/
inductive NoName : Str → Prop
  | bare {after : Str} (hb : after.head? ≠ some '\x7b')
      (h : ∀ c ∈ after.head?, isVarChar c = false) : NoName after
  | empty (rest : Str) : NoName ('\x7b' :: '\x7d' :: rest)
  | unclosed {inner : Str} (h : '\x7d' ∉ inner) : NoName ('\x7b' :: inner)

/-- Some `$` that is read as the start of a variable has no name. -/
def Malformed (s : Str) : Prop :=
  ∃ t after ps, s = t ++ '$' :: after ∧ Reads t ps ∧ NoName after

section Reads

variable {env : Env} {s t rest : Str} {ps : List Part}

theorem expandVars_noName_error (env : Env) {after : Str} (h : NoName after) :
    ∃ e, expandVars env ('$' :: after) 0 = .error e := by
  cases h with
  | bare hb h =>
    have hnil : ∀ c ∈ ([] : Str), isVarChar c = true := List.forall_mem_nil _
    have hname : variableName ([] ++ _) = .ok ([], 0) := variableName_name hb hnil h
    exact ⟨_, expandVars_var hname⟩
  | empty rest =>
    have hno : '\x7d' ∉ ([] : Str) := List.not_mem_nil
    have hname : variableName (['\x7b', '\x7d'] ++ rest) = .ok ([], 2) := variableName_brace hno
    exact ⟨_, expandVars_var hname⟩
  | unclosed h => exact ⟨_, expandVars_noName (variableName_open h)⟩

theorem expandVars_name (env : Env) (hne : name ≠ []) (hn : ∀ c ∈ name, isVarChar c = true)
    (hr : ∀ c ∈ rest.head?, isVarChar c = false) :
    expandVars env ('$' :: (name ++ rest)) 0 =
      (env name).elim (.error (("undefined variable " : Str) ++ name) : Except Str Str) fun v =>
        (expandVars env rest 0).map (v ++ ·) := by
  obtain ⟨c, tail, rfl⟩ := List.exists_cons_of_ne_nil hne
  have hc : isVarChar c = true := hn c (List.mem_cons_self ..)
  have hb : (c :: tail ++ rest).head? ≠ some '\x7b' := by
    rintro ⟨⟩
    revert hc
    decide
  rw [expandVars_var (variableName_name hb hn hr), if_neg hne]

theorem expandVars_brace (env : Env) (rest : Str) (hne : name ≠ []) (hn : '\x7d' ∉ name) :
    expandVars env ('$' :: '\x7b' :: (name ++ '\x7d' :: rest)) 0 =
      (env name).elim (.error (("undefined variable " : Str) ++ name) : Except Str Str) fun v =>
        (expandVars env rest 0).map (v ++ ·) := by
  have hsplit : '\x7b' :: (name ++ '\x7d' :: rest) = '\x7b' :: (name ++ ['\x7d']) ++ rest := by simp
  have hname : variableName ('\x7b' :: (name ++ '\x7d' :: rest)) = .ok (name, name.length + 2) :=
    variableName_brace hn
  have hlen : name.length + 2 = ('\x7b' :: (name ++ ['\x7d'])).length := by simp
  rw [hsplit, hlen] at hname
  rw [hsplit, expandVars_var hname, if_neg hne]

/-- The name at the end of a text that is read does not go on. -/
theorem head_append (hs : ∀ c ∈ s.head?, isVarChar c = false)
    (hr : ∀ c ∈ rest.head?, isVarChar c = false) : ∀ c ∈ (s ++ rest).head?, isVarChar c = false := by
  cases s with
  | nil => exact hr
  | cons c s => exact hs

theorem values_cons {p : Part} {x : Except Str Str} {e : Str}
    (hx : x = (p.value env).elim (.error e) fun v => (expandVars env (s ++ rest) 0).map (v ++ ·))
    (h : (∀ v, values env ps = some v →
        expandVars env (s ++ rest) 0 = (expandVars env rest 0).map (v ++ ·)) ∧
      (values env ps = none → ∃ e, expandVars env (s ++ rest) 0 = .error e)) :
    (∀ v, values env (p :: ps) = some v → x = (expandVars env rest 0).map (v ++ ·)) ∧
      (values env (p :: ps) = none → ∃ e, x = .error e) := by
  subst hx
  rw [values]
  cases p.value env with
  | none => exact ⟨nofun, fun _ => ⟨e, rfl⟩⟩
  | some v =>
    simp only [Option.bind_some, Option.map_eq_some_iff, Option.map_eq_none_iff, Option.elim_some]
    refine ⟨?_, fun hnone => ?_⟩
    · rintro _ ⟨w, hw, rfl⟩
      rw [h.1 w hw]
      cases expandVars env rest 0 <;> simp [Except.map]
    · obtain ⟨e, he⟩ := h.2 hnone
      exact ⟨e, by rw [he]; rfl⟩

theorem expandVars_reads (env : Env) (rest : Str) (h : Reads s ps)
    (hr : ∀ c ∈ rest.head?, isVarChar c = false) :
    (∀ v, values env ps = some v →
      expandVars env (s ++ rest) 0 = (expandVars env rest 0).map (v ++ ·)) ∧
    (values env ps = none → ∃ e, expandVars env (s ++ rest) 0 = .error e) := by
  induction h with
  | nil =>
    refine ⟨?_, nofun⟩
    rintro v ⟨⟩
    cases h : expandVars env rest 0 <;> simp [h, Except.map]
  | @char c s ps hc h ih =>
    refine values_cons (e := []) ?_ ih
    exact expandVars_append (t := [c]) (by simpa using Ne.symm hc) (s ++ rest)
  | @name name s ps hne hname hrest h ih =>
    have hstep := expandVars_name env hne hname (head_append hrest hr)
    rw [← List.append_assoc, ← List.cons_append] at hstep
    exact values_cons hstep ih
  | @brace name s ps hne hname h ih =>
    have hstep := expandVars_brace env (s ++ rest) hne hname
    refine values_cons (e := ("undefined variable " : Str) ++ name) ?_ ih
    simpa [Part.value] using hstep

/-- A part in front of a text that is read to its end, or up to a `$` without a name. -/
theorem reads_or_malformed_cons {u : Str} {p : Part}
    (hread : ∀ t ps, t <+: s → Reads t ps → Reads (u ++ t) (p :: ps))
    (h : (∃ ps, Reads s ps) ∨ Malformed s) : (∃ ps, Reads (u ++ s) ps) ∨ Malformed (u ++ s) := by
  obtain ⟨ps, h⟩ | ⟨t, after, ps, rfl, h, hno⟩ := h
  · exact .inl ⟨p :: ps, hread s ps (List.prefix_refl s) h⟩
  · exact .inr ⟨u ++ t, after, p :: ps, (List.append_assoc ..).symm,
      hread t ps (List.prefix_append ..) h, hno⟩

theorem head_of_le (h : t <+: s) (hs : ∀ c ∈ s.head?, isVarChar c = false) :
    ∀ c ∈ t.head?, isVarChar c = false := by
  obtain ⟨u, rfl⟩ := h
  cases t with
  | nil => nofun
  | cons c t => exact hs

theorem reads_or_malformed (s : Str) : (∃ ps, Reads s ps) ∨ Malformed s := by
  induction hn : s.length using Nat.strongRecOn generalizing s with
  | ind n ih =>
    subst hn
    cases s with
    | nil => exact .inl ⟨[], .nil⟩
    | cons c s =>
      by_cases hc : c = '$'
      · subst hc
        have stop (hno : NoName s) : Malformed ('$' :: s) := ⟨[], s, [], rfl, .nil, hno⟩
        obtain ⟨inner, hinner, rfl⟩ | ⟨name, rest, hname, rfl⟩ | ⟨name, rest, hb, hname, hrest, rfl⟩ :=
          after_cases s
        · exact .inr (stop (.unclosed hinner))
        · rcases eq_or_ne name [] with rfl | hne
          · exact .inr (stop (.empty rest))
          · have := reads_or_malformed_cons (u := '$' :: '\x7b' :: (name ++ ['\x7d'])) (p := .var name)
              (fun t ps _ h => by simpa using Reads.brace hne hname h)
              (ih rest.length (by simp only [List.length_append, List.length_cons]; omega) rest rfl)
            simpa using this
        · rcases eq_or_ne name [] with rfl | hne
          · exact .inr (stop (.bare hb hrest))
          · exact reads_or_malformed_cons (u := '$' :: name) (p := .var name)
              (fun t ps ht h => .name hne hname (head_of_le ht hrest) h)
              (ih rest.length (by simp only [List.length_append, List.length_cons]; omega) rest rfl)
      · exact reads_or_malformed_cons (u := [c]) (p := .char c) (fun t ps _ h => .char hc h)
          (ih s.length (by simp) s rfl)

theorem error_of_malformed (env : Env) (h : Malformed s) : ∃ e, expandVars env s 0 = .error e := by
  obtain ⟨t, after, ps, rfl, hread, hno⟩ := h
  obtain ⟨e, he⟩ := expandVars_noName_error env hno
  obtain ⟨hsome, hnone⟩ := expandVars_reads env ('$' :: after) hread
    (by rintro c ⟨⟩; decide)
  cases hv : values env ps with
  | none => exact hnone hv
  | some v =>
    rw [hsome v hv, he]
    exact ⟨e, rfl⟩

theorem values_var {name : Str} : values env (.var name :: ps) =
    (env name).bind fun v => (values env ps).map (v ++ ·) := rfl

theorem values_eq_none : values env ps = none ↔ ∃ name, .var name ∈ ps ∧ env name = none := by
  induction ps with
  | nil => simp [values]
  | cons p ps ih =>
    cases p with
    | char c => simp [values, Part.value, ih]
    | var name =>
      rw [values_var]
      cases hv : env name with
      | none => exact iff_of_true rfl ⟨name, List.mem_cons_self .., hv⟩
      | some v =>
        rw [Option.bind_some, Option.map_eq_none_iff, ih]
        constructor
        · rintro ⟨n, hn, he⟩
          exact ⟨n, List.mem_cons_of_mem _ hn, he⟩
        · rintro ⟨n, hn, he⟩
          rcases List.mem_cons.mp hn with hn | hn
          · cases hn
            rw [hv] at he
            cases he
          · exact ⟨n, hn, he⟩

theorem expandVars_of_reads (h : Reads s ps) {out : Str} (hv : values env ps = some out) :
    expandVars env s 0 = .ok out := by
  have := (expandVars_reads env [] h nofun).1 out hv
  simpa [expandVars, Except.map] using this

theorem expandVars_eq_ok {out : Str} :
    expandVars env s 0 = .ok out ↔ ∃ ps, Reads s ps ∧ values env ps = some out := by
  refine ⟨fun h => ?_, fun ⟨ps, hread, hv⟩ => expandVars_of_reads hread hv⟩
  rcases reads_or_malformed s with ⟨ps, hread⟩ | hmal
  · cases hv : values env ps with
    | none =>
      obtain ⟨e, he⟩ := (expandVars_reads env [] hread nofun).2 hv
      rw [List.append_nil, h] at he
      cases he
    | some v =>
      rw [expandVars_of_reads hread hv] at h
      exact ⟨ps, hread, by rw [hv, Except.ok.inj h]⟩
  · obtain ⟨e, he⟩ := error_of_malformed env hmal
    rw [h] at he
    cases he

/-- It is not where a `$` has no name, or a variable that is read is not defined. -/
theorem expandVars_eq_error :
    (∃ e, expandVars env s 0 = .error e) ↔
      Malformed s ∨ ∃ ps name, Reads s ps ∧ .var name ∈ ps ∧ env name = none := by
  constructor
  · rintro ⟨e, he⟩
    rcases reads_or_malformed s with ⟨ps, hread⟩ | hmal
    · cases hv : values env ps with
      | none =>
        obtain ⟨name, hn, hnone⟩ := values_eq_none.mp hv
        exact .inr ⟨ps, name, hread, hn, hnone⟩
      | some v =>
        rw [expandVars_of_reads hread hv] at he
        cases he
    · exact .inl hmal
  · rintro (hmal | ⟨ps, name, hread, hn, hnone⟩)
    · exact error_of_malformed env hmal
    · have := (expandVars_reads env [] hread nofun).2 (values_eq_none.mpr ⟨name, hn, hnone⟩)
      rwa [List.append_nil] at this

theorem malformed_cons {c : Char} (hc : c ≠ '$') : Malformed (c :: s) ↔ Malformed s := by
  constructor
  · rintro ⟨t, after, ps, hs, hread, hno⟩
    cases hread with
    | nil => exact absurd (List.cons.inj hs).1 hc
    | char _ h => exact ⟨_, after, _, (List.cons.inj hs).2, h, hno⟩
    | name => exact absurd (List.cons.inj hs).1 hc
    | brace => exact absurd (List.cons.inj hs).1 hc
  · rintro ⟨t, after, ps, rfl, hread, hno⟩
    exact ⟨c :: t, after, _, rfl, .char hc hread, hno⟩

end Reads

/-! ## Paths -/

/-- `~` alone or before `/`. -/
def TildeLed (raw : Str) : Prop := raw = ("~" : Str) ∨ ("~/" : Str) <+: raw

/-- A leading `~` is read as the variable `HOME`. -/
def ReadsPath (raw : Str) (ps : List Part) : Prop :=
  (TildeLed raw ∧ ∃ qs, ps = .var "HOME" :: qs ∧ Reads (raw.drop 1) qs) ∨
    (¬ TildeLed raw ∧ Reads raw ps)

/-- The path is read once, and each part is replaced by what it stands for. -/
structure SinglePass (env : Env) (raw base : Str) : Prop where
  returns : expandPathBytes raw base env ≠ none
  ok : ∀ out, expandPathBytes raw base env = some (.ok out) ↔
    ∃ ps t, ReadsPath raw ps ∧ values env ps = some t ∧ out = against base t
  fails : (∃ e, expandPathBytes raw base env = some (.error e)) ↔
    Malformed raw ∨ ∃ ps name, ReadsPath raw ps ∧ .var name ∈ ps ∧ env name = none

/-- Single-pass for every path, with `~` and `$HOME` alike. -/
structure SinglePassing (env : Env) : Prop where
  single : ∀ raw base, SinglePass env raw base
  home : ∀ r base, expandPathBytes (("~/" : Str) ++ r) base env =
    expandPathBytes (("$HOME/" : Str) ++ r) base env

/-- The value of `HOME` stands for itself, as one without a `$` does. -/
def HomeFixed (env : Env) : Prop :=
  ∀ home, env "HOME" = some home → ∃ ps, Reads home ps ∧ values env ps = some home

section Paths

variable {env : Env} {raw base rest out : Str} {ps : List Part}

theorem TildeLed.eq_cons (h : TildeLed raw) :
    ∃ rest, raw = '~' :: rest ∧ ∀ c ∈ rest.head?, c = '/' := by
  rcases h with rfl | ⟨r, rfl⟩
  · exact ⟨[], rfl, nofun⟩
  · exact ⟨'/' :: r, rfl, by rintro c ⟨⟩; rfl⟩

theorem expandPath_tilde (h : TildeLed raw) :
    expandPath raw base env = (env "HOME").elim (.error "undefined variable HOME" : Except Str Str)
      fun home => (expandVars env (home ++ raw.drop 1) 0).map (against base) := by
  rw [expandPath, expandHome, if_pos (show raw = ("~" : Str) ∨ ("~/" : Str) <+: raw from h)]
  cases env "HOME" with
  | none => rfl
  | some home =>
    change (expandVars env (home ++ raw.drop 1) 0 >>= fun out => _) =
      (expandVars env (home ++ raw.drop 1) 0).map (against base)
    cases expandVars env (home ++ raw.drop 1) 0 <;> rfl

theorem expandPath_plain (h : ¬ TildeLed raw) :
    expandPath raw base env = (expandVars env raw 0).map (against base) := by
  rw [expandPath, expandHome, if_neg (show ¬ (raw = ("~" : Str) ∨ ("~/" : Str) <+: raw) from h)]
  change (expandVars env raw 0 >>= fun out => _) = _
  cases expandVars env raw 0 <;> rfl

/-- The loop over bytes returns, and is what is read in characters. -/
theorem expandPathBytes_eq (raw base : Str) (env : Env) :
    expandPathBytes raw base env = some (expandPath raw base env) := by
  unfold expandPathBytes
  split
  · rename_i h
    rw [expandPath_tilde h]
    obtain ⟨rest, rfl, -⟩ := TildeLed.eq_cons h
    have hrest : sliceFrom ('~' :: rest) 1 = some rest := sliceFrom_append ['~'] rest
    cases env "HOME" with
    | none => rfl
    | some home =>
      dsimp only
      rw [hrest, Option.bind_eq_bind, Option.bind_some, expandBytes_eq]
      rfl
  · rename_i h
    rw [expandPath_plain h, expandBytes_eq]
    rfl

theorem readsPath_tilde (h : TildeLed raw) :
    ReadsPath raw ps ↔ ∃ qs, ps = .var "HOME" :: qs ∧ Reads (raw.drop 1) qs := by
  simp [ReadsPath, h]

theorem readsPath_plain (h : ¬ TildeLed raw) : ReadsPath raw ps ↔ Reads raw ps := by
  simp [ReadsPath, h]

theorem singlePass_plain (h : ¬ TildeLed raw) : SinglePass env raw base := by
  refine ⟨?_, fun out => ?_, ?_⟩ <;> simp only [expandPathBytes_eq, expandPath_plain h,
    readsPath_plain h, Option.some.injEq]
  · exact Option.some_ne_none _
  · have hmap : (expandVars env raw 0).map (against base) = .ok out ↔
        ∃ t, expandVars env raw 0 = .ok t ∧ out = against base t := by
      cases expandVars env raw 0 <;> simp [Except.map, eq_comm]
    rw [hmap]
    simp only [expandVars_eq_ok]
    exact ⟨fun ⟨t, ⟨ps, hr, hv⟩, ho⟩ => ⟨ps, t, hr, hv, ho⟩,
      fun ⟨ps, t, hr, hv, ho⟩ => ⟨t, ⟨ps, hr, hv⟩, ho⟩⟩
  · simp only [map_eq_error, expandVars_eq_error]

/-- With a value of `HOME` that stands for itself, what follows the `~` is all that is expanded. -/
theorem expandPath_homeFixed (hf : HomeFixed env) (h : TildeLed raw) :
    expandPath raw base env = (env "HOME").elim (.error "undefined variable HOME" : Except Str Str)
      fun home => (expandVars env (raw.drop 1) 0).map fun t => against base (home ++ t) := by
  rw [expandPath_tilde h]
  cases hv : env "HOME" with
  | none => rfl
  | some home =>
    obtain ⟨ps, hread, hval⟩ := hf home hv
    obtain ⟨rest, rfl, hrest⟩ := TildeLed.eq_cons h
    have hhead : ∀ c ∈ rest.head?, isVarChar c = false := fun c hc => by rw [hrest c hc]; decide
    have := (expandVars_reads env rest hread hhead).1 home hval
    rw [Option.elim_some, Option.elim_some, List.drop_one, List.tail_cons, this]
    cases expandVars env rest 0 <;> rfl

theorem map_eq_ok {α β : Type} {x : Except Str α} {f : α → β} {b : β} :
    x.map f = .ok b ↔ ∃ a, x = .ok a ∧ b = f a := by
  cases x <;> simp [Except.map, eq_comm]

theorem singlePass_of_homeFixed (hf : HomeFixed env) : SinglePass env raw base := by
  by_cases h : TildeLed raw
  · have hmal : Malformed raw ↔ Malformed (raw.drop 1) := by
      obtain ⟨rest, rfl, -⟩ := h.eq_cons
      exact malformed_cons (by decide)
    refine ⟨?_, fun out => ?_, ?_⟩ <;> simp only [expandPathBytes_eq, expandPath_homeFixed hf h,
      readsPath_tilde h, Option.some.injEq]
    · exact Option.some_ne_none _
    · cases hv : env "HOME" with
      | none =>
        simp only [Option.elim_none, reduceCtorEq, false_iff]
        rintro ⟨_, t, ⟨qs, rfl, -⟩, hval, -⟩
        rw [values_var, hv] at hval
        cases hval
      | some home =>
        rw [Option.elim_some, map_eq_ok]
        constructor
        · rintro ⟨t, ht, rfl⟩
          obtain ⟨qs, hread, hval⟩ := expandVars_eq_ok.mp ht
          exact ⟨_, home ++ t, ⟨qs, rfl, hread⟩, by rw [values_var, hv, hval]; rfl, rfl⟩
        · rintro ⟨_, t, ⟨qs, rfl, hread⟩, hval, rfl⟩
          rw [values_var, hv, Option.bind_some, Option.map_eq_some_iff] at hval
          obtain ⟨u, hu, rfl⟩ := hval
          exact ⟨u, expandVars_eq_ok.mpr ⟨qs, hread, hu⟩, rfl⟩
    · rw [hmal]
      cases hv : env "HOME" with
      | none =>
        refine iff_of_true ⟨_, rfl⟩ ?_
        rcases reads_or_malformed (raw.drop 1) with ⟨qs, hread⟩ | hmal
        · exact .inr ⟨_, "HOME", ⟨qs, rfl, hread⟩, List.mem_cons_self .., hv⟩
        · exact .inl hmal
      | some home =>
        simp only [Option.elim_some, map_eq_error, expandVars_eq_error]
        refine or_congr_right ⟨?_, ?_⟩
        · rintro ⟨qs, name, hread, hn, hnone⟩
          exact ⟨_, name, ⟨qs, rfl, hread⟩, List.mem_cons_of_mem _ hn, hnone⟩
        · rintro ⟨_, name, ⟨qs, rfl, hread⟩, hn, hnone⟩
          rcases List.mem_cons.mp hn with hn | hn
          · cases hn
            rw [hv] at hnone
            cases hnone
          · exact ⟨qs, name, hread, hn, hnone⟩
  · exact singlePass_plain h

theorem expandPathBytes_home (hf : HomeFixed env) (r base : Str) :
    expandPathBytes (("~/" : Str) ++ r) base env =
      expandPathBytes (("$HOME/" : Str) ++ r) base env := by
  have htilde : TildeLed (("~/" : Str) ++ r) := .inr (List.prefix_append ..)
  have hplain : ¬ TildeLed (("$HOME/" : Str) ++ r) := by
    rintro (h | ⟨t, h⟩) <;> exact absurd (List.cons.inj h).1 (by decide)
  have hvar := expandVars_name env (by decide : ("HOME" : Str) ≠ []) (by decide)
    (by rintro c ⟨⟩; decide : ∀ c ∈ ('/' :: r).head?, isVarChar c = false)
  rw [expandPathBytes_eq, expandPathBytes_eq, expandPath_homeFixed hf htilde,
    expandPath_plain hplain]
  change _ = some ((expandVars env ('$' :: (("HOME" : Str) ++ '/' :: r)) 0).map _)
  rw [hvar]
  cases env "HOME" with
  | none => rfl
  | some home =>
    change some ((expandVars env ('/' :: r) 0).map _) =
      some (((expandVars env ('/' :: r) 0).map _).map _)
    cases expandVars env ('/' :: r) 0 <;> rfl

theorem homeFixed_of_single (h : ∀ raw base, SinglePass env raw base) : HomeFixed env := by
  intro home hv
  have htilde : TildeLed ("~" : Str) := .inl rfl
  have hread : ReadsPath ("~" : Str) [.var "HOME"] := (readsPath_tilde htilde).mpr ⟨[], rfl, .nil⟩
  have hval : values env [.var "HOME"] = some home := by
    rw [values_var, hv]
    simp [values]
  have hok := ((h "~" []).ok _).mpr ⟨_, home, hread, hval, rfl⟩
  have hagainst (x : Str) : against [] x = x := by
    unfold against joinPath
    split <;> rfl
  rw [expandPathBytes_eq, expandPath_tilde htilde, hv, Option.elim_some, Option.some.injEq,
    map_eq_ok] at hok
  obtain ⟨t, ht, heq⟩ := hok
  rw [hagainst, hagainst] at heq
  subst heq
  change expandVars env (home ++ []) 0 = _ at ht
  rw [List.append_nil] at ht
  exact expandVars_eq_ok.mp ht

/-- **A path is expanded in one pass** whenever it does not begin with `~`, and for every path
exactly in the environments whose `HOME` stands for itself. The loop always returns. -/
theorem singlePassing_iff (env : Env) :
    (∀ raw base, expandPathBytes raw base env ≠ none) ∧
      (∀ raw base, TildeLed raw ∨ SinglePass env raw base) ∧
      (SinglePassing env ↔ HomeFixed env) := by
  refine ⟨fun raw base => ?_, fun raw base => ?_, fun h => ?_, fun h => ?_⟩
  · rw [expandPathBytes_eq]
    exact Option.some_ne_none _
  · exact (em (TildeLed raw)).imp_right singlePass_plain
  · exact homeFixed_of_single h.single
  · exact ⟨fun raw base => singlePass_of_homeFixed h, expandPathBytes_home h⟩

end Paths

/-- A `HOME` with a variable in it. -/
def dollarHome : Env := fun name =>
  if name = ("HOME" : Str) then some "/h/$X" else if name = ("X" : Str) then some "x" else none

theorem not_singlePassing_dollarHome :
    expandPathBytes "~/r" "/b" dollarHome = some (.ok "/h/x/r") ∧
      expandPathBytes "$HOME/r" "/b" dollarHome = some (.ok "/h/$X/r") ∧
      ¬ SinglePassing dollarHome := by
  have hne : expandPathBytes "~/r" "/b" dollarHome ≠ expandPathBytes "$HOME/r" "/b" dollarHome := by
    decide +kernel
  exact ⟨by decide +kernel, by decide +kernel, fun h => hne (h.home "r" "/b")⟩

end Saltnitor.Config
