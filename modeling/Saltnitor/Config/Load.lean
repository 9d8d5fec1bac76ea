import Saltnitor.Config.Diagnostics

/-!
# Loading the config

`parse` reads the text, deserializes it entry by entry, validates it and expands
its paths; the first error ends it. The TOML reader and serde's wording are the
parameter `Serde`: what is relied on is that a key of type string takes any
string and nothing else, and that an unexpected value is worded by its type first.
-/

namespace Saltnitor.Config

open Rust

/-! ## Documents -/

inductive Toml where
  | string (s : Str)
  | integer (i : Int)
  /-- As it prints. -/
  | float (shown : Str)
  | boolean (b : Bool)
  | datetime (shown : Str)
  | array (vs : List Toml)
  | table (entries : List (Str × Toml))

inductive Kind where
  | string
  | integer
  | float
  | boolean
  | datetime
  | array
  | table
  deriving DecidableEq

def Toml.kind : Toml → Kind
  | string _ => .string
  | integer _ => .integer
  | float _ => .float
  | boolean _ => .boolean
  | datetime _ => .datetime
  | array _ => .array
  | table _ => .table

/-- How serde calls a value of the type. -/
def Kind.word : Kind → Str
  | string => "string"
  | integer => "integer"
  | float => "floating"
  | boolean => "boolean"
  | datetime | table => "map"
  | array => "sequence"

/-- An entry of the root table, with the byte an error about it points at. -/
structure Entry where
  key : Str
  value : Toml
  span : Option Nat

/-- The keys that take a string. -/
def stringKeys : List Str :=
  ["host", "service_name", "control_token", "control_token_env", "control_token_file",
    "router_base", "infer_bearer", "router_ini", "client_key_env"]

/-- The TOML reader and the derived deserializer. -/
structure Serde where
  /-- The entries of the root table, in the order they are deserialized. -/
  parse : Str → Except DeError (List Entry)
  /-- The error a value raises under a key of the root table: its path and message. -/
  entry : Str → Toml → Option (Str × Str)
  /-- How a value that is not expected is worded. -/
  unexpected : Toml → Str
  entry_string : ∀ key ∈ stringKeys, ∀ v, entry key v =
    if v.kind = .string then none
    else some (key, ("invalid type: " : Str) ++ unexpected v ++ (", expected a string" : Str))
  unexpected_word : ∀ v, ∃ rest, unexpected v = v.kind.word ++ rest ∧ ∀ c ∈ rest.head?, c = ' '

/-- The first entry that does not deserialize, with the path and the message. -/
def Serde.firstError (serde : Serde) (entries : List Entry) : Option (Entry × Str × Str) :=
  entries.findSome? fun e => (serde.entry e.key e.value).map fun err => (e, err)

/-! ## The config -/

/-- What the loader and the token resolution read of the config. -/
structure ConfigV1 where
  schemaVersion : Option Nat := none
  controlToken : Option Str := none
  controlTokenEnv : Option Str := none
  controlTokenFile : Option Str := none
  routerBase : Option Str := none
  routerIni : Option Str := none
  deriving DecidableEq

def schemaVersion : Nat := 1

def valueOf (entries : List Entry) (key : Str) : Option Toml :=
  (entries.find? fun e => e.key == key).map (·.value)

def stringAt (entries : List Entry) (key : Str) : Option Str :=
  match valueOf entries key with
  | some (.string s) => some s
  | _ => none

/-- The config that entries without an error give. -/
def ofEntries (entries : List Entry) : ConfigV1 where
  schemaVersion :=
    match valueOf entries "schema_version" with
    | some (.integer i) => some i.toNat
    | _ => none
  controlToken := stringAt entries "control_token"
  controlTokenEnv := stringAt entries "control_token_env"
  controlTokenFile := stringAt entries "control_token_file"
  routerBase := stringAt entries "router_base"
  routerIni := stringAt entries "router_ini"

/-! ## Paths -/

abbrev Env := Str → Option Str

/-- A path as it prints, and the directory that holds it. -/
structure ConfigPath where
  shown : Str
  parent : Option Str

/-- `Path::join` for a relative path. -/
def joinPath (base p : Str) : Str :=
  if base = [] then p
  else if base.getLast? = some '/' then base ++ p
  else base ++ '/' :: p

/-- A variable's name after `$`, and how many characters it takes. -/
def variableName : Str → Except Str (Str × Nat)
  | '\x7b' :: inner =>
    match inner.findIdx? (· == '\x7d') with
    | none => .error "unterminated `$\x7b`"
    | some close => .ok (inner.take close, close + 2)
  | after =>
    let name := after.takeWhile fun c => c.isAlphanum || c == '_'
    .ok (name, name.length)

/-- Replace the variables, after `skip` characters that belong to the name before. -/
def expandVars (env : Env) : Str → Nat → Except Str Str
  | [], _ => .ok []
  | _ :: s, skip + 1 => expandVars env s skip
  | c :: s, 0 =>
    if c = '$' then do
      let (name, consumed) ← variableName s
      if name = [] then throw ("`$` must be followed by a variable name" : Str)
      match env name with
      | none => throw (("undefined variable " : Str) ++ name)
      | some v => return v ++ (← expandVars env s consumed)
    else return c :: (← expandVars env s 0)

/-- `~` at the front. -/
def expandHome (env : Env) (raw : Str) : Except Str Str :=
  if raw = ("~" : Str) ∨ ("~/" : Str) <+: raw then
    match env "HOME" with
    | none => .error "undefined variable HOME"
    | some home => .ok (home ++ raw.drop 1)
  else .ok raw

def expandPath (raw base : Str) (env : Env) : Except Str Str := do
  let s ← expandHome env raw
  let out ← expandVars env s 0
  return if out.head? = some '/' then out else joinPath base out

/-! ## Validation -/

/-- An error without a place. -/
def configError (file : ConfigPath) (key expected found : Str) : ConfigError :=
  { file := file.shown, key, expected, found }

/-- An optional path, expanded. -/
def expandKey (file : ConfigPath) (env : Env) (key : Str) :
    Option Str → Except ConfigError (Option Str)
  | none => .ok none
  | some p =>
    match expandPath p (file.parent.getD ".") env with
    | .ok s => .ok (some s)
    | .error e => .error (configError file key "an expandable path" e)

def checkSchemaVersion (file : ConfigPath) : Option Nat → Except ConfigError Unit
  | none => .ok ()
  | some v =>
    if v ≠ schemaVersion then .error (configError file "schema_version" "1" (toDec v)) else .ok ()

/-- `debug` is how a string prints between quotes. -/
def checkRouterBase (debug : Str → Str) (file : ConfigPath) : Option Str → Except ConfigError Unit
  | none => .ok ()
  | some rb =>
    if ("http://" : Str) <+: rb ∨ ("https://" : Str) <+: rb then .ok ()
    else .error (configError file "router_base" "an http(s) URL" (debug rb))

def validate (debug : Str → Str) (cfg : ConfigV1) (file : ConfigPath) (env : Env) :
    Except ConfigError ConfigV1 := do
  checkSchemaVersion file cfg.schemaVersion
  checkRouterBase debug file cfg.routerBase
  let routerIni ← expandKey file env "router_ini" cfg.routerIni
  let controlTokenFile ← expandKey file env "control_token_file" cfg.controlTokenFile
  return { cfg with routerIni, controlTokenFile }

def parse (serde : Serde) (debug : Str → Str) (text : Str) (file : ConfigPath) (env : Env) :
    Except ConfigError ConfigV1 :=
  match serde.parse text with
  | .error e => .error (tomlError file.shown text [] e)
  | .ok entries =>
    match serde.firstError entries with
    | some (e, path, message) =>
      .error (tomlError file.shown text (if path = ("." : Str) then [] else path)
        { message, span := e.span })
    | none => validate debug (ofEntries entries) file env

end Saltnitor.Config
