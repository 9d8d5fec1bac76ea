import Saltnitor.App.Console
import Saltnitor.ControlApi.Ensure
import Saltnitor.Rust.JsonQuote
import Saltnitor.Rust.Utf8

/-!
# Bodies that name a model

Four places build a chat request around a model's name. `hotswap::warm_load` hands the name to
the serializer, and its body says that name whatever it is (`carries_warmText`); the daemon's
warm request and the console's two payloads put it between quotes as it is, and theirs do just
when the name is `Plain`.
-/

namespace Saltnitor.Hotswap

open Rust Http

/-! ## The warm request -/

/-- The one-token request of `warm_load`. -/
def warmPayload (model : Str) : Json :=
  .obj [("model", .str model),
    ("messages", .arr [.obj [("role", .str "user"), ("content", .str "warmup")]]),
    ("max_tokens", .num 1)]

/-- `warmPayload` as `serde_json` prints it, the names of an object sorted. -/
def warmText (model : Str) : Str :=
  ("\x7b\"max_tokens\":1,\"messages\":[\x7b\"content\":\"warmup\",\"role\":\"user\"\x7d],\"model\":" : Str) ++
    (quote model ++ ("\x7d" : Str))

/-- `none` when the bearer is no header value; `http://host:port` is a URL the client accepts. -/
def warmRequest (host : Str) (port : Nat) (bearer : Option Str) (model : Str) : Option Outgoing :=
  (ControlApi.warmHeaders bearer).map fun headers =>
    { method := .post
      url := ("http://" : Str) ++ host ++ (":" : Str) ++ toDec port ++ ("/v1/chat/completions" : Str)
      headers, body := bytes (warmText model) }

/-- The ping the console shows. -/
def pingPayload (model : Str) : Json :=
  .obj [("model", .str model),
    ("messages", .arr [.obj [("role", .str "user"), ("content", .str "ping")]])]

/-! ## What a body says -/

/-- The body is the text of one JSON value, which is `v`. -/
def Carries (body : List UInt8) (v : Json) : Prop :=
  ∃ s w, body = bytes s ∧ SpellsText s w ∧ w.Same v

/-- Every body built around `id` says `id`, and the two warm requests say the same. -/
structure Bodies (id : Str) : Prop where
  warm : ∀ api r, ControlApi.warmRequest api id = some r → Carries r.body (warmPayload id)
  hotswap : ∀ host port bearer r, warmRequest host port bearer id = some r →
    Carries r.body (warmPayload id)
  enter : ∀ a : App, (a.hotSwapSelected.bind fun i => a.availableModels[i]?) = some id →
    Carries (bytes (a.hotSwapKey .enter).consoleInput) (pingPayload id)
  fetched : ∀ (a : App) (models : List Str), a.activeModel = ("None" : Str) →
    Carries (bytes (a.modelsFetched (id :: models)).consoleInput) (pingPayload id)
  equal : ∀ api host port bearer r r', ControlApi.warmRequest api id = some r →
    warmRequest host port bearer id = some r' → ∃ v, Carries r.body v ∧ Carries r'.body v

variable {id : Str}

theorem Carries.of_bytes {s : Str} {v : Json} (h : Carries (bytes s) v) :
    ∃ w, SpellsText s w ∧ w.Same v := by
  obtain ⟨s', w, he, hw⟩ := h
  have hs : s' = s := Option.some.inj ((fromUtf8_eq_some.mpr he).symm.trans (fromUtf8_bytes s))
  exact ⟨w, hs ▸ hw⟩

theorem carries_obj {s : Str} {ms : List (Str × Json)} {v : Json} (h : Spells (.members ms) s [])
    (hv : (Json.obj ms).Same v) : Carries (bytes ('\x7b' :: s)) v :=
  ⟨_, _, rfl, ⟨[], _, [], rfl, blank_nil, .obj h, blank_nil⟩, hv⟩

theorem jsonNumber_one : jsonNumber ("1" : Str) = some 1 := by decide +kernel

theorem spells_one (c : Char) (hc : isNumChar c = false) (r : Str) :
    Spells (.value (.num 1)) ('1' :: c :: r) (c :: r) := by
  refine Spells.num jsonNumber_one ?_
  rintro _ ⟨⟩
  exact hc

theorem plain_names : Plain ("model" : Str) ∧ Plain ("messages" : Str) ∧ Plain ("max_tokens" : Str) ∧
    Plain ("role" : Str) ∧ Plain ("content" : Str) ∧ Plain ("user" : Str) ∧ Plain ("warmup" : Str) ∧
    Plain ("ping" : Str) := by
  decide

/-- A list of one message, `p` behind each colon and each comma. -/
theorem spells_messages {p a x b y : Str} (hp : Blank p) (ha : Plain a) (hx : Plain x) (hb : Plain b)
    (hy : Plain y) (r : Str) :
    Spells (.value (.arr [.obj [(a, .str x), (b, .str y)]]))
      ('[' :: '\x7b' :: '"' :: (a ++ '"' :: ':' :: (p ++ '"' :: (x ++ '"' :: ',' ::
        (p ++ '"' :: (b ++ '"' :: ':' :: (p ++ '"' :: (y ++ '"' :: '\x7d' :: ']' :: r)))))))) r :=
  .item (.obj (.next ha hp (hx.spells _) (.pad hp (.last hb hp (hy.spells _)))))

/-! ## The serializer -/

theorem warmPayload_same (model : Str) :
    (Json.obj [("max_tokens", .num 1),
      ("messages", .arr [.obj [("content", .str "warmup"), ("role", .str "user")]]),
      ("model", .str model)]).Same (warmPayload model) := by
  have hinner : (Json.obj [("content", .str "warmup"), ("role", .str "user")]).Same
      (.obj [("role", .str "user"), ("content", .str "warmup")]) :=
    .order (List.Perm.swap ..) (by decide)
  have hmessages := @Json.Same.member [("max_tokens", .num 1)] [("model", .str model)] "messages" _ _
    (@Json.Same.item [] [] _ _ hinner)
  refine hmessages.trans (.order (List.reverse_perm _).symm ?_)
  show (["max_tokens".toList, "messages".toList, "model".toList] : List Str).Nodup
  decide

theorem carries_warmText (id : Str) : Carries (bytes (warmText id)) (warmPayload id) := by
  obtain ⟨hmodel, hmessages, hmax, hrole, hcontent, huser, hwarmup, -⟩ := plain_names
  have hid : Spells (.value (.str id)) (quote id ++ ['\x7d']) ['\x7d'] := by
    rw [quote, List.cons_append, List.append_assoc]
    exact .str (strText_quote id _)
  have htail : Spells (.members [("model", .str id)]) _ [] := .last hmodel blank_nil hid
  have hall := Spells.next hmax blank_nil (spells_one ',' rfl _)
    (.next hmessages blank_nil (spells_messages blank_nil hcontent hwarmup hrole huser _) htail)
  exact carries_obj hall (warmPayload_same id)

/-! ## Names between quotes as they are -/

/-- A body with the name between quotes says it only when it is plain: in front is the first member
name, behind it the comma and the blanks up to the next quote. -/
theorem plain_of_carries {body p q z : Str} {v : Json} (hp : Blank p) (hq : Plain q) (hne : q ≠ [])
    (hbody : body = '\x7b' :: '"' :: ("model".toList ++ '"' :: ':' ::
      (p ++ '"' :: (id ++ '"' :: (q ++ '"' :: z)))))
    (hv : ∀ t, ("model".toList, Json.str t) ∈ v.members → t = id) (h : Carries (bytes body) v) :
    Plain id := by
  obtain ⟨w, hw, hsame⟩ := h.of_bytes
  rw [hbody] at hw
  obtain ⟨t, r, hmem, ht⟩ := hw.first plain_names.1 hp
  rw [hv t ((hsame.mem_members _ _).mp hmem)] at ht
  exact .of_strText hq hne ht

/-- With a plain name the service's warm request is the text of its payload. -/
theorem spellsText_warmBody (hid : Plain id) :
    SpellsText (ControlApi.warmBody id) (warmPayload id) := by
  obtain ⟨hmodel, hmessages, hmax, hrole, hcontent, huser, hwarmup, -⟩ := plain_names
  have hall := Spells.next hmodel blank_nil (hid.spells _) (.next hmessages blank_nil
    (spells_messages blank_nil hrole huser hcontent hwarmup _)
    (.last hmax blank_nil (spells_one '\x7d' rfl [])))
  exact ⟨[], _, [], rfl, blank_nil, .obj hall, blank_nil⟩

theorem carries_warmBody_iff :
    Carries (bytes (ControlApi.warmBody id)) (warmPayload id) ↔ Plain id := by
  constructor
  · refine plain_of_carries blank_nil (q := [',']) (by decide) (by decide) rfl fun t ht => ?_
    simpa [warmPayload, Json.members] using ht
  · intro hid
    exact ⟨_, _, rfl, spellsText_warmBody hid, .refl _⟩

theorem carries_payloadFor_iff :
    Carries (bytes (App.payloadFor id)) (pingPayload id) ↔ Plain id := by
  obtain ⟨hmodel, hmessages, -, hrole, hcontent, huser, -, hping⟩ := plain_names
  constructor
  · refine plain_of_carries blank_space (q := [',', ' ']) (by decide) (by decide) rfl fun t ht => ?_
    simpa [pingPayload, Json.members] using ht
  · intro hid
    have hall := Spells.next hmodel blank_space (hid.spells _) (.pad blank_space (.last hmessages
      blank_space (spells_messages blank_space hrole huser hcontent hping ['\x7d'])))
    exact carries_obj hall (.refl _)

/-! ## Every body -/

theorem body_warmRequest {api : ControlApi.Api} {r : Outgoing}
    (h : ControlApi.warmRequest api id = some r) : r.body = bytes (ControlApi.warmBody id) := by
  obtain ⟨_, -, rfl⟩ := Option.map_eq_some_iff.mp h
  rfl

theorem body_hotswap {host : Str} {port : Nat} {bearer : Option Str} {r : Outgoing}
    (h : warmRequest host port bearer id = some r) : r.body = bytes (warmText id) := by
  obtain ⟨_, -, rfl⟩ := Option.map_eq_some_iff.mp h
  rfl

theorem consoleInput_enter {a : App}
    (h : (a.hotSwapSelected.bind fun i => a.availableModels[i]?) = some id) :
    (a.hotSwapKey .enter).consoleInput = App.payloadFor id := by
  rw [App.hotSwapKey, h]
  rfl

theorem consoleInput_modelsFetched {a : App} (models : List Str)
    (h : a.activeModel = ("None" : Str)) :
    (a.modelsFetched (id :: models)).consoleInput = App.payloadFor id := by
  rw [App.modelsFetched]
  dsimp only
  rw [if_pos h]
  obtain ⟨i, hi⟩ :=
    App.clampDeck_eq ({ a with availableModels := id :: models, activeModel := id }.setInput
      (App.payloadFor id))
  rw [hi]
  rfl

/-- The bodies say a name just when it has no quote, no backslash and no control character. -/
theorem bodies_iff (id : Str) : Bodies id ↔ Plain id := by
  constructor
  · intro h
    have hfetched := h.fetched (App.new ⟨[], 0, 0, 0, none, none, none⟩) [] rfl
    rw [consoleInput_modelsFetched [] rfl] at hfetched
    exact carries_payloadFor_iff.mp hfetched
  · intro hid
    have hwarm := carries_warmBody_iff.mpr hid
    have hping := carries_payloadFor_iff.mpr hid
    have hhotswap := carries_warmText id
    constructor
    case warm => exact fun api r hr => body_warmRequest hr ▸ hwarm
    case hotswap => exact fun host port bearer r hr => body_hotswap hr ▸ hhotswap
    case enter => exact fun a ha => (consoleInput_enter ha).symm ▸ hping
    case fetched => exact fun a models ha => (consoleInput_modelsFetched models ha).symm ▸ hping
    case equal =>
      intro api host port bearer r r' hr hr'
      rw [body_warmRequest hr, body_hotswap hr']
      exact ⟨_, hwarm, hhotswap⟩

/-- A name with a quote in it. -/
theorem not_bodies_quoted : ¬ Bodies ("say \"hi\"" : Str) := by
  intro h
  have hfetched := h.fetched (App.new ⟨[], 0, 0, 0, none, none, none⟩) [] rfl
  rw [consoleInput_modelsFetched [] rfl] at hfetched
  exact absurd (carries_payloadFor_iff.mp hfetched) (by decide)

end Saltnitor.Hotswap
