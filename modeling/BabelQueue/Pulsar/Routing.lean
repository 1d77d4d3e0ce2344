import BabelQueue.App.WriteBack
import BabelQueue.PoisonVerdict
import BabelQueue.Pulsar.Gate
import BabelQueue.Redrive.Conserve

/-!
# The routing URN, from copy to copy

* `Routes urn route env`: under `route`, a body that reads as `env` is looked up by `urn`.
* `Restates env copy`: what the runtime and a redrive may change in an envelope.
* `Along urn message`: every delivery of `message` is looked up by `urn`; `Hop.along` carries it to a copy.
* `KeepsUrn message`: what a message needs for that; `routing_urn_kept` says it is enough.
-/

namespace BabelQueue.Pulsar

open Py Py.Json Py.Utf8

section Interpreter

variable [Interpreter]

/-! ## What is projected from a body -/

/-- The block that `_projection` reads. -/
def metaOf (env : Dict Json) : Dict Json := (env.getJ (str "meta")).asObj?.getD []

/-- `bq-job`, without a route. -/
def bodyJob (env : Dict Json) : Option Str := textIf (env.getJ (str "job")) (env.getJ (str "job")).truthy

/-- `bq-schema-version`, without a gate route. -/
def bodyVersion (env : Dict Json) : Option Str :=
  textIf ((metaOf env).getJ (str "schema_version")) !((metaOf env).getJ (str "schema_version")).isNone

omit [Interpreter] in
theorem metaOf_of_getter {env metaBlock : Dict Json}
    (h : ((env.getJ (str "meta")).orElse (.obj [])).getter = .ok metaBlock) : metaOf env = metaBlock := by
  rw [getter_eq_ok_iff] at h
  unfold metaOf
  unfold Json.orElse at h
  cases hv : env.getJ (str "meta") with
  | obj ms =>
    rw [hv] at h
    split at h
    · exact Json.obj.inj h
    · next ht =>
      obtain rfl : ms = [] := by simpa [Json.truthy] using ht
      exact Json.obj.inj h
  | _ =>
    rw [hv] at h
    split at h
    · cases h
    · exact Json.obj.inj h

theorem projection_plain {body route : Str} {env : Dict Json} {properties : Dict Str} (hr : parseGateRoute route = none)
    (he : parseEnvelope body = .ok env) (hne : env ≠ []) (h : projection body route = .ok properties) :
    Dict.Proper properties ∧ properties.get? (str "bq-schema-version") = bodyVersion env ∧
      properties.get? (str "bq-job") = if route = [] then bodyJob env else some route := by
  unfold projection at h
  obtain ⟨env', henv, h⟩ := bind_eq_ok.mp h
  obtain rfl : env = env' := Except.ok.inj (he.symm.trans henv)
  obtain ⟨base, hbase, h⟩ := bind_eq_ok.mp h
  obtain ⟨metaBlock, hmeta, hproper, hjob, hversion⟩ := bodyProperties_spec hne hbase
  rw [← metaOf_of_getter hmeta] at hversion
  rw [hr] at h
  replace h : (if env = [] ∨ route = [] then base else Dict.set base (str "bq-job") route) = properties := Except.ok.inj h
  by_cases hroute : route = []
  · rw [if_pos (.inr hroute)] at h
    subst h
    rw [if_pos hroute]
    exact ⟨hproper, hversion, hjob⟩
  · rw [if_neg (not_or.mpr ⟨hne, hroute⟩)] at h
    subst h
    rw [if_neg hroute]
    exact ⟨hproper.set _ _, (Dict.get?_set_of_ne _ _ (by decide)).trans hversion, Dict.get?_set_self _ _ _⟩

/-! ## Envelopes along the way -/

/-- What the runtime and a redrive keep of an envelope, for routing. -/
structure Restates (env copy : Dict Json) : Prop where
  urn : envelopeUrn copy = envelopeUrn env
  version : bodyVersion copy = bodyVersion env
  /-- The job is the same, or the URN in its place. -/
  job : copy.getJ (str "job") = env.getJ (str "job") ∨ copy.getJ (str "job") = .str (envelopeUrn env)

theorem Restates.refl (env : Dict Json) : Restates env env := ⟨rfl, rfl, .inl rfl⟩

omit [Interpreter] in
theorem version_foldIdentity (env : Dict Json) :
    (metaOf (foldIdentity env)).getJ (str "schema_version") = (metaOf env).getJ (str "schema_version") :=
  getJ_meta_foldIdentity env (by decide +kernel)

omit [Interpreter] in
theorem job_of_fold (env : Dict Json) :
    (foldIdentity env).getJ (str "job") = env.getJ (str "job") ∨
      (foldIdentity env).getJ (str "job") = .str (envelopeUrn env) := by
  have hstr : ∀ {v : Json}, isValidUrn v = true → v = .str (v.asStr?.getD []) := by
    rintro (_ | _ | _ | _ | s | _ | _) h
    case str => rfl
    all_goals cases h
  have hjob := job_foldIdentity env
  by_cases h₁ : isValidUrn (env.getJ (str "job")) = true
  · rw [if_pos h₁] at hjob
    exact .inl (by rw [Dict.getJ, hjob]; rfl)
  · rw [if_neg h₁] at hjob
    by_cases h₂ : isValidUrn (env.getJ (str "urn")) = true
    · rw [if_pos h₂] at hjob
      refine .inr ?_
      unfold envelopeUrn
      rw [if_neg h₁, if_pos h₂, Dict.getJ, hjob]
      exact hstr h₂
    · rw [if_neg h₂] at hjob
      exact .inl (by rw [Dict.getJ, hjob]; rfl)

/-- What differs from a decoded envelope in `attempts` and `dead_letter` only. -/
theorem restates_of_keeps {env copy : Dict Json}
    (h : ∀ key, key ≠ str "attempts" → key ≠ str "dead_letter" → copy.get? key = (foldIdentity env).get? key) :
    Restates env copy := by
  have hget : ∀ key, key ≠ str "attempts" → key ≠ str "dead_letter" → copy.getJ key = (foldIdentity env).getJ key :=
    fun key hk hk' => by rw [Dict.getJ, h key hk hk']; rfl
  have hmeta : metaOf copy = metaOf (foldIdentity env) := by
    unfold metaOf
    rw [hget (str "meta") (by decide) (by decide)]
  refine ⟨?_, ?_, ?_⟩
  · rw [← identity_foldIdentity env]
    unfold envelopeUrn
    rw [hget (str "job") (by decide) (by decide), hget (str "urn") (by decide) (by decide)]
  · unfold bodyVersion
    rw [hmeta, version_foldIdentity]
  · rw [hget (str "job") (by decide) (by decide)]
    exact job_of_fold env

/-- The version of a body is one that the gate lets through. -/
def Accepts (env : Dict Json) : Prop :=
  ∀ text, bodyVersion env = some text → text.all (· ∈ asciiWhitespace) = true ∨ text = intText Kafka.schemaVersion

/-- The job of a body is blank, or the URN `urn` up to white space. -/
def Fits (urn : Str) (env : Dict Json) : Prop :=
  ∀ text, bodyJob env = some text → strip asciiWhitespace text = [] ∨ strip asciiWhitespace text = urn

/-- A URN that reads the same as a property. -/
structure Steady (urn : Str) : Prop where
  ne_nil : urn ≠ []
  trimmed : strip asciiWhitespace urn = urn
  unreserved : startsWith urn unsupportedSchemaRoutePrefix = false

/-- Under `route`, a body that reads as `env` is looked up by `urn`. -/
structure Routes (urn route : Str) (env : Dict Json) : Prop where
  accepts : Accepts env
  named : envelopeUrn env ≠ []
  looked : route = urn ∨ route = [] ∧ envelopeUrn env = urn ∧ Fits urn env

theorem Routes.restates {urn route : Str} {env copy : Dict Json} (hu : Steady urn) (h : Routes urn route env)
    (hc : Restates env copy) : Routes urn route copy where
  accepts := by
    unfold Accepts
    rw [hc.version]
    exact h.accepts
  named := hc.urn ▸ h.named
  looked := by
    refine h.looked.imp_right ?_
    rintro ⟨hroute, hurn, hfits⟩
    refine ⟨hroute, hc.urn.trans hurn, fun text ht => ?_⟩
    unfold bodyJob at ht
    rcases hc.job with hj | hj
    · rw [hj] at ht
      exact hfits text ht
    · rw [hj, hurn, textIf_eq_some] at ht
      obtain rfl : urn = text := Except.ok.inj ht.2
      exact .inr hu.trimmed

theorem Routes.route_cases {urn route : Str} {env : Dict Json} (h : Routes urn route env) : route = urn ∨ route = [] :=
  h.looked.imp_right And.left

omit [Interpreter] in
theorem Steady.parseGateRoute {urn route : Str} (hu : Steady urn) (h : route = urn ∨ route = []) :
    Pulsar.parseGateRoute route = none := by
  refine parseGateRoute_of_not_prefix ?_
  rcases h with rfl | rfl
  · exact hu.unreserved
  · decide +kernel

/-! ## Deliveries -/

theorem loads_of_parseEnvelope {raw : Str} {env : Dict Json} (h : parseEnvelope raw = .ok env) (hne : env ≠ []) :
    loads raw = .ok (.obj env) := by
  unfold parseEnvelope at h
  cases hl : loads raw with
  | error e =>
    rw [hl] at h
    simp only [Except.map, tryExceptPure] at h
    split at h
    · exact absurd (Except.ok.inj h).symm hne
    · cases h
  | ok v =>
    rw [hl] at h
    cases v with
    | obj d => cases h; rfl
    | _ => exact absurd (Except.ok.inj h).symm hne

/-- What `_reconcile` makes of a body. -/
theorem reconcile_restates {body : Str} {count : UInt32} {properties : Dict Str} {r : Reconciled}
    (h : reconcile body count properties = .ok r) :
    ∃ env, parseEnvelope body = .ok env ∧
      (env = [] ∧ r.body = body ∧ r.route = [] ∨
        r.route = routeOf env properties ∧ ∃ d, parseEnvelope r.body = .ok d ∧ Restates env d) := by
  unfold reconcile at h
  obtain ⟨env, henv, h⟩ := bind_eq_ok.mp h
  refine ⟨env, henv, ?_⟩
  by_cases hne : env = []
  · rw [if_pos hne] at h
    obtain rfl := Except.ok.inj h
    exact .inl ⟨hne, rfl, rfl⟩
  · rw [if_neg hne] at h
    obtain ⟨attempts, -, h⟩ := bind_eq_ok.mp h
    dsimp only at h
    split at h
    · obtain ⟨reencoded, hdec, h⟩ := bind_eq_ok.mp h
      obtain ⟨out, hout, h⟩ := bind_eq_ok.mp h
      obtain rfl := Except.ok.inj h
      have hl := loads_of_parseEnvelope henv hne
      rw [decodeLenient_obj hl] at hdec
      obtain rfl : foldIdentity env = reencoded := Except.ok.inj hdec
      refine .inr ⟨rfl, _, parseEnvelope_obj (loads_encode ((proper_foldIdentity hl).set _ (v := .int _) trivial) hout), ?_⟩
      exact restates_of_keeps fun key hk _ => Dict.get?_set_of_ne _ _ hk
    · obtain rfl := Except.ok.inj h
      exact .inr ⟨rfl, env, henv, Restates.refl env⟩

theorem received_ungated {queue : Str} {d : Delivery} {m : ReceivedMessage Delivery} {mismatch : Option Mismatch}
    (hv : unsupportedSchemaVersion d.message.properties = none) (h : received queue d = .ok (m, mismatch)) :
    ∃ r, reconcile d.payload d.redeliveryCount d.message.properties = .ok r ∧ m.routeUrn = .plain r.route ∧ m.body = r.body := by
  unfold received at h
  rw [hv] at h
  obtain ⟨r, hr, h⟩ := bind_eq_ok.mp h
  obtain ⟨native, -, h⟩ := bind_eq_ok.mp h
  obtain rfl := congrArg Prod.fst (Except.ok.inj h)
  exact ⟨r, hr, rfl, rfl⟩

/-- The `bq-job` of a message as it is routed by. -/
def jobOf (message : Message) : Str := strip asciiWhitespace ((message.properties.get? (str "bq-job")).getD [])

/-- Every delivery of the message is looked up by `urn`. -/
structure Along (urn : Str) (message : Message) : Prop where
  ungated : unsupportedSchemaVersion message.properties = none
  routes : ∀ env, parseEnvelope (decodeEscape message.data) = .ok env → Routes urn (jobOf message) env

omit [Interpreter] in
theorem routeOf_eq {env : Dict Json} {message : Message} (h : envelopeUrn env ≠ []) :
    routeOf env message.properties = jobOf message := by
  unfold routeOf
  dsimp only
  by_cases hj : jobOf message = []
  · rw [if_neg fun hn => hn.1 hj, hj]
  · exact if_pos ⟨hj, h⟩

/-- A delivery that is looked up by `urn`. -/
structure LookedUp (urn : Str) (m : ReceivedMessage Delivery) : Prop where
  found : ∃ route env, m.routeUrn = .plain route ∧ parseEnvelope m.body = .ok env ∧ Routes urn route env

omit [Interpreter] in
theorem envelope_ne_nil {env : Dict Json} (h : envelopeUrn env ≠ []) : env ≠ [] := by
  rintro rfl
  exact h rfl

theorem Along.lookedUp {urn : Str} {message : Message} (hu : Steady urn) (h : Along urn message) {queue : Str} {d : Delivery}
    {m : ReceivedMessage Delivery} {mismatch : Option Mismatch} (hd : d.message = message)
    (hm : received queue d = .ok (m, mismatch)) : LookedUp urn m := by
  subst hd
  obtain ⟨r, hr, hroute, hbody⟩ := received_ungated h.ungated hm
  obtain ⟨env, henv, hspec⟩ := reconcile_restates hr
  have hroutes := h.routes env henv
  obtain ⟨hr', d', hd', hrestates⟩ := hspec.resolve_left fun h => envelope_ne_nil hroutes.named h.1
  refine ⟨r.route, d', hroute, hbody ▸ hd', ?_⟩
  rw [hr', routeOf_eq hroutes.named]
  exact hroutes.restates hu hrestates

theorem LookedUp.gated {urn : Str} {m : ReceivedMessage Delivery} (hu : Steady urn) (h : LookedUp urn m) : m.gated = false := by
  obtain ⟨route, env, hr, -, hroutes⟩ := h.found
  unfold ReceivedMessage.gated
  rw [hr]
  rcases hroutes.route_cases with rfl | rfl
  · exact hu.unreserved
  · decide +kernel

/-- The URN that `dispatch` looks a handler up by. -/
theorem LookedUp.classify {urn : Str} {m : ReceivedMessage Delivery} (hu : Steady urn) (h : LookedUp urn m) {σ : Type}
    {T : PulsarTransport σ} {app : App σ Delivery} {r : App.Routing σ} (hr : (app.on T).classify m = .ok r)
    (hp : r.poisonCause = none) : r.urn = urn := by
  obtain ⟨route, env, hroute, henv, hroutes⟩ := h.found
  have hg := h.gated hu
  have hne := envelope_ne_nil hroutes.named
  have hl := loads_of_parseEnvelope henv hne
  unfold App.classify at hr
  obtain ⟨cause, -, hr⟩ := bind_eq_ok.mp hr
  obtain ⟨envelope, henvelope, hr⟩ := bind_eq_ok.mp hr
  obtain ⟨job, hjob, hr⟩ := bind_eq_ok.mp hr
  obtain rfl := Except.ok.inj hr
  obtain rfl : cause = none := hp
  rw [App.envelopeOf, hg] at henvelope
  obtain rfl : foldIdentity env = envelope := Except.ok.inj ((decodeLenient_obj hl).symm.trans henvelope)
  have hfold : envelopeUrn (foldIdentity env) ≠ [] := by
    rw [identity_foldIdentity]
    exact hroutes.named
  have hempty : (foldIdentity env).isEmpty = false := by
    have hne' := envelope_ne_nil hfold
    cases hf : foldIdentity env with
    | nil => exact absurd hf hne'
    | cons p d => rfl
  dsimp only
  rw [hroute, hempty]
  show (if route ≠ [] ∧ ¬ false = true then route else job) = urn
  rcases hroutes.looked with rfl | ⟨rfl, hurn, -⟩
  · exact if_pos ⟨hu.ne_nil, by decide⟩
  · rw [if_neg (by simp)]
    have hid : HasIdentity env := envelopeUrn_ne_nil_iff.mp hroutes.named
    have hvalid := isValidUrn_foldIdentity hid
    obtain ⟨text, htext, -, h₁, h₂⟩ := toStr_of_identity hvalid ((foldIdentity env).getJ (str "urn")) (.str [])
    rw [h₁, h₂] at hjob
    obtain rfl : text = job := Except.ok.inj hjob
    rw [← hurn, ← identity_foldIdentity env]
    unfold envelopeUrn
    rw [if_pos hvalid, htext]
    rfl

/-! ## Copies -/

/-- What is written from a body that restates a delivery is looked up by the same URN. -/
theorem Along.of_writes {urn route body : Str} {env e : Dict Json} {copy : Message} (hu : Steady urn)
    (h : Routes urn route env) (he : parseEnvelope body = .ok e) (hr : Restates env e) (hw : Writes route body copy) :
    Along urn copy := by
  have hroutes := h.restates hu hr
  have hne := envelope_ne_nil hroutes.named
  obtain ⟨properties, hp, hdata, hget⟩ := hw.spec
  obtain ⟨hproper, hversion, hjob⟩ := projection_plain (hu.parseGateRoute h.route_cases) he hne hp
  have hversion' := (hget hproper (str "bq-schema-version") (by decide)).trans hversion
  have hjob' := (hget hproper (str "bq-job") (by decide)).trans hjob
  refine ⟨?_, fun env' henv' => ?_⟩
  · by_contra hn
    obtain ⟨version, hv⟩ := Option.ne_none_iff_exists'.mp hn
    obtain ⟨hv, hbad⟩ := unsupportedSchemaVersion_eq_some.mp hv
    exact hbad (hroutes.accepts version (hversion'.symm.trans hv))
  · rw [decodeEscape_encodeStrict hdata, he] at henv'
    obtain rfl : e = env' := Except.ok.inj henv'
    refine ⟨hroutes.accepts, hroutes.named, ?_⟩
    unfold jobOf
    rw [hjob']
    rcases hroutes.looked with rfl | ⟨rfl, hurn, hfits⟩
    · rw [if_neg hu.ne_nil]
      exact .inl hu.trimmed
    · rw [if_pos rfl]
      cases hj : bodyJob e with
      | none => exact .inr ⟨rfl, hurn, hfits⟩
      | some text =>
        rcases hfits text hj with hblank | htext
        · exact .inr ⟨hblank, hurn, hfits⟩
        · exact .inl htext

/-- `copy` is sent for a delivery of `message`, when a dispatch of one that is not poison or a redrive has it. -/
inductive Hop (message copy : Message) : Prop
  | dispatched {σ : Type} (T : PulsarTransport σ) (app : App σ Delivery) {queue topic : Str} {d : Delivery}
      {m : ReceivedMessage Delivery} {mismatch : Option Mismatch} {s : σ} (hd : d.message = message)
      (hm : received queue d = .ok (m, mismatch)) (hp : poisonCause m.body (m.routeUrn.text = []) = .ok none)
      (h : (topic, copy) ∈ ((app.sending T).dispatch m (s, [])).2.2)
  | replayed {σ : Type} (T : PulsarTransport σ) (o : RedriveOptions σ) {queue topic : Str} {d : Delivery}
      {m : ReceivedMessage Delivery} {mismatch : Option Mismatch} {envelope : Option (Dict Json)} {s : σ}
      (hd : d.message = message) (hm : received queue d = .ok (m, mismatch)) (he : batchEnvelope m = .ok envelope)
      (h : (topic, copy) ∈ (replayOne T.logged.transport queue o.aside m envelope (s, [])).2.2)

/-- What a dispatch writes restates the delivery. -/
theorem restates_of_dispatch {σ : Type} {T : PulsarTransport σ} {app : App σ Delivery} {m : ReceivedMessage Delivery}
    {route : Str} {env : Dict Json} {copy : Message} {topic : Str} {s : σ} (hroute : m.routeUrn = .plain route)
    (hg : m.gated = false) (hl : loads m.body = .ok (.obj env)) (hp : poisonCause m.body (m.routeUrn.text = []) = .ok none)
    (h : (topic, copy) ∈ ((app.sending T).dispatch m (s, [])).2.2) :
    ∃ body e, parseEnvelope body = .ok e ∧ Restates env e ∧ Writes route body copy := by
  obtain ⟨queue, body, r, hevent, hbody⟩ := mem_dispatch_sent h
  rw [hroute] at hbody hp
  have hd : BabelQueue.Delivery (app.on T) m := .classified rfl hroute hg hp
  rcases Emits.of_run (Emits.dispatch hd.readable) s _ hevent body rfl with hn | ⟨hredeliver, -⟩
  · obtain ⟨envelope, written, hdec, hwritten, -, hkeep⟩ := hn
    obtain rfl : foldIdentity env = envelope := Except.ok.inj ((decodeLenient_obj hl).symm.trans hdec)
    exact ⟨body, written, parseEnvelope_obj hwritten, restates_of_keeps hkeep, .inl hbody⟩
  · cases hredeliver

/-- What a turn of a redrive writes restates the delivery. -/
theorem restates_of_replay {m : ReceivedMessage Delivery} {route : Str} {env : Dict Json} {envelope : Option (Dict Json)}
    {copy : Message} (hroute : m.routeUrn = .plain route) (hl : loads m.body = .ok (.obj env))
    (he : batchEnvelope m = .ok envelope) (h : Replays m envelope copy) :
    ∃ body e, parseEnvelope body = .ok e ∧ Restates env e ∧ Writes route body copy := by
  rcases h with h | ⟨decoded, body, rfl, hbody, h⟩
  · rw [hroute] at h
    exact ⟨m.body, env, parseEnvelope_obj hl, Restates.refl env, .inl h⟩
  · rw [hroute] at h
    unfold batchEnvelope at he
    rw [hroute] at he
    obtain ⟨hdec, -, hs⟩ := decodedBody_some he
    obtain rfl : foldIdentity env = decoded := Except.ok.inj ((decodeLenient_obj hl).symm.trans hdec)
    have hproper : Json.Proper (.obj (resetEnvelope (foldIdentity env))) := (hs.proper.erase _).set _ trivial
    refine ⟨body, _, parseEnvelope_obj (loads_encode hproper hbody), restates_of_keeps fun key hk hk' => ?_, h⟩
    unfold resetEnvelope
    rw [Dict.get?_set_of_ne _ _ hk, Dict.get?_erase_of_ne _ hk']

theorem Hop.along {urn : Str} {message copy : Message} (hu : Steady urn) (h : Along urn message) (hop : Hop message copy) :
    Along urn copy := by
  cases hop with
  | dispatched T app hd hm hp hs =>
    have hm' := h.lookedUp hu hd hm
    obtain ⟨route, env, hroute, henv, hroutes⟩ := hm'.found
    have hl := loads_of_parseEnvelope henv (envelope_ne_nil hroutes.named)
    obtain ⟨body, e, he, hrestates, hw⟩ := restates_of_dispatch hroute (hm'.gated hu) hl hp hs
    exact Along.of_writes hu hroutes he hrestates hw
  | replayed T o hd hm he hs =>
    obtain ⟨route, env, hroute, henv, hroutes⟩ := (h.lookedUp hu hd hm).found
    have hl := loads_of_parseEnvelope henv (envelope_ne_nil hroutes.named)
    obtain ⟨body, e, he', hrestates, hw⟩ := restates_of_replay hroute hl he ((replayOne_sends T o _).of_run _ _ hs)
    exact Along.of_writes hu hroutes he' hrestates hw

/-! ## The whole life of a message -/

/-- What keeps the URN of a message: a version that the gate lets through, and a URN that reads the same from the
body and from `bq-job`, unless `bq-job` has it already. -/
structure KeepsUrn (message : Message) : Prop where
  version : ∀ env, parseEnvelope (decodeEscape message.data) = .ok env → Accepts env
  urn : ∀ env, parseEnvelope (decodeEscape message.data) = .ok env → jobOf message = [] →
    strip asciiWhitespace (envelopeUrn env) = envelopeUrn env ∧
      startsWith (envelopeUrn env) unsupportedSchemaRoutePrefix = false ∧ Fits (envelopeUrn env) env

/-- The URN that a handler is looked up by for `m` is the one for every delivery of every copy of `message`. -/
def UrnConstant (message : Message) (m : ReceivedMessage Delivery) : Prop :=
  ∃ urn, urn ≠ [] ∧
    (∀ {σ : Type} (T : PulsarTransport σ) (app : App σ Delivery) r, (app.on T).classify m = .ok r → r.urn = urn) ∧
    ∀ copy, Relation.ReflTransGen Hop message copy → ∀ queue d m mismatch, d.message = copy →
      received queue d = .ok (m, mismatch) → m.gated = false ∧
        ∀ {σ : Type} (T : PulsarTransport σ) (app : App σ Delivery) r, (app.on T).classify m = .ok r →
          r.poisonCause = none → r.urn = urn

/-- The URN of a delivery that is neither gated nor poison is the one of every later delivery of every copy. -/
theorem routing_urn_kept {message : Message} (hk : KeepsUrn message) {queue : Str} {d : Delivery}
    {m : ReceivedMessage Delivery} {mismatch : Option Mismatch} (hd : d.message = message)
    (hm : received queue d = .ok (m, mismatch)) (hg : m.gated = false)
    (hp : poisonCause m.body (m.routeUrn.text = []) = .ok none) : UrnConstant message m := by
  subst hd
  have hungated : unsupportedSchemaVersion d.message.properties = none := by
    by_contra hn
    obtain ⟨version, hv⟩ := Option.ne_none_iff_exists'.mp hn
    rw [received_gated hv, map_eq_ok] at hm
    obtain ⟨route, hroute, hm⟩ := hm
    obtain rfl : popped route d.payload queue d [] = m := congrArg Prod.fst hm
    have hgated : startsWith route unsupportedSchemaRoutePrefix = true := startsWith_gateRoute hroute
    exact Bool.false_ne_true (hg.symm.trans hgated)
  obtain ⟨r, hr, hroute, hbody⟩ := received_ungated hungated hm
  obtain ⟨env, henv, hspec⟩ := reconcile_restates hr
  rw [hroute, hbody] at hp
  -- A delivery without a route that is not poison names a URN.
  have hnamed : envelopeUrn env ≠ [] := by
    by_cases hr' : r.route = []
    · have hidentity : ∀ e, parseEnvelope r.body = .ok e → envelopeUrn e ≠ [] := by
        intro e he
        obtain ⟨d', hl, -, hid⟩ := poisonCause_none hp
        obtain rfl : d' = e := Except.ok.inj ((parseEnvelope_obj hl).symm.trans he)
        exact envelopeUrn_ne_nil_iff.mpr (hid (decide_eq_true hr'))
      rcases hspec with ⟨-, hsame, -⟩ | ⟨-, e, he, hrestates⟩
      · exact hidentity env (hsame ▸ henv)
      · exact hrestates.urn ▸ hidentity e he
    · rcases hspec with ⟨-, -, hnil⟩ | ⟨hrouted, -⟩
      · exact absurd hnil hr'
      · intro hnil
        rw [hrouted] at hr'
        unfold routeOf at hr'
        exact hr' (if_neg fun h => h.2 hnil)
  have hroute' : r.route = jobOf d.message := by
    rcases hspec with ⟨hnil, -⟩ | ⟨hrouted, -⟩
    · exact absurd hnil (envelope_ne_nil hnamed)
    · rw [hrouted, routeOf_eq hnamed]
  obtain ⟨urn, hu, halong⟩ : ∃ urn, Steady urn ∧ Along urn d.message := by
    by_cases hjob : jobOf d.message = []
    · obtain ⟨htrimmed, hunreserved, hfits⟩ := hk.urn env henv hjob
      refine ⟨envelopeUrn env, ⟨hnamed, htrimmed, hunreserved⟩, hungated, fun env' henv' => ?_⟩
      obtain rfl : env = env' := Except.ok.inj (henv.symm.trans henv')
      exact ⟨hk.version env henv, hnamed, .inr ⟨hjob, rfl, hfits⟩⟩
    · refine ⟨jobOf d.message, ⟨hjob, strip_strip _ _, ?_⟩, hungated, fun env' henv' => ?_⟩
      · rw [← hroute']
        unfold ReceivedMessage.gated at hg
        rwa [hroute] at hg
      · obtain rfl : env = env' := Except.ok.inj (henv.symm.trans henv')
        exact ⟨hk.version env henv, hnamed, .inl rfl⟩
  have hkept : ∀ copy, Relation.ReflTransGen Hop d.message copy → Along urn copy := by
    intro copy hcopy
    induction hcopy with
    | refl => exact halong
    | tail _ hop ih => exact hop.along hu ih
  refine ⟨urn, hu.ne_nil, fun T app r' hr' => ?_, fun copy hcopy queue d' m' mismatch' hd' hm' => ?_⟩
  · refine (halong.lookedUp hu rfl hm).classify hu hr' ?_
    obtain ⟨hcause, -, -⟩ := App.classify_ok hr'
    unfold App.causeOf at hcause
    rw [hg, hroute, hbody] at hcause
    exact Except.ok.inj (hcause.symm.trans hp)
  · have hlooked := (hkept copy hcopy).lookedUp hu hd' hm'
    exact ⟨hlooked.gated hu, fun T app r' hr' => hlooked.classify hu hr'⟩

end Interpreter

section CPython

attribute [local instance] cpython

/-- A message without properties, whose body names only `job`. -/
def bareJob (job : String) : Message := ⟨encodePass (str "\x7b\"job\":\"" ++ str job ++ str "\"\x7d"), []⟩

theorem received_bare {data : Bytes} {env : Dict Json} (he : parseEnvelope (decodeEscape data) = .ok env)
    (ha : (env.getJ (str "attempts")).asInt? = none) (queue : Str) :
    received queue ⟨0, ⟨data, []⟩, 0⟩ = .ok (popped [] (decodeEscape data) queue ⟨0, ⟨data, []⟩, 0⟩ [], none) := by
  have hrec : reconcile (decodeEscape data) 0 [] = .ok ⟨decodeEscape data, [], none⟩ := by
    unfold reconcile
    rw [he]
    show (if env = [] then _ else _) = _
    split
    · rfl
    · have hroute : routeOf env [] = [] := by
        unfold routeOf
        exact if_neg fun h => h.1 rfl
      rw [ha, hroute]
      rfl
  unfold received
  show (do
    let r ← reconcile (decodeEscape data) 0 []
    let native ← nativeAttempts 0 []
    pure ({ popped r.route r.body queue _ (Kafka.outOfBandOf []) with nativeAttempts := native }, r.mismatch)) = _
  rw [hrec]
  rfl

theorem bareJob_kept : ∃ m mismatch, received (str "orders") ⟨0, bareJob "urn:x", 0⟩ = .ok (m, mismatch) ∧
    UrnConstant (bareJob "urn:x") m := by
  have hparse : ∃ env, parseEnvelope (decodeEscape (bareJob "urn:x").data) = .ok env ∧ bodyVersion env = none ∧
      bodyJob env = some (str "urn:x") ∧ envelopeUrn env = str "urn:x" ∧ (env.getJ (str "attempts")).asInt? = none := by
    have h : (parseEnvelope (decodeEscape (bareJob "urn:x").data)).map (fun env =>
        (bodyVersion env, bodyJob env, envelopeUrn env, (env.getJ (str "attempts")).asInt?)) =
        .ok (none, some (str "urn:x"), str "urn:x", none) := by decide +kernel
    obtain ⟨env, henv, h⟩ := map_eq_ok.mp h
    simp only [Prod.mk.injEq] at h
    exact ⟨env, henv, h.1, h.2.1, h.2.2.1, h.2.2.2⟩
  obtain ⟨env, henv, hversion, hjob, hurn, hattempts⟩ := hparse
  have hkeeps : KeepsUrn (bareJob "urn:x") := by
    refine ⟨fun env' henv' text ht => ?_, fun env' henv' _ => ?_⟩
    all_goals obtain rfl : env = env' := Except.ok.inj (henv.symm.trans henv')
    · rw [hversion] at ht
      cases ht
    · rw [hurn]
      refine ⟨by decide +kernel, by decide +kernel, fun text ht => .inr ?_⟩
      rw [hjob] at ht
      obtain rfl := Option.some.inj ht
      decide +kernel
  have hreceived := received_bare henv hattempts (str "orders")
  exact ⟨_, _, hreceived, routing_urn_kept hkeeps rfl hreceived (by decide +kernel) (by decide +kernel)⟩

/-- `BabelQueue(on_unknown_urn="release")` without handlers. -/
def releasingApp : App Sent Delivery := { lettersApp with onUnknownUrn := .release }

/-- What is released for a message without properties that names the job `job`. -/
def releasedJob (job : String) : Message :=
  ⟨(bareJob job).data, [(str "bq-job", str job), (str "bq-attempts", str "0")]⟩

/-- The URN that the runtime looks a handler up by, on the first delivery of a message. -/
def lookedUp (message : Message) : Except PyExc Str := do
  let (m, _) ← received (str "orders") ⟨0, message, 0⟩
  let r ← releasingApp.classify m
  pure r.urn

/-- A URN with a blank before it: the released copy is looked up without the blank. -/
theorem urn_trimmed :
    (received (str "orders") ⟨0, bareJob " urn:x", 0⟩).map (fun p => (p.1.gated, p.1.routeUrn.text)) = .ok (false, []) ∧
      poisonCause (decodeEscape (bareJob " urn:x").data) true = .ok none ∧
      Hop (bareJob " urn:x") (releasedJob " urn:x") ∧
      lookedUp (bareJob " urn:x") = .ok (str " urn:x") ∧ lookedUp (releasedJob " urn:x") = .ok (str "urn:x") := by
  refine ⟨by decide +kernel, by decide +kernel, ?_, by decide +kernel, by decide +kernel⟩
  have h : (parseEnvelope (decodeEscape (bareJob " urn:x").data)).map (fun env => (env.getJ (str "attempts")).asInt?) =
      .ok none := by decide +kernel
  obtain ⟨env, henv, hattempts⟩ := map_eq_ok.mp h
  refine .dispatched sandbox releasingApp rfl (received_bare henv hattempts (str "orders")) (by decide +kernel)
    (?_ : (str "orders", releasedJob " urn:x") ∈ ((releasingApp.sending sandbox).dispatch _ ([], [])).2.2)
  decide +kernel

end CPython

end BabelQueue.Pulsar
