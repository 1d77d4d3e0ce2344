import BabelQueue.Pulsar
import BabelQueue.Transports.Reconcile

/-!
# What is sent beside a body (`sqs_transport.py`, `asb_transport.py`, `artemis_transport.py`, `pika_transport.py`)

Every transport projects the fields of a body onto the native properties of a message. The one of Pulsar is
`Pulsar.projection`.

* `Sqs.attributes`, `Asb.projection`, `Artemis.projection`, `Pika.properties`: the others.
* `MetaReads`, `AttemptsRead`: the members that a projection reads.
* `poison_record_projected_iff`: the poison records that are projected.
-/

namespace BabelQueue

open Py Py.Json
open Pulsar (projected)

/-- The `meta` of `env.get("meta") or {}`, of which `get` is called. -/
def metaOrEmpty (env : Dict Json) : Except PyExc (Dict Json) := ((env.getJ (str "meta")).orElse (.obj [])).getter

/-- A value under a key, if it counts. -/
def given (key : Str) (value : Json) (counts : Bool) : Dict Json := if counts then [(key, value)] else []

/-- The arguments of `BasicProperties`; those that are left out are `None`. -/
structure Pika.BasicProperties where
  contentType : Str
  contentEncoding : Option Str
  deliveryMode : Int
  messageId : Json
  correlationId : Json
  type : Json
  appId : Option Str
  headers : Option (Dict Json)

/-- The header table of `_properties`: the contract headers win. -/
def Pika.headers (extraHeaders : Dict Str) (env metaBlock : Dict Json) : Dict Json :=
  let extra := extraHeaders.filter fun p => p.1 ≠ [] && p.2 ≠ []
  let headers : Dict Json := extra.foldl (fun headers p => Dict.set headers p.1 (.str p.2)) []
  let headers := Dict.set headers (str "x-schema-version") (metaBlock.getJ (str "schema_version"))
  let headers := Dict.set headers (str "x-source-lang") (metaBlock.getJ (str "lang"))
  let headers := Dict.set headers (str "x-attempts") ((env.get? (str "attempts")).getD (.int 0))
  headers.filter fun p => !p.2.isNone

section Interpreter

variable [Interpreter]

/-- `attrs[key] = {"DataType": dataType, "StringValue": str(value)}`, if `value` counts. -/
def Sqs.attribute (key dataType : Str) (value : Json) (counts : Bool) : Except PyExc (Dict (Str × Str)) := do
  let text ← projected key value counts
  pure (Dict.mapValues (fun value => (dataType, value)) text)

/-- `SqsTransport._attributes`: the data type and the value of each attribute. -/
def Sqs.attributes (body : Str) : Except PyExc (Dict (Str × Str)) := do
  let env ← parseEnvelope body
  let job := env.getJ (str "job")
  let traceId := env.getJ (str "trace_id")
  let job ← Sqs.attribute (str "bq-job") (str "String") job job.truthy
  let traceId ← Sqs.attribute (str "bq-trace-id") (str "String") traceId traceId.truthy
  let metaBlock ← metaOrEmpty env
  let messageId := metaBlock.getJ (str "id")
  let version := metaBlock.getJ (str "schema_version")
  let lang := metaBlock.getJ (str "lang")
  let createdAt := metaBlock.getJ (str "created_at")
  let messageId ← Sqs.attribute (str "bq-message-id") (str "String") messageId messageId.truthy
  let version ← Sqs.attribute (str "bq-schema-version") (str "Number") version !version.isNone
  let lang ← Sqs.attribute (str "bq-source-lang") (str "String") lang lang.truthy
  let createdAt ← Sqs.attribute (str "bq-created-at") (str "Number") createdAt !createdAt.isNone
  pure (job ++ traceId ++ messageId ++ version ++ lang ++ createdAt)

/-- `AsbTransport._projection` -/
def Asb.projection (body : Str) : Except PyExc (Dict Json) :=
  let contentType : Dict Json := [(str "content_type", .str (str "application/json"))]
  match parseEnvelope body with
  | .error e => if e.isAny [.valueError, .typeError] then .ok contentType else .error e
  | .ok env => do
    let job := env.getJ (str "job")
    let traceId := env.getJ (str "trace_id")
    let metaBlock ← metaOrEmpty env
    let messageId := metaBlock.getJ (str "id")
    let version := metaBlock.getJ (str "schema_version")
    let lang := metaBlock.getJ (str "lang")
    let createdAt := metaBlock.getJ (str "created_at")
    let props := given (str "bq-schema-version") version (!version.isNone) ++
      given (str "bq-source-lang") lang lang.truthy ++ given (str "bq-created-at") createdAt (!createdAt.isNone)
    pure (contentType ++ given (str "subject") job job.truthy ++ given (str "correlation_id") traceId traceId.truthy ++
      given (str "message_id") messageId messageId.truthy ++
      given (str "application_properties") (.obj props) (!props.isEmpty))

/-- `ArtemisTransport._projection` -/
def Artemis.projection (body : Str) : Except PyExc (Dict Str) := do
  let env ← parseEnvelope body
  if env = [] then pure [] else do
    let metaBlock ← metaOrEmpty env
    let version := metaBlock.getJ (str "schema_version")
    let lang := metaBlock.getJ (str "lang")
    let version ← projected (str "bq_schema_version") version !version.isNone
    let lang ← projected (str "bq_source_lang") lang lang.truthy
    let attempts ← truthyAttempts env
    let attempts ← intStr attempts
    pure (version ++ lang ++ [(str "bq_attempts", attempts), (str "bq_app_id", str "babelqueue")])

/-- `PikaTransport._properties` -/
def Pika.properties (body : Str) (extraHeaders : Dict Str) : Except PyExc Pika.BasicProperties :=
  match loads body with
  | .error e =>
    if e.isAny [.valueError, .typeError] then .ok ⟨str "application/json", none, 2, .null, .null, .null, none, none⟩
    else .error e
  | .ok envelope => do
    let env ← envelope.getter
    let metaBlock ← metaOrEmpty env
    pure ⟨str "application/json", some (str "utf-8"), 2, metaBlock.getJ (str "id"), env.getJ (str "trace_id"),
      env.getJ (str "job"), some (str "babelqueue"), some (Pika.headers extraHeaders env metaBlock)⟩

/-! ## What a projection reads -/

/-- `meta` is missing, falsy or an object. -/
def MetaReads (env : Dict Json) : Prop :=
  (env.getJ (str "meta")).truthy = false ∨ ∃ metaBlock, env.getJ (str "meta") = .obj metaBlock

/-- `attempts` is missing, falsy or taken by `int`. -/
def AttemptsRead (env : Dict Json) : Prop :=
  ∀ v, env.get? (str "attempts") = some v → v.truthy = true → v.Numeric

omit [Interpreter] in
theorem metaOrEmpty_isOk_iff {env : Dict Json} : (∃ metaBlock, metaOrEmpty env = .ok metaBlock) ↔ MetaReads env := by
  unfold metaOrEmpty MetaReads orElse
  by_cases ht : (env.getJ (str "meta")).truthy = true
  · rw [if_pos ht]
    simp only [getter_eq_ok_iff, ht, Bool.true_eq_false, false_or]
  · rw [if_neg ht]
    exact iff_of_true ⟨[], rfl⟩ (.inl (Bool.not_eq_true _ |>.mp ht))

theorem truthyAttempts_isOk_iff {env : Dict Json} : (∃ n, truthyAttempts env = .ok n) ↔ AttemptsRead env := by
  unfold truthyAttempts AttemptsRead orElse
  cases env.get? (str "attempts") with
  | none => exact iff_of_true ⟨0, rfl⟩ fun _ h => by cases h
  | some v =>
    simp only [Option.getD_some, Option.some.injEq, forall_eq']
    by_cases ht : v.truthy = true
    · rw [if_pos ht, toInt_isOk_iff, forall_prop_of_true ht]
    · rw [if_neg ht]
      exact iff_of_true ⟨0, rfl⟩ fun h => absurd h ht

/-! ## Which bodies are projected -/

theorem Storable.metaOrEmpty {env metaBlock : Dict Json} (h : Storable env) (hm : metaOrEmpty env = .ok metaBlock) (k : Str) :
    ∃ s, (metaBlock.getJ k).toStr = .ok s := by
  have hblock := getter_eq_ok_iff.mp hm
  unfold orElse at hblock
  split at hblock
  · have := h.inner_toStr_isOk (str "meta") k
    rwa [hblock] at this
  · cases hblock
    exact ⟨_, rfl⟩

theorem projected_isOk {value : Json} (h : ∃ s, value.toStr = .ok s) (key : Str) (counts : Bool) :
    ∃ d, projected key value counts = .ok d := by
  obtain ⟨s, hs⟩ := h
  unfold projected
  rw [hs]
  cases counts <;> exact ⟨_, rfl⟩

theorem Sqs.attribute_isOk {value : Json} (h : ∃ s, value.toStr = .ok s) (key dataType : Str) (counts : Bool) :
    ∃ d, Sqs.attribute key dataType value counts = .ok d := by
  obtain ⟨d, hd⟩ := projected_isOk h key counts
  unfold Sqs.attribute
  rw [hd]
  exact ⟨_, rfl⟩

section Projected

variable {body : Str} {env : Dict Json} (hl : loads body = .ok (.obj env))

include hl

theorem sqs_attributes_isOk_iff : (∃ attrs, Sqs.attributes body = .ok attrs) ↔ MetaReads env := by
  have hs := storable_of_loads hl
  unfold Sqs.attributes
  rw [parseEnvelope_obj hl]
  refine isOk_bind_iff ⟨env, rfl⟩ fun e he => ?_
  obtain rfl := Except.ok.inj he
  refine isOk_bind_iff (Sqs.attribute_isOk (hs.toStr_isOk _) _ _ _) fun job _ => ?_
  refine isOk_bind_iff (Sqs.attribute_isOk (hs.toStr_isOk _) _ _ _) fun traceId _ => ?_
  rw [← metaOrEmpty_isOk_iff]
  refine isOk_bind_iff_isOk fun metaBlock hm => ?_
  refine isOk_bind (Sqs.attribute_isOk (hs.metaOrEmpty hm _) _ _ _) fun messageId => ?_
  refine isOk_bind (Sqs.attribute_isOk (hs.metaOrEmpty hm _) _ _ _) fun version => ?_
  refine isOk_bind (Sqs.attribute_isOk (hs.metaOrEmpty hm _) _ _ _) fun lang => ?_
  exact isOk_bind (Sqs.attribute_isOk (hs.metaOrEmpty hm _) _ _ _) fun createdAt => ⟨_, rfl⟩

theorem asb_projection_isOk_iff : (∃ kwargs, Asb.projection body = .ok kwargs) ↔ MetaReads env := by
  unfold Asb.projection
  rw [parseEnvelope_obj hl, ← metaOrEmpty_isOk_iff]
  exact isOk_bind_iff_isOk fun metaBlock _ => ⟨_, rfl⟩

theorem pika_properties_isOk_iff (extraHeaders : Dict Str) :
    (∃ properties, Pika.properties body extraHeaders = .ok properties) ↔ MetaReads env := by
  unfold Pika.properties
  rw [hl, ← metaOrEmpty_isOk_iff]
  exact isOk_bind_iff_isOk fun metaBlock _ => ⟨_, rfl⟩

theorem attempts_written (n : Int) (hn : truthyAttempts env = .ok n) : ∃ s, intStr n = .ok s := by
  obtain ⟨d, hd⟩ := maxDepth_succ
  have hw := hd ▸ (storable_of_loads hl).writable
  have hlt : n.natAbs < 10 ^ maxStrDigits := by
    unfold truthyAttempts orElse at hn
    split at hn
    · have hv : Writable (d + 1) ((env.get? (str "attempts")).getD (.int 0)) := by
        cases hv : env.get? (str "attempts") with
        | none => exact writable_int.mpr (Nat.pow_pos (by decide))
        | some v => exact hw.get? hv
      exact Json.toInt_lt hv hn
    · obtain rfl : 0 = n := Except.ok.inj hn
      exact Nat.pow_pos (by decide)
  exact ⟨_, intStr_eq_ok_iff.mpr ⟨hlt, rfl⟩⟩

theorem artemis_projection_isOk_iff : (∃ props, Artemis.projection body = .ok props) ↔ MetaReads env ∧ AttemptsRead env := by
  have hs := storable_of_loads hl
  unfold Artemis.projection
  rw [parseEnvelope_obj hl]
  refine isOk_bind_iff ⟨env, rfl⟩ fun e he => ?_
  obtain rfl := Except.ok.inj he
  rw [← metaOrEmpty_isOk_iff, ← truthyAttempts_isOk_iff]
  by_cases hnil : env = []
  · rw [if_pos hnil, hnil]
    exact iff_of_true ⟨_, rfl⟩ ⟨⟨[], rfl⟩, ⟨0, rfl⟩⟩
  rw [if_neg hnil]
  refine isOk_bind_iff_and fun metaBlock hm => ?_
  refine isOk_bind_iff (projected_isOk (hs.metaOrEmpty hm _) _ _) fun version _ => ?_
  refine isOk_bind_iff (projected_isOk (hs.metaOrEmpty hm _) _ _) fun lang _ => ?_
  exact isOk_bind_iff_isOk fun n hn => isOk_bind (attempts_written hl n hn) fun _ => ⟨_, rfl⟩

theorem bodyProperties_isOk_iff : (∃ properties, Pulsar.bodyProperties env = .ok properties) ↔ MetaReads env ∧ AttemptsRead env := by
  have hs := storable_of_loads hl
  unfold Pulsar.bodyProperties
  rw [← metaOrEmpty_isOk_iff, ← truthyAttempts_isOk_iff]
  by_cases hnil : env = []
  · rw [if_pos hnil, hnil]
    exact iff_of_true ⟨_, rfl⟩ ⟨⟨[], rfl⟩, ⟨0, rfl⟩⟩
  rw [if_neg hnil]
  refine isOk_bind_iff_and fun metaBlock hm => ?_
  refine isOk_bind_iff (projected_isOk (hs.toStr_isOk _) _ _) fun job _ => ?_
  refine isOk_bind_iff (projected_isOk (hs.toStr_isOk _) _ _) fun traceId _ => ?_
  refine isOk_bind_iff (projected_isOk (hs.metaOrEmpty hm _) _ _) fun messageId _ => ?_
  refine isOk_bind_iff (projected_isOk (hs.metaOrEmpty hm _) _ _) fun version _ => ?_
  refine isOk_bind_iff (projected_isOk (hs.metaOrEmpty hm _) _ _) fun lang _ => ?_
  exact isOk_bind_iff_isOk fun n hn => isOk_bind (attempts_written hl n hn) fun _ => ⟨_, rfl⟩

theorem pulsar_projection_isOk_iff (route : Str) :
    (∃ properties, Pulsar.projection body route = .ok properties) ↔ MetaReads env ∧ AttemptsRead env := by
  rw [← bodyProperties_isOk_iff hl]
  unfold Pulsar.projection
  rw [parseEnvelope_obj hl]
  refine isOk_bind_iff ⟨env, rfl⟩ fun e he => ?_
  obtain rfl := Except.ok.inj he
  refine isOk_bind_iff_isOk fun properties _ => ?_
  cases Pulsar.parseGateRoute route <;> exact ⟨_, rfl⟩

end Projected

theorem projection_raises {body : Str} (h : (parseEnvelope body >>= Pulsar.bodyProperties).isOk = false) (route : Str) :
    (Pulsar.projection body route).isOk = false := by
  unfold Pulsar.projection
  cases he : parseEnvelope body with
  | error e => rfl
  | ok env =>
    rw [he] at h
    cases hb : Pulsar.bodyProperties env with
    | error e =>
      show (Pulsar.bodyProperties env >>= _).isOk = false
      rw [hb]
      rfl
    | ok properties =>
      replace h : (Pulsar.bodyProperties env).isOk = false := h
      rw [hb] at h
      cases h

/-! ## Poison records -/

omit [Interpreter] in
theorem metaReads_set {d : Dict Json} {key : Str} {v : Json} (h : key ≠ str "meta") :
    MetaReads (d.set key v) ↔ MetaReads d := by
  unfold MetaReads Dict.getJ
  rw [Dict.get?_set_of_ne _ _ h.symm]

theorem attemptsRead_set {d : Dict Json} {key : Str} {v : Json} (h : key ≠ str "attempts") :
    AttemptsRead (d.set key v) ↔ AttemptsRead d := by
  unfold AttemptsRead
  rw [Dict.get?_set_of_ne _ _ h.symm]

/-- A transport projects a poison record unless it was spliced with a `meta` that has no `get`, or, where
`bq-attempts` is projected, with `attempts` that `int` does not take. -/
theorem poison_record_projected_iff {text record : Str} {b : DeadLetterBlock}
    (h : buildPoisonRecord text b.toDict = .ok record) :
    ((∃ attrs, Sqs.attributes record = .ok attrs) ↔ Spliced MetaReads text) ∧
      (∀ route, (∃ properties, Pulsar.projection record route = .ok properties) ↔
        Spliced MetaReads text ∧ Spliced AttemptsRead text) ∧
      ((∃ kwargs, Asb.projection record = .ok kwargs) ↔ Spliced MetaReads text) ∧
      ((∃ props, Artemis.projection record = .ok props) ↔ Spliced MetaReads text ∧ Spliced AttemptsRead text) ∧
      ∀ extraHeaders, (∃ properties, Pika.properties record extraHeaders = .ok properties) ↔ Spliced MetaReads text := by
  have hl := loads_poisonRecord h
  have hmeta : MetaReads ((recordMembers text).set (str "dead_letter") (.obj b.toDict)) ↔ Spliced MetaReads text := by
    refine spliced_iff _ _ (fun d => metaReads_set (by decide)) fun hs => .inl ?_
    rw [Dict.getJ, get?_recordMembers hs (by decide) (by decide)]
    rfl
  have hattempts : AttemptsRead ((recordMembers text).set (str "dead_letter") (.obj b.toDict)) ↔
      Spliced AttemptsRead text := by
    refine spliced_iff _ _ (fun d => attemptsRead_set (by decide)) fun hs v hv => ?_
    rw [get?_recordMembers hs (by decide) (by decide)] at hv
    cases hv
  rw [← hmeta, ← hattempts]
  exact ⟨sqs_attributes_isOk_iff hl, pulsar_projection_isOk_iff hl, asb_projection_isOk_iff hl,
    artemis_projection_isOk_iff hl, pika_properties_isOk_iff hl⟩

end Interpreter

section CPython

attribute [local instance] cpython

def someBlock : DeadLetterBlock := ⟨str "poison", none, none, 1, str "orders", 0, str "python"⟩

/-- A body without a URN, with one member. -/
def oddBody (key value : String) : Str := str "\x7b\"" ++ str key ++ str "\":" ++ str value ++ str "\x7d"

def oddRecord (key value : String) : Str :=
  splice (oddBody key value) (str "\x7b\"reason\":\"poison\",\"error\":null,\"exception\":null,\"failed_at\":1," ++
    str "\"original_queue\":\"orders\",\"attempts\":0,\"lang\":\"python\"\x7d")

theorem numbered_record_projected : (∃ attrs, Sqs.attributes (oddRecord "attempts" "7") = .ok attrs) ↔
    Spliced MetaReads (oddBody "attempts" "7") :=
  (poison_record_projected_iff (b := someBlock) (show _ = Except.ok (oddRecord "attempts" "7") by decide +kernel)).1

/-- A `meta` that is text ends every projection, a list of `attempts` those of Pulsar and Artemis. -/
theorem odd_records_not_projected :
    (buildPoisonRecord (oddBody "meta" "\"x\"") someBlock.toDict = .ok (oddRecord "meta" "\"x\"") ∧
      (Sqs.attributes (oddRecord "meta" "\"x\"")).isOk = false ∧
      (∀ route, (Pulsar.projection (oddRecord "meta" "\"x\"") route).isOk = false) ∧
      ((Asb.projection (oddRecord "meta" "\"x\"")).map fun _ => ()).isOk = false ∧
      (Artemis.projection (oddRecord "meta" "\"x\"")).isOk = false ∧
      ((Pika.properties (oddRecord "meta" "\"x\"") []).map fun _ => ()).isOk = false) ∧
    (buildPoisonRecord (oddBody "attempts" "[1]") someBlock.toDict = .ok (oddRecord "attempts" "[1]") ∧
      (∀ route, (Pulsar.projection (oddRecord "attempts" "[1]") route).isOk = false) ∧
      (Artemis.projection (oddRecord "attempts" "[1]")).isOk = false) := by
  refine ⟨⟨by decide +kernel, by decide +kernel, projection_raises ?_, by decide +kernel, by decide +kernel,
    by decide +kernel⟩, by decide +kernel, projection_raises ?_, by decide +kernel⟩
  all_goals decide +kernel

end CPython

end BabelQueue
