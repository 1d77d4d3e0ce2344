import BabelQueue.Kafka.Transport
import BabelQueue.Py.Json.Equal
import BabelQueue.Py.Percent
import BabelQueue.Redrive

/-!
# The Pulsar transport (`pulsar_transport.py`)

* `gateRoute`, `parseGateRoute`: the reserved route of a version-gated delivery.
* `projection`: the properties that are written beside a body.
* `received`: what `pop` makes of a message, gated or not.
* `routedMessage`, `redrivenMessage`: what is sent for a body.
* `PulsarTransport.transport`: the transport, over a `PulsarClient`.

The client library is a parameter; a raised `Timeout` is no message. Logging is left out.
-/

namespace BabelQueue.Pulsar

open Py Py.Json
open Kafka (outOfBandOf quote)

/-- The largest signed 32-bit number (`_MAX_ATTEMPTS`). -/
def maxAttempts : Int := 2 ^ 31 - 1

/-- `_GATE_JOB_PARAM` -/
def gateJobParam : Str := str "?bq-job="

structure Message where
  data : Bytes
  properties : Dict Str
  deriving DecidableEq

/-- A message as `receive` returns it. -/
structure Delivery where
  id : Nat
  message : Message
  redeliveryCount : UInt32

/-! ## The gate route -/

/-- `_gate_route` -/
def gateRoute (version : Str) (properties : Dict Str) : Except PyExc Str := do
  let route := unsupportedSchemaRoutePrefix ++ (← quote version)
  match properties.get? (str "bq-job") with
  | none => pure route
  | some job => pure (route ++ gateJobParam ++ (← quote job))

/-- `_parse_gate_route` -/
def parseGateRoute (route : Str) : Option (Str × Option Str) :=
  if startsWith route unsupportedSchemaRoutePrefix then
    let parts := partition gateJobParam (route.drop unsupportedSchemaRoutePrefix.length)
    some (unquote parts.1, parts.2.map unquote)
  else none

/-! ## Properties -/

/-- `_unsupported_schema_version` -/
def unsupportedSchemaVersion (properties : Dict Str) : Option Str :=
  (properties.get? (str "bq-schema-version")).bind fun raw =>
    if raw.all (· ∈ asciiWhitespace) ∨ raw = intText Kafka.schemaVersion then none else some raw

/-- `EnvelopeCodec.accepts` -/
def accepts (envelope : Dict Json) : Bool :=
  envelopeUrn envelope ≠ [] &&
    (match envelope.getJ (str "meta") with
      | .obj metaBlock => equal (Dict.getJ metaBlock (str "schema_version")) (.int Kafka.schemaVersion)
      | _ => false) &&
    (envelope.getJ (str "data")).asObj?.isSome &&
    (envelope.getJ (str "attempts")).asInt?.isSome &&
    (envelope.getJ (str "trace_id")).asStr?.any fun traceId => strip asciiWhitespace traceId ≠ []

section Interpreter

variable [Interpreter]

/-- `props[key] = str(value)`, if `value` counts. -/
def projected (key : Str) (value : Json) (counts : Bool) : Except PyExc (Dict Str) :=
  if counts then do pure [(key, ← value.toStr)] else pure []

/-- `_projection` without a route, of a body that is parsed as `env`. -/
def bodyProperties (env : Dict Json) : Except PyExc (Dict Str) :=
  if env = [] then pure [] else do
    let metaBlock ← ((env.getJ (str "meta")).orElse (.obj [])).getter
    let job := env.getJ (str "job")
    let traceId := env.getJ (str "trace_id")
    let messageId := metaBlock.getJ (str "id")
    let version := metaBlock.getJ (str "schema_version")
    let lang := metaBlock.getJ (str "lang")
    let job ← projected (str "bq-job") job job.truthy
    let traceId ← projected (str "bq-trace-id") traceId traceId.truthy
    let messageId ← projected (str "bq-message-id") messageId messageId.truthy
    let version ← projected (str "bq-schema-version") version !version.isNone
    let lang ← projected (str "bq-source-lang") lang lang.truthy
    let attempts ← (((env.get? (str "attempts")).getD (.int 0)).orElse (.int 0)).toInt
    pure (job ++ traceId ++ messageId ++ version ++ lang ++ [(str "bq-attempts", ← intStr attempts)])

/-- `_projection` -/
def projection (body route : Str) : Except PyExc (Dict Str) := do
  let env ← parseEnvelope body
  let properties ← bodyProperties env
  match parseGateRoute route with
  | some (version, job) =>
    let gated := Dict.set properties (str "bq-schema-version") version
    pure (job.elim gated fun job => Dict.set gated (str "bq-job") job)
  | none => pure (if env = [] ∨ route = [] then properties else Dict.set properties (str "bq-job") route)

/-- `_parse_attempts` -/
def parseAttempts (raw : Option Str) : Except PyExc (Option Int) :=
  match raw with
  | none => pure none
  | some raw =>
    if raw ≠ [] ∧ raw.all isDigit then do
      let value ← intOfStr raw
      pure (if value ≤ maxAttempts then some value else none)
    else pure none

/-- `_native_attempts` -/
def nativeAttempts (redeliveryCount : UInt32) (properties : Dict Str) : Except PyExc Int := do
  let fromProperty ← parseAttempts (properties.get? (str "bq-attempts"))
  pure (max (max (fromProperty.getD 0) redeliveryCount.toNat) 0)

/-! ## A received message -/

/-- The arguments of `on_routing_mismatch`. -/
structure Mismatch where
  propertyUrn : Str
  bodyUrn : Str
  envelope : Dict Json

/-- What `_reconcile` returns, and the call of the hook that it makes when there is one. -/
structure Reconciled where
  body : Str
  route : Str
  mismatch : Option Mismatch

/-- `route_urn` of `_reconcile` -/
def routeOf (env : Dict Json) (properties : Dict Str) : Str :=
  let routed := strip asciiWhitespace ((properties.get? (str "bq-job")).getD [])
  if routed ≠ [] ∧ envelopeUrn env ≠ [] then routed else []

/-- `_reconcile` -/
def reconcile (body : Str) (redeliveryCount : UInt32) (properties : Dict Str) : Except PyExc Reconciled := do
  let env ← parseEnvelope body
  if env = [] then pure ⟨body, [], none⟩ else
    let route := routeOf env properties
    let current := (env.getJ (str "attempts")).asInt?
    let fromProperty ← parseAttempts (properties.get? (str "bq-attempts"))
    let attempts := max (fromProperty.getD (current.getD 0)) redeliveryCount.toNat
    let mismatch env : Option Mismatch :=
      if route ≠ [] ∧ route ≠ envelopeUrn env ∧ accepts env then some ⟨route, envelopeUrn env, env⟩ else none
    if current.isSome ∧ current ≠ some attempts then do
      let reencoded ← decodeLenient body
      let out ← encode (reencoded.set (str "attempts") (.int attempts))
      pure ⟨out, route, mismatch (env.set (str "attempts") (.int attempts))⟩
    else pure ⟨body, route, mismatch env⟩

/-- `_payload` -/
def Delivery.payload (d : Delivery) : Str := Utf8.decodeEscape d.message.data

/-- The message of `pop`, and the call of the hook. -/
def received (queue : Str) (d : Delivery) : Except PyExc (ReceivedMessage Delivery × Option Mismatch) :=
  match unsupportedSchemaVersion d.message.properties with
  | some version => do
    let route ← gateRoute version d.message.properties
    pure (popped route d.payload queue d [], none)
  | none => do
    let r ← reconcile d.payload d.redeliveryCount d.message.properties
    let native ← nativeAttempts d.redeliveryCount d.message.properties
    pure ({ popped r.route r.body queue d (outOfBandOf d.message.properties) with nativeAttempts := native }, r.mismatch)

/-! ## What is sent -/

/-- The message of `publish_routed`. -/
def routedMessage (body route : Str) : Except PyExc Message := do
  let data ← Utf8.encodeStrict body
  let properties ← projection body route
  pure ⟨data, properties⟩

/-- The message of `publish_redriven`. -/
def redrivenMessage (body : Str) (headers : Dict Str) (route : Str) : Except PyExc Message := do
  let projected ← projection body route
  let properties := projected.foldl (fun properties p => Dict.set properties p.1 p.2) (outOfBandOf headers)
  let data ← Utf8.encodeStrict body
  pure ⟨data, properties⟩

end Interpreter

end Pulsar

open Py Pulsar

/-- A client with its producers and consumers, by topic. -/
structure PulsarClient (σ : Type) where
  send : Str → Message → Act σ Unit
  receive : Str → Act σ (Option Pulsar.Delivery)
  acknowledge : Str → Pulsar.Delivery → Act σ Unit
  negativeAcknowledge : Str → Pulsar.Delivery → Act σ Unit

/-- `PulsarTransport` -/
structure PulsarTransport (σ : Type) where
  client : PulsarClient σ
  topicPrefix : Str
  onRoutingMismatch : Option (Str → Str → Dict Json → Act σ Unit)

namespace PulsarTransport

variable [Interpreter] {σ : Type} (T : PulsarTransport σ)

omit [Interpreter] in
/-- `_topic` -/
def topic (queue : Str) : Str := T.topicPrefix ++ queue

/-- `publish_routed` -/
def publishRouted (queue body route : Str) : Act σ Unit := do
  let message ← Act.lift (routedMessage body route)
  T.client.send (T.topic queue) message

/-- `publish` -/
def publish (queue body : Str) : Act σ Unit := T.publishRouted queue body []

/-- `publish_redriven` -/
def publishRedriven (queue body : Str) (headers : Dict Str) (route : Str) : Act σ Unit := do
  let message ← Act.lift (redrivenMessage body headers route)
  T.client.send (T.topic queue) message

/-- `publish_with_headers` -/
def publishWithHeaders (queue body : Str) (headers : Dict Str) : Act σ Unit := T.publishRedriven queue body headers []

omit [Interpreter] in
/-- The call of `on_routing_mismatch`. -/
def notifyMismatch (mismatch : Option Mismatch) : Act σ Unit :=
  match T.onRoutingMismatch, mismatch with
  | some hook, some call => Act.tryExcept (hook call.propertyUrn call.bodyUrn call.envelope) [.exception] fun _ => pure ()
  | _, _ => pure ()

/-- `pop` -/
def pop (queue : Str) : Act σ (Option (ReceivedMessage Pulsar.Delivery)) := do
  match ← T.client.receive (T.topic queue) with
  | none => pure none
  | some d => do
    let (message, mismatch) ← Act.lift (received queue d)
    T.notifyMismatch mismatch
    pure (some message)

def transport : RedriveTransport σ Pulsar.Delivery where
  classifiesPoison := false
  retryTiersMs := none
  publish := T.publish
  pop := T.pop
  ack m := T.client.acknowledge (T.topic m.queue) m.handle
  publishRouted := some fun queue body route => T.publishRouted queue body route.text
  publishSettle := none
  redeliver := none
  deadLetter := none
  rewind := some fun m => T.client.negativeAcknowledge (T.topic m.queue) m.handle
  abandon := none
  deadLetterQueueName := none
  settleNative := none
  settleNativeDeadLetter := none
  popBatch := none
  publishWithHeaders := some T.publishWithHeaders
  publishRedriven := some fun queue body headers route _ => T.publishRedriven queue body headers route.text

end PulsarTransport

end BabelQueue
