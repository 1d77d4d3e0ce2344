import BabelQueue.App
import BabelQueue.Kafka.Record

/-!
# The Kafka transport (`kafka_transport.py`)

The pure part of `KafkaTransport`: what a polled record becomes, and what `produce` is called with.

* `received`: the delivery of a record (`_poll_one`), version-gated, poison or an envelope.
* `recordArgs`: the arguments of `produce` for a body (`_record_kwargs`).
* `settleArgs`, `redeliverArgs`, `delayedArgs`: those of `publish_settle`, `redeliver` and
  `publish_delayed`.

Logging and the wait for the delivery report are left out here.
-/

namespace BabelQueue.Kafka

open Py Py.Json

/-! ## Headers -/

/-- `CONTRACT_HEADER_KEYS` -/
def contractHeaderKeys : List Str :=
  [str "bq-job", str "bq-trace-id", str "bq-message-id", str "bq-schema-version", str "bq-source-lang",
    str "bq-attempts", str "bq-created-at", str "bq-delay", str "bq-original-topic", str "bq_schema_version",
    str "bq_source_lang", str "bq_attempts", str "bq_app_id"]

/-- `TRACE_CONTEXT_HEADER_KEYS` -/
def traceContextHeaderKeys : List Str := [str "traceparent", str "tracestate"]

/-- The loop of `out_of_band_headers`; `out` are the headers so far. -/
def outOfBandFrom (out : Dict Str) : Headers → Dict Str
  | [] => out
  | (key, value) :: headers =>
    match value.map HeaderText.decode with
    | some (c :: text) =>
      if key.decode = [] ∨ key.decode ∈ contractHeaderKeys ∨ out.has key.decode then outOfBandFrom out headers
      else outOfBandFrom (out ++ [(key.decode, c :: text)]) headers
    | _ => outOfBandFrom out headers

/-- `out_of_band_headers` of record headers. -/
def outOfBandHeaders (headers : Headers) : Dict Str := outOfBandFrom [] headers

/-- `out_of_band_headers` of a mapping. -/
def outOfBandOf (headers : Dict Str) : Dict Str :=
  outOfBandHeaders (headers.map fun h => (.text h.1, some (.text h.2)))

/-- The headers that are written. -/
abbrev RecordHeaders := List (Str × Bytes)

/-- `_with_extra_headers` -/
def withExtraHeaders (projected : RecordHeaders) (extra : Dict Str) : Except PyExc RecordHeaders := do
  let added ← ((outOfBandOf extra).filter fun h => h.1 ∉ projected.map Prod.fst).mapM fun (name, value) => do
    pure (name, ← Utf8.encodeStrict value)
  pure (projected ++ added)

section Interpreter

variable [Interpreter]

/-! ## Counts -/

/-- `_runtime_attempts` -/
def runtimeAttempts (env : Dict Json) : Except PyExc Int :=
  match (env.get? (str "attempts")).getD (.int 0) with
  | .null => .ok 0
  | .bool _ => .error ⟨.valueError, str "attempts is a bool"⟩
  | value => tryExceptPure value.toInt [.typeError, .overflowError] fun _ =>
      .error ⟨.valueError, str "attempts is not an integer"⟩

/-- The `bq-attempts` header as `_reconcile` finds it: the first one, read with `int`. -/
def reconciledAttempts (bodyAttempts : Int) : Headers → Int
  | [] => bodyAttempts
  | (key, value) :: headers =>
    if key = .text (str "bq-attempts") then
      match intOfStr ((value.map HeaderText.decode).getD (str "None")) with
      | .ok attempts => attempts
      | .error _ => bodyAttempts
    else reconciledAttempts bodyAttempts headers

/-- `_reconcile` -/
def reconcile (body : Str) (headers : Headers) : Except PyExc Str := do
  let env ← decodeLenient body
  if env = [] then pure body else
    match runtimeAttempts env with
    | .error _ => pure body
    | .ok bodyAttempts =>
      let attempts := reconciledAttempts bodyAttempts headers
      if attempts = bodyAttempts ∧ ((env.get? (str "attempts")).getD (.int 0)).isNone = false then pure body
      else encode (env.set (str "attempts") (.int attempts))

/-- `_header_attempts` -/
def headerAttempts (headers : Headers) : Int :=
  match headerValue (str "bq-attempts") headers with
  | none => 0
  | some raw =>
    match intOfStr raw with
    | .ok n => max n 0
    | .error _ => 0

/-! ## A polled record -/

def schemaVersion : Int := 1

/-- The raw value of the first `bq-schema-version` header. -/
def declaredVersion : Headers → Option HeaderText
  | [] => none
  | (key, value) :: headers => if key.decode = str "bq-schema-version" then value else declaredVersion headers

/-- `_unsupported_schema_version` -/
def unsupportedSchemaVersion (headers : Headers) : Option Str :=
  (declaredVersion headers).bind fun raw =>
    if raw.decode.all (· ∈ asciiWhitespace) || raw.decode = intText schemaVersion then none else some raw.decode

/-- `truncate_declared_version` -/
def truncateDeclaredVersion (value : Str) : Str := if value.length ≤ 64 then value else value.take 64 ++ str "..."

/-- `urllib.parse.quote(s, safe="")` -/
def quote (s : Str) : Except PyExc Str := do
  let bytes ← Utf8.encodeStrict s
  pure (bytes.flatMap fun b =>
    if isDigit (Fin.ofNat _ b.val) || (97 ≤ b.val && b.val ≤ 122) || (65 ≤ b.val && b.val ≤ 90) ||
        (Fin.ofNat _ b.val : CodePoint) ∈ str "_.-~" then [Fin.ofNat _ b.val]
    else cp '%' :: (hexText 2 b.val).map fun c => if 97 ≤ c.val then Fin.ofNat _ (c.val - 32) else c)

/-- `_payload` -/
def Message.payload (m : Message) : Str := (m.value.map Utf8.decodeEscape).getD []

/-- `_is_non_utf8` -/
def Message.isNonUtf8 (m : Message) : Bool := m.value.any fun value => (Utf8.decodeStrict value).isNone

/-- `_decode_failure` -/
def decodeFailure (text : Str) : Except PyExc (Option Str) := do
  match ← envelopeViolation text with
  | some violation => pure (some violation)
  | none =>
    tryExceptPure ((loads text).map fun _ => none) [.valueError] fun e =>
      .ok (some (str "the core decoder cannot parse the body: " ++ e.msg))

/-- The classification of `_poll_one`, without the reconcile: why a record is poison. -/
def classificationCause (m : Message) : Option Str :=
  let decode := if m.isNonUtf8 then .ok (some (str "the value is not valid UTF-8")) else decodeFailure m.payload
  match decode with
  | .error e => some (str "the body could not be scanned (" ++ e.cls.name ++ str ")")
  | .ok (some cause) => some cause
  | .ok none =>
    match (decodeLenient m.payload).map envelopeUrn with
    | .error e => some (str "the body could not be classified (" ++ e.cls.name ++ str ")")
    | .ok urn =>
      if urn = [] then some (str "the body carries no valid 'job' or 'urn' identity (ADR-0032 section 6)") else none

/-- The body of an envelope with its count from the header, or why the record is poison. -/
def readBody (m : Message) : Str ⊕ Str :=
  match classificationCause m with
  | some cause => .inr cause
  | none =>
    match reconcile m.payload m.headers with
    | .error e => .inr (str "the body could not be decoded (" ++ e.cls.name ++ str ")")
    | .ok body => .inl body

def nonUtf8Route : Str := unsupportedSchemaRoutePrefix ++ str "non-utf8-payload"

def poisonRouteUrn : Str := unsupportedSchemaRoutePrefix ++ str "poison"

/-- The `PoisonRoute` of a record. -/
def poisonRouteOf (queue : Str) (m : Message) (cause : Str) : PoisonRoute where
  route := if m.isNonUtf8 then nonUtf8Route else poisonRouteUrn
  queue := queue
  originalQueue := orStr (headerValue originalTopicHeader m.headers) queue
  attempts := headerAttempts m.headers
  cause := cause

/-- The delivery of a polled record (`_poll_one`). -/
def received (queue : Str) (m : Message) : Except PyExc (ReceivedMessage Message) :=
  match (unsupportedSchemaVersion m.headers).map truncateDeclaredVersion with
  | some unsupported => do
    let quoted ← quote unsupported
    pure ⟨m.payload, queue, m, [], .plain (unsupportedSchemaRoutePrefix ++ quoted), m.key, 0⟩
  | none =>
    match readBody m with
    | .inr cause => pure ⟨m.payload, queue, m, [], .poison (poisonRouteOf queue m cause), m.key, 0⟩
    | .inl body => pure ⟨body, queue, m, outOfBandHeaders m.headers, .plain [], m.key, 0⟩

/-! ## The arguments of `produce` -/

/-- The keyword arguments of `produce`. -/
structure RecordArgs where
  value : Bytes
  headers : RecordHeaders
  timestamp : Option Int
  key : Option Bytes

/-- `add` of `_projection`. -/
def projected (key : Str) (value : Json) : Except PyExc RecordHeaders :=
  match value with
  | .null => .ok []
  | .str [] => .ok []
  | value => do pure [(key, ← Utf8.encodeStrict (← value.toStr))]

/-- The `meta` of a projection. -/
def metaOf (env : Dict Json) : Dict Json := ((env.getJ (str "meta")).asObj?).getD []

/-- `_projection` -/
def projection (body : Str) : Except PyExc RecordHeaders := do
  let env ← parseEnvelope body
  if env = [] then pure [] else
    let metaBlock := metaOf env
    let job ← projected (str "bq-job") (env.getJ (str "job"))
    let traceId ← projected (str "bq-trace-id") (env.getJ (str "trace_id"))
    let messageId ← projected (str "bq-message-id") (metaBlock.getJ (str "id"))
    let version ← match metaBlock.getJ (str "schema_version") with
      | .null => pure []
      | value => do pure [(str "bq-schema-version", ← Utf8.encodeStrict (← value.toStr))]
    let lang ← projected (str "bq-source-lang") (metaBlock.getJ (str "lang"))
    let attempts := match runtimeAttempts env >>= intStr with
      | .ok text => [(str "bq-attempts", Utf8.encodePass text)]
      | .error _ => []
    pure (job ++ traceId ++ messageId ++ version ++ lang ++ attempts)

/-- `_LONE_SURROGATE.sub("\ufffd", body)` -/
def cleaned (body : Str) : Str :=
  body.map fun c => if isSurrogate c && !Utf8.isEscapedByte c then Fin.ofNat _ 0xFFFD else c

/-- `int(created_at)` of a truthy `meta.created_at`, when it has one. -/
def createdAt (env : Dict Json) : Option Int :=
  let value := (metaOf env).getJ (str "created_at")
  if value.truthy then value.toInt.toOption else none

/-- `_record_kwargs` -/
def recordArgs (body : Str) (rawOk : Bool) : Except PyExc RecordArgs :=
  match Utf8.encodeStrict body with
  | .error e =>
    if rawOk then do pure ⟨← Utf8.encodeEscape (cleaned body), [], none, none⟩
    else .error e
  | .ok value => do
    let headers ← projection body
    let env ← parseEnvelope body
    pure ⟨value, headers, createdAt env, none⟩

/-- `_poison_body`, at the time `now` in milliseconds. -/
def poisonBody (text cause originalQueue : Str) (attempts now : Int) : Except PyExc Str :=
  buildPoisonRecord text (DeadLetterBlock.toDict ⟨str "poison", some (str "Undecodable BabelQueue body: " ++ cause),
    some babelQueueError.name, now, originalQueue, attempts, sourceLang⟩)

/-- The arguments of `publish_settle`, at the time `now`. -/
def settleArgs (queue body : Str) (route : RouteUrn) (key : Option Bytes) (headers : Dict Str) (now : Int) :
    Except PyExc RecordArgs := do
  let body ← match route with
    | .poison p => if queue ≠ p.queue then poisonBody body p.cause p.originalQueue p.attempts now else pure body
    | .plain _ => pure body
  let args ← recordArgs body true
  let written ← if headers = [] then pure args.headers else withExtraHeaders args.headers headers
  pure { args with headers := written, key := key }

/-- `_tier_record` -/
def tierRecord (workTopic body : Str) (n : Nat) (delayMs : Int) (bqAttempts : Option Int) :
    Except PyExc (Str × RecordArgs) := do
  let args ← recordArgs body false
  let headers := args.headers.filter fun h => h.1 ∉ [delayHeader, originalTopicHeader]
  let headers ← match bqAttempts with
    | none => pure headers
    | some attempts => do
      let text ← intStr attempts
      pure (headers.filter (fun h => h.1 ≠ str "bq-attempts") ++ [(str "bq-attempts", ← Utf8.encodeStrict text)])
  let delay ← intStr delayMs
  let delay ← Utf8.encodeStrict delay
  let original ← Utf8.encodeStrict workTopic
  pure (retryTopic workTopic n,
    { args with headers := headers ++ [(delayHeader, delay), (originalTopicHeader, original)] })

/-- `_attempts_before` -/
def attemptsBefore (m : ReceivedMessage Message) : Except PyExc Int := do
  let env ← decodeLenient m.body
  pure (if env = [] then 0 else
    match runtimeAttempts env with
    | .ok n => max n 0
    | .error _ => 0)

/-- `_with_attempts` -/
def withAttempts (body : Str) (attempts : Int) : Except PyExc Str := do
  let env ← decodeLenient body
  if env = [] then pure body
  else if runtimeAttempts env = .ok attempts ∧ (env.getJ (str "attempts")).isNone = false then pure body
  else encode (env.set (str "attempts") (.int attempts))

def noTiersError (what : String) : PyExc :=
  ⟨babelQueueError, str what ++ str " needs retry tiers: pass retry_tiers_ms (e.g. DEFAULT_RETRY_TIERS_MS)."⟩

/-- The topic and the arguments of `redeliver`. -/
def redeliverArgs (tiers : Tiers) (m : ReceivedMessage Message) (body : Str) : Except PyExc (Str × RecordArgs) :=
  match tiers.ms with
  | [] => .error (noTiersError "Kafka retry")
  | first :: rest => do
    let before ← attemptsBefore m
    let n := min before.toNat rest.length
    let tierMs := (first :: rest).getD n first
    let body ← withAttempts body (before + 1)
    let (topic, args) ← tierRecord m.queue body (n + 1) tierMs (some (before + 1))
    let headers ← withExtraHeaders args.headers (m.headers.filter fun h => h.1 ∈ traceContextHeaderKeys)
    pure (topic, { args with headers := headers, key := m.key })

/-- The topic and the arguments of `publish_delayed`: the first tier that covers the delay. -/
def delayedArgs (tiers : Tiers) (queue body : Str) (delayMs : Int) : Except PyExc (Str × RecordArgs) :=
  if delayMs < 0 then
    .error ⟨babelQueueError, str "delay_ms must be a non-negative integer, got " ++ intText delayMs ++ str "."⟩
  else match tiers.ms.getLast? with
    | none => .error (noTiersError "Kafka delayed delivery")
    | some last =>
      match tiers.ms.findIdx? (delayMs ≤ ·) with
      | some index => tierRecord queue body (index + 1) delayMs none
      | none => .error ⟨babelQueueError, str "Requested delay " ++ intText delayMs ++
          str " ms exceeds the largest retry tier (" ++ intText last ++ str " ms)."⟩

end Interpreter

end BabelQueue.Kafka
