import BabelQueue.Transport

/-!
# The runtime (`app.py`)

`dispatch app m` is `BabelQueue.dispatch` of one delivery, with every private method it calls.

* An `App σ η` is a configured `BabelQueue`: the state `σ` is the broker with everything else that
  changes.
* A handler is an action on the state. The containers it is given are not changed in place.
* `retryDelay` and the clock are parameters (float arithmetic, real time). Logging, the header and
  replay scopes and the pause after a rewind are left out.
-/

namespace BabelQueue

open Py Py.Json

/-! ## Configuration -/

/-- `on_unknown_urn`. A string that is none of these acts like `fail`. -/
inductive UnknownUrnStrategy
  | fail
  | delete
  | release
  | deadLetter
  deriving DecidableEq

/-- What an interrupt may do. -/
inductive Phase
  | idle
  | handling
  | settling
  deriving DecidableEq

structure DeadLetterEvent where
  queue : Str
  deadLetterQueue : Str
  reason : Str

/-- A handler, called with the data, the meta block and the envelope. -/
abbrev Handler (σ : Type) := Json → Json → Dict Json → Act σ Unit

structure App (σ η : Type) where
  transport : Transport σ η
  handlers : Dict (Handler σ)
  onUnknownUrn : UnknownUrnStrategy
  maxAttempts : Int
  deadLetterEnabled : Bool
  deadLetterQueue : Option Str
  deadLetterSuffix : Option Str
  /-- `_retry_delay`, with the draw of its jitter. -/
  retryDelay : Int → Except PyExc Float64
  unknownUrnReleaseDelay : Float64
  deadLetterObserver : Option (DeadLetterEvent → Act σ Unit)
  /-- The clock, in milliseconds. -/
  now : σ → { t : Int // t.natAbs < 2 ^ 63 }
  /-- `self._phase = phase` -/
  setPhase : Phase → σ → σ
  /-- `self._last_phase = self._phase; self._phase = _IDLE` -/
  endPhase : σ → σ

theorem epoch_in_range : (0 : Int).natAbs < 2 ^ 63 := by decide

section Pure

variable [Interpreter] {η : Type}

def unsupportedSchemaRoutePrefix : Str := str "babelqueue:unsupported-schema-version:"

/-- A version-gated delivery. -/
def ReceivedMessage.gated (m : ReceivedMessage η) : Bool :=
  startsWith m.routeUrn.text unsupportedSchemaRoutePrefix

/-- `_without_forbidden_keys`. -/
def withoutForbiddenKeys (body : Str) : Except PyExc Str := do
  let parsed ← parseEnvelope body
  if parsed.isEmpty || !(hasForbiddenKeys parsed || parsed.has (str "urn")) then pure body
  else decodeLenient body >>= encode

/-- `_poison_attempts`. -/
def poisonAttempts (m : ReceivedMessage η) : Except PyExc Int := do
  let parsed ← parseEnvelope m.body
  let bodyAttempts := (parsed.getJ (str "attempts")).asInt?.getD 0
  pure (max (max m.nativeAttempts bodyAttempts) 0)

/-- `int(envelope.get("attempts", 0))`. -/
def envelopeAttempts (envelope : Dict Json) : Except PyExc Int :=
  ((envelope.get? (str "attempts")).getD (.int 0)).toInt

/-- `a or b` of strings, one of which may be missing. -/
def orStr : Option Str → Str → Str
  | some (c :: s), _ => c :: s
  | _, s => s

/-- The block of `_settle_transport_poison`. -/
def poisonBlock (m : ReceivedMessage η) (cause : Option Str) (attempts now : Int) : DeadLetterBlock where
  reason := str "poison"
  error := some (str "Undecodable BabelQueue body" ++
    match cause with
    | some (c :: cs) => str ": " ++ c :: cs
    | _ => [])
  exception := some babelQueueError.name
  failedAt := now
  originalQueue := m.queue
  attempts := attempts
  lang := sourceLang

end Pure

namespace App

variable [Interpreter] {σ η : Type} (app : App σ η) (m : ReceivedMessage η)

/-! ## Settling -/

/-- `_publish_for`. -/
def publishFor (queue body : Str) : Act σ Unit :=
  publishKeepingRoute app.transport queue body m.routeUrn m.key

/-- `_ack_settled`. -/
def ackSettled : Act σ Unit := Act.tryExcept (app.transport.ack m) [.exception] fun _ => pure ()

/-- `_release`. -/
def release (body : Str) (delay : Float64) : Act σ Unit :=
  match app.transport.redeliver with
  | some redeliver => redeliver m body delay
  | none => do
    let body ← Act.lift (withoutForbiddenKeys body)
    app.publishFor m m.queue body
    app.ackSettled m

/-- `_notify_dead_letter`. -/
def notifyDeadLetter (event : DeadLetterEvent) : Act σ Unit :=
  match app.deadLetterObserver with
  | none => pure ()
  | some observer => Act.tryExcept (observer event) [.exception] fun _ => pure ()

/-- `_write_dead_letter`. -/
def writeDeadLetter (queue body : Str) (sourceQueue : Option Str) (reason : Str) : Act σ Unit := do
  match app.transport.deadLetter with
  | some deadLetter => deadLetter m queue body
  | none => do
    app.publishFor m queue body
    app.ackSettled m
  app.notifyDeadLetter ⟨orStr sourceQueue m.queue, queue, reason⟩

/-- `_settle_native`. -/
def settleNative (reason description : Str) : Act σ Bool :=
  match app.transport.settleNativeDeadLetter, app.transport.settleNative with
  | some settle, _ => do
    Act.tryExcept
      (do if ← settle m reason description then app.notifyDeadLetter ⟨m.queue, [], []⟩)
      [.exception] fun _ => pure ()
    pure true
  | none, some settle => do
    Act.tryExcept (settle m reason description) [.exception] fun _ => pure ()
    pure true
  | none, none => pure false

/-- `_rewind_unsettled`. -/
def rewindUnsettled : Act σ Unit :=
  match app.transport.rewind with
  | none => pure ()
  | some rewind => Act.tryExcept (rewind m) [.exception] fun _ => pure ()

/-- `_abandon_unsettled`. -/
def abandonUnsettled : Act σ Unit :=
  match app.transport.rewind, app.transport.abandon with
  | none, some abandon => Act.tryExcept (abandon m) [.exception] fun _ => pure ()
  | _, _ => app.rewindUnsettled m

/-- `_leave_republish_unsettled`. -/
def leaveRepublishUnsettled : Act σ Unit := app.rewindUnsettled m

/-- `_release_unprocessed`. -/
def releaseUnprocessed : Act σ Unit :=
  match app.transport.rewind with
  | some rewind => Act.tryExcept (rewind m) [.exception] fun _ => pure ()
  | none => app.release m m.body Float64.zero

/-- `_dead_letter_target`. -/
def deadLetterTarget : Except PyExc Str :=
  match app.deadLetterQueue, app.transport.deadLetterQueueName with
  | some (c :: q), _ => .ok (c :: q)
  | _, some name => name m.queue app.deadLetterSuffix
  | _, none => .ok (m.queue ++ app.deadLetterSuffix.getD (str ".dlq"))

/-! ## Dead-lettering -/

/-- `_dead_letter`. -/
def deadLetter (envelope : Dict Json) (reason : Str) (exc : Option PyExc) : Act σ Unit := do
  let metaBlock ← Act.lift ((envelope.getJ (str "meta")).orElse (.obj [])).getter
  let originalQueue ← Act.lift ((metaBlock.getJ (str "queue")).orElse (.str m.queue)).toStr
  let attempts ← Act.lift (envelopeAttempts envelope)
  let s ← Act.get
  let annotated := annotate envelope reason originalQueue attempts (exc.map PyExc.msg)
    (exc.map fun e => e.cls.name) (app.now s)
  let target ← Act.lift (app.deadLetterTarget m)
  let body ← Act.lift (encode annotated)
  app.writeDeadLetter m target body (some originalQueue) reason

/-- `_retry_or_dead_letter`. -/
def retryOrDeadLetter (envelope : Dict Json) (exc : PyExc) : Act σ Unit := do
  let attempts := (← Act.lift (envelopeAttempts envelope)) + 1
  let envelope := envelope.set (str "attempts") (.int attempts)
  if attempts < app.maxAttempts then
    Act.tryExcept
      (do
        let body ← Act.lift (encode envelope)
        let delay ← Act.lift (app.retryDelay attempts)
        app.release m body delay)
      [.exception] fun _ => app.leaveRepublishUnsettled m
  else if app.deadLetterEnabled then
    app.deadLetter m envelope (if exc.isA unknownUrnError then str "unknown_urn" else str "failed") (some exc)
  else app.ackSettled m

/-- `_settle_transport_poison`. -/
def settleTransportPoison (cause : Option Str) (attempts : Int) : Act σ Unit := do
  let s ← Act.get
  let target ← Act.lift (app.deadLetterTarget m)
  let record ← Act.lift (buildPoisonRecord m.body (poisonBlock m cause attempts (app.now s)).toDict)
  app.writeDeadLetter m target record none (str "poison")

/-- Whether a poison or gated delivery is dead-lettered. -/
def deadLetters : Bool := app.deadLetterEnabled || app.onUnknownUrn = .deadLetter

/-- `_settle_version_gated`. -/
def settleVersionGated (always : Bool) (reason : Str) : Act σ Unit := do
  if always || app.deadLetters then
    let target ← Act.lift (app.deadLetterTarget m)
    app.writeDeadLetter m target m.body none reason
  else if ← app.settleNative m (str "unsupported schema version")
      (str "the message declares a schema version this consumer does not support") then pure ()
  else app.ackSettled m

/-! ## Routing -/

/-- `_retry_tiers_unavailable`. -/
def retryTiersUnavailable : Bool :=
  match app.transport.retryTiersMs with
  | some [] => app.transport.redeliver.isSome
  | _ => false

/-- `_route_poison`, of the route `p`. -/
def routePoison (p : PoisonRoute) : Act σ Unit :=
  if app.onUnknownUrn = .delete then app.ackSettled m
  else if app.deadLetters then app.settleVersionGated m true (str "poison")
  else if app.retryTiersUnavailable then app.ackSettled m
  else app.retryOrDeadLetter m [(str "attempts", .int p.attempts)]
    ⟨unknownUrnError, str "The record is poison: it carries no decodable envelope."⟩

/-- `_route_body_poison`. -/
def routeBodyPoison (cause : Str) : Act σ Unit :=
  if app.onUnknownUrn = .delete then app.ackSettled m
  else do
    let attempts ← Act.lift (poisonAttempts m)
    if app.deadLetters then app.settleTransportPoison m (some cause) attempts
    else if ← app.settleNative m (str "poison")
        (str "the body does not decode into a valid envelope: " ++ cause) then pure ()
    else
      app.retryOrDeadLetter m [(str "attempts", .int attempts)]
        ⟨unknownUrnError, str "The message is poison: " ++ cause⟩

/-- The strategies of `_route_unknown`, for a delivery that is not poison. -/
def applyStrategy (urn : Str) (envelope : Dict Json) : Act σ Unit :=
  if app.onUnknownUrn = .release ∧ urn ≠ [] then
    Act.tryExcept (app.release m m.body app.unknownUrnReleaseDelay) [.exception] fun _ =>
      app.leaveRepublishUnsettled m
  else if app.onUnknownUrn = .deadLetter then app.deadLetter m envelope (str "unknown_urn") none
  else Act.raise ⟨unknownUrnError, str "No handler mapped for URN [" ++
    (if urn = [] then str "(empty)" else urn) ++ str "]."⟩

/-- `_route_unknown`. -/
def routeUnknown (urn : Str) (envelope : Dict Json) : Act σ Unit :=
  match m.routeUrn with
  | .poison p => app.routePoison m p
  | .plain route =>
    if route = nonNumericAttemptsRoute then app.settleTransportPoison m none 0
    else if app.onUnknownUrn = .delete then app.ackSettled m
    else if m.gated then app.settleVersionGated m false []
    else app.applyStrategy m urn envelope

/-! ## Dispatch -/

/-- What `dispatch` finds out before its `try`. -/
structure Routing (σ : Type) where
  poisonCause : Option Str
  envelope : Dict Json
  urn : Str
  handler : Option (Handler σ)

/-- The `poison_cause` of `dispatch`. -/
def causeOf : Except PyExc (Option Str) :=
  if m.gated || app.transport.classifiesPoison then .ok none else poisonCause m.body (m.routeUrn.text = [])

/-- The `envelope` of `dispatch`. -/
def envelopeOf (cause : Option Str) : Except PyExc (Dict Json) :=
  if m.gated || cause.isSome then .ok [] else decodeLenient m.body

/-- The part of `dispatch` before its `try`. -/
def classify : Except PyExc (Routing σ) := do
  let cause ← app.causeOf m
  let envelope ← envelopeOf m cause
  let bodyUrn ← (((envelope.getJ (str "job")).orElse (envelope.getJ (str "urn"))).orElse (.str [])).toStr
  let urn := if m.routeUrn.text ≠ [] ∧ ¬ envelope.isEmpty then m.routeUrn.text else bodyUrn
  pure ⟨cause, envelope, urn, if urn ≠ [] ∧ cause.isNone then app.handlers.get? urn else none⟩

/-- `_invoke`. -/
def invoke (handler : Handler σ) (envelope : Dict Json) : Act σ Unit := do
  let data ← Act.lift (dictOf ((envelope.getJ (str "data")).orElse (.obj [])))
  let metaBlock ← Act.lift (dictOf ((envelope.getJ (str "meta")).orElse (.obj [])))
  handler data metaBlock envelope
  Act.modify (app.setPhase .settling)

/-- The `try` of `dispatch`: whether its `else` is next. -/
def attempt (r : Routing σ) : Act σ Bool := do
  match r.poisonCause, r.handler with
  | some cause, _ => do
    Act.modify (app.setPhase .settling)
    app.routeBodyPoison m cause
    pure false
  | none, none => do
    Act.modify (app.setPhase .settling)
    app.routeUnknown m r.urn r.envelope
    pure false
  | none, some handler => do
    Act.modify (app.setPhase .handling)
    app.invoke handler r.envelope
    Act.modify (app.setPhase .settling)
    pure true

/-- The `except` of `dispatch`. -/
def recover (r : Routing σ) (exc : PyExc) : Act σ Bool := do
  Act.modify (app.setPhase .settling)
  if r.poisonCause.isSome || m.gated then
    if m.gated then app.abandonUnsettled m else app.rewindUnsettled m
  else app.retryOrDeadLetter m r.envelope exc
  pure false

/-- `dispatch`, from its `try` on. -/
def settle (r : Routing σ) : Act σ Unit :=
  Act.tryFinally
    (do if ← Act.tryExcept (app.attempt m r) [.exception] (app.recover m r) then app.ackSettled m)
    app.endPhase

/-- `dispatch`. -/
def dispatch : Act σ Unit := do
  let r ← Act.lift (app.classify m)
  app.settle m r

end App

end BabelQueue
