import BabelQueue.App

/-!
# Redrive (`redrive.py`)

`redrive T dlq o` drains a dead-letter queue and then replays each message: to its target in reset
form, or back to the queue.

* A `RedriveTransport` is a transport with the capabilities only redrive asks for.
* `replayOne` is one turn of the loop.
-/

namespace BabelQueue

open Py Py.Json

variable {σ η : Type}

structure RedriveTransport (σ η : Type) extends Transport σ η where
  /-- `BatchPopper` -/
  popBatch : Option (Str → Int → Act σ (List (ReceivedMessage η)))
  /-- `HeaderPublisher` -/
  publishWithHeaders : Option (Str → Str → Dict Str → Act σ Unit)
  /-- `RedrivePublisher` -/
  publishRedriven : Option (Str → Str → Dict Str → RouteUrn → Option Bytes → Act σ Unit)

/-- The keyword arguments of `redrive`. -/
structure RedriveOptions (σ : Type) where
  toQueue : Option Str
  max : Int
  dryRun : Bool
  select : Option (Dict Json → Act σ Bool)
  bypass : Bool

/-- `redrive(transport, dlq)`. -/
def RedriveOptions.default : RedriveOptions σ := ⟨none, 0, false, none, false⟩

/-- What happened to one message. -/
structure RedriveItem where
  messageId : Str
  traceId : Str
  urn : Str
  reason : Str
  fromQueue : Str
  /-- `to` -/
  target : Str
  redriven : Bool
  bypassed : Bool

structure RedriveResult where
  redriven : Nat
  skipped : Nat
  items : List RedriveItem

/-- The result with one more item. -/
def RedriveResult.add (r : RedriveResult) (item : RedriveItem) : RedriveResult where
  redriven := if item.redriven then r.redriven + 1 else r.redriven
  skipped := if item.redriven then r.skipped else r.skipped + 1
  items := r.items ++ [item]

def headerReplayBypass : Str := str "bq-replay-bypass"

/-- `v if isinstance(v, Mapping) else {}`, of a member. -/
def mappingAt (envelope : Dict Json) (key : Str) : Dict Json := (envelope.getJ key).asObj?.getD []

/-- `_source_queue_of`. -/
def sourceQueueOf (envelope : Dict Json) : Str :=
  match (mappingAt envelope (str "dead_letter")).getJ (str "original_queue") with
  | .str (c :: original) => c :: original
  | _ =>
    match (mappingAt envelope (str "meta")).getJ (str "queue") with
    | .str queue => queue
    | _ => []

/-- The target of a message. -/
def redriveTarget (toQueue : Option Str) (envelope : Dict Json) : Str := orStr toQueue (sourceQueueOf envelope)

/-- The envelope in reset form. -/
def resetEnvelope (envelope : Dict Json) : Dict Json :=
  (envelope.erase (str "dead_letter")).set (str "attempts") (.int 0)

section Run

variable [Interpreter]

/-- `_decoded`. -/
def decodedBody (body : Str) : Except PyExc (Option (Dict Json)) := do
  let envelope ← decodeLenient body
  pure (if envelope.isEmpty ∨ (envelope.getJ (str "job")).asStr?.isNone then none else some envelope)

/-- The envelope of a drained message. -/
def batchEnvelope (m : ReceivedMessage η) : Except PyExc (Option (Dict Json)) :=
  match m.routeUrn with
  | .poison _ => .ok none
  | .plain _ => decodedBody m.body

/-- `str(d.get(key, ""))`. -/
def textAt (d : Dict Json) (key : Str) : Except PyExc Str := ((d.get? key).getD (.str [])).toStr

/-- The item of an envelope, before it has a target. -/
def itemOf (dlq : Str) (envelope : Dict Json) : Except PyExc RedriveItem := do
  let messageId ← textAt (mappingAt envelope (str "meta")) (str "id")
  let traceId ← textAt envelope (str "trace_id")
  let reason ← textAt (mappingAt envelope (str "dead_letter")) (str "reason")
  pure ⟨messageId, traceId, envelopeUrn envelope, reason, dlq, [], false, false⟩

/-- The drain without a `BatchPopper`, with at most `fuel` calls of `pop`. -/
def drain (T : Transport σ η) (dlq : Str) (max : Int) :
    Nat → List (ReceivedMessage η) → Act σ (List (ReceivedMessage η))
  | 0, popped => pure popped
  | fuel + 1, popped =>
    if max = 0 ∨ popped.length < max then do
      match ← T.pop dlq with
      | none => pure popped
      | some message => drain T dlq max fuel (popped ++ [message])
    else pure popped

/-- The message goes back to the queue it came from. -/
def restore (T : Transport σ η) (dlq : Str) (m : ReceivedMessage η) : Act σ Unit := do
  publishKeepingRoute T dlq m.body m.routeUrn m.key
  T.ack m

/-- `_publish_redriven`. -/
def publishRedriven (T : RedriveTransport σ η) (queue body : Str) (bypass : Bool) (route : RouteUrn)
    (key : Option Bytes) : Act σ Bool :=
  match bypass, T.publishWithHeaders, T.publishRedriven with
  | true, some _, some publishRedriven => do
    publishRedriven queue body [(headerReplayBypass, str "1")] route key
    pure true
  | true, some publishWithHeaders, none => do
    publishWithHeaders queue body [(headerReplayBypass, str "1")]
    pure true
  | _, _, _ => do
    publishKeepingRoute T.toTransport queue body route key
    pure false

/-- `select is None or select(envelope)`. -/
def selected (o : RedriveOptions σ) (envelope : Dict Json) : Act σ Bool :=
  match o.select with
  | none => pure true
  | some select => select envelope

/-- One turn of the loop. -/
def replayOne (T : RedriveTransport σ η) (dlq : Str) (o : RedriveOptions σ) (m : ReceivedMessage η)
    (envelope : Option (Dict Json)) : Act σ RedriveItem :=
  match envelope with
  | none => do
    restore T.toTransport dlq m
    pure ⟨[], [], [], [], dlq, [], false, false⟩
  | some envelope =>
    if m.routeUrn.text = nonNumericAttemptsRoute then do
      restore T.toTransport dlq m
      pure ⟨[], [], [], [], dlq, [], false, false⟩
    else do
      let item ← Act.lift (itemOf dlq envelope)
      let chosen ← selected o envelope
      if !chosen then do
        restore T.toTransport dlq m
        pure item
      else
        let target := redriveTarget o.toQueue envelope
        if o.dryRun then do
          restore T.toTransport dlq m
          pure { item with target := target }
        else do
          let bypassed ← Act.tryExcept
            (do
              let copy ← Act.lift (encode (resetEnvelope envelope))
              publishRedriven T target copy o.bypass m.routeUrn m.key)
            [.exception] fun exc => do
              restore T.toTransport dlq m
              Act.raise exc
          T.ack m
          pure { item with target := target, bypassed := bypassed, redriven := true }

/-- The loop. -/
def replay (T : RedriveTransport σ η) (dlq : Str) (o : RedriveOptions σ) :
    List (ReceivedMessage η × Option (Dict Json)) → RedriveResult → Act σ RedriveResult
  | [], result => pure result
  | (m, envelope) :: batch, result => do
    let item ← replayOne T dlq o m envelope
    replay T dlq o batch (result.add item)

/-- The messages of the run, taken off the queue. -/
def drained (T : RedriveTransport σ η) (dlq : Str) (max : Int) (fuel : Nat) : Act σ (List (ReceivedMessage η)) :=
  match T.popBatch with
  | some popBatch => popBatch dlq max
  | none => drain T.toTransport dlq max fuel []

/-- `redrive`. -/
def redrive (T : RedriveTransport σ η) (dlq : Str) (o : RedriveOptions σ) (fuel : Nat) : Act σ RedriveResult := do
  let popped ← drained T dlq o.max fuel
  let batch ← Act.lift (popped.mapM fun m => (batchEnvelope m).map fun envelope => (m, envelope))
  replay T dlq o batch ⟨0, 0, []⟩

end Run

end BabelQueue
