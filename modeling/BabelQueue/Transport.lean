import BabelQueue.PoisonRecord

/-!
# Transports (`transport.py`)

A `Transport σ η` is a broker client on states `σ`, with ack handles `η`. An optional capability is
an `Option`: `none` when the transport does not implement the protocol. Time-outs and `close` are
left out.
-/

namespace BabelQueue

open Py

/-- The route of a poison record: a string that carries what its dead-letter record needs. -/
structure PoisonRoute where
  route : Str
  queue : Str
  originalQueue : Str
  attempts : Int
  cause : Str

/-- A `route_urn`: a plain string, or a `PoisonRoute`. -/
inductive RouteUrn
  | plain (urn : Str)
  | poison (p : PoisonRoute)

/-- The route as a string. -/
def RouteUrn.text : RouteUrn → Str
  | plain urn => urn
  | poison p => p.route

structure ReceivedMessage (η : Type) where
  body : Str
  queue : Str
  handle : η
  headers : Dict Str
  routeUrn : RouteUrn
  key : Option Bytes
  nativeAttempts : Int

/-- A delivery without a key and without a delivery count of the broker. -/
def popped {η : Type} (route body queue : Str) (handle : η) (headers : Dict Str) : ReceivedMessage η where
  body := body
  queue := queue
  handle := handle
  headers := headers
  routeUrn := .plain route
  key := none
  nativeAttempts := 0

def nonNumericAttemptsRoute : Str := str "babelqueue:unsupported-schema-version:non-numeric-attempts"

structure Transport (σ η : Type) where
  /-- Poison bodies arrive under a poison route. -/
  classifiesPoison : Bool
  /-- The attribute `retry_tiers_ms`, of a transport that has one. -/
  retryTiersMs : Option (List Int)
  publish : Str → Str → Act σ Unit
  pop : Str → Act σ (Option (ReceivedMessage η))
  ack : ReceivedMessage η → Act σ Unit
  /-- `RoutedPublisher` -/
  publishRouted : Option (Str → Str → RouteUrn → Act σ Unit)
  /-- `SettlePublisher` -/
  publishSettle : Option (Str → Str → RouteUrn → Option Bytes → Act σ Unit)
  /-- `Redeliverer` -/
  redeliver : Option (ReceivedMessage η → Str → Float64 → Act σ Unit)
  /-- `DeadLetterWriter` -/
  deadLetter : Option (ReceivedMessage η → Str → Str → Act σ Unit)
  /-- `Rewinder` -/
  rewind : Option (ReceivedMessage η → Act σ Unit)
  /-- `Abandoner` -/
  abandon : Option (ReceivedMessage η → Act σ Unit)
  /-- `DeadLetterNamer` -/
  deadLetterQueueName : Option (Str → Option Str → Except PyExc Str)
  /-- `NativeSettler` -/
  settleNative : Option (ReceivedMessage η → Str → Str → Act σ Unit)
  /-- `NativeDeadLetterSettler`: whether the result `is True`. -/
  settleNativeDeadLetter : Option (ReceivedMessage η → Str → Str → Act σ Bool)

/-- `publish_keeping_route`. -/
def publishKeepingRoute {σ η : Type} (T : Transport σ η) (queue body : Str) (route : RouteUrn) (key : Option Bytes) :
    Act σ Unit :=
  match T.publishSettle with
  | some publishSettle => publishSettle queue body route key
  | none =>
    match T.publishRouted with
    | some publishRouted => if route.text ≠ [] then publishRouted queue body route else T.publish queue body
    | none => T.publish queue body

end BabelQueue
