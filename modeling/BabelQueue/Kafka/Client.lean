import Mathlib.Data.List.MinMax
import BabelQueue.Kafka.Retry
import BabelQueue.Kafka.Transport

/-!
# `KafkaTransport` and its clients (`kafka_transport.py`)

The methods of `KafkaTransport` over a consumer for each queue and a producer.

* `Polling σ`: the two books of the object, and the state of its clients.
* `pop`, `popBatch`, `ack`, `rewind`: the consumer side.
* `publish`, `publishSettle`, `redeliver`: the producer side.

A handle is a record and the number of its poll: the methods compare handles with `is`. Logging,
time-outs and `close` are left out.
-/

namespace BabelQueue.Kafka

open Py

/-- A polled record, as the ack handle of its delivery. -/
structure Handle where
  record : Message
  serial : Nat
  deriving DecidableEq

namespace Handle

/-- `_partition_of` -/
abbrev place (h : Handle) : TopicPartition := h.record.place

/-- `_offset_of` -/
abbrev offset (h : Handle) : Int := h.record.offset

end Handle

/-- The consumers, one for each queue, the producer and the clock, on states `σ`. -/
structure KafkaClients (σ : Type) where
  poll : Str → Act σ (Option Polled)
  seek : Str → TopicPartition → Int → Act σ Unit
  commit : Str → Message → Act σ Unit
  /-- `produce` and `poll(0)`. -/
  send : Str → RecordArgs → Act σ Unit
  /-- `produce` and `flush`. -/
  produce : Str → RecordArgs → Act σ Report
  /-- The clock, in milliseconds. -/
  now : σ → { t : Int // t.natAbs < 2 ^ 63 }

/-- The object, with its clients; a queue that has no entry in a book has an empty one. -/
structure Polling (σ : Type) where
  /-- `_pending` -/
  pending : Str → List Handle
  /-- `_settled` -/
  settled : Str → List Handle
  /-- How many records were polled. -/
  polled : Nat
  clients : σ

variable {σ : Type}

/-- A call of a client. -/
def Polling.call {α : Type} (c : Act σ α) : Act (Polling σ) α := fun s =>
  ((c s.clients).1, { s with clients := (c s.clients).2 })

/-- The books of a queue are now `pending` and `settled`. -/
def Polling.setBooks (s : Polling σ) (queue : Str) (pending settled : List Handle) : Polling σ :=
  { s with
    pending := Function.update s.pending queue pending
    settled := Function.update s.settled queue settled }

/-- The delivery of a record, with its handle. -/
def withHandle (m : ReceivedMessage Message) (h : Handle) : ReceivedMessage Handle :=
  ⟨m.body, m.queue, h, m.headers, m.routeUrn, m.key, m.nativeAttempts⟩

/-- The delivery, with its record. -/
def withRecord (m : ReceivedMessage Handle) : ReceivedMessage Message :=
  ⟨m.body, m.queue, m.handle.record, m.headers, m.routeUrn, m.key, m.nativeAttempts⟩

-- Not the instance of a conditionally complete order, which does not compute.

/-- The first handle with the lowest offset. -/
def lowest (handles : List Handle) : Option Handle :=
  @List.argmin _ _ Int.instLinearOrder.toPreorder _ Handle.offset handles

/-- The first handle with the highest offset. -/
def highest (handles : List Handle) : Option Handle :=
  @List.argmax _ _ Int.instLinearOrder.toPreorder _ Handle.offset handles

/-- The lowest handle of each partition, in the order of the partitions. -/
def lowestOf (handles : List Handle) : List (TopicPartition × Handle) :=
  (handles.map Handle.place).eraseDups.filterMap fun p => (lowest (handles.filter fun h => h.place = p)).map (p, ·)

/-- What of a book `_forget_from` keeps. -/
def keptBefore (p : TopicPartition) (offset : Int) (book : List Handle) : List Handle :=
  book.filter fun h => h.place ≠ p || h.offset < offset

/-- How far a commit in the partition may reach: to the lowest handle in flight. -/
def floorOf (pending : List Handle) (p : TopicPartition) : Option Int :=
  ((pending.filter fun h => h.place = p).map Handle.offset).min?

/-- The settled handles of the partition below the floor. -/
def committable (settled : List Handle) (p : TopicPartition) (floor : Option Int) : List Handle :=
  settled.filter fun h => h.place = p && floor.all (h.offset < ·)

/-- `KafkaDeliveryError` -/
def kafkaDeliveryError : ExcClass := .defined (str "KafkaDeliveryError") babelQueueError

structure KafkaTransport where
  tiers : Tiers
  /-- `_delivery_timeout`, as text. -/
  deliveryTimeout : Str

namespace KafkaTransport

variable (T : KafkaTransport) (c : KafkaClients σ)

/-! ## The consumer side -/

/-- `_seek_back` -/
def seekBack (queue : Str) (h : Handle) : Act (Polling σ) Unit := Polling.call (c.seek queue h.place h.offset)

/-- `_forget_from` -/
def forgetFrom (queue : Str) (p : TopicPartition) (offset : Int) : Act (Polling σ) Unit :=
  Act.modify fun s =>
    s.setBooks queue (keptBefore p offset (s.pending queue)) (keptBefore p offset (s.settled queue))

/-- The `for` of `_rewind_abandoned`. -/
def rewindLowest (queue : Str) : List (TopicPartition × Handle) → Act (Polling σ) Unit
  | [] => pure ()
  | (p, h) :: rest => do
    Act.tryExcept (seekBack c queue h) [.exception] fun _ => pure ()
    forgetFrom queue p h.offset
    rewindLowest queue rest

/-- `_rewind_abandoned` -/
def rewindAbandoned (queue : Str) : Act (Polling σ) Unit := do
  let s ← Act.get
  rewindLowest c queue (lowestOf (s.pending queue))
  Act.modify fun s => s.setBooks queue [] (s.settled queue)

/-- `rewind` -/
def rewind (m : ReceivedMessage Handle) : Act (Polling σ) Unit := do
  seekBack c m.queue m.handle
  forgetFrom m.queue m.handle.place m.handle.offset

/-- The commit of `ack`. -/
def commitTop (queue : Str) : Option Handle → Act (Polling σ) Unit
  | none => pure ()
  | some top => Polling.call (c.commit queue top.record)

/-- `ack` -/
def ack (m : ReceivedMessage Handle) : Act (Polling σ) Unit := do
  let s ← Act.get
  let pending := (s.pending m.queue).filter fun h => h.serial ≠ m.handle.serial
  let settled := s.settled m.queue ++ [m.handle]
  let committable := committable settled m.handle.place (floorOf pending m.handle.place)
  let remaining := settled.filter fun h => committable.all fun h' => h.serial ≠ h'.serial
  Act.modify fun s => s.setBooks m.queue pending remaining
  commitTop c m.queue (highest committable)

section Interpreter

variable [Interpreter]

/-- `_poll_one` -/
def pollOne (queue : Str) : Act (Polling σ) (Option (ReceivedMessage Handle)) := do
  match ← Polling.call (c.poll queue) with
  | some (.record m) => do
    let s ← Act.get
    let handle : Handle := ⟨m, s.polled⟩
    Act.modify fun s => { s with polled := s.polled + 1 }
    let received ← Act.lift (received queue m)
    Act.modify fun s => s.setBooks queue (s.pending queue ++ [handle]) (s.settled queue)
    pure (some (withHandle received handle))
  | _ => pure none

/-- `pop` -/
def pop (queue : Str) : Act (Polling σ) (Option (ReceivedMessage Handle)) := do
  rewindAbandoned c queue
  pollOne c queue

/-- The loop of `pop_batch`, for at most `n` more records; `batch` are those so far. -/
def popUpTo (queue : Str) (batch : List (ReceivedMessage Handle)) : Nat → Act (Polling σ) (List (ReceivedMessage Handle))
  | 0 => pure batch
  | n + 1 => do
    let polled ← Act.tryExcept (pollOne c queue) [.exception] fun e =>
      if batch.isEmpty then Act.raise e else pure none
    match polled with
    | none => pure batch
    | some received => popUpTo queue (batch ++ [received]) n

/-- `pop_batch`, of at most `n` records. Without a `max`, `n` is a number that the queue does not have. -/
def popBatch (queue : Str) (n : Nat) : Act (Polling σ) (List (ReceivedMessage Handle)) := do
  rewindAbandoned c queue
  popUpTo c queue [] n

/-! ## The producer side -/

/-- `_produce_confirmed` -/
def produceConfirmed (topic : Str) (args : RecordArgs) : Act (Polling σ) Unit := do
  match ← Polling.call (c.produce topic args) with
  | none => Act.raise ⟨kafkaDeliveryError, str "Kafka delivery to " ++ strRepr topic ++ str " was not confirmed within " ++
      T.deliveryTimeout ++ str "s."⟩
  | some (some error) => Act.raise ⟨kafkaDeliveryError, str "Kafka delivery to " ++ strRepr topic ++ str " failed: " ++ error⟩
  | some none => pure ()

/-- `publish` -/
def publish (queue body : Str) : Act (Polling σ) Unit := do
  let args ← Act.lift (recordArgs body false)
  Polling.call (c.send queue args)

/-- `publish_settle`, without headers. -/
def publishSettle (queue body : Str) (route : RouteUrn) (key : Option Bytes) : Act (Polling σ) Unit := do
  let s ← Act.get
  let args ← Act.lift (settleArgs queue body route key [] (c.now s.clients))
  T.produceConfirmed c queue args

/-- `redeliver` -/
def redeliver (m : ReceivedMessage Handle) (body : Str) : Act (Polling σ) Unit := do
  let (topic, args) ← Act.lift (redeliverArgs T.tiers (withRecord m) body)
  T.produceConfirmed c topic args
  Act.tryExcept (ack c m) [.exception] fun _ => pure ()

/-- `KafkaTransport` -/
def transport : Transport (Polling σ) Handle where
  classifiesPoison := true
  retryTiersMs := some T.tiers.ms
  publish := publish c
  pop := pop c
  ack := ack c
  publishRouted := none
  publishSettle := some (T.publishSettle c)
  redeliver := some fun m body _ => T.redeliver c m body
  deadLetter := none
  rewind := some (rewind c)
  abandon := none
  deadLetterQueueName := none
  settleNative := none
  settleNativeDeadLetter := none

end Interpreter

end KafkaTransport

end BabelQueue.Kafka
