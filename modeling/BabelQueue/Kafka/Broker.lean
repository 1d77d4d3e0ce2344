import BabelQueue.Kafka.Client
import BabelQueue.Kafka.Partitions

/-!
# A broker for `KafkaTransport`

The clients of `KafkaTransport` over partition logs with the semantics of Kafka: a poll of a queue
returns the records of its partitions in the order of their offsets from the position on; a seek sets
the position; a commit is a position of the group.

A stream of answers decides all the rest: which partition a poll is served from and whether a record
is there yet, what raises and which `Exception` it is, whether a commit that raised took effect, and
what the delivery reports say. A seek does not raise.
-/

namespace BabelQueue.Kafka

open Py

/-- What the outside says to one call. -/
structure Reply where
  /-- The partition that a poll returns a record of. -/
  deliver : Option TopicPartition
  /-- A poll without a record returns an error event. -/
  error : Bool
  raises : Option { e : PyExc // e.isException = true }
  /-- A commit that raises takes effect. -/
  lands : Bool
  report : Report

/-- A call of `produce`. -/
structure Write where
  topic : Str
  args : RecordArgs
  /-- The delivery report came, without an error. -/
  confirmed : Bool

/-- What the broker takes up, in the order in which it does. -/
inductive Effect
  | write (w : Write)
  | commit (m : Message)

structure Broker where
  replies : Nat → Reply
  times : Nat → { t : Int // t.natAbs < 2 ^ 63 }
  calls : Nat
  position : TopicPartition → Int
  committed : TopicPartition → Int
  effects : List Effect
  /-- A commit did not take effect. -/
  missed : Bool

namespace Broker

def ask : Act Broker Reply := fun b => (.ok (b.replies b.calls), { b with calls := b.calls + 1 })

/-- The next record of a partition of the queue. -/
def next? (logs : Logs) (queue : Str) (b : Broker) (p : TopicPartition) : Option Message :=
  if p.topic = queue then Log.next? Message.offset (logs.records p) (b.position p) else none

def seek (p : TopicPartition) (offset : Int) (b : Broker) : Broker :=
  { b with position := Function.update b.position p offset }

def commitTo (m : Message) (b : Broker) : Broker :=
  { b with
    committed := Function.update b.committed m.place (m.offset + 1)
    effects := b.effects ++ [.commit m] }

/-- A consumer joins the group: it starts from what is committed. -/
def rejoin (b : Broker) : Broker := { b with position := b.committed }

def take (w : Write) (b : Broker) : Broker := { b with effects := b.effects ++ [.write w] }

def poll (logs : Logs) (queue : Str) : Act Broker (Option Polled) := do
  let a ← ask
  let b ← Act.get
  match a.raises with
  | some e => Act.raise e.val
  | none =>
    match a.deliver.bind (next? logs queue b) with
    | some m => do
      Act.modify (seek m.place (m.offset + 1))
      pure (some (.record m))
    | none => pure (if a.error then some .error else none)

def commit (m : Message) : Act Broker Unit := do
  let a ← ask
  match a.raises with
  | some e => do
    Act.modify fun b => if a.lands then commitTo m b else { b with missed := true }
    Act.raise e.val
  | none => Act.modify (commitTo m)

def produce (topic : Str) (args : RecordArgs) : Act Broker Report := do
  let a ← ask
  Act.modify (take ⟨topic, args, a.raises.isNone && decide (a.report = some none)⟩)
  match a.raises with
  | some e => Act.raise e.val
  | none => pure a.report

def send (topic : Str) (args : RecordArgs) : Act Broker Unit := do
  let a ← ask
  Act.modify (take ⟨topic, args, false⟩)
  match a.raises with
  | some e => Act.raise e.val
  | none => pure ()

/-- The clients. -/
def clients (logs : Logs) : KafkaClients Broker where
  poll := poll logs
  seek _ p offset := Act.modify (seek p offset)
  commit _ := commit
  send := send
  produce := produce
  now b := b.times b.calls

/-- At the start the group is at `start` in each partition. -/
def init (replies : Nat → Reply) (times : Nat → { t : Int // t.natAbs < 2 ^ 63 }) (start : TopicPartition → Int) :
    Broker where
  replies := replies
  times := times
  calls := 0
  position := start
  committed := start
  effects := []
  missed := false

end Broker

end BabelQueue.Kafka
