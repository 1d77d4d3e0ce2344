import BabelQueue.Kafka.Log
import BabelQueue.Kafka.Retry

/-!
# Partition logs

The clients of `RetryReinjector` over logs with the semantics of Kafka: a poll returns the records of
a partition in the order of their offsets from its position on, unless it is paused; a seek sets the
position; a commit is a position of the group.

A stream of answers decides all the rest: which partition a poll is served from and whether a record
is there yet, what raises, whether a call that raised took effect, what the delivery reports say, and
the time. A seek does not raise.
-/

namespace BabelQueue.Kafka

open Py

/-- The records of all partitions, those that are not yet there included. -/
structure Logs where
  records : TopicPartition → List Message
  ordered : ∀ p, Log.Ordered Message.offset (records p)
  placed : ∀ p, ∀ m ∈ records p, m.place = p
  named : ∀ p, records p ≠ [] → TopicName p.topic

/-- What the outside says to one call. -/
structure Answer where
  /-- The partition that a poll returns a record of. -/
  deliver : Option TopicPartition
  /-- A poll without a record returns an error event. -/
  error : Bool
  raises : Bool
  /-- A call that raises takes effect. -/
  lands : Bool
  report : Report
  now : ℚ

/-- A call of `produce`. -/
structure Sent where
  source : Message
  target : Str
  produced : Produced
  /-- The delivery report came, without an error. -/
  confirmed : Bool

structure Partitions where
  answers : Nat → Answer
  calls : Nat
  topics : List Str
  position : TopicPartition → Int
  committed : TopicPartition → Int
  paused : TopicPartition → Bool
  sent : List Sent

namespace Partitions

def ask : Act Partitions Answer := fun b => (.ok (b.answers b.calls), { b with calls := b.calls + 1 })

def clientError : PyExc := ⟨.defined (str "KafkaException") .exception, str "the call failed"⟩

/-- A call that may raise, and may take effect then too. -/
def faulty (f : Partitions → Partitions) : Act Partitions Unit := do
  let a ← ask
  if a.raises then do
    Act.modify fun b => if a.lands then f b else b
    Act.raise clientError
  else Act.modify f

/-- The next record of a partition that is read and not paused. -/
def available (logs : Logs) (b : Partitions) (p : TopicPartition) : Option Message :=
  if p.topic ∈ b.topics ∧ b.paused p = false then Log.next? Message.offset (logs.records p) (b.position p) else none

def poll (logs : Logs) (_wait : ℚ) : Act Partitions (Option Polled) := do
  let a ← ask
  let b ← Act.get
  if a.raises then Act.raise clientError
  else match a.deliver.bind (available logs b) with
    | some m => do
      Act.modify fun b => { b with position := Function.update b.position m.place (m.offset + 1) }
      pure (some (.record m))
    | none => pure (if a.error then some .error else none)

def produce (source : Message) (target : Str) (produced : Produced) : Act Partitions Report := do
  let a ← ask
  Act.modify fun b =>
    { b with sent := b.sent ++ [⟨source, target, produced, !a.raises && decide (a.report = some none)⟩] }
  if a.raises then Act.raise clientError else pure a.report

/-- The clients. -/
def clients (logs : Logs) : RetryClients Partitions where
  subscribe topics := faulty fun b => { b with topics := topics }
  poll := poll logs
  pause p := faulty fun b => { b with paused := Function.update b.paused p true }
  resume p := faulty fun b => { b with paused := Function.update b.paused p false }
  seek p offset := Act.modify fun b => { b with position := Function.update b.position p offset }
  commit m := faulty fun b => { b with committed := Function.update b.committed m.place (m.offset + 1) }
  produce := produce
  clock := do
    let a ← ask
    pure a.now

/-- At the start the group is at `start` in each partition. -/
def init (answers : Nat → Answer) (start : TopicPartition → Int) : Partitions where
  answers := answers
  calls := 0
  topics := []
  position := start
  committed := start
  paused _ := false
  sent := []

end Partitions

end BabelQueue.Kafka
