import Mathlib.Data.Rat.Defs
import Mathlib.Order.Basic
import BabelQueue.Kafka.Record
import BabelQueue.Py.Act

/-!
# The re-inject consumer (`kafka_retry.py`)

`RetryReinjector.runOnce` over the clients of a consumer and a producer.

* `reinjectHeaders`, `targetTime`: the pure helpers.
* `Reinjecting σ`: the state of the object and of its clients.
* `accept`, `releaseDue`, `reinject`, `rewind`, `runOnce`: the methods.

Times are exact rationals; the source has floats. Logging, `run`, `stop` and `close` are left out.
-/

namespace BabelQueue.Kafka

open Py

/-- `reinject_headers` -/
def reinjectHeaders (headers : Headers) : Headers :=
  headers.filter fun h => h.1.decode ∉ [delayHeader, originalTopicHeader]

/-- `target_time`: when a record is due, in milliseconds. -/
def targetTime (recordMs : Option Int) (tierMs : Int) (nowMs : ℚ) : ℚ :=
  match recordMs with
  | none => nowMs + tierMs
  | some recordMs => min (max (recordMs + tierMs) nowMs) (nowMs + tierMs)

/-- `_timestamp`: the milliseconds, when the record has some. -/
def Message.recordMs (m : Message) : Option Int :=
  match m.timestamp with
  | none => none
  | some (kind, value) => if kind = 0 then none else value.filter (0 ≤ ·)

/-- What `produce` is called with, besides the topic. -/
structure Produced where
  value : Option Bytes
  headers : Headers
  key : Option Bytes
  deriving DecidableEq

/-- What `poll` returns. -/
inductive Polled
  | record (m : Message)
  | error

/-- The delivery report, if it came in time, with the error of the broker. -/
abbrev Report := Option (Option Str)

/-- The injected consumer, producer and clock, on states `σ`. -/
structure RetryClients (σ : Type) where
  subscribe : List Str → Act σ Unit
  /-- `poll`, for at most so many seconds. -/
  poll : ℚ → Act σ (Option Polled)
  pause : TopicPartition → Act σ Unit
  resume : TopicPartition → Act σ Unit
  seek : TopicPartition → Int → Act σ Unit
  commit : Message → Act σ Unit
  /-- `produce` and `flush`. The message is the record that is moved; the producer does not see it. -/
  produce : Message → Str → Produced → Act σ Report
  /-- Seconds. -/
  clock : Act σ ℚ

/-- `_waiting`: the records that each partition holds, oldest first, with the times they are due. -/
abbrev Waiting := List (TopicPartition × List (Message × ℚ))

namespace Waiting

/-- The deque of a partition; `[]` when there is none. -/
def held (w : Waiting) (p : TopicPartition) : List (Message × ℚ) := (w.lookup p).getD []

/-- The deque of a partition is now `held`. -/
def put : Waiting → TopicPartition → List (Message × ℚ) → Waiting
  | [], p, held => [(p, held)]
  | (q, ms) :: w, p, held => if q = p then (p, held) :: w else (q, ms) :: put w p held

/-- `del self._waiting[p]` -/
def drop (w : Waiting) (p : TopicPartition) : Waiting := w.filter fun h => h.1 ≠ p

theorem held_cons (q : TopicPartition) (ms : List (Message × ℚ)) (w : Waiting) (p : TopicPartition) :
    held ((q, ms) :: w) p = if p = q then ms else held w p := by
  unfold held
  rw [List.lookup_cons]
  by_cases h : p = q
  · rw [beq_iff_eq.mpr h, if_pos h]
    rfl
  · rw [beq_eq_false_iff_ne.mpr h, if_neg h]

theorem held_put (w : Waiting) (p q : TopicPartition) (ms : List (Message × ℚ)) :
    (w.put p ms).held q = if q = p then ms else w.held q := by
  induction w with
  | nil => rw [put, held_cons]
  | cons e w ih =>
    obtain ⟨t, hs⟩ := e
    by_cases ht : t = p
    · rw [put, if_pos ht, held_cons, held_cons, ht]
      by_cases h : q = p
      · rw [if_pos h, if_pos h]
      · rw [if_neg h, if_neg h, if_neg h]
    · rw [put, if_neg ht, held_cons, held_cons, ih]
      by_cases h : q = t
      · rw [if_pos h, if_pos h, if_neg (h ▸ ht)]
      · rw [if_neg h, if_neg h]

theorem held_drop (w : Waiting) (p q : TopicPartition) : (w.drop p).held q = if q = p then [] else w.held q := by
  induction w with
  | nil => simp [drop, held]
  | cons e w ih =>
    obtain ⟨t, hs⟩ := e
    unfold drop at ih ⊢
    by_cases ht : t = p
    · rw [List.filter_cons_of_neg (by simpa using ht), ih, held_cons, ht]
      by_cases h : q = p
      · rw [if_pos h, if_pos h]
      · rw [if_neg h, if_neg h, if_neg h]
    · rw [List.filter_cons_of_pos (by simpa using ht), held_cons, held_cons, ih]
      by_cases h : q = t
      · rw [if_pos h, if_pos h, if_neg (h ▸ ht)]
      · rw [if_neg h, if_neg h]

end Waiting

/-- The object, with its clients. -/
structure Reinjecting (σ : Type) where
  waiting : Waiting
  subscribed : Bool
  clients : σ

/-- The configuration. -/
structure RetryReinjector where
  workTopics : List Str
  tiers : Tiers
  pollInterval : ℚ
  named : ∀ work ∈ workTopics, TopicName work

variable {σ : Type}

/-- A call of a client. -/
def onClients {α : Type} (c : Act σ α) : Act (Reinjecting σ) α := fun s =>
  ((c s.clients).1, { s with clients := (c s.clients).2 })

namespace RetryReinjector

variable (r : RetryReinjector) (c : RetryClients σ)

/-- `topics`: the tier topics that are read. -/
def topics : List Str := r.workTopics.flatMap fun work => (List.range' 1 r.tiers.ms.length).map (retryTopic work)

/-- `_consumer_`: the consumer subscribes when it is first used. -/
def consumer : Act (Reinjecting σ) Unit := do
  let s ← Act.get
  if s.subscribed then pure () else do
    onClients (c.subscribe r.topics)
    Act.modify fun s => { s with subscribed := true }

/-- `self._clock() * 1000.0` -/
def nowMs : Act (Reinjecting σ) ℚ := do
  let now ← onClients c.clock
  pure (now * 1000)

/-- `_commit` -/
def commit (m : Message) : Act (Reinjecting σ) Unit := do
  r.consumer c
  onClients (c.commit m)

/-- A call whose `Exception` is caught and logged. -/
def attempted (call : Act (Reinjecting σ) Unit) : Act (Reinjecting σ) Unit :=
  Act.tryExcept call [.exception] fun _ => pure ()

/-- `_consumer_().resume(…)` -/
def resume (p : TopicPartition) : Act (Reinjecting σ) Unit :=
  attempted do
    r.consumer c
    onClients (c.resume p)

/-- The record waits until it is due, and its partition is paused. -/
def accept (m : Message) : Act (Reinjecting σ) Unit := do
  match ← Act.lift (r.tiers.tierMs m.place.topic) with
  | none => r.commit c m
  | some tierMs => do
    let now ← nowMs c
    let due := targetTime m.recordMs tierMs now
    Act.modify fun s => { s with waiting := s.waiting.put m.place (s.waiting.held m.place ++ [(m, due)]) }
    attempted do
      r.consumer c
      onClients (c.pause m.place)

/-- The topic the record goes back to. -/
def target (m : Message) : Str :=
  match (headerValue originalTopicHeader m.headers).filter (· ≠ []) with
  | some target => target
  | none =>
    match retryTopicMatch m.place.topic with
    | some (work, _) => work
    | none => m.place.topic

/-- The record that is written back. -/
def moved (m : Message) : Produced := ⟨m.value, reinjectHeaders m.headers, m.key⟩

def deliveryError (target what : Str) : PyExc :=
  ⟨.defined (str "KafkaDeliveryError") (.defined (str "BabelQueueError") .exception),
    str "Kafka delivery to " ++ target ++ what⟩

/-- `_reinject` -/
def reinject (m : Message) : Act (Reinjecting σ) Unit := do
  match ← onClients (c.produce m (target m) (moved m)) with
  | none => Act.raise (deliveryError (target m) (str " was not confirmed in time."))
  | some (some error) => Act.raise (deliveryError (target m) (str " failed: " ++ error))
  | some none => pure ()

/-- `_rewind` -/
def rewind (m : Message) : Act (Reinjecting σ) Unit := do
  r.consumer c
  Act.tryExcept (onClients (c.seek m.place m.offset)) [.baseException] fun e => do
    r.resume c m.place
    Act.raise e
  r.resume c m.place

/-- The `while` of `_release_due`: the due records of a deque, how many were written, and whether the
partition was rewound. -/
def releaseHeld (nowMs : ℚ) (p : TopicPartition) : List (Message × ℚ) → Act (Reinjecting σ) (Nat × Bool)
  | [] => pure (0, false)
  | (m, due) :: held =>
    if due ≤ nowMs then do
      let failed ← Act.tryExcept
        (do
          reinject c m
          pure false)
        [.exception] fun _ => do
          r.rewind c m
          Act.modify fun s => { s with waiting := s.waiting.put p [] }
          pure true
      if failed then pure (0, true) else do
        r.commit c m
        Act.modify fun s => { s with waiting := s.waiting.put p held }
        let (written, rewound) ← releaseHeld nowMs p held
        pure (written + 1, rewound)
    else pure (0, false)

/-- The end of a turn of the `for`: an empty deque is deleted, and its partition resumed. -/
def dropEmpty (p : TopicPartition) (rewound : Bool) : Act (Reinjecting σ) Unit := do
  let s ← Act.get
  if s.waiting.held p = [] then do
    Act.modify fun s => { s with waiting := s.waiting.drop p }
    if rewound then pure () else r.resume c p
  else pure ()

/-- The `for` of `_release_due`. -/
def releaseAll (nowMs : ℚ) : List TopicPartition → Act (Reinjecting σ) Nat
  | [] => pure 0
  | p :: ps => do
    let s ← Act.get
    let (written, rewound) ← r.releaseHeld c nowMs p (s.waiting.held p)
    r.dropEmpty c p rewound
    let more ← releaseAll nowMs ps
    pure (written + more)

/-- `_release_due` -/
def releaseDue : Act (Reinjecting σ) Nat := do
  let now ← nowMs c
  let s ← Act.get
  r.releaseAll c now (s.waiting.map Prod.fst)

def indexError : PyExc := ⟨.defined (str "IndexError") .exception, str "deque index out of range"⟩

/-- `held[0][1]` of each deque. -/
def dues (w : Waiting) : Except PyExc (List ℚ) :=
  w.mapM fun (_, held) => match held with
    | [] => .error indexError
    | (_, due) :: _ => .ok due

/-- How long a poll waits: no longer than up to the next due record. -/
def pollWait (wait : ℚ) : Act (Reinjecting σ) ℚ := do
  let s ← Act.get
  if s.waiting = [] then pure wait else do
    let dues ← Act.lift (dues s.waiting)
    let now ← onClients c.clock
    pure (match dues.min? with
      | none => wait
      | some nearest => max 0 (min wait (nearest / 1000 - now)))

/-- `_accept` of a record; `None` and error events are passed over. -/
def acceptPolled : Option Polled → Act (Reinjecting σ) Unit
  | some (.record m) => r.accept c m
  | _ => pure ()

/-- `run_once`: poll once, and move what is due. -/
def runOnce (timeout : Option ℚ) : Act (Reinjecting σ) Nat := do
  r.consumer c
  let wait ← pollWait c (timeout.getD r.pollInterval)
  let message ← onClients (c.poll wait)
  r.acceptPolled c message
  r.releaseDue c

/-- The object after some calls of `run_once`, with their time-outs; a call that raises ends there. -/
def run : List (Option ℚ) → Reinjecting σ → Reinjecting σ
  | [], s => s
  | timeout :: rest, s => run rest (r.runOnce c timeout s).2

end RetryReinjector

end BabelQueue.Kafka
