import BabelQueue.Redrive
import BabelQueue.Transports.InMemory

/-!
# The in-memory transport beside a world

`InMemory.beside fault` is `InMemoryTransport` on a state that also holds a world `ω`: what handlers
and predicates keep, and what decides whether a publish raises.
-/

namespace BabelQueue.InMemory

open Py

variable {ω : Type}

/-- The messages on a queue, each with its headers. -/
def on (q : InMemory) (queue : Str) : List (Str × Dict Str) := (q.get? queue).getD []

@[simp] theorem on_push (queue body : Str) (headers : Dict Str) (q : InMemory) (queue' : Str) :
    (push queue body headers q).on queue' =
      if queue' = queue then q.on queue ++ [(body, headers)] else q.on queue' := by
  unfold on push
  rw [Dict.get?_set]
  split <;> rfl

@[simp] theorem on_set (q : InMemory) (queue : Str) (ms : List (Str × Dict Str)) (queue' : Str) :
    InMemory.on (Dict.set q queue ms) queue' = if queue' = queue then ms else q.on queue' := by
  unfold on
  rw [Dict.get?_set]
  split <;> rfl

/-- A publish, if the world lets it. -/
def put (fault : ω → Option PyExc × ω) (queue body : Str) (headers : Dict Str) : Act (InMemory × ω) Unit := fun s =>
  match fault s.2 with
  | (some e, w) => (.error e, s.1, w)
  | (none, w) => (.ok (), push queue body headers s.1, w)

/-- `popleft`. -/
def take (queue : Str) : Act (InMemory × ω) (Option (ReceivedMessage Unit)) := fun s =>
  match s.1.on queue with
  | [] => (.ok none, s)
  | (body, headers) :: rest => (.ok (some (popped [] body queue () headers)), s.1.set queue rest, s.2)

/-- `InMemoryTransport`. -/
def beside (fault : ω → Option PyExc × ω) : RedriveTransport (InMemory × ω) Unit where
  classifiesPoison := false
  retryTiersMs := none
  publish queue body := put fault queue body []
  pop := take
  ack _ := pure ()
  publishRouted := none
  publishSettle := none
  redeliver := none
  deadLetter := none
  rewind := none
  abandon := none
  deadLetterQueueName := none
  settleNative := none
  settleNativeDeadLetter := none
  popBatch := none
  publishWithHeaders := some (put fault)
  publishRedriven := none

/-- A world in which no publish raises. -/
def steady (w : ω) : Option PyExc × ω := (none, w)

/-- A world that counts the publishes; the `n`-th raises `fault n`. -/
def counted (fault : Nat → Option PyExc) (n : Nat) : Option PyExc × Nat := (fault n, n + 1)

theorem put_steady (queue body : Str) (headers : Dict Str) (s : InMemory × ω) :
    put steady queue body headers s = (.ok (), push queue body headers s.1, s.2) := rfl

/-- `BabelQueue()` on it. -/
def appBeside (fault : ω → Option PyExc × ω) : App (InMemory × ω) Unit where
  transport := (beside fault).toTransport
  handlers := []
  onUnknownUrn := app.onUnknownUrn
  maxAttempts := app.maxAttempts
  deadLetterEnabled := app.deadLetterEnabled
  deadLetterQueue := app.deadLetterQueue
  deadLetterSuffix := app.deadLetterSuffix
  retryDelay := app.retryDelay
  unknownUrnReleaseDelay := app.unknownUrnReleaseDelay
  deadLetterObserver := none
  now s := app.now s.1
  setPhase _ := id
  endPhase := id

end BabelQueue.InMemory
