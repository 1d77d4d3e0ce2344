import BabelQueue.App.Reliable

/-!
# The in-memory transport (`transport.py`)

`InMemory.transport` is `InMemoryTransport`, and `InMemory.app` is `BabelQueue()` over it.
-/

namespace BabelQueue

open Py Py.Json

/-- The queues: bodies, each with its headers (two deques in lockstep). -/
abbrev InMemory := Dict (List (Str × Dict Str))

namespace InMemory

/-- `publish_with_headers`; `publish` is the case without headers. -/
def push (queue body : Str) (headers : Dict Str) (q : InMemory) : InMemory :=
  q.set queue ((q.get? queue).getD [] ++ [(body, headers)])

/-- `InMemoryTransport`. -/
def transport : Transport InMemory Unit where
  classifiesPoison := false
  retryTiersMs := none
  publish queue body := Act.modify (push queue body [])
  pop queue := do
    let q ← Act.get
    match q.get? queue with
    | some ((body, headers) :: rest) => do
      Act.modify fun q => q.set queue rest
      pure (some (popped [] body queue () headers))
    | _ => pure none
  ack _ := pure ()
  publishRouted := none
  publishSettle := none
  redeliver := none
  deadLetter := none
  rewind := none
  abandon := none
  deadLetterQueueName := none
  settleNative := none
  settleNativeDeadLetter := none

/-- `BabelQueue()`: the in-memory transport and the defaults, at the start of the epoch. The delay
before attempt `n` is `0.0 * 1.0 ** max(n - 1, 0)`. -/
def app : App InMemory Unit where
  transport := transport
  handlers := []
  onUnknownUrn := .fail
  maxAttempts := 3
  deadLetterEnabled := false
  deadLetterQueue := none
  deadLetterSuffix := none
  retryDelay n := (Float64.ofInt (max (n - 1) 0)).map fun _ => Float64.zero
  unknownUrnReleaseDelay := Float64.zero
  deadLetterObserver := none
  now _ := ⟨0, epoch_in_range⟩
  setPhase _ := id
  endPhase := id

/-! ## It does not fail -/

theorem reliable : app.transport.Reliable where
  publish _ _ _ := ⟨_, _, rfl⟩
  ack _ _ := ⟨_, _, rfl⟩
  publishRouted _ h := nomatch h
  publishSettle _ h := nomatch h
  redeliver _ h := nomatch h
  deadLetter _ h := nomatch h
  rewind _ h := nomatch h
  abandon _ h := nomatch h
  deadLetterQueueName _ h := nomatch h
  settleNative _ h := nomatch h
  settleNativeDeadLetter _ h := nomatch h

theorem retryDelay_one : app.retryDelay 1 = .ok Float64.zero := by
  simp only [app, sub_self, max_self, Float64.ofInt_zero, Except.map]

theorem retryDelay_two : app.retryDelay 2 = .ok Float64.zero := by decide +kernel

theorem retryDelay_raises {n : Int} {e : PyExc} (h : app.retryDelay n = .error e) : e.isException = true := by
  have hdelay : app.retryDelay = fun n => (Float64.ofInt (max (n - 1) 0)).map fun _ => Float64.zero := by
    unfold app
    with_reducible rfl
  rw [hdelay] at h
  beta_reduce at h
  cases hf : Float64.ofInt (max (n - 1) 0) with
  | error e' =>
    rw [hf] at h
    cases h
    exact Float64.ofInt_raises hf
  | ok x =>
    rw [hf] at h
    cases h

end InMemory

end BabelQueue
