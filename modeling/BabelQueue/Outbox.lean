import BabelQueue.Codec
import Mathlib.Order.Lattice
import Mathlib.Order.Defs.LinearOrder

/-!
# The transactional outbox (`outbox.py`)

* `InMemoryOutboxStore`: the rows of the reference store.
* `Outbox.write`, `OutboxRelay.flush`, `OutboxRelay.drain`: filling and emptying it.
* `OutboxOp.step`, `runOutbox`: a sequence of these calls.

The transport is what it answers: `answer n` is what the `n`-th call of `publish` raises.
-/

namespace BabelQueue

open Py Py.Json

/-! ## The store -/

structure OutboxRecord where
  id : Str
  body : Str
  queue : Str
  attempts : Nat

/-- The value of a row in `_rows`. -/
structure OutboxRow where
  body : Str
  queue : Str
  attempts : Nat
  published : Bool
  error : Str

def OutboxRow.record (id : Str) (row : OutboxRow) : OutboxRecord := ⟨id, row.body, row.queue, row.attempts⟩

structure InMemoryOutboxStore where
  rows : Dict OutboxRow
  sequence : Nat

namespace InMemoryOutboxStore

def init : InMemoryOutboxStore := ⟨[], 0⟩

/-- `save`: the id of the new row. -/
def save (encoded queue : Str) : Act InMemoryOutboxStore Str := do
  Act.modify fun store => { store with sequence := store.sequence + 1 }
  let store ← Act.get
  let number ← Act.lift (intStr store.sequence)
  let rowId := str "ob-" ++ number
  Act.modify fun store => { store with rows := store.rows.set rowId ⟨encoded, queue, 0, false, []⟩ }
  pure rowId

/-- The loop of `fetch_unpublished`. -/
def fetchFrom (limit : Int) (records : List OutboxRecord) : Dict OutboxRow → List OutboxRecord
  | [] => records
  | (rowId, row) :: rows =>
    if row.published then fetchFrom limit records rows
    else if limit ≤ (records ++ [row.record rowId]).length then records ++ [row.record rowId]
    else fetchFrom limit (records ++ [row.record rowId]) rows

def fetchUnpublished (store : InMemoryOutboxStore) (limit : Int) : List OutboxRecord := fetchFrom limit [] store.rows

/-- `row = self._rows.get(row_id)`, and what is done to it. -/
def update (store : InMemoryOutboxStore) (rowId : Str) (f : OutboxRow → OutboxRow) : InMemoryOutboxStore :=
  match store.rows.get? rowId with
  | some row => { store with rows := store.rows.set rowId (f row) }
  | none => store

def markPublished (store : InMemoryOutboxStore) (ids : List Str) : InMemoryOutboxStore :=
  ids.foldl (fun store rowId => store.update rowId fun row => { row with published := true }) store

def markFailed (store : InMemoryOutboxStore) (id error : Str) : InMemoryOutboxStore :=
  store.update id fun row => { row with attempts := row.attempts + 1, error := error }

end InMemoryOutboxStore

/-! ## The write side -/

/-- `_queue_of`. -/
def Outbox.queueOf (envelope : Dict Json) : Str :=
  match envelope.getJ (str "meta") with
  | .obj block =>
    match Dict.getJ block (str "queue") with
    | .str (c :: queue) => c :: queue
    | _ => str "default"
  | _ => str "default"

/-- `Outbox.write`: the id of the new row. -/
def Outbox.write [Interpreter] (envelope : Dict Json) : Act InMemoryOutboxStore Str := do
  let encoded ← Act.lift (encode envelope)
  InMemoryOutboxStore.save encoded (Outbox.queueOf envelope)

/-! ## The relay -/

/-- One call of `publish`, and what it raised. `row` is the row the call was for; the transport sees
only the queue and the body. -/
structure PublishCall where
  row : Str
  queue : Str
  body : Str
  raised : Option PyExc

/-- What a relay acts on: the store, the calls the transport saw, and the delays of the sleeper. -/
structure OutboxWorld (δ : Type) where
  store : InMemoryOutboxStore
  calls : List PublishCall
  slept : List δ

structure OutboxRelay (δ : Type) where
  batchSize : Int
  backoffStep : δ
  backoffCap : δ

structure OutboxRelayResult where
  published : Nat
  failed : Nat

/-- `DEFAULT_DRAIN_CEILING` -/
def defaultDrainCeiling : Nat := 10000

namespace OutboxRelay

variable {δ : Type}

/-- `self._transport.publish(record.queue, record.body)` -/
def publish (answer : Nat → Option PyExc) (record : OutboxRecord) : Act (OutboxWorld δ) Unit := fun w =>
  let raised := answer w.calls.length
  (raised.elim (.ok ()) .error, { w with calls := w.calls ++ [⟨record.id, record.queue, record.body, raised⟩] })

/-- `_reason` -/
def reason (exc : PyExc) : Str := exc.cls.name ++ str ": " ++ exc.msg

variable [LinearOrder δ] [Zero δ] [Mul δ] [NatCast δ] (answer : Nat → Option PyExc) (relay : OutboxRelay δ)

/-- `_backoff_for` -/
def backoffFor (priorAttempts : Nat) : δ :=
  min (relay.backoffStep * ((max 1 (priorAttempts + 1) : Nat) : δ)) relay.backoffCap

/-- `_sleep` -/
def sleep (seconds : δ) : Act (OutboxWorld δ) Unit :=
  if 0 < seconds then Act.modify fun w => { w with slept := w.slept ++ [seconds] } else pure ()

/-- The `try` of `flush`: whether the transport accepted the record. -/
def flushRecord (record : OutboxRecord) : Act (OutboxWorld δ) Bool :=
  Act.tryExcept
    (do
      publish answer record
      pure true)
    [.exception]
    fun exc => do
      Act.modify fun w => { w with store := w.store.markFailed record.id (reason exc) }
      sleep (relay.backoffFor record.attempts)
      pure false

/-- The loop of `flush`. -/
def flushRecords : List OutboxRecord → List Str → Nat → Act (OutboxWorld δ) (List Str × Nat)
  | [], publishedIds, failed => pure (publishedIds, failed)
  | record :: records, publishedIds, failed => do
    if ← relay.flushRecord answer record then flushRecords records (publishedIds ++ [record.id]) failed
    else flushRecords records publishedIds (failed + 1)

/-- `flush` -/
def flush : Act (OutboxWorld δ) OutboxRelayResult := do
  let w ← Act.get
  let (publishedIds, failed) ← relay.flushRecords answer (w.store.fetchUnpublished relay.batchSize) [] 0
  -- without published ids the store is left alone, as `mark_published` leaves it then
  Act.modify fun w => if publishedIds = [] then w else { w with store := w.store.markPublished publishedIds }
  pure ⟨publishedIds.length, failed⟩

/-- The loop of `drain`. -/
def drainPasses : Nat → OutboxRelayResult → Act (OutboxWorld δ) OutboxRelayResult
  | 0, total => pure total
  | passes + 1, total => do
    let result ← relay.flush answer
    let total := ⟨total.published + result.published, total.failed + result.failed⟩
    if result.published = 0 then pure total else drainPasses passes total

/-- `drain` -/
def drain (maxPasses : Int) : Act (OutboxWorld δ) OutboxRelayResult :=
  relay.drainPasses answer (if maxPasses > 0 then maxPasses.toNat else defaultDrainCeiling) ⟨0, 0⟩

end OutboxRelay

/-! ## Sequences of calls -/

/-- A call on the outbox; every relay may have its own settings. -/
inductive OutboxOp (δ : Type)
  | write (envelope : Dict Json)
  | flush (relay : OutboxRelay δ)
  | drain (relay : OutboxRelay δ) (maxPasses : Int)

/-- The world, with the queue and the body of every row that `write` returned an id for. -/
structure OutboxRun (δ : Type) where
  world : OutboxWorld δ
  written : Dict (Str × Str)

def OutboxRun.init {δ : Type} : OutboxRun δ := ⟨⟨.init, [], []⟩, []⟩

section Run

variable [Interpreter] {δ : Type} [LinearOrder δ] [Zero δ] [Mul δ] [NatCast δ] (answer : Nat → Option PyExc)

/-- One call. Its caller goes on after an exception. -/
def OutboxOp.step (r : OutboxRun δ) : OutboxOp δ → OutboxRun δ
  | .write envelope =>
    match Outbox.write envelope r.world.store, encode envelope with
    | (.ok rowId, store), .ok encoded =>
      ⟨{ r.world with store }, r.written ++ [(rowId, Outbox.queueOf envelope, encoded)]⟩
    | (_, store), _ => { r with world := { r.world with store } }
  | .flush relay => { r with world := (relay.flush answer r.world).2 }
  | .drain relay maxPasses => { r with world := (relay.drain answer maxPasses r.world).2 }

/-- The calls one after the other, on a new store. -/
def runOutbox (ops : List (OutboxOp δ)) : OutboxRun δ := ops.foldl (OutboxOp.step answer) .init

end Run

end BabelQueue
