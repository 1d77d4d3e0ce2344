import BabelQueue.Py.Float.Order
import BabelQueue.Py.Hex
import BabelQueue.Redis
import BabelQueue.Redis.Keyspace
import BabelQueue.Transports.Delivery

/-!
# The Redis transport (`redis_transport.py`)

`RedisTransport` on the keys of a server, in its two layouts: each script as a function on the
`Keyspace`, each method as an `Act`.

* Values are bytes on the server; the client writes and reads them with `surrogateescape`. Names of
  queues are plain text.
* The encoder of the server's scripts (`cjson`) is a parameter, and so are the random tokens.
* A `pop` is one poll. Logging is left out.
-/

namespace BabelQueue

open Py Py.Json Py.Utf8

/-! ## Scripts -/

namespace Redis

open Keyspace

/-- The deadline member `<token>:<raw>` of a reservation. -/
def deadlineMember (token raw : Bytes) : Bytes := token ++ 58 :: raw

/-- `_PUSH` -/
def pushScript (ready notify : Str) (payload : Bytes) (k : Keyspace) : Keyspace :=
  (k.rpush ready [payload]).rpush notify [[49]]

/-- `_POP`: the job, and what is reserved for it. -/
def popScript (advance : Bytes → Option Bytes) (ready reserved notify : Str) (score : Score) (k : Keyspace) :
    Option (Bytes × Bytes) × Keyspace :=
  match k.lpop ready with
  | (none, k) => (none, k)
  | (some job, k) =>
    let member := (advance job).getD job
    (some (job, member), ((k.zadd reserved score member).lpop notify).2)

/-- `_RELEASE` -/
def releaseScript (delayed reserved : Str) (member body : Bytes) (availableAt : Int) (k : Keyspace) : Keyspace :=
  (k.zrem reserved member).2.zadd delayed availableAt body

/-- `_DEAD_LETTER`: whether it wrote. -/
def deadLetterScript (reserved target notify : Str) (member body : Bytes) (k : Keyspace) : Bool × Keyspace :=
  match k.zrem reserved member with
  | (true, k) => (true, (k.rpush target [body]).rpush notify [[49]])
  | (false, k) => (false, k)

/-- `_MIGRATE` -/
def migrateScript (source ready notify : Str) (now : Int) (batch : Option Nat) (k : Keyspace) : Keyspace :=
  match k.zrangebyscore source now batch with
  | [] => k
  | due => ((k.zremFirst source due.length).rpush ready due).rpush notify (due.map fun _ => [49])

/-- `_RESERVE_LEGACY` -/
def reserveScript (ready processing deadlines : Str) (score : Score) (token : Bytes) (k : Keyspace) :
    Option Bytes × Keyspace :=
  match k.lpop ready with
  | (none, k) => (none, k)
  | (some raw, k) => (some raw, (k.rpush processing [raw]).zadd deadlines score (deadlineMember token raw))

/-- `_SETTLE`: whether it settled. -/
def settleScript (processing deadlines : Str) (token raw : Bytes) (target : Option (Str × Bytes)) (k : Keyspace) :
    Bool × Keyspace :=
  match k.zrem deadlines (deadlineMember token raw) with
  | (true, k) =>
    let k := (k.lrem processing raw).2
    match target with
    | some (target, body) => (true, k.rpush target [body])
    | none => (true, k)
  | (false, k) => (false, k)

/-- One member of `_SWEEP`. -/
def sweepMember (ready processing deadlines : Str) (k : Keyspace) (member : Bytes) : Keyspace :=
  let moved :=
    if 34 ≤ member.length ∧ member[32]? = some 58 then
      match k.lrem processing (member.drop 33) with
      | (true, k) => k.rpush ready [member.drop 33]
      | (false, k) => k
    else k
  (moved.zrem deadlines member).2

/-- `_SWEEP` -/
def sweepScript (ready processing deadlines : Str) (now : Int) (batch : Option Nat) (k : Keyspace) : Keyspace :=
  (k.zrangebyscore deadlines now batch).foldl (sweepMember ready processing deadlines) k

end Redis

/-! ## The transport -/

/-- The server, its clock in whole seconds, and how many tokens were drawn. -/
structure RedisServer where
  keys : Keyspace
  now : Int
  drawn : Nat

/-- `RedisTransport`, as its constructor leaves it. -/
structure RedisTransport where
  processingSuffix : Str
  laravelCompat : Bool
  keyPrefix : Str
  retryAfter : Option Nat
  /-- `none` is `-1`, all members. -/
  migrationBatchSize : Option { n : Nat // 0 < n }
  /-- The random number of the token drawn after `n` others. -/
  random : Nat → Nat
  /-- A job with its `attempts` advanced; `none` when the script cannot decode or encode it. -/
  advance : Bytes → Option Bytes

namespace RedisTransport

variable (T : RedisTransport)

/-- `_processing` -/
def processing (queue : Str) : Str := queue ++ T.processingSuffix

/-- `_deadlines` -/
def deadlines (queue : Str) : Str := T.processing queue ++ str ":deadlines"

/-- `_ready` -/
def ready (queue : Str) : Str := T.keyPrefix ++ queue

def reserved (queue : Str) : Str := T.ready queue ++ str ":reserved"

def delayed (queue : Str) : Str := T.ready queue ++ str ":delayed"

def notify (queue : Str) : Str := T.ready queue ++ str ":notify"

/-- `_deadline_score` -/
def deadlineScore (now : Int) : Keyspace.Score :=
  match T.retryAfter with
  | none => ⊤
  | some seconds => (now + seconds : Int)

def batch : Option Nat := T.migrationBatchSize.map Subtype.val

/-- `secrets.token_hex(_TOKEN_BYTES)`, after `drawn` others. -/
def tokenHex (drawn : Nat) : Str := hexText 32 (T.random drawn)

/-- `_available_at` -/
def availableAt (now : Int) (delay : Float64) : Except PyExc Int := do
  let seconds ← (if delay.lt Float64.zero then Float64.zero else delay).ceil
  pure (now + seconds)

/-- A script, or a command, that returns nothing of use. -/
def run (script : Keyspace → Keyspace) : Act RedisServer Unit :=
  Act.modify fun s => { s with keys := script s.keys }

/-- A script and what it returns. -/
def eval {α : Type} (script : Keyspace → α × Keyspace) : Act RedisServer α := fun s =>
  (.ok (script s.keys).1, { s with keys := (script s.keys).2 })

/-- `publish` -/
def publish (queue body : Str) : Act RedisServer Unit := do
  let body ← Act.lift (encodeEscape body)
  if T.laravelCompat then run (Redis.pushScript (T.ready queue) (T.notify queue) body)
  else run fun k => k.rpush queue [body]

/-- `_sweep` -/
def sweep (queue : Str) (s : RedisServer) : Keyspace :=
  Redis.sweepScript queue (T.processing queue) (T.deadlines queue) s.now T.batch s.keys

/-- `_migrate` -/
def migrate (queue : Str) (s : RedisServer) : Keyspace :=
  let k := Redis.migrateScript (T.delayed queue) (T.ready queue) (T.notify queue) s.now T.batch s.keys
  if T.retryAfter.isSome then Redis.migrateScript (T.reserved queue) (T.ready queue) (T.notify queue) s.now T.batch k else k

variable [Interpreter]

/-- `publish_with_headers` -/
def publishWithHeaders (queue body : Str) (headers : Dict Str) : Act RedisServer Unit :=
  if T.laravelCompat then T.publish queue body
  else do
    let value ← Act.lift (Redis.frameValue body headers)
    T.publish queue value

/-- `_pop_legacy` -/
def popLegacy (queue : Str) : Act RedisServer (Option (ReceivedMessage RedisHandle)) := do
  Act.modify fun s => { s with keys := T.sweep queue s }
  let s ← Act.get
  let token := T.tokenHex s.drawn
  Act.modify fun s => { s with drawn := s.drawn + 1 }
  let token' ← Act.lift (encodeEscape token)
  match ← eval (Redis.reserveScript queue (T.processing queue) (T.deadlines queue) (T.deadlineScore s.now) token') with
  | none => pure none
  | some raw => do pure (some (← Act.lift (legacyMessage queue (decodeEscape raw) token)))

/-- `_pop_zset` -/
def popZset (queue : Str) : Act RedisServer (Option (ReceivedMessage RedisHandle)) := do
  Act.modify fun s => { s with keys := T.migrate queue s }
  let s ← Act.get
  match ← eval (Redis.popScript T.advance (T.ready queue) (T.reserved queue) (T.notify queue) (T.deadlineScore s.now)) with
  | none => pure none
  | some (job, reserved) => do pure (some (← Act.lift (zsetMessage queue (decodeEscape job) (decodeEscape reserved))))

/-- `pop` -/
def pop (queue : Str) : Act RedisServer (Option (ReceivedMessage RedisHandle)) :=
  if T.laravelCompat then T.popZset queue else T.popLegacy queue

/-- `_wire(message.handle)` in the Laravel layout. -/
def wireHandle : RedisHandle → Except PyExc Bytes
  | .zset reserved => encodeEscape reserved
  | .legacy _ => .error ⟨.attributeError, str "'_LegacyHandle' object has no attribute 'encode'"⟩

/-- `_settle`: whether the script settled. -/
def settle (m : ReceivedMessage RedisHandle) (target : Option (Str × Str)) : Act RedisServer Bool :=
  match m.handle with
  | .zset _ => pure false
  | .legacy handle => do
    let token ← Act.lift (encodeEscape handle.token)
    let raw ← Act.lift (encodeEscape handle.raw)
    match target with
    | none => eval (Redis.settleScript (T.processing m.queue) (T.deadlines m.queue) token raw none)
    | some (target, body) => do
      let body ← Act.lift (encodeEscape body)
      eval (Redis.settleScript (T.processing m.queue) (T.deadlines m.queue) token raw (some (target, body)))

/-- Where the reservation of `m` is: the sorted set and the member. -/
def reservation (m : ReceivedMessage RedisHandle) : Except PyExc (Str × Bytes) :=
  match m.handle with
  | .legacy handle => do
    let token ← encodeEscape handle.token
    let raw ← encodeEscape handle.raw
    pure (T.deadlines m.queue, Redis.deadlineMember token raw)
  | .zset reserved => do pure (T.reserved m.queue, ← encodeEscape reserved)

/-- The reservation of `m` is still there: it was neither settled nor given back. -/
def live (m : ReceivedMessage RedisHandle) (s : RedisServer) : Bool :=
  match T.reservation m with
  | .ok (key, member) => s.keys.hasMember key member
  | .error _ => false

/-- `ack` -/
def ack (m : ReceivedMessage RedisHandle) : Act RedisServer Unit :=
  if T.laravelCompat then do
    let member ← Act.lift (wireHandle m.handle)
    run fun k => (k.zrem (T.reserved m.queue) member).2
  else do
    let _ ← T.settle m none

/-- `redeliver` -/
def redeliver (m : ReceivedMessage RedisHandle) (body : Str) (delay : Float64) : Act RedisServer Unit :=
  if T.laravelCompat then do
    let member ← Act.lift (wireHandle m.handle)
    let body ← Act.lift (encodeEscape body)
    let s ← Act.get
    let available ← Act.lift (availableAt s.now delay)
    run (Redis.releaseScript (T.delayed m.queue) (T.reserved m.queue) member body available)
  else do
    let value ← Act.lift (Redis.frameValue body m.headers)
    let _ ← T.settle m (some (m.queue, value))

/-- The script of `dead_letter`, in either layout: whether it wrote. -/
def writeDeadLetter (m : ReceivedMessage RedisHandle) (queue body : Str) : Act RedisServer Bool :=
  if T.laravelCompat then do
    let member ← Act.lift (wireHandle m.handle)
    let body ← Act.lift (encodeEscape body)
    eval (Redis.deadLetterScript (T.reserved m.queue) (T.ready queue) (T.notify queue) member body)
  else do
    let value ← Act.lift (Redis.frameValue body m.headers)
    T.settle m (some (queue, value))

/-- `dead_letter`: what the script returns is only logged. -/
def deadLetter (m : ReceivedMessage RedisHandle) (queue body : Str) : Act RedisServer Unit := do
  let _ ← T.writeDeadLetter m queue body

/-- `RedisTransport` -/
def transport : Transport RedisServer RedisHandle where
  classifiesPoison := true
  retryTiersMs := none
  publish := T.publish
  pop := T.pop
  ack := T.ack
  publishRouted := none
  publishSettle := none
  redeliver := some T.redeliver
  deadLetter := some T.deadLetter
  rewind := none
  abandon := none
  deadLetterQueueName := none
  settleNative := none
  settleNativeDeadLetter := none

end RedisTransport

end BabelQueue
