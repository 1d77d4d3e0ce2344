import BabelQueue.Transport
import Mathlib.Data.List.Infix

/-!
# Deliveries of the AMQP and Redis transports

* `amqpMessage`: what `PikaTransport.pop` hands over.
* `legacyMessage`, `zsetMessage`: what `RedisTransport.pop` hands over, in its two layouts.
-/

namespace BabelQueue

open Py Py.Json

/-! ## AMQP -/

/-- The message of `PikaTransport.pop`: `body` are the bytes of the delivery. -/
def amqpMessage (queue : Str) (body : Bytes) (deliveryTag : Nat) (headers : Dict Str) : ReceivedMessage Nat :=
  popped [] (Utf8.decodeEscape body) queue deliveryTag headers

/-! ## Redis -/

/-- `_LegacyHandle`. -/
structure LegacyHandle where
  raw : Str
  token : Str
  deriving DecidableEq

/-- The handle of a Redis delivery, by layout. -/
inductive RedisHandle
  | legacy (h : LegacyHandle)
  | zset (reserved : Str)
  deriving DecidableEq

def frameKey : Str := str "__bq_frame"

section Redis

variable [Interpreter]

/-- `_sanitize_headers`. -/
def sanitizeHeaders : List (Str × Json) → Except PyExc (Dict Str)
  | [] => .ok []
  | (key, value) :: rest =>
    match key, value with
    | [], _ => sanitizeHeaders rest
    | _, .null => sanitizeHeaders rest
    | _, .str [] => sanitizeHeaders rest
    | key, value => do
      let s ← value.toStr
      let rest ← sanitizeHeaders rest
      pure ((key, s) :: rest)

/-- `_unframe`: the body and the headers of a stored value. -/
def unframe (value : Str) : Except PyExc (Str × Dict Str) :=
  match value with
  | [] => .ok (value, [])
  | c :: _ =>
    if c ≠ cp '{' ∨ ¬ (cp '"' :: frameKey ++ [cp '"']) <:+: value then .ok (value, [])
    else
      match loads value with
      | .error e => if e.isAny [.valueError, .typeError] then .ok (value, []) else .error e
      | .ok (.obj decoded) =>
        if (Dict.getJ decoded frameKey).truthy then
          match Dict.get? decoded (str "body") with
          | some (.str body) =>
            (sanitizeHeaders ((Dict.getJ decoded (str "headers")).asObj?.getD [])).map fun headers => (body, headers)
          | _ => .ok (value, [])
        else .ok (value, [])
      | .ok _ => .ok (value, [])

/-- The route of a legacy reservation of the stored value `text`. -/
def legacyRoute (text unframed : Str) : Except PyExc Str :=
  if hasInvalidUtf8 text then .ok nonNumericAttemptsRoute
  else (poisonCause unframed true).map fun cause => if cause.isNone then [] else nonNumericAttemptsRoute

/-- The message of `_pop_legacy`, for the stored value `text` reserved under `token`. -/
def legacyMessage (queue text token : Str) : Except PyExc (ReceivedMessage RedisHandle) := do
  let (unframed, headers) ← unframe text
  let route ← legacyRoute text unframed
  pure (popped route unframed queue (.legacy ⟨text, token⟩) headers)

/-- `_zset_message`. -/
def zsetMessage (queue job reserved : Str) : Except PyExc (ReceivedMessage RedisHandle) :=
  if job = reserved ∨ hasInvalidUtf8 job then .ok (popped nonNumericAttemptsRoute job queue (.zset reserved) [])
  else (poisonCause job true).map fun cause =>
    popped (if cause.isSome then nonNumericAttemptsRoute else []) job queue (.zset reserved) []

end Redis

end BabelQueue
