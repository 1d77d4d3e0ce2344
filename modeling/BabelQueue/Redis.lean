import BabelQueue.Transport

/-!
# Redis deliveries (`redis_transport.py`)

The pure part of `RedisTransport`, on stored values as the client reads them (`_as_text`: every
byte that is not UTF-8 as an escaped code point).

* `frameValue`, `unframe`: the frame that carries headers beside a body.
* `legacyMessage`, `zsetMessage`: the delivery of a reserved value in each layout.
* `releasedBody`: the body of `release`.
-/

namespace BabelQueue.Redis

open Py Py.Json

/-- `_FRAME_KEY` -/
def frameKey : Str := str "__bq_frame"

/-- `_FRAME_VERSION` -/
def frameVersion : Int := 1

/-- The ack handle of a legacy reservation (`_LegacyHandle`). -/
structure LegacyHandle where
  raw : Str
  token : Str

/-- A header value that `_sanitize_headers` drops. -/
def isBlank : Json → Bool
  | .null => true
  | .str [] => true
  | _ => false

variable [Interpreter]

/-- `_sanitize_headers` -/
def sanitizeHeaders : Dict Json → Except PyExc (Dict Str)
  | [] => .ok []
  | (key, value) :: headers =>
    if key = [] ∨ isBlank value then sanitizeHeaders headers
    else do
      let text ← value.toStr
      pure ((key, text) :: (← sanitizeHeaders headers))

/-- `_frame_value` -/
def frameValue (body : Str) (headers : Dict Str) : Except PyExc Str := do
  let clean ← sanitizeHeaders (headers.mapValues .str)
  if clean = [] then pure body
  else dumps true (.obj [(frameKey, .int frameVersion), (str "headers", .obj (clean.mapValues .str)),
    (str "body", .str body)])

/-- The cheap reject of `_unframe`: whether `value` is read at all. -/
def mayBeFrame (value : Str) : Bool :=
  startsWith value [cp '{'] && value.tails.any (startsWith · (cp '"' :: frameKey ++ [cp '"']))

/-- The object and the body of a frame. -/
def frame? (value : Str) : Except PyExc (Option (Dict Json × Str)) :=
  if mayBeFrame value = false then .ok none
  else tryExceptPure
    ((loads value).map fun v => v.asObj?.bind fun decoded =>
      if (decoded.getJ frameKey).truthy then (decoded.getJ (str "body")).asStr?.map (decoded, ·) else none)
    [.valueError, .typeError] fun _ => .ok none

/-- `_unframe` -/
def unframe (value : Str) : Except PyExc (Str × Dict Str) := do
  match ← frame? value with
  | none => pure (value, [])
  | some (decoded, body) => pure (body, ← sanitizeHeaders ((decoded.getJ (str "headers")).asObj?.getD []))

/-- The delivery of a reserved value in the legacy layout (`_pop_legacy`). -/
def legacyMessage (queue text token : Str) : Except PyExc (ReceivedMessage LegacyHandle) := do
  let (unframed, headers) ← unframe text
  let route ← if hasInvalidUtf8 text then pure nonNumericAttemptsRoute
    else do pure (if (← poisonCause unframed true).isNone then [] else nonNumericAttemptsRoute)
  pure (popped route unframed queue ⟨text, token⟩ headers)

/-- The delivery of a job in the Laravel layout (`_zset_message`). -/
def zsetMessage (queue job reserved : Str) : Except PyExc (ReceivedMessage Str) := do
  let poison ← if job = reserved ∨ hasInvalidUtf8 job then pure true
    else do pure (← poisonCause job true).isSome
  pure (popped (if poison then nonNumericAttemptsRoute else []) job queue reserved [])

/-- `_released_body` -/
def releasedBody (body : Str) : Except PyExc Str := do
  let envelope ← parseEnvelope body
  match envelope.getJ (str "attempts") with
  | .int attempts => dumps true (.obj (envelope.set (str "attempts") (.int (attempts + 1))))
  | .float attempts => dumps true (.obj (envelope.set (str "attempts") (.float attempts.addOne)))
  | _ => pure body

/-- A value that is no frame is the body. -/
theorem unframe_of_not_frame {value : Str} (h : frame? value = .ok none) : unframe value = .ok (value, []) := by
  rw [unframe, h]
  rfl

end BabelQueue.Redis
