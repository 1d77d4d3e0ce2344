import BabelQueue.App.Observer
import BabelQueue.Redis.Hops

/-!
# Expired reservations and the observer

`RedisTransport.dead_letter` writes nothing when the reservation has expired, and returns; the runtime
then tells the dead-letter observer of a record that was not written.

* `wrote_iff`: on both layouts, a dead-letter write that returns wrote if and only if the reservation
  was live.
* `observer_matched_iff`: the runs in which the observer is told of exactly what was written.
-/

namespace BabelQueue

open Py Py.Json Py.Utf8

namespace RedisTransport

variable (T : RedisTransport)

/-- The handle of `m` is one that a pop of this layout hands out. -/
def Fits (m : ReceivedMessage RedisHandle) : Prop :=
  if T.laravelCompat then ∃ reserved, m.handle = .zset reserved else ∃ handle, m.handle = .legacy handle

/-- The list that dead letters for `queue` are on. -/
def letters (queue : Str) : Str := if T.laravelCompat then T.ready queue else queue

variable [Interpreter]

/-- The value of a dead letter. -/
def letterValue (m : ReceivedMessage RedisHandle) (body : Str) : Except PyExc Str :=
  if T.laravelCompat then .ok body else Redis.frameValue body m.headers

/-- Whether a dead-letter write puts its record on the queue. -/
def wrote (m : ReceivedMessage RedisHandle) (queue body : Str) (s : RedisServer) : Bool :=
  match (T.writeDeadLetter m queue body s).1 with
  | .ok written => written
  | .error _ => false

/-- The last value on the list of `queue` is the record. -/
def Recorded (m : ReceivedMessage RedisHandle) (queue body : Str) (s : RedisServer) : Prop :=
  ∃ value bytes, T.letterValue m body = .ok value ∧ encodeEscape value = .ok bytes ∧
    (s.keys.lists (T.letters queue)).getLast? = some bytes

variable {T}

/-- How a dead-letter write ends: it raises and changes nothing, or it returns whether the reservation was
live, and then the record is the last value on its list. -/
inductive Ends (T : RedisTransport) (m : ReceivedMessage RedisHandle) (queue body : Str) (s : RedisServer) : Prop
  | raises (e : PyExc) (h : T.writeDeadLetter m queue body s = (.error e, s))
  | returns {value : Str} {bytes : Bytes} {keys : Keyspace} (hv : T.letterValue m body = .ok value)
      (hb : encodeEscape value = .ok bytes) (hlast : (keys.lists (T.letters queue)).getLast? = some bytes)
      (h : T.writeDeadLetter m queue body s = (.ok (T.live m s), { s with keys := if T.live m s then keys else s.keys }))

theorem ends_legacy (hT : T.laravelCompat = false) {m : ReceivedMessage RedisHandle} {handle : LegacyHandle}
    (hm : m.handle = .legacy handle) (queue body : Str) (s : RedisServer) : Ends T m queue body s := by
  have hletters : T.letters queue = queue := by
    unfold letters
    rw [hT]
    rfl
  have hvalue : T.letterValue m body = Redis.frameValue body m.headers := by
    unfold letterValue
    rw [hT]
    rfl
  have hwrite : T.writeDeadLetter m queue body =
      (do T.settle m (some (queue, ← Act.lift (Redis.frameValue body m.headers)))) := by
    unfold writeDeadLetter
    rw [hT]
    rfl
  have hsettle : ∀ value, T.settle m (some (queue, value)) = (do
      let token ← Act.lift (encodeEscape handle.token)
      let raw ← Act.lift (encodeEscape handle.raw)
      let body ← Act.lift (encodeEscape value)
      eval (Redis.settleScript (T.processing m.queue) (T.deadlines m.queue) token raw (some (queue, body)))) := by
    intro value
    unfold settle
    rw [hm]
  obtain ⟨value, hv⟩ : ∃ value, Redis.frameValue body m.headers = .ok value := ⟨_, Redis.frameValue_eq body m.headers⟩
  have hrun : T.writeDeadLetter m queue body s = T.settle m (some (queue, value)) s := by
    rw [hwrite, hv]
    rfl
  cases htoken : encodeEscape handle.token with
  | error e => exact .raises e (by rw [hrun, hsettle, htoken]; rfl)
  | ok token =>
    cases hraw : encodeEscape handle.raw with
    | error e => exact .raises e (by rw [hrun, hsettle, htoken, hraw]; rfl)
    | ok raw =>
      cases hb : encodeEscape value with
      | error e => exact .raises e (by rw [hrun, hsettle, htoken, hraw, hb]; rfl)
      | ok bytes =>
        obtain ⟨k, hk⟩ := settle_run (T := T) hm htoken hraw hb queue s
        exact .returns (hvalue.trans hv) hb (by rw [hletters]; exact k.getLast?_rpush _ _) (hrun.trans hk)

omit [Interpreter] in
theorem notify_ne_ready (queue : Str) : T.ready queue ≠ T.notify queue := by
  intro h
  have := congrArg List.length h
  unfold notify at this
  rw [List.length_append] at this
  have hpos : (str ":notify").length = 7 := by decide
  omega

theorem ends_zset (hT : T.laravelCompat = true) {m : ReceivedMessage RedisHandle} {reserved : Str}
    (hm : m.handle = .zset reserved) (queue body : Str) (s : RedisServer) : Ends T m queue body s := by
  have hletters : T.letters queue = T.ready queue := by
    unfold letters
    rw [hT]
    rfl
  have hvalue : T.letterValue m body = .ok body := by
    unfold letterValue
    rw [hT]
    rfl
  have hwrite : T.writeDeadLetter m queue body = (do
      let member ← Act.lift (encodeEscape reserved)
      let body ← Act.lift (encodeEscape body)
      eval (Redis.deadLetterScript (T.reserved m.queue) (T.ready queue) (T.notify queue) member body)) := by
    unfold writeDeadLetter wireHandle
    rw [hT, hm]
    rfl
  cases hmember : encodeEscape reserved with
  | error e => exact .raises e (by rw [hwrite, hmember]; rfl)
  | ok member =>
    cases hb : encodeEscape body with
    | error e => exact .raises e (by rw [hwrite, hmember, hb]; rfl)
    | ok bytes =>
      have hlive : T.live m s = s.keys.hasMember (T.reserved m.queue) member := by
        unfold live reservation
        rw [hm]
        dsimp only
        rw [hmember]
        rfl
      let k := (s.keys.zrem (T.reserved m.queue) member).2.rpush (T.ready queue) [bytes]
      refine .returns hvalue hb (?_ : ((k.rpush (T.notify queue) [[49]]).lists (T.letters queue)).getLast? = _) ?_
      · rw [hletters, Keyspace.rpush_lists, if_neg (notify_ne_ready queue)]
        exact Keyspace.getLast?_rpush _ _ _
      · rw [hwrite, hmember, hb]
        show ((.ok (Redis.deadLetterScript (T.reserved m.queue) _ _ member bytes s.keys).1 : Except PyExc Bool), _) = _
        have hscript : Redis.deadLetterScript (T.reserved m.queue) (T.ready queue) (T.notify queue) member bytes s.keys =
            if T.live m s then (true, k.rpush (T.notify queue) [[49]]) else (false, s.keys) := by
          unfold Redis.deadLetterScript
          rw [hlive]
          dsimp only [k]
          rw [Keyspace.zrem]
          cases s.keys.hasMember (T.reserved m.queue) member <;> rfl
        rw [hscript]
        cases T.live m s <;> rfl

theorem Fits.ends {m : ReceivedMessage RedisHandle} (h : T.Fits m) (queue body : Str) (s : RedisServer) :
    Ends T m queue body s := by
  unfold Fits at h
  split at h
  · next hT =>
    obtain ⟨reserved, hm⟩ := h
    exact ends_zset hT hm queue body s
  · next hT =>
    obtain ⟨handle, hm⟩ := h
    exact ends_legacy (by simpa using hT) hm queue body s

/-- A dead-letter write that returns wrote if and only if the reservation was live. -/
theorem wrote_iff {m : ReceivedMessage RedisHandle} (h : T.Fits m) (queue body : Str) (s : RedisServer) :
    T.wrote m queue body s = ((T.deadLetter m queue body s).1.toBool && T.live m s) ∧
      if T.wrote m queue body s then T.Recorded m queue body (T.deadLetter m queue body s).2
      else (T.deadLetter m queue body s).2 = s := by
  have hdead : T.deadLetter m queue body s =
      ((T.writeDeadLetter m queue body s).1.map fun _ => (), (T.writeDeadLetter m queue body s).2) := by
    unfold deadLetter
    rw [Act.bind_run]
    rcases T.writeDeadLetter m queue body s with ⟨_ | _, _⟩ <;> rfl
  rw [hdead]
  unfold wrote
  cases h.ends queue body s with
  | raises e he =>
    rw [he]
    exact ⟨rfl, rfl⟩
  | returns hv hb hlast he =>
    rw [he]
    cases hlive : T.live m s with
    | false => exact ⟨rfl, rfl⟩
    | true => exact ⟨rfl, _, _, hv, hb, hlast⟩

end RedisTransport

section Observer

variable [Interpreter]

/-- In a run over any transport the observer is told of exactly the records that were written if and only if
exactly the writes that return wrote; on Redis, a write that returns wrote if and only if its reservation
was live. The log changes nothing, and whether the observer raises does not matter. -/
theorem observer_matched_iff {σ η : Type} {app : App σ η} (wrote : ReceivedMessage η → Str → Str → σ → Bool)
    {observer : DeadLetterEvent → Act σ Unit} (ho : app.deadLetterObserver = some observer) :
    (∀ log, NotedRun app wrote log → (Matched log ↔ Honest log)) ∧
    (∀ m s log, Told log → ((app.noted wrote).dispatch m (s, log)).1 = (app.dispatch m s).1 ∧
      ((app.noted wrote).dispatch m (s, log)).2.1 = (app.dispatch m s).2) ∧
    ((∀ event s e, (observer event s).1 = .error e → e.isException = true) →
      ∀ m, { app with deadLetterObserver := some (silenced observer) }.dispatch m = app.dispatch m) ∧
    ∀ (T : RedisTransport) (m : ReceivedMessage RedisHandle) (queue body : Str) (s : RedisServer), T.Fits m →
      T.wrote m queue body s = ((T.deadLetter m queue body s).1.toBool && T.live m s) ∧
        if T.wrote m queue body s then T.Recorded m queue body (T.deadLetter m queue body s).2
        else (T.deadLetter m queue body s).2 = s := by
  refine ⟨fun log h => (NotedRun.told wrote ho h).matched_iff, fun m s log hlog => ?_, fun hex m => dispatch_silenced m ho hex,
    fun T m queue body s h => RedisTransport.wrote_iff h queue body s⟩
  obtain ⟨h1, h2, -⟩ := (simulates_noted m wrote ho).dispatch s (s, log) ⟨rfl, hlog⟩
  exact ⟨h1.symm, h2⟩

end Observer

section CPython

attribute [local instance] cpython

/-- `RedisTransport()`, with a different token for every reservation. -/
def countingRedis : RedisTransport := { legacyRedis with random := id }

/-- `BabelQueue(countingRedis, on_unknown_urn=DEAD_LETTER)`, with an observer that raises. -/
def observedApp : App RedisServer RedisHandle where
  transport := countingRedis.transport
  handlers := []
  onUnknownUrn := .deadLetter
  maxAttempts := 3
  deadLetterEnabled := false
  deadLetterQueue := none
  deadLetterSuffix := none
  retryDelay _ := .ok Float64.zero
  unknownUrnReleaseDelay := Float64.zero
  deadLetterObserver := some fun _ => Act.raise ⟨.valueError, []⟩
  now _ := ⟨0, epoch_in_range⟩
  setPhase _ := id
  endPhase := id

/-- A message without a handler is popped, `seconds` pass, and another consumer polls the queue. -/
def popAndWait (seconds : Int) : Act RedisServer (Option (ReceivedMessage RedisHandle)) := do
  countingRedis.publish orders (str "\x7b\"job\":\"urn:x\"\x7d")
  let m ← countingRedis.pop orders
  Act.modify fun s => { s with now := s.now + seconds }
  let _ ← countingRedis.pop orders
  pure m

/-- Then its dispatch, with the log. -/
def lateDispatch (seconds : Int) : RedisServer × LetterLog :=
  match popAndWait seconds emptyServer with
  | (.ok (some m), s) => ((observedApp.noted countingRedis.wrote).dispatch m (s, [])).2
  | (.ok none, s) => (s, [])
  | (.error _, s) => (s, [])

def ordersLetters : Str := str "orders.dlq"

/-- The log is one write that returned, and one call of the observer. -/
def wroteOnce (wrote : Bool) : LetterLog → Bool
  | [.write queue true wrote', .notice event] =>
    queue = ordersLetters && event.deadLetterQueue = ordersLetters && wrote' = wrote
  | _ => false

theorem lateDispatch_run (seconds : Int) : NotedRun observedApp countingRedis.wrote (lateDispatch seconds).2 := by
  refine ⟨(popAndWait seconds emptyServer).2, (lateDispatch seconds).1, ?_⟩
  unfold lateDispatch
  split
  · next m s h =>
    rw [h]
    exact .single (.dispatch m (s, []))
  · next s h =>
    rw [h]
  · next e s h =>
    rw [h]

theorem observer_matched_in_time : wroteOnce true (lateDispatch 1).2 = true ∧ Matched (lateDispatch 1).2 := by
  have hw : wroteOnce true (lateDispatch 1).2 = true := by decide +kernel
  refine ⟨hw, ((observer_matched_iff countingRedis.wrote
    (rfl : observedApp.deadLetterObserver = _)).1 _ (lateDispatch_run 1)).mpr ?_⟩
  revert hw
  generalize (lateDispatch 1).2 = log
  intro hw
  unfold wroteOnce at hw
  split at hw
  · next queue wrote event =>
    simp only [Bool.and_eq_true, decide_eq_true_eq] at hw
    intro q r w hm
    simp only [List.mem_cons, LetterEvent.write.injEq, reduceCtorEq, List.not_mem_nil, or_false] at hm
    rw [hm.2.1, hm.2.2, hw.2]
  · cases hw

/-- After 91 seconds the other consumer has the message: the observer is told of a record, and the
dead-letter queue is empty. -/
theorem observer_told_of_nothing :
    NotedRun observedApp countingRedis.wrote (lateDispatch 91).2 ∧ wroteOnce false (lateDispatch 91).2 = true ∧
      (lateDispatch 91).1.keys.lists ordersLetters = [] ∧ ¬ Matched (lateDispatch 91).2 := by
  have hw : wroteOnce false (lateDispatch 91).2 = true := by decide +kernel
  refine ⟨lateDispatch_run 91, hw, by decide +kernel, ?_⟩
  revert hw
  generalize (lateDispatch 91).2 = log
  intro hw hmatched
  unfold wroteOnce at hw
  split at hw
  · next queue wrote event =>
    simp only [Bool.and_eq_true, decide_eq_true_eq] at hw
    obtain ⟨-, ⟨returned, h⟩ | h⟩ := (@matched_notice [] _ _).mp hmatched
    · cases h
      cases hw.2
    · cases h
  · cases hw

end CPython

end BabelQueue
