import BabelQueue.Redis.Frame

/-!
# Headers from hop to hop

The legacy layout, where headers ride in a frame: a message is published, popped, given back or
dead-lettered with another body, popped again, and so on.

* `Travels T headers bodies place s`: a run of one message, with the bodies it was given.
* `Whereabouts.Delivers`: a pop gives the last body and the headers.
* `frame_carries`: when a value is read back, and that every run of such bodies delivers.
-/

namespace BabelQueue

open Py Py.Json Py.Utf8

/-! ## Operations of the legacy layout -/

namespace Redis

theorem settleScript_eq (processing deadlines : Str) (token raw : Bytes) (target : Str) (body : Bytes) (k : Keyspace) :
    settleScript processing deadlines token raw (some (target, body)) k =
      if k.hasMember deadlines (deadlineMember token raw) then
        (true, ((k.zrem deadlines (deadlineMember token raw)).2.lrem processing raw).2.rpush target [body])
      else (false, k) := by
  unfold settleScript
  rw [Keyspace.zrem]
  split
  · next h => split at h <;> simp_all
  · next h => split at h <;> simp_all

end Redis

namespace RedisTransport

variable {T : RedisTransport}

theorem tokenHex_encodes (T : RedisTransport) (drawn : Nat) : ∃ token, encodeEscape (T.tokenHex drawn) = .ok token := by
  have hascii : Readable (T.tokenHex drawn) := by
    refine readable_ascii fun c hc => ?_
    obtain ⟨i, -, rfl⟩ := List.mem_map.mp hc
    have := (digitChar_range (n := T.random drawn / 16 ^ i % 16) (Nat.mod_lt _ (by omega))).2
    omega
  obtain ⟨token, htoken, -⟩ := hascii.stored
  exact ⟨token, htoken⟩

/-- A settle that gives a value back writes it if and only if the reservation is live. -/
theorem settle_run {m : ReceivedMessage RedisHandle} {handle : LegacyHandle} (hm : m.handle = .legacy handle)
    {token raw : Bytes} (htoken : encodeEscape handle.token = .ok token) (hraw : encodeEscape handle.raw = .ok raw)
    {value : Str} {body : Bytes} (hv : encodeEscape value = .ok body) (target : Str) (s : RedisServer) :
    ∃ k : Keyspace, T.settle m (some (target, value)) s =
      (.ok (T.live m s), { s with keys := if T.live m s then k.rpush target [body] else s.keys }) := by
  have hr : T.reservation m = .ok (T.deadlines m.queue, Redis.deadlineMember token raw) := by
    unfold reservation
    rw [hm]
    show (do pure (T.deadlines m.queue, Redis.deadlineMember (← encodeEscape handle.token) (← encodeEscape handle.raw))) = _
    rw [htoken, hraw]
    rfl
  have hlive : T.live m s = s.keys.hasMember (T.deadlines m.queue) (Redis.deadlineMember token raw) := by
    unfold live
    rw [hr]
  refine ⟨((s.keys.zrem (T.deadlines m.queue) (Redis.deadlineMember token raw)).2.lrem (T.processing m.queue) raw).2, ?_⟩
  unfold settle
  rw [hm]
  dsimp only
  rw [Act.bind_run, htoken, Act.lift_run]
  dsimp only
  rw [Act.bind_run, hraw, Act.lift_run]
  dsimp only
  rw [Act.bind_run, hv, Act.lift_run]
  show ((.ok (Redis.settleScript _ _ token raw (some (target, body)) s.keys).1 : Except PyExc Bool), _) = _
  rw [Redis.settleScript_eq, hlive]
  cases s.keys.hasMember (T.deadlines m.queue) (Redis.deadlineMember token raw) <;> rfl

section Run

variable [Interpreter] (hT : T.laravelCompat = false)

/-- A reservation as a pop makes it. -/
structure Reserved (T : RedisTransport) (text : Str) (m : ReceivedMessage RedisHandle) : Prop where
  handle : ∃ token, m.handle = .legacy ⟨text, token⟩ ∧ ∃ bytes, encodeEscape token = .ok bytes
  raw : ∃ raw, encodeEscape text = .ok raw

omit [Interpreter] in
theorem Reserved.settle {text : Str} {m : ReceivedMessage RedisHandle} (h : Reserved T text m) {value : Str}
    {body : Bytes} (hv : encodeEscape value = .ok body) (target : Str) (s : RedisServer) :
    ∃ k : Keyspace, T.settle m (some (target, value)) s =
      (.ok (T.live m s), { s with keys := if T.live m s then k.rpush target [body] else s.keys }) := by
  obtain ⟨token, hm, bytes, htoken⟩ := h.handle
  obtain ⟨raw, hraw⟩ := h.raw
  exact settle_run hm htoken hraw hv target s

include hT

theorem publishWithHeaders_run {body value : Str} {headers : Dict Str} {bytes : Bytes}
    (hv : Redis.frameValue body headers = .ok value) (hb : encodeEscape value = .ok bytes) (queue : Str) (s : RedisServer) :
    T.publishWithHeaders queue body headers s = (.ok (), { s with keys := s.keys.rpush queue [bytes] }) := by
  unfold publishWithHeaders publish
  rw [hT, if_neg Bool.false_ne_true, Act.bind_run, hv, Act.lift_run]
  dsimp only
  rw [Act.bind_run, hb, Act.lift_run]
  rfl

/-- A pop of a value that is read as a body and headers. -/
theorem pop_run {queue : Str} {s : RedisServer} {value : Bytes} {rest : List Bytes}
    (hhead : (T.sweep queue s).lists queue = value :: rest) {text body : Str} {headers : Dict Str}
    (hv : decodeEscape value = text) (hu : Redis.unframe text = .ok (body, headers)) :
    ∃ m s', T.pop queue s = (.ok (some m), s') ∧ m.body = body ∧ m.headers = headers ∧ m.queue = queue ∧
      Reserved T text m ∧ T.live m s' = true := by
  obtain ⟨token, htoken⟩ := tokenHex_encodes T s.drawn
  obtain ⟨route, hmessage⟩ := @Redis.legacyMessage_ok _ queue _ (T.tokenHex s.drawn) _ _ hu
  have hraw : encodeEscape text = .ok value := hv ▸ encodeEscape_decodeEscape value
  -- The server after the reserve script: the value was moved, and its member added.
  let k := ((T.sweep queue s).setList queue rest).rpush (T.processing queue) [value]
  let keys := k.zadd (T.deadlines queue) (T.deadlineScore s.now) (Redis.deadlineMember token value)
  have hreserve : Redis.reserveScript queue (T.processing queue) (T.deadlines queue) (T.deadlineScore s.now) token
      (T.sweep queue s) = (some value, keys) := by
    unfold Redis.reserveScript Keyspace.lpop
    rw [hhead]
  have hr : T.reservation (popped route body queue (.legacy ⟨text, T.tokenHex s.drawn⟩) headers) =
      .ok (T.deadlines queue, Redis.deadlineMember token value) := by
    show (do pure (T.deadlines queue, Redis.deadlineMember (← encodeEscape (T.tokenHex s.drawn)) (← encodeEscape text))) = _
    rw [htoken, hraw]
    rfl
  refine ⟨popped route body queue (.legacy ⟨text, T.tokenHex s.drawn⟩) headers,
    { s with keys := keys, drawn := s.drawn + 1 }, ?_, rfl, rfl, rfl, ⟨⟨_, rfl, token, htoken⟩, value, hraw⟩, ?_⟩
  · unfold pop popLegacy
    rw [hT, if_neg Bool.false_ne_true, Act.bind_run, Act.modify_run]
    dsimp only
    rw [Act.bind_run, Act.get_run]
    dsimp only
    rw [Act.bind_run, Act.modify_run]
    dsimp only
    rw [Act.bind_run, htoken, Act.lift_run]
    dsimp only
    rw [Act.bind_run]
    unfold eval
    dsimp only
    rw [hreserve]
    dsimp only
    rw [Act.bind_run, hv, hmessage, Act.lift_run]
    rfl
  · unfold live
    rw [hr]
    exact k.hasMember_zadd _ _ _

theorem redeliver_run {text : Str} {m : ReceivedMessage RedisHandle} (h : Reserved T text m) {s : RedisServer}
    (hlive : T.live m s = true) {body value : Str} {bytes : Bytes} (hv : Redis.frameValue body m.headers = .ok value)
    (hb : encodeEscape value = .ok bytes) (delay : Float64) :
    ∃ s', T.redeliver m body delay s = (.ok (), s') ∧ (s'.keys.lists m.queue).getLast? = some bytes := by
  obtain ⟨k, hk⟩ := h.settle hb m.queue s
  refine ⟨{ s with keys := k.rpush m.queue [bytes] }, ?_, k.getLast?_rpush _ _⟩
  unfold redeliver
  rw [hT, if_neg Bool.false_ne_true, Act.bind_run, hv, Act.lift_run]
  dsimp only
  rw [Act.bind_run, hk, hlive]
  rfl

theorem deadLetter_run {text : Str} {m : ReceivedMessage RedisHandle} (h : Reserved T text m) {s : RedisServer}
    (hlive : T.live m s = true) {body value : Str} {bytes : Bytes} (hv : Redis.frameValue body m.headers = .ok value)
    (hb : encodeEscape value = .ok bytes) (queue : Str) :
    ∃ s', T.deadLetter m queue body s = (.ok (), s') ∧ (s'.keys.lists queue).getLast? = some bytes := by
  obtain ⟨k, hk⟩ := h.settle hb queue s
  refine ⟨{ s with keys := k.rpush queue [bytes] }, ?_, k.getLast?_rpush _ _⟩
  unfold deadLetter writeDeadLetter
  rw [hT, if_neg Bool.false_ne_true, Act.bind_run, Act.bind_run, hv, Act.lift_run]
  dsimp only
  rw [hk, hlive]
  rfl

end Run

end RedisTransport

/-! ## Runs -/

/-- Where a message is: its value is on a queue, or a consumer holds it. -/
inductive Whereabouts
  | queued (queue : Str) (value : Bytes)
  | held (m : ReceivedMessage RedisHandle)

section Run

variable [Interpreter]

/-- A message published with `headers`, in its run through the queues; `bodies` are those it was given,
the last one first. -/
inductive Travels (T : RedisTransport) (headers : Dict Str) : List Str → Whereabouts → RedisServer → Prop
  | published {queue body : Str} {value : Bytes} {s s' : RedisServer}
      (h : T.publishWithHeaders queue body headers s = (.ok (), s'))
      (hvalue : (s'.keys.lists queue).getLast? = some value) : Travels T headers [body] (.queued queue value) s'
  /-- Others push, pop, settle and sweep; the value stays on its queue. -/
  | waits {bodies : List Str} {queue : Str} {value : Bytes} {s s' : RedisServer}
      (ht : Travels T headers bodies (.queued queue value) s) (hvalue : value ∈ s'.keys.lists queue) :
      Travels T headers bodies (.queued queue value) s'
  | popped {bodies : List Str} {queue : Str} {value : Bytes} {rest : List Bytes} {m : ReceivedMessage RedisHandle}
      {s s' : RedisServer} (ht : Travels T headers bodies (.queued queue value) s)
      (hhead : (T.sweep queue s).lists queue = value :: rest) (h : T.pop queue s = (.ok (some m), s')) :
      Travels T headers bodies (.held m) s'
  /-- The consumer works, and others do. -/
  | works {bodies : List Str} {m : ReceivedMessage RedisHandle} {s s' : RedisServer}
      (ht : Travels T headers bodies (.held m) s) : Travels T headers bodies (.held m) s'
  | redelivered {bodies : List Str} {m : ReceivedMessage RedisHandle} {body : Str} {delay : Float64} {value : Bytes}
      {s s' : RedisServer} (ht : Travels T headers bodies (.held m) s) (hlive : T.live m s = true)
      (h : T.redeliver m body delay s = (.ok (), s')) (hvalue : (s'.keys.lists m.queue).getLast? = some value) :
      Travels T headers (body :: bodies) (.queued m.queue value) s'
  | deadLettered {bodies : List Str} {m : ReceivedMessage RedisHandle} {queue body : Str} {value : Bytes}
      {s s' : RedisServer} (ht : Travels T headers bodies (.held m) s) (hlive : T.live m s = true)
      (h : T.deadLetter m queue body s = (.ok (), s')) (hvalue : (s'.keys.lists queue).getLast? = some value) :
      Travels T headers (body :: bodies) (.queued queue value) s'
  /-- The reservation expired: a sweep put the stored value back. -/
  | swept {bodies : List Str} {m : ReceivedMessage RedisHandle} {handle : LegacyHandle} {value : Bytes}
      {s s' : RedisServer} (ht : Travels T headers bodies (.held m) s) (hm : m.handle = .legacy handle)
      (hraw : encodeEscape handle.raw = .ok value) (hvalue : value ∈ s'.keys.lists m.queue) :
      Travels T headers bodies (.queued m.queue value) s'

/-- A body that gets through: the client reads it as it was written, and it is not so deep that a bare
value would be stuck. -/
structure Carried (headers : Dict Str) (body : Str) : Prop where
  readable : Readable body
  notStuck : ¬ (Redis.cleanHeaders headers = [] ∧ Redis.Stuck body)

/-- A pop of a message on a queue gives `body` and the headers, with a live reservation; one that is held
has them, and while its reservation is live it can be given another body. -/
def Whereabouts.Delivers (T : RedisTransport) (headers : Dict Str) (body : Str) (s : RedisServer) : Whereabouts → Prop
  | queued queue value => ∀ rest, (T.sweep queue s).lists queue = value :: rest →
      ∃ m s', T.pop queue s = (.ok (some m), s') ∧ m.body = body ∧ m.headers = Redis.cleanHeaders headers ∧
        T.live m s' = true
  | held m => m.body = body ∧ m.headers = Redis.cleanHeaders headers ∧
      (T.live m s = true → ∀ body', Carried headers body' →
        (∀ delay, ∃ s' value, T.redeliver m body' delay s = (.ok (), s') ∧
          (s'.keys.lists m.queue).getLast? = some value) ∧
        ∀ queue, ∃ s' value, T.deadLetter m queue body' s = (.ok (), s') ∧
          (s'.keys.lists queue).getLast? = some value)

/-- What a step keeps: a value on a queue is that of the body and the headers, and a held message has them. -/
def Whereabouts.Holds (T : RedisTransport) (headers : Dict Str) (body : Str) : Whereabouts → Prop
  | queued _ value => ∃ text, Redis.frameValue body headers = .ok text ∧ encodeEscape text = .ok value
  | held m => m.body = body ∧ m.headers = Redis.cleanHeaders headers ∧
      ∃ text, Redis.frameValue body headers = .ok text ∧ T.Reserved text m

theorem frameValue_cleanHeaders (body : Str) (headers : Dict Str) :
    Redis.frameValue body (Redis.cleanHeaders headers) = Redis.frameValue body headers := by
  rw [Redis.frameValue_eq, Redis.frameValue_eq, Redis.cleanHeaders_idem]

section Carried

variable {T : RedisTransport} {headers : Dict Str} (hT : T.laravelCompat = false) (hh : headers.Proper)
  (hr : Redis.ReadableHeaders (Redis.cleanHeaders headers))

include hr

/-- What is stored for a body that gets through. -/
theorem Carried.stored {body : Str} (h : Carried headers body) :
    ∃ text value, Redis.frameValue body headers = .ok text ∧ encodeEscape text = .ok value ∧ decodeEscape value = text := by
  obtain ⟨value, hv, hd⟩ := (Redis.readable_frameValue hr h.readable (Redis.frameValue_eq body headers)).stored
  exact ⟨_, value, Redis.frameValue_eq body headers, hv, hd⟩

include hT hh

/-- A pop of a value of a body that gets through. -/
theorem Carried.pop {body text : Str} (h : Carried headers body) (hf : ¬ Redis.IsFrame body) {value : Bytes}
    (htext : Redis.frameValue body headers = .ok text) (hvalue : encodeEscape text = .ok value) {queue : Str}
    {s : RedisServer} {rest : List Bytes} (hhead : (T.sweep queue s).lists queue = value :: rest) :
    ∃ m s', T.pop queue s = (.ok (some m), s') ∧ m.body = body ∧ m.headers = Redis.cleanHeaders headers ∧
      m.queue = queue ∧ T.Reserved text m ∧ T.live m s' = true := by
  obtain ⟨text', value', ht', hv', hd⟩ := h.stored hr
  obtain rfl : text = text' := Except.ok.inj (htext.symm.trans ht')
  obtain rfl : value = value' := Except.ok.inj (hvalue.symm.trans hv')
  obtain ⟨text'', ht'', hu, -⟩ := (Redis.roundTrips_iff hh hf).mpr h.notStuck
  obtain rfl : text = text'' := Except.ok.inj (htext.symm.trans ht'')
  exact RedisTransport.pop_run hT hhead hd hu

/-- The invariant of a run. -/
theorem Travels.holds {bodies : List Str} {place : Whereabouts} {s : RedisServer} (h : Travels T headers bodies place s)
    (hb : ∀ body ∈ bodies, ¬ Redis.IsFrame body ∧ Carried headers body) :
    ∃ body ∈ bodies.head?, place.Holds T headers body := by
  induction h with
  | @published queue body value s s' h hvalue =>
    obtain ⟨text, stored, ht, hv, -⟩ := (hb body (by simp)).2.stored hr
    rw [RedisTransport.publishWithHeaders_run hT ht hv] at h
    obtain ⟨-, rfl⟩ := Prod.mk.inj h
    rw [Keyspace.getLast?_rpush] at hvalue
    obtain rfl := Option.some.inj hvalue
    exact ⟨body, rfl, text, ht, hv⟩
  | waits _ _ ih => exact ih hb
  | popped _ hhead h ih =>
    obtain ⟨body, hbody, text, ht, hv⟩ := ih hb
    obtain ⟨hf, hc⟩ := hb body (List.mem_of_mem_head? hbody)
    obtain ⟨m', s'', hp, hbody', hheaders, -, hres, -⟩ := hc.pop hT hh hr hf ht hv hhead
    rw [hp] at h
    obtain rfl := Option.some.inj (Except.ok.inj (Prod.mk.inj h).1)
    exact ⟨body, hbody, hbody', hheaders, text, ht, hres⟩
  | works _ ih => exact ih hb
  | @redelivered bodies m body delay value s s' _ hlive h hvalue ih =>
    obtain ⟨hnew, hb⟩ := List.forall_mem_cons.mp hb
    obtain ⟨_, -, -, hheaders, _, -, hres⟩ := ih hb
    obtain ⟨text, stored, ht, hv, -⟩ := hnew.2.stored hr
    have ht' : Redis.frameValue body m.headers = .ok text := by rw [hheaders, frameValue_cleanHeaders, ht]
    obtain ⟨s'', hrun, hlast⟩ := RedisTransport.redeliver_run hT hres hlive ht' hv delay
    rw [hrun] at h
    obtain ⟨-, rfl⟩ := Prod.mk.inj h
    rw [hlast] at hvalue
    obtain rfl := Option.some.inj hvalue
    exact ⟨body, rfl, text, ht, hv⟩
  | @deadLettered bodies m queue body value s s' _ hlive h hvalue ih =>
    obtain ⟨hnew, hb⟩ := List.forall_mem_cons.mp hb
    obtain ⟨_, -, -, hheaders, _, -, hres⟩ := ih hb
    obtain ⟨text, stored, ht, hv, -⟩ := hnew.2.stored hr
    have ht' : Redis.frameValue body m.headers = .ok text := by rw [hheaders, frameValue_cleanHeaders, ht]
    obtain ⟨s'', hrun, hlast⟩ := RedisTransport.deadLetter_run hT hres hlive ht' hv queue
    rw [hrun] at h
    obtain ⟨-, rfl⟩ := Prod.mk.inj h
    rw [hlast] at hvalue
    obtain rfl := Option.some.inj hvalue
    exact ⟨body, rfl, text, ht, hv⟩
  | swept _ hm hraw _ ih =>
    obtain ⟨body, hbody, -, -, text, ht, hres⟩ := ih hb
    obtain ⟨token, hhandle, -⟩ := hres.handle
    rw [hm] at hhandle
    cases hhandle
    exact ⟨body, hbody, text, ht, hraw⟩

/-- What the invariant means for the next step. -/
theorem Whereabouts.Holds.delivers {place : Whereabouts} {body : Str} (h : place.Holds T headers body)
    (hf : ¬ Redis.IsFrame body) (hc : Carried headers body) (s : RedisServer) : place.Delivers T headers body s := by
  cases place with
  | queued queue value =>
    obtain ⟨text, ht, hv⟩ := h
    intro rest hhead
    obtain ⟨m, s', hp, hbody, hheaders, -, -, hlive⟩ := hc.pop hT hh hr hf ht hv hhead
    exact ⟨m, s', hp, hbody, hheaders, hlive⟩
  | held m =>
    obtain ⟨hbody, hheaders, _, -, hres⟩ := h
    refine ⟨hbody, hheaders, fun hlive body' hc' => ?_⟩
    obtain ⟨text, value, ht, hv, -⟩ := hc'.stored hr
    have ht' : Redis.frameValue body' m.headers = .ok text := by rw [hheaders, frameValue_cleanHeaders, ht]
    refine ⟨fun delay => ?_, fun queue => ?_⟩
    · obtain ⟨s', hrun, hlast⟩ := RedisTransport.redeliver_run hT hres hlive ht' hv delay
      exact ⟨s', value, hrun, hlast⟩
    · obtain ⟨s', hrun, hlast⟩ := RedisTransport.deadLetter_run hT hres hlive ht' hv queue
      exact ⟨s', value, hrun, hlast⟩

end Carried

/-- When a value is read back; and the runs of headers that the client reads as they were written, with
bodies that get through. -/
theorem frame_carries {T : RedisTransport} (hT : T.laravelCompat = false) {headers : Dict Str} (hh : headers.Proper) :
    (∀ body, ¬ Redis.IsFrame body →
      (Redis.RoundTrips body headers ↔ ¬ (Redis.cleanHeaders headers = [] ∧ Redis.Stuck body))) ∧
    (Redis.ReadableHeaders (Redis.cleanHeaders headers) → ∀ bodies place s, Travels T headers bodies place s →
      (∀ body ∈ bodies, ¬ Redis.IsFrame body ∧ Carried headers body) →
      ∃ body ∈ bodies.head?, place.Delivers T headers body s) := by
  refine ⟨fun body hf => Redis.roundTrips_iff hh hf, fun hr bodies place s h hb => ?_⟩
  obtain ⟨body, hbody, hholds⟩ := h.holds hT hh hr hb
  obtain ⟨hf, hc⟩ := hb body (List.mem_of_mem_head? hbody)
  exact ⟨body, hbody, hholds.delivers hT hh hr hf hc s⟩

end Run

section CPython

attribute [local instance] cpython

/-- `RedisTransport()`; every token is the same. -/
def legacyRedis : RedisTransport where
  processingSuffix := str ":processing"
  laravelCompat := false
  keyPrefix := str "queues:"
  retryAfter := some 90
  migrationBatchSize := none
  random _ := 0
  advance _ := none

/-- A server without a key. -/
def emptyServer : RedisServer := ⟨Keyspace.empty, 0, 0⟩

def orders : Str := str "orders"

def tracedHeaders : Dict Str := [(str "traceparent", str "00-a")]

/-- A body with the name of the sentinel in it. -/
def sentinelBody : Str := str "\x7b\"job\":\"\\\"__bq_frame\\\"\"\x7d"

/-- The start of an object with the sentinel, and of arrays in it, too deep for the interpreter. -/
def deepBody : Str := str "\x7b\"__bq_frame\":" ++ List.replicate 990 (cp '[')

/-- Two escaped bytes that make up one character. -/
def escapedBody : Str := [0xDCC3, 0xDCA9]

theorem frame_carries_sentinel :
    Redis.RoundTrips sentinelBody tracedHeaders ∧
      ∃ value s, Travels legacyRedis tracedHeaders [sentinelBody] (.queued orders value) s ∧
        (Whereabouts.queued orders value).Delivers legacyRedis tracedHeaders sentinelBody s := by
  have hascii : ∀ s : Str, s.all (fun c => c.val < 0x80) = true → Readable s := fun s hs =>
    readable_ascii fun c hc => by simpa using List.all_eq_true.mp hs c hc
  have hh : Dict.Proper tracedHeaders := by unfold Dict.Proper; decide
  have hr : Redis.ReadableHeaders (Redis.cleanHeaders tracedHeaders) := by
    intro h hmem
    obtain rfl := List.mem_singleton.mp (Redis.mem_cleanHeaders.mp hmem).1
    exact ⟨hascii _ (by decide +kernel), hascii _ (by decide +kernel)⟩
  have hf : ¬ Redis.IsFrame sentinelBody := by
    rintro ⟨decoded, body, hl, ht, -⟩
    have hkey : ((loads sentinelBody).map fun v => v.asObj?.map fun d => (Dict.getJ d Redis.frameKey).truthy) =
        .ok (some false) := by decide +kernel
    rw [hl] at hkey
    cases ht.symm.trans (Option.some.inj (Except.ok.inj hkey))
  have hclean : Redis.cleanHeaders tracedHeaders ≠ [] := by decide +kernel
  have hc : Carried tracedHeaders sentinelBody := ⟨hascii _ (by decide +kernel), fun h => hclean h.1⟩
  obtain ⟨hround, hruns⟩ := frame_carries (T := legacyRedis) rfl hh
  obtain ⟨text, value, ht, hv, -⟩ := hc.stored hr
  have hrun : Travels legacyRedis tracedHeaders [sentinelBody] (.queued orders value)
      { emptyServer with keys := Keyspace.empty.rpush orders [value] } :=
    .published (RedisTransport.publishWithHeaders_run rfl ht hv orders emptyServer) (Keyspace.getLast?_rpush _ _ _)
  refine ⟨(hround _ hf).mpr fun h => hclean h.1, value, _, hrun, ?_⟩
  obtain ⟨body, hbody, hd⟩ := hruns hr _ _ _ hrun (by simpa using ⟨hf, hc⟩)
  cases hbody
  exact hd

/-- The pop of a bare body that is too deep raises, and escaped bytes come back as a character. -/
theorem frame_sticks :
    (¬ Redis.IsFrame deepBody ∧ ¬ Redis.RoundTrips deepBody []) ∧
    ((do legacyRedis.publishWithHeaders orders deepBody []; legacyRedis.pop orders) emptyServer).1.toBool = false ∧
    (((do legacyRedis.publishWithHeaders orders escapedBody []; legacyRedis.pop orders) emptyServer).1.map
      (Option.map ReceivedMessage.body)) = .ok (some [0xE9]) := by
  have hl : (loads deepBody).toBool = false := by decide +kernel
  have hu : (Redis.unframe deepBody).toBool = false := by decide +kernel
  refine ⟨⟨?_, ?_⟩, by decide +kernel, by decide +kernel⟩
  · rintro ⟨decoded, body, h, -⟩
    rw [h] at hl
    cases hl
  · rintro ⟨value, -, h, hvalue⟩
    obtain rfl := hvalue rfl
    rw [h] at hu
    cases hu

end CPython

end BabelQueue
