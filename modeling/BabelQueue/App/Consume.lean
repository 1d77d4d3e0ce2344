import BabelQueue.App.Settled
import BabelQueue.Transports.Beside

/-!
# The consume loop

`consume` over the in-memory transport, with handlers that always raise: what one delivery does to
the queues.

* `App.retryCopy`: the body of the next attempt.
* `dispatch_envelope`, `dispatch_poison`: a delivery of an envelope, and of a poison body with the
  dead-letter queue off.

Signals, the stop flag and the interrupts they raise are left out of the loop.
-/

namespace BabelQueue

open Py Py.Json

section Interpreter

variable [Interpreter]

/-- `consume`, with `max_messages`: how many messages were processed. -/
def App.consume {σ η : Type} (app : App σ η) (queue : Str) : Nat → Act σ Nat
  | 0 => pure 0
  | maxMessages + 1 => do
    match ← app.transport.pop queue with
    | none => pure 0
    | some received => do
      app.dispatch received
      let processed ← app.consume queue maxMessages
      pure (processed + 1)

/-- The body of attempt `n` of the envelope, when it can be encoded and has a delay. -/
def App.retryCopy {σ η : Type} (app : App σ η) (envelope : Dict Json) (n : Int) : Option Str :=
  match encode (envelope.set (str "attempts") (.int n)), app.retryDelay n with
  | .ok copy, .ok _ => some copy
  | _, _ => none

end Interpreter

variable {ω : Type}

/-- On the in-memory transport, under `on_unknown_urn=FAIL`, every handler raises an `Exception`. Nothing
but the transport changes the queues. -/
structure App.AlwaysFails (app : App (InMemory × ω) Unit) : Prop where
  transport : app.transport = (InMemory.beside InMemory.steady).toTransport
  strategy : app.onUnknownUrn = .fail
  handler : ∀ urn handler, app.handlers.get? urn = some handler → ∀ data metaBlock envelope s,
    ∃ e w, handler data metaBlock envelope s = (.error e, s.1, w) ∧ e.isException = true
  observer : ∀ observer ∈ app.deadLetterObserver, ∀ event s,
    (observer event s).2.1 = s.1 ∧ ∀ e, (observer event s).1 = .error e → e.isException = true
  delay : ∀ n e, app.retryDelay n = .error e → e.isException = true
  setPhase : ∀ phase s, (app.setPhase phase s).1 = s.1
  endPhase : ∀ s, (app.endPhase s).1 = s.1

/-- `queue` with one more message, if there is one. -/
def InMemory.offer (queue : Str) (copy : Option Str) (q : InMemory) : InMemory :=
  match copy with
  | some copy => push queue copy [] q
  | none => q

section Interpreter

variable [Interpreter] {app : App (InMemory × ω) Unit} {m : ReceivedMessage Unit} {q : InMemory}

/-! ## Settling -/

omit [Interpreter] in
theorem App.AlwaysFails.publishFor (F : app.AlwaysFails) (queue body : Str) (E : PyExc → InMemory × ω → Prop) :
    Triple (fun s => s.1 = q) (app.publishFor m queue body) (fun _ s => s.1 = InMemory.push queue body [] q) E := by
  rintro s rfl
  have hrun : app.publishFor m queue body s = (.ok (), InMemory.push queue body [] s.1, s.2) := by
    unfold App.publishFor publishKeepingRoute
    rw [F.transport]
    rfl
  rw [hrun]

omit [Interpreter] in
theorem App.AlwaysFails.ackSettled (F : app.AlwaysFails) {P : InMemory × ω → Prop} (E : PyExc → InMemory × ω → Prop) :
    Triple P (app.ackSettled m) (fun _ => P) E := by
  intro s hs
  have hrun : app.ackSettled m s = (.ok (), s) := by
    unfold App.ackSettled
    rw [F.transport]
    rfl
  rw [hrun]
  exact hs

omit [Interpreter] in
theorem App.AlwaysFails.notifyDeadLetter (F : app.AlwaysFails) (event : DeadLetterEvent) (E : PyExc → InMemory × ω → Prop) :
    Triple (fun s => s.1 = q) (app.notifyDeadLetter event) (fun _ s => s.1 = q) E := by
  unfold App.notifyDeadLetter
  split
  · exact Triple.pure () fun _ hs => hs
  · next observer ho =>
    refine Triple.tryExcept (E := fun e s => e.isException = true ∧ s.1 = q) ?_ (fun e _ => Triple.pure () fun _ hs => hs.2)
      fun e s he hs => ?_
    · intro s hs
      obtain ⟨h1, h2⟩ := F.observer observer ho event s
      revert h1 h2
      rcases observer event s with ⟨e | _, s'⟩
      · exact fun h1 h2 => ⟨h2 e rfl, h1.trans hs⟩
      · exact fun h1 _ => h1.trans hs
    · rw [isAny_exception, hs.1] at he
      cases he

omit [Interpreter] in
theorem App.AlwaysFails.writeDeadLetter (F : app.AlwaysFails) (target body : Str) (sourceQueue : Option Str) (reason : Str)
    (E : PyExc → InMemory × ω → Prop) :
    Triple (fun s => s.1 = q) (app.writeDeadLetter m target body sourceQueue reason)
      (fun _ s => s.1 = InMemory.push target body [] q) E := by
  unfold App.writeDeadLetter
  rw [F.transport]
  exact Triple.bind (F.publishFor target body E) fun _ => Triple.bind (F.ackSettled E) fun _ => F.notifyDeadLetter _ E

/-- A clean object is published as it is. -/
theorem withoutForbiddenKeys_of_clean {d : Dict Json} {body : Str} (hd : Clean d) (hl : loads body = .ok (.obj d)) :
    withoutForbiddenKeys body = .ok body := by
  obtain ⟨hk, hu⟩ := clean_iff.mp hd
  have h1 : hasForbiddenKeys d = false := by simpa [hasForbiddenKeys] using hk
  have h2 : d.has (str "urn") = false := by rw [Dict.has, hu]; rfl
  unfold withoutForbiddenKeys
  rw [parseEnvelope_obj hl]
  simp [bind, Except.bind, h1, h2, pure, Except.pure]

/-- The retry of attempt `n + 1`. -/
theorem App.AlwaysFails.retry (F : app.AlwaysFails) {envelope : Dict Json} (hc : Clean envelope)
    (hs : Json.Proper (.obj envelope)) {n : Int} (hn : envelopeAttempts envelope = .ok n) (hmax : n + 1 < app.maxAttempts)
    (exc : PyExc) (E : PyExc → InMemory × ω → Prop) :
    Triple (fun s => s.1 = q) (app.retryOrDeadLetter m envelope exc)
      (fun _ s => s.1 = InMemory.offer m.queue (app.retryCopy envelope (n + 1)) q) E := by
  have hleave : ∀ e : PyExc, app.leaveRepublishUnsettled m = pure () := by
    intro _
    unfold App.leaveRepublishUnsettled App.rewindUnsettled
    rw [F.transport]
    rfl
  unfold App.retryOrDeadLetter
  refine triple_lift_ok hn ?_
  dsimp only
  rw [if_pos hmax]
  refine Triple.tryExcept (E := fun e s => e.isException = true ∧ app.retryCopy envelope (n + 1) = none ∧ s.1 = q) ?_
    (fun e _ => ?_) fun e s he hs => ?_
  · unfold App.retryCopy
    cases he : encode (envelope.set (str "attempts") (.int (n + 1))) with
    | error e =>
      refine triple_lift_error rfl fun s hs => ⟨?_, rfl, hs⟩
      rw [encode_of_clean (hc.set (by simp [Plain]) _)] at he
      exact dumpsAt_raises he
    | ok copy =>
      refine triple_lift_ok rfl ?_
      cases hd : app.retryDelay (n + 1) with
      | error e => exact triple_lift_error rfl fun s hs => ⟨F.delay _ _ hd, rfl, hs⟩
      | ok delay =>
        refine triple_lift_ok rfl ?_
        have hl := loads_encode (hs.set (str "attempts") (v := .int (n + 1)) trivial) he
        have hcopy := withoutForbiddenKeys_of_clean (hc.set (by simp [Plain]) _) hl
        unfold App.release
        rw [F.transport]
        exact triple_lift_ok hcopy (Triple.bind (F.publishFor m.queue copy _) fun _ => F.ackSettled _)
  · rw [hleave e]
    refine Triple.pure () fun s hs => ?_
    rw [hs.2.1]
    exact hs.2.2
  · rw [isAny_exception, hs.1] at he
    cases he

/-- The record of an envelope that failed at attempt `n`. -/
def LetterOf (envelope : Dict Json) (n : Int) (record : Str) : Prop :=
  ∃ block : Dict Json, block.getJ (str "attempts") = .int n ∧
    (block.getJ (str "reason") = .str (str "failed") ∨ block.getJ (str "reason") = .str (str "unknown_urn")) ∧
    decodeLenient record = .ok ((envelope.set (str "attempts") (.int n)).set (str "dead_letter") (.obj block))

/-- What the last attempt leaves. -/
def App.Ends (app : App (InMemory × ω) Unit) (m : ReceivedMessage Unit) (envelope : Dict Json) (n : Int) (q q' : InMemory) :
    Prop :=
  if app.deadLetterEnabled then
    ∃ target record, app.deadLetterTarget m = .ok target ∧ LetterOf envelope n record ∧ q' = InMemory.push target record [] q
  else q' = q

omit [Interpreter] in
theorem App.AlwaysFails.target (F : app.AlwaysFails) (m : ReceivedMessage Unit) :
    ∃ target, app.deadLetterTarget m = .ok target := by
  unfold App.deadLetterTarget
  rw [F.transport]
  split
  · exact ⟨_, rfl⟩
  · next h _ => cases h
  · exact ⟨_, rfl⟩

theorem App.AlwaysFails.deadLetter (F : app.AlwaysFails) {envelope : Dict Json} (h : Routable envelope) {n : Int}
    (hw : n.natAbs < 10 ^ maxStrDigits) {reason : Str} (hreason : reason = str "failed" ∨ reason = str "unknown_urn")
    (exc : Option PyExc) (E : PyExc → InMemory × ω → Prop) :
    Triple (fun s => s.1 = q) (app.deadLetter m (envelope.set (str "attempts") (.int n)) reason exc)
      (fun _ s => ∃ target record, app.deadLetterTarget m = .ok target ∧ LetterOf envelope n record ∧
        s.1 = InMemory.push target record [] q) E := by
  have h' := h.setAttempts hw
  have hn : envelopeAttempts (envelope.set (str "attempts") (.int n)) = .ok n := by
    unfold envelopeAttempts
    rw [Dict.get?_set_self]
    rfl
  obtain ⟨metaBlock, source, hm, hq⟩ := originalQueue_isOk (m := m) h'
  obtain ⟨target, ht⟩ := F.target m
  unfold App.deadLetter
  refine triple_lift_ok hm (triple_lift_ok hq (triple_lift_ok hn (triple_get fun s => triple_lift_ok ht ?_)))
  have hprop := h'.storable.proper.set (str "dead_letter")
    (DeadLetterBlock.toDict_proper ⟨reason, exc.map PyExc.msg, exc.map fun e => e.cls.name, app.now s, source, n, sourceLang⟩)
  obtain ⟨record, hb⟩ : ∃ record, encode (annotate (envelope.set (str "attempts") (.int n)) reason source n
      (exc.map PyExc.msg) (exc.map fun e => e.cls.name) (app.now s)) = .ok record := by
    refine encode_isOk (h'.clean.set (by simp [Plain]) _) (h'.storable.set _ ?_ (DeadLetterBlock.toDict_proper _))
    exact DeadLetterBlock.writable_toDict.mpr ⟨app.now_lt s, hw⟩
  have hrec : LetterOf envelope n record :=
    ⟨_, by simp [DeadLetterBlock.toDict, Dict.getJ, Dict.get?],
      by simpa [DeadLetterBlock.toDict, Dict.getJ, Dict.get?] using hreason, decodeLenient_encode hprop hb⟩
  exact triple_lift_ok hb ((F.writeDeadLetter _ _ _ _ E).conseq (fun _ => id)
    (fun _ s hs => ⟨target, record, ht, hrec, hs⟩) fun _ _ => id)

/-- The end of the retries. -/
theorem App.AlwaysFails.exhausted (F : app.AlwaysFails) {envelope : Dict Json} (h : Routable envelope) {n : Int}
    (hn : envelopeAttempts envelope = .ok n)
    (hw : app.deadLetterEnabled = true → (n + 1).natAbs < 10 ^ maxStrDigits) (hmax : app.maxAttempts ≤ n + 1)
    (exc : PyExc) (E : PyExc → InMemory × ω → Prop) :
    Triple (fun s => s.1 = q) (app.retryOrDeadLetter m envelope exc)
      (fun _ s => app.Ends m envelope (n + 1) q s.1) E := by
  unfold App.retryOrDeadLetter App.Ends
  refine triple_lift_ok hn ?_
  dsimp only
  rw [if_neg (by omega)]
  split
  · next hd => exact F.deadLetter h (hw hd) (by split <;> simp) _ E
  · exact F.ackSettled E

/-! ## One delivery -/

/-- The `try` of a delivery of an envelope fails. -/
theorem App.AlwaysFails.attempt (F : app.AlwaysFails) (hroute : m.routeUrn = .plain []) {envelope : Dict Json} {urn : Str}
    (hdata : HasKind .data (envelope.getJ (str "data"))) (hmeta : HasKind .object (envelope.getJ (str "meta"))) :
    Triple (fun s => s.1 = q) (app.attempt m ⟨none, envelope, urn, app.handlers.get? urn⟩) (fun _ _ => False)
      fun e s => e.isException = true ∧ s.1 = q := by
  have hset : ∀ phase s, s.1 = q → (app.setPhase phase s).1 = q := fun phase s hs => (F.setPhase phase s).trans hs
  cases hh : app.handlers.get? urn with
  | some handler =>
    obtain ⟨data, hdata⟩ := dictOf_isOk hdata
    obtain ⟨metaBlock, hmeta⟩ := dictOf_isOk hmeta
    refine Triple.bind (Triple.modify (Q := fun _ s => s.1 = q) _ (hset _)) fun _ =>
      Triple.bind (Q := fun _ _ => False) ?_ fun _ _ hs => hs.elim
    unfold App.invoke
    refine triple_lift_ok hdata (triple_lift_ok hmeta (Triple.bind (Q := fun _ _ => False) ?_ fun _ _ hs => hs.elim))
    intro s hs
    obtain ⟨e, w, hrun, hx⟩ := F.handler urn handler hh data metaBlock envelope s
    rw [hrun]
    exact ⟨hx, hs⟩
  | none =>
    have hplain : ([] : Str) ≠ nonNumericAttemptsRoute := by simp [nonNumericAttemptsRoute, Py.str]
    refine Triple.bind (Triple.modify (Q := fun _ s => s.1 = q) _ (hset _)) fun _ =>
      Triple.bind (Q := fun _ _ => False) ?_ fun _ _ hs => hs.elim
    unfold App.routeUnknown App.applyStrategy
    rw [hroute]
    dsimp only
    rw [if_neg hplain, if_neg (by rw [F.strategy]; decide), gated_eq_false hroute, if_neg (by simp),
      if_neg (by rw [F.strategy]; simp), if_neg (by rw [F.strategy]; decide)]
    refine Triple.raise _ fun s hs => ⟨?_, hs⟩
    simp [PyExc.isA, unknownUrnError, babelQueueError, ExcClass.ancestors]

/-- From the `try` on, when it ends in `P` or raises in `R`, and the `except` leads from `R` to `P`. -/
theorem App.AlwaysFails.settle (F : app.AlwaysFails) {r : App.Routing (InMemory × ω)} {P R : InMemory → Prop}
    (h : Triple (fun s => s.1 = q) (app.attempt m r) (fun again s => again = false ∧ P s.1)
      fun e s => e.isException = true ∧ R s.1)
    (hr : ∀ e, e.isException = true → Triple (fun s => R s.1) (app.recover m r e) (fun again s => again = false ∧ P s.1)
      fun _ _ => False) :
    Triple (fun s => s.1 = q) (app.settle m r) (fun _ s => P s.1) fun _ _ => False := by
  refine Triple.tryFinally (Triple.bind (Q := fun again s => again = false ∧ P s.1)
    (Triple.tryExcept h (fun e he => ?_) fun e s he hs => ?_) fun again => ?_)
  · rw [isAny_exception] at he
    exact (hr e he).conseq (fun _ hs => hs.2) (fun _ _ => id) fun _ _ => False.elim
  · rw [isAny_exception, hs.1] at he
    cases he
  · rintro s ⟨rfl, hs⟩
    have : P (app.endPhase s).1 := by rw [F.endPhase]; exact hs
    exact this

/-- A delivery of an envelope: the next attempt, or the end of the retries. -/
theorem dispatch_envelope (F : app.AlwaysFails) (hroute : m.routeUrn = .plain []) (hp : poisonCause m.body true = .ok none)
    {envelope : Dict Json} (henv : decodeLenient m.body = .ok envelope) {n : Int} (hn : envelopeAttempts envelope = .ok n) :
    Triple (fun s => s.1 = q) (app.dispatch m)
      (fun _ s => if n + 1 < app.maxAttempts then s.1 = InMemory.offer m.queue (app.retryCopy envelope (n + 1)) q
        else app.Ends m envelope (n + 1) q s.1)
      fun _ _ => False := by
  have hcause : app.causeOf m = .ok none := (causeOf_eq (by rw [F.transport]; rfl) hroute).trans hp
  obtain ⟨d, urn, hl, ht, -, hcl⟩ := classify_sound hroute hcause hp
  rw [decodeLenient_obj hl] at henv
  cases henv
  have hroutable := routable_foldIdentity hl ht
  have hcount : HasKind .integer ((foldIdentity d).getJ (str "attempts")) :=
    hasKind_foldIdentity ht (by simp [topKinds, Dict.get?]) (by simp [Plain]) (by simp)
  have hdata : HasKind .data ((foldIdentity d).getJ (str "data")) :=
    hasKind_foldIdentity ht (by simp [topKinds, Dict.get?]) (by simp [Plain]) (by simp)
  have hw := envelopeAttempts_lt hcount hn
  unfold App.dispatch
  refine triple_lift_ok hcl (F.settle (R := fun q' => q' = q) (P := fun q' => if n + 1 < app.maxAttempts then
      q' = InMemory.offer m.queue (app.retryCopy (foldIdentity d) (n + 1)) q else app.Ends m (foldIdentity d) (n + 1) q q')
    ((F.attempt hroute hdata hroutable.metaBlock).conseq (fun _ => id) (fun _ _ => False.elim) fun _ _ => id) fun e _ => ?_)
  refine Triple.bind (Triple.modify (Q := fun _ s => s.1 = q) _ fun s hs => (F.setPhase _ s).trans hs) fun _ => ?_
  rw [gated_eq_false hroute]
  refine Triple.bind (Q := fun _ s => if n + 1 < app.maxAttempts then
      s.1 = InMemory.offer m.queue (app.retryCopy (foldIdentity d) (n + 1)) q else app.Ends m (foldIdentity d) (n + 1) q s.1)
    ?_ fun _ => Triple.pure false fun _ hs => ⟨rfl, hs⟩
  by_cases hmax : n + 1 < app.maxAttempts
  · simp only [if_pos hmax]
    exact F.retry hroutable.clean hroutable.storable.proper hn hmax e _
  · simp only [if_neg hmax]
    exact F.exhausted hroutable hn (fun _ => by omega) (by omega) e _

/-- A delivery of a poison body with the dead-letter queue off: the next attempt, or the end. -/
theorem dispatch_poison (F : app.AlwaysFails) (hroute : m.routeUrn = .plain []) (hnative : m.nativeAttempts = 0)
    (hoff : app.deadLetterEnabled = false) {cause : Str} (hp : poisonCause m.body true = .ok (some cause)) {n : Int}
    (hn : poisonAttempts m = .ok n) :
    Triple (fun s => s.1 = q) (app.dispatch m)
      (fun _ s => s.1 = if n + 1 < app.maxAttempts then InMemory.offer m.queue (app.retryCopy [] (n + 1)) q else q)
      fun _ _ => False := by
  have hcause : app.causeOf m = .ok (some cause) := (causeOf_eq (by rw [F.transport]; rfl) hroute).trans hp
  have hoff' : app.deadLetters = false := by simp [App.deadLetters, hoff, F.strategy]
  have hcopy : app.retryCopy [(str "attempts", .int n)] (n + 1) = app.retryCopy [] (n + 1) := by
    unfold App.retryCopy
    simp [Dict.set]
  have hw : n.natAbs < 10 ^ maxStrDigits := (poisonAttempts_lt hn).mpr (by rw [hnative]; exact Nat.pow_pos (by decide))
  have hleft : app.settleNative m (str "poison") (str "the body does not decode into a valid envelope: " ++ cause) =
      pure false := by
    unfold App.settleNative
    rw [F.transport]
    rfl
  have hcount : envelopeAttempts [(str "attempts", .int n)] = .ok n := by
    simp [envelopeAttempts, Dict.get?, Json.toInt]
  unfold App.dispatch
  refine triple_lift_ok (classify_poison hcause) (F.settle (R := fun _ => False) (P := fun q' => q' =
    if n + 1 < app.maxAttempts then InMemory.offer m.queue (app.retryCopy [] (n + 1)) q else q) ?_
    fun e _ s hs => hs.elim)
  refine Triple.bind (Triple.modify (Q := fun _ s => s.1 = q) _ fun s hs => (F.setPhase _ s).trans hs) fun _ =>
    Triple.bind (Q := fun _ s => s.1 =
      if n + 1 < app.maxAttempts then InMemory.offer m.queue (app.retryCopy [] (n + 1)) q else q) ?_ fun _ =>
    Triple.pure false fun _ hs => ⟨rfl, hs⟩
  unfold App.routeBodyPoison
  rw [if_neg (by rw [F.strategy]; decide)]
  refine triple_lift_ok hn ?_
  rw [hoff', hleft]
  by_cases hmax : n + 1 < app.maxAttempts
  · simp only [if_pos hmax]
    rw [← hcopy]
    exact F.retry (routable_attempts hw).clean (routable_attempts hw).storable.proper hcount hmax _ _
  · simp only [if_neg hmax]
    refine (F.exhausted (routable_attempts hw) hcount (fun h => by rw [hoff] at h; cases h) (by omega) _ _).post
      fun _ s hs => ?_
    rw [App.Ends, if_neg (by simp [hoff])] at hs
    exact hs

/-- The record of a poison body. -/
def PoisonLetter (body record : Str) : Prop :=
  ∃ block : DeadLetterBlock, block.reason = str "poison" ∧ buildPoisonRecord body block.toDict = .ok record

/-- A delivery of a poison body with the dead-letter queue on. -/
theorem dispatch_poison_on (F : app.AlwaysFails) (hroute : m.routeUrn = .plain []) (hnative : m.nativeAttempts = 0)
    (hon : app.deadLetterEnabled = true) {cause : Str} (hp : poisonCause m.body true = .ok (some cause)) {n : Int}
    (hn : poisonAttempts m = .ok n) :
    Triple (fun s => s.1 = q) (app.dispatch m)
      (fun _ s => ∃ target record, app.deadLetterTarget m = .ok target ∧ PoisonLetter m.body record ∧
        s.1 = InMemory.push target record [] q)
      fun _ _ => False := by
  have hcause : app.causeOf m = .ok (some cause) := (causeOf_eq (by rw [F.transport]; rfl) hroute).trans hp
  have hw : n.natAbs < 10 ^ maxStrDigits := (poisonAttempts_lt hn).mpr (by rw [hnative]; exact Nat.pow_pos (by decide))
  obtain ⟨target, ht⟩ := F.target m
  unfold App.dispatch
  refine triple_lift_ok (classify_poison hcause) (F.settle (R := fun _ => False) (P := fun q' => ∃ target record,
    app.deadLetterTarget m = .ok target ∧ PoisonLetter m.body record ∧ q' = InMemory.push target record [] q) ?_
    fun e _ s hs => hs.elim)
  refine Triple.bind (Triple.modify (Q := fun _ s => s.1 = q) _ fun s hs => (F.setPhase _ s).trans hs) fun _ =>
    Triple.bind (Q := fun _ s => ∃ target record, app.deadLetterTarget m = .ok target ∧ PoisonLetter m.body record ∧
      s.1 = InMemory.push target record [] q) ?_ fun _ => Triple.pure false fun _ hs => ⟨rfl, hs⟩
  unfold App.routeBodyPoison
  rw [if_neg (by rw [F.strategy]; decide)]
  refine triple_lift_ok hn ?_
  rw [if_pos (by simp [App.deadLetters, hon])]
  refine triple_get fun s => triple_lift_ok ht ?_
  obtain ⟨record, hr⟩ : ∃ record, buildPoisonRecord m.body (poisonBlock m (some cause) n (app.now s)).toDict = .ok record :=
    buildPoisonRecord_isOk.mpr ⟨app.now_lt s, hw⟩
  exact triple_lift_ok hr ((F.writeDeadLetter _ _ _ _ _).post fun _ s hs => ⟨target, record, ht, ⟨_, rfl, hr⟩, hs⟩)

/-- A poison record is not the record of a failed envelope. -/
theorem PoisonLetter.not_letterOf {body record : Str} (h : PoisonLetter body record) {envelope : Dict Json} {n : Int} :
    ¬ LetterOf envelope n record := by
  rintro ⟨block, -, hreason, hdec⟩
  obtain ⟨b, hb, hrec⟩ := h
  rw [decodeLenient_obj (loads_poisonRecord hrec)] at hdec
  have hget := congrArg (fun d => Dict.get? d (str "dead_letter")) (Except.ok.inj hdec)
  rw [get?_foldIdentity _ (by simp [Plain]) (by simp), Dict.get?_set_self, Dict.get?_set_self] at hget
  cases hget
  simp [DeadLetterBlock.toDict, Dict.getJ, Dict.get?, hb] at hreason

end Interpreter

end BabelQueue
