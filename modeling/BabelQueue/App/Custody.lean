import BabelQueue.App

/-!
# Custody of a delivery

What `dispatch` may do to a delivery, whatever the broker is. A delivery is *held* until its outcome
is decided, *covered* once acknowledging it loses nothing, and *done* afterwards.

* `Custody app m held covered done`: how each operation of the transport, the handlers and the
  observer move between the three. A broker model proves these.
* `dispatch_custody`: `dispatch` takes a held delivery to a done one and acknowledges only a covered
  one.
-/

namespace BabelQueue

open Py Py.Json

variable [Interpreter] {σ η : Type}

/-! ## Successors and drops -/

variable (app : App σ η) (m : ReceivedMessage η)

/-- An envelope the retry path republishes for `m`. -/
inductive RetryEnvelope : Dict Json → Prop
  | decoded {envelope : Dict Json} (hg : m.gated = false) (hc : app.causeOf m = .ok none)
      (h : decodeLenient m.body = .ok envelope) : RetryEnvelope envelope
  | poisonRoute {p : PoisonRoute} (h : m.routeUrn = .poison p) : RetryEnvelope [(str "attempts", .int p.attempts)]
  | poisonBody {cause : Str} {attempts : Int} (hc : app.causeOf m = .ok (some cause))
      (h : poisonAttempts m = .ok attempts) : RetryEnvelope [(str "attempts", .int attempts)]

/-- A body given back for redelivery in place of `m`. -/
inductive Redelivery : Str → Prop
  | verbatim : Redelivery m.body
  | retry {envelope : Dict Json} {attempts : Int} {body : Str} (h : RetryEnvelope app m envelope)
      (ha : envelopeAttempts envelope = .ok attempts)
      (hb : encode (envelope.set (str "attempts") (.int (attempts + 1))) = .ok body) : Redelivery body

/-- A dead-letter record of `m`. -/
inductive DeadLetterRecord : Str → Prop
  | raw : DeadLetterRecord m.body
  | poison {cause : Option Str} {attempts now : Int} {record : Str}
      (h : buildPoisonRecord m.body (poisonBlock m cause attempts now).toDict = .ok record) : DeadLetterRecord record
  | annotated {envelope : Dict Json} {attempts now : Int} {reason originalQueue body : Str}
      {error exception : Option Str}
      (h : RetryEnvelope app m envelope ∨
        ∃ e n, RetryEnvelope app m e ∧ envelope = e.set (str "attempts") (.int n))
      (hb : encode (annotate envelope reason originalQueue attempts error exception now) = .ok body) :
      DeadLetterRecord body

/-- A publish of a successor of `m`: a copy on its own queue, or a record on the dead-letter queue. -/
inductive Successor : Str → Str → Prop
  | copy {body body' : Str} (h : Redelivery app m body) (hb : withoutForbiddenKeys body = .ok body') :
      Successor m.queue body'
  | deadLetter {target body : Str} (ht : app.deadLetterTarget m = .ok target) (h : DeadLetterRecord app m body) :
      Successor target body

/-- The rules under which a delivery is acknowledged without being handled or published again. -/
inductive DropRule : Prop
  /-- `on_unknown_urn=DELETE`, of a delivery without a handler: unhandled, gated or poison. -/
  | delete (r : App.Routing σ) (hr : app.classify m = .ok r) (hu : app.onUnknownUrn = .delete) (hh : r.handler = none)
  /-- Retries exhausted, with dead-lettering off. -/
  | exhausted {envelope : Dict Json} {attempts : Int} (h : RetryEnvelope app m envelope)
      (ha : envelopeAttempts envelope = .ok attempts) (hn : app.maxAttempts ≤ attempts + 1)
      (hd : app.deadLetterEnabled = false)
  /-- A gated delivery, with dead-lettering off and no native settle. -/
  | gated (hg : m.gated = true) (hd : app.deadLetters = false)
      (hs : app.transport.settleNative = none) (hs' : app.transport.settleNativeDeadLetter = none)
  /-- A poison record, with dead-lettering off and no retry tier. -/
  | tierless {p : PoisonRoute} (hp : m.routeUrn = .poison p) (hd : app.deadLetters = false)
      (ht : app.retryTiersUnavailable = true)

/-! ## Custody -/

/-- How a delivery `m` moves between being held, covered and done. -/
structure Custody (held covered done : σ → Prop) : Prop where
  held_done : ∀ s, held s → done s
  setPhase_held : ∀ p s, held s → held (app.setPhase p s)
  setPhase_covered : ∀ p s, covered s → covered (app.setPhase p s)
  endPhase : ∀ s, done s → done (app.endPhase s)
  drop : DropRule app m → ∀ s, held s → covered s
  handler : ∀ r handler, app.classify m = .ok r → r.handler = some handler → ∀ data metaBlock envelope,
    Triple held (handler data metaBlock envelope) (fun _ => covered) fun _ => held
  publish : ∀ queue body, Successor app m queue body →
    Triple held (app.publishFor m queue body) (fun _ => covered) fun _ => held
  ack : Triple covered (app.transport.ack m) (fun _ => done) fun _ => done
  redeliver : ∀ redeliver, app.transport.redeliver = some redeliver → ∀ body delay, Redelivery app m body →
    Triple held (redeliver m body delay) (fun _ => done) fun _ => held
  write : ∀ write, app.transport.deadLetter = some write → ∀ queue body, Successor app m queue body →
    Triple held (write m queue body) (fun _ => done) fun _ => held
  rewind : ∀ rewind, app.transport.rewind = some rewind → Triple held (rewind m) (fun _ => done) fun _ => done
  abandon : ∀ abandon, app.transport.abandon = some abandon →
    Triple held (abandon m) (fun _ => done) fun _ => done
  native : ∀ settle, app.transport.settleNative = some settle → ∀ reason description,
    Triple held (settle m reason description) (fun _ => done) fun _ => done
  nativeDeadLetter : ∀ settle, app.transport.settleNativeDeadLetter = some settle → ∀ reason description,
    Triple held (settle m reason description) (fun _ => done) fun _ => done
  observer : ∀ observer, app.deadLetterObserver = some observer → ∀ event,
    Triple done (observer event) (fun _ => done) fun _ => done

/-- Where a raised exception leaves a delivery: done, and held still if `except Exception` catches
it. -/
def Raised (held done : σ → Prop) (e : PyExc) (s : σ) : Prop := done s ∧ (e.isException = true → held s)

namespace Custody

variable {app m} {held covered done : σ → Prop} (C : Custody app m held covered done)

omit [Interpreter] in
/-- A call whose every end is done, with its exceptions caught. -/
theorem caught {P : σ → Prop} {c : Act σ Unit} (h : Triple P c (fun _ => done) fun _ => done) :
    Triple P (Act.tryExcept c [.exception] fun _ => pure ()) (fun _ => done) (Raised held done) := by
  refine Triple.tryExcept h (fun e _ => Triple.pure () fun _ hs => hs) fun e s he hs => ⟨hs, fun hx => ?_⟩
  rw [isAny_exception, hx] at he
  cases he

include C

theorem raised_of_held {e : PyExc} {s : σ} (h : held s) : Raised held done e s := ⟨C.held_done s h, fun _ => h⟩

theorem ackSettled : Triple covered (app.ackSettled m) (fun _ => done) (Raised held done) := caught C.ack

theorem notifyDeadLetter (event : DeadLetterEvent) :
    Triple done (app.notifyDeadLetter event) (fun _ => done) (Raised held done) := by
  unfold App.notifyDeadLetter
  split
  · exact Triple.pure () fun _ h => h
  · next observer ho => exact caught (C.observer observer ho event)

/-- Publish, then acknowledge. -/
theorem publishThenAck {queue body : Str} (h : Successor app m queue body) :
    Triple held (do app.publishFor m queue body; app.ackSettled m) (fun _ => done) (Raised held done) :=
  ((C.publish queue body h).conseq (fun _ => id) (fun _ _ => id) fun _ _ => C.raised_of_held).bind
    fun _ => C.ackSettled

/-- A pure call, and what is done with its value. -/
theorem lift_bind {α β : Type} {r : Except PyExc α} {k : α → Act σ β} {Q : β → σ → Prop}
    (h : ∀ a, r = .ok a → Triple held (k a) Q (Raised held done)) :
    Triple held (Act.lift r >>= k) Q (Raised held done) := by
  refine Triple.bind (Triple.lift r (Q := fun a s => r = .ok a ∧ held s) (fun _ _ h hs => ⟨h, hs⟩)
    fun _ _ _ hs => C.raised_of_held hs) fun a => ?_
  rintro s ⟨ha, hs⟩
  exact h a ha s hs

theorem release {body : Str} (h : Redelivery app m body) (delay : Float64) :
    Triple held (app.release m body delay) (fun _ => done) (Raised held done) := by
  unfold App.release
  split
  · next redeliver hr =>
    exact (C.redeliver redeliver hr body delay h).conseq (fun _ => id) (fun _ _ => id) fun _ _ => C.raised_of_held
  · exact C.lift_bind fun body' hb => C.publishThenAck (.copy h hb)

theorem writeDeadLetter {target body : Str} (ht : app.deadLetterTarget m = .ok target)
    (h : DeadLetterRecord app m body) (sourceQueue : Option Str) (reason : Str) :
    Triple held (app.writeDeadLetter m target body sourceQueue reason) (fun _ => done) (Raised held done) := by
  unfold App.writeDeadLetter
  split
  · next write hw =>
    exact Triple.bind ((C.write write hw target body (.deadLetter ht h)).conseq (fun _ => id) (fun _ _ => id)
      fun _ _ => C.raised_of_held) fun _ => C.notifyDeadLetter _
  · exact Triple.bind ((C.publish target body (.deadLetter ht h)).conseq (fun _ => id) (fun _ _ => id)
      fun _ _ => C.raised_of_held) fun _ => Triple.bind C.ackSettled fun _ => C.notifyDeadLetter _

/-- A native settle ends the delivery; without one it stays held. -/
theorem settlesNative (reason description : Str) :
    Triple held (app.settleNative m reason description)
      (fun settled s => if settled then done s else held s ∧ app.transport.settleNative = none ∧
        app.transport.settleNativeDeadLetter = none)
      (Raised held done) := by
  unfold App.settleNative
  split
  · next settle hs =>
    refine Triple.bind (caught (Triple.bind (C.nativeDeadLetter settle hs reason description) fun b => ?_))
      fun _ => Triple.pure true fun _ h => h
    cases b with
    | true => exact (C.notifyDeadLetter _).conseq (fun _ => id) (fun _ _ => id) fun _ _ h => h.1
    | false => exact Triple.pure () fun _ h => h
  · next settle _ hs =>
    exact Triple.bind (caught (C.native settle hs reason description)) fun _ => Triple.pure true fun _ h => h
  · next hn hs => exact Triple.pure false fun _ h => ⟨h, hs, hn⟩

theorem rewindUnsettled : Triple held (app.rewindUnsettled m) (fun _ => done) (Raised held done) := by
  unfold App.rewindUnsettled
  split
  · exact Triple.pure () C.held_done
  · next rewind hr => exact caught (C.rewind rewind hr)

theorem abandonUnsettled : Triple held (app.abandonUnsettled m) (fun _ => done) (Raised held done) := by
  unfold App.abandonUnsettled
  split
  · next abandon _ ha => exact caught (C.abandon abandon ha)
  · exact C.rewindUnsettled

/-- A release whose failure leaves the delivery unsettled. -/
theorem releaseOrLeave {c : Act σ Unit} (h : Triple held c (fun _ => done) (Raised held done)) :
    Triple held (Act.tryExcept c [.exception] fun _ => app.leaveRepublishUnsettled m) (fun _ => done)
      (Raised held done) := by
  refine Triple.tryExcept h (fun e he => ?_) fun _ _ _ hs => hs
  rw [isAny_exception] at he
  exact C.rewindUnsettled.pre fun _ hs => hs.2 he

/-! ## The decision tree -/

theorem deadLetters {envelope : Dict Json}
    (h : RetryEnvelope app m envelope ∨ ∃ e n, RetryEnvelope app m e ∧ envelope = e.set (str "attempts") (.int n))
    (reason : Str) (exc : Option PyExc) :
    Triple held (app.deadLetter m envelope reason exc) (fun _ => done) (Raised held done) := by
  unfold App.deadLetter
  refine C.lift_bind fun metaBlock _ => C.lift_bind fun originalQueue _ => C.lift_bind fun attempts _ => ?_
  refine Triple.bind (Triple.get (Q := fun _ => held) fun _ hs => hs) fun s => ?_
  exact C.lift_bind fun target ht => C.lift_bind fun body hb => C.writeDeadLetter ht (.annotated h hb) _ _

theorem retryOrDeadLetter {envelope : Dict Json} (h : RetryEnvelope app m envelope) (exc : PyExc) :
    Triple held (app.retryOrDeadLetter m envelope exc) (fun _ => done) (Raised held done) := by
  unfold App.retryOrDeadLetter
  refine C.lift_bind fun attempts ha => ?_
  dsimp only
  split
  · exact C.releaseOrLeave (C.lift_bind fun body hb => C.lift_bind fun delay _ => C.release (.retry h ha hb) delay)
  · next hn =>
    split
    · exact C.deadLetters (.inr ⟨envelope, attempts + 1, h, rfl⟩) _ _
    · next hd => exact C.ackSettled.pre (C.drop (.exhausted h ha (by omega) (by simpa using hd)))

theorem settleTransportPoison (cause : Option Str) (attempts : Int) :
    Triple held (app.settleTransportPoison m cause attempts) (fun _ => done) (Raised held done) := by
  unfold App.settleTransportPoison
  refine Triple.bind (Triple.get (Q := fun _ => held) fun _ hs => hs) fun s => ?_
  exact C.lift_bind fun target ht => C.lift_bind fun record hr => C.writeDeadLetter ht (.poison hr) _ _

theorem settleVersionGated {always : Bool} (hg : always = true ∨ m.gated = true) (reason : Str) :
    Triple held (app.settleVersionGated m always reason) (fun _ => done) (Raised held done) := by
  unfold App.settleVersionGated
  split
  · exact C.lift_bind fun target ht => C.writeDeadLetter ht .raw _ _
  · next hd =>
    simp only [Bool.or_eq_true, not_or, Bool.not_eq_true] at hd
    refine Triple.bind (C.settlesNative _ _) fun settled => ?_
    cases settled with
    | true => exact Triple.pure () fun _ hs => hs
    | false =>
      rintro s ⟨hs, hn, hn'⟩
      exact C.ackSettled s (C.drop (.gated (hg.resolve_left (by simp [hd.1])) hd.2 hn hn') s hs)

theorem routePoison {p : PoisonRoute} (hp : m.routeUrn = .poison p) (hdel : app.onUnknownUrn = .delete → DropRule app m) :
    Triple held (app.routePoison m p) (fun _ => done) (Raised held done) := by
  unfold App.routePoison
  split
  · next hu => exact C.ackSettled.pre (C.drop (hdel hu))
  · split
    · exact C.settleVersionGated (.inl rfl) _
    · next hd =>
      split
      · next ht => exact C.ackSettled.pre (C.drop (.tierless hp (by simpa using hd) ht))
      · exact C.retryOrDeadLetter (.poisonRoute hp) _

theorem routeBodyPoison {cause : Str} (hc : app.causeOf m = .ok (some cause)) (hdel : app.onUnknownUrn = .delete → DropRule app m) :
    Triple held (app.routeBodyPoison m cause) (fun _ => done) (Raised held done) := by
  unfold App.routeBodyPoison
  split
  · next hu => exact C.ackSettled.pre (C.drop (hdel hu))
  · refine C.lift_bind fun attempts ha => ?_
    split
    · exact C.settleTransportPoison _ _
    · refine Triple.bind (C.settlesNative _ _) fun settled => ?_
      cases settled with
      | true => exact Triple.pure () fun _ hs => hs
      | false => exact (C.retryOrDeadLetter (.poisonBody hc ha) _).pre fun _ hs => hs.1

theorem applyStrategy {envelope : Dict Json} (h : RetryEnvelope app m envelope) (urn : Str) :
    Triple held (app.applyStrategy m urn envelope) (fun _ => done) (Raised held done) := by
  unfold App.applyStrategy
  split
  · exact C.releaseOrLeave (C.release .verbatim _)
  · split
    · exact C.deadLetters (.inl h) _ _
    · exact Triple.raise _ fun _ => C.raised_of_held

theorem routeUnknown {envelope : Dict Json} (h : m.gated = false → RetryEnvelope app m envelope)
    (hdel : app.onUnknownUrn = .delete → DropRule app m) (urn : Str) :
    Triple held (app.routeUnknown m urn envelope) (fun _ => done) (Raised held done) := by
  unfold App.routeUnknown
  split
  · next p hp => exact C.routePoison hp hdel
  · split
    · exact C.settleTransportPoison _ _
    · split
      · next hu => exact C.ackSettled.pre (C.drop (hdel hu))
      · split
        · next hg => exact C.settleVersionGated (.inr hg) _
        · next hg => exact C.applyStrategy (h (by simpa using hg)) urn

theorem invoke {r : App.Routing σ} (hr : app.classify m = .ok r) {handler : Handler σ}
    (hh : r.handler = some handler) (envelope : Dict Json) :
    Triple held (app.invoke handler envelope) (fun _ => covered) (Raised held done) := by
  unfold App.invoke
  refine C.lift_bind fun data _ => C.lift_bind fun metaBlock _ => ?_
  exact Triple.bind ((C.handler r handler hr hh data metaBlock envelope).conseq (fun _ => id) (fun _ _ => id)
    fun _ _ => C.raised_of_held) fun _ => Triple.modify _ (C.setPhase_covered _)

theorem setPhase_bind {α : Type} {p : Phase} {c : Act σ α} {Q : α → σ → Prop} {E : PyExc → σ → Prop}
    (h : Triple held c Q E) : Triple held (do Act.modify (app.setPhase p); c) Q E :=
  Triple.bind (Triple.modify (Q := fun _ => held) _ (C.setPhase_held p)) fun _ => h

end Custody

/-! ## Dispatch -/

/-- What `classify` finds out. -/
theorem App.classify_ok {app : App σ η} {m : ReceivedMessage η} {r : App.Routing σ} (h : app.classify m = .ok r) :
    app.causeOf m = .ok r.poisonCause ∧
      (m.gated = false → r.poisonCause = none → decodeLenient m.body = .ok r.envelope) ∧
      ∀ handler, r.handler = some handler → r.poisonCause = none := by
  unfold App.classify at h
  obtain ⟨cause, hc, h⟩ := bind_eq_ok.mp h
  obtain ⟨envelope, he, h⟩ := bind_eq_ok.mp h
  obtain ⟨bodyUrn, -, h⟩ := bind_eq_ok.mp h
  cases h
  refine ⟨hc, fun hg hn => ?_, fun handler hh => ?_⟩
  · dsimp only at hn ⊢
    unfold App.envelopeOf at he
    rwa [hg, hn] at he
  · simpa using (Option.ite_none_right_eq_some.mp hh).1.2

namespace Custody

variable {app : App σ η} {m : ReceivedMessage η} {held covered done : σ → Prop}
  (C : Custody app m held covered done)

include C

theorem attempt {r : App.Routing σ} (hr : app.classify m = .ok r) :
    Triple held (app.attempt m r) (fun b s => if b then covered s else done s) (Raised held done) := by
  obtain ⟨hcause, henv, hh⟩ := App.classify_ok hr
  unfold App.attempt
  split
  · next cause hc =>
    have hn : r.handler = none := by
      cases e : r.handler with
      | none => rfl
      | some h => rw [hh h e] at hc; cases hc
    refine C.setPhase_bind (Triple.bind (C.routeBodyPoison (hc ▸ hcause) fun hu => .delete r hr hu hn) fun _ => ?_)
    exact Triple.pure false fun _ hs => hs
  · next hc hn =>
    refine C.setPhase_bind (Triple.bind (C.routeUnknown (fun hg => .decoded hg (hc ▸ hcause) (henv hg hc)) (fun hu => .delete r hr hu hn) r.urn)
      fun _ => ?_)
    exact Triple.pure false fun _ hs => hs
  · next handler hc hn =>
    refine C.setPhase_bind (Triple.bind (C.invoke hr hn r.envelope) fun _ => ?_)
    exact Triple.bind (Triple.modify (Q := fun _ => covered) _ (C.setPhase_covered _)) fun _ =>
      Triple.pure true fun _ hs => hs

theorem recover {r : App.Routing σ} (hr : app.classify m = .ok r) (exc : PyExc) :
    Triple held (app.recover m r exc) (fun b s => if b then covered s else done s) (Raised held done) := by
  have hfin : ∀ {c : Act σ Unit}, Triple held c (fun _ => done) (Raised held done) →
      Triple held (do c; pure false) (fun b s => if b then covered s else done s) (Raised held done) :=
    fun h => Triple.bind h fun _ => Triple.pure false fun _ hs => hs
  unfold App.recover
  refine C.setPhase_bind ?_
  split
  · split
    · exact hfin C.abandonUnsettled
    · exact hfin C.rewindUnsettled
  · next hc =>
    simp only [Bool.or_eq_true, not_or, Bool.not_eq_true, Option.isSome_eq_false_iff, Option.isNone_iff_eq_none] at hc
    obtain ⟨hcause, henv, -⟩ := App.classify_ok hr
    exact hfin (C.retryOrDeadLetter (.decoded hc.2 (hc.1 ▸ hcause) (henv hc.2 hc.1)) exc)

/-- `dispatch` takes a held delivery to a done one, however it ends. -/
theorem dispatch : Triple held (app.dispatch m) (fun _ => done) fun _ => done := by
  unfold App.dispatch
  refine Triple.bind (Triple.lift _ (Q := fun r s => app.classify m = .ok r ∧ held s) (fun _ _ h hs => ⟨h, hs⟩)
    fun _ s _ hs => C.held_done s hs) fun r => ?_
  rintro s ⟨hr, hs⟩
  revert s
  unfold App.settle
  refine Triple.tryFinally ?_
  refine Triple.conseq (Triple.bind (Triple.tryExcept (C.attempt hr) (fun e he => ?_) fun e _ _ hs => hs) fun b => ?_)
    (fun _ => id) (Q := fun _ => done) (E := Raised held done) (fun _ s => C.endPhase s) fun _ s hs => C.endPhase s hs.1
  · rw [isAny_exception] at he
    exact (C.recover hr e).pre fun _ hs => hs.2 he
  · cases b with
    | true => exact C.ackSettled
    | false => exact Triple.pure () fun _ hs => hs

end Custody

end BabelQueue
