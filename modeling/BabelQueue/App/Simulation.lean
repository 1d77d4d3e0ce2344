import BabelQueue.App

/-!
# Two runtimes in step

`app.Simulates R app' m`: the transports, the handlers and the observers of the two do the same for the
delivery `m`, up to a relation `R` of their states. Then so do their dispatches (`dispatch_sim`).
-/

namespace BabelQueue

open Py Py.Json

variable {σ σ' η : Type}

section Interpreter

variable [Interpreter]

/-- `app` and `app'` do the same for `m`, from related states. -/
structure App.Simulates (R : σ → σ' → Prop) (app : App σ η) (app' : App σ' η) (m : ReceivedMessage η) : Prop where
  classifiesPoison : app'.transport.classifiesPoison = app.transport.classifiesPoison
  onUnknownUrn : app'.onUnknownUrn = app.onUnknownUrn
  maxAttempts : app'.maxAttempts = app.maxAttempts
  deadLetterEnabled : app'.deadLetterEnabled = app.deadLetterEnabled
  retryDelay : app'.retryDelay = app.retryDelay
  unknownUrnReleaseDelay : app'.unknownUrnReleaseDelay = app.unknownUrnReleaseDelay
  retryTiersUnavailable : app'.retryTiersUnavailable = app.retryTiersUnavailable
  deadLetterTarget : app'.deadLetterTarget m = app.deadLetterTarget m
  now : ∀ s s', R s s' → app'.now s' = app.now s
  setPhase : ∀ phase s s', R s s' → R (app.setPhase phase s) (app'.setPhase phase s')
  endPhase : ∀ s s', R s s' → R (app.endPhase s) (app'.endPhase s')
  handlers : ∀ urn, Option.Rel
    (fun handler handler' => ∀ data metaBlock envelope, Sim R (handler data metaBlock envelope) (handler' data metaBlock envelope))
    (app.handlers.get? urn) (app'.handlers.get? urn)
  ackSettled : Sim R (app.ackSettled m) (app'.ackSettled m)
  release : ∀ body delay, Sim R (app.release m body delay) (app'.release m body delay)
  writeDeadLetter : ∀ queue body sourceQueue reason,
    Sim R (app.writeDeadLetter m queue body sourceQueue reason) (app'.writeDeadLetter m queue body sourceQueue reason)
  settleNative : ∀ reason description, Sim R (app.settleNative m reason description) (app'.settleNative m reason description)
  rewindUnsettled : Sim R (app.rewindUnsettled m) (app'.rewindUnsettled m)
  abandonUnsettled : Sim R (app.abandonUnsettled m) (app'.abandonUnsettled m)

namespace App.Simulates

variable {R : σ → σ' → Prop} {app : App σ η} {app' : App σ' η} {m : ReceivedMessage η} (h : app.Simulates R app' m)

include h

theorem deadLetters : app'.deadLetters = app.deadLetters := by
  unfold App.deadLetters
  rw [h.deadLetterEnabled, h.onUnknownUrn]

theorem setPhase_sim (phase : Phase) : Sim R (Act.modify (app.setPhase phase)) (Act.modify (app'.setPhase phase)) :=
  Sim.modify (h.setPhase phase)

theorem deadLetter (envelope : Dict Json) (reason : Str) (exc : Option PyExc) :
    Sim R (app.deadLetter m envelope reason exc) (app'.deadLetter m envelope reason exc) := by
  unfold App.deadLetter
  refine Sim.bind (Sim.lift _) fun _ => Sim.bind (Sim.lift _) fun _ => Sim.bind (Sim.lift _) fun _ => ?_
  refine Sim.get_bind fun s s' hs => ?_
  rw [h.deadLetterTarget, h.now s s' hs]
  exact Sim.bind (Sim.lift _) fun _ => Sim.bind (Sim.lift _) fun _ => h.writeDeadLetter _ _ _ _

theorem retryOrDeadLetter (envelope : Dict Json) (exc : PyExc) :
    Sim R (app.retryOrDeadLetter m envelope exc) (app'.retryOrDeadLetter m envelope exc) := by
  unfold App.retryOrDeadLetter App.leaveRepublishUnsettled
  rw [h.maxAttempts, h.deadLetterEnabled, h.retryDelay]
  refine Sim.bind (Sim.lift _) fun _ => Sim.ite ?_ (Sim.ite (h.deadLetter _ _ _) h.ackSettled)
  refine Sim.tryExcept ?_ fun _ => h.rewindUnsettled
  exact Sim.bind (Sim.lift _) fun _ => Sim.bind (Sim.lift _) fun _ => h.release _ _

theorem settleTransportPoison (cause : Option Str) (attempts : Int) :
    Sim R (app.settleTransportPoison m cause attempts) (app'.settleTransportPoison m cause attempts) := by
  unfold App.settleTransportPoison
  refine Sim.get_bind fun s s' hs => ?_
  rw [h.deadLetterTarget, h.now s s' hs]
  exact Sim.bind (Sim.lift _) fun _ => Sim.bind (Sim.lift _) fun _ => h.writeDeadLetter _ _ _ _

theorem settleVersionGated (always : Bool) (reason : Str) :
    Sim R (app.settleVersionGated m always reason) (app'.settleVersionGated m always reason) := by
  unfold App.settleVersionGated
  rw [h.deadLetters, h.deadLetterTarget]
  refine Sim.ite (Sim.bind (Sim.lift _) fun _ => h.writeDeadLetter _ _ _ _) ?_
  exact Sim.bind (h.settleNative _ _) fun _ => Sim.ite (Sim.pure ()) h.ackSettled

theorem routePoison (p : PoisonRoute) : Sim R (app.routePoison m p) (app'.routePoison m p) := by
  unfold App.routePoison
  rw [h.onUnknownUrn, h.deadLetters, h.retryTiersUnavailable]
  exact Sim.ite h.ackSettled (Sim.ite (h.settleVersionGated _ _) (Sim.ite h.ackSettled (h.retryOrDeadLetter _ _)))

theorem routeBodyPoison (cause : Str) : Sim R (app.routeBodyPoison m cause) (app'.routeBodyPoison m cause) := by
  unfold App.routeBodyPoison
  rw [h.onUnknownUrn, h.deadLetters]
  refine Sim.ite h.ackSettled (Sim.bind (Sim.lift _) fun _ => ?_)
  refine Sim.ite (h.settleTransportPoison _ _) (Sim.bind (h.settleNative _ _) fun _ => ?_)
  exact Sim.ite (Sim.pure ()) (h.retryOrDeadLetter _ _)

theorem applyStrategy (urn : Str) (envelope : Dict Json) :
    Sim R (app.applyStrategy m urn envelope) (app'.applyStrategy m urn envelope) := by
  unfold App.applyStrategy App.leaveRepublishUnsettled
  rw [h.onUnknownUrn, h.unknownUrnReleaseDelay]
  refine Sim.ite ?_ (Sim.ite (h.deadLetter _ _ _) (Sim.raise _))
  exact Sim.tryExcept (h.release _ _) fun _ => h.rewindUnsettled

theorem routeUnknown (urn : Str) (envelope : Dict Json) :
    Sim R (app.routeUnknown m urn envelope) (app'.routeUnknown m urn envelope) := by
  unfold App.routeUnknown
  rw [h.onUnknownUrn]
  split
  · exact h.routePoison _
  · exact Sim.ite (h.settleTransportPoison _ _) (Sim.ite h.ackSettled
      (Sim.ite (h.settleVersionGated _ _) (h.applyStrategy _ _)))

/-- Two routings that differ in their handlers only, which do the same. -/
structure Routed (R : σ → σ' → Prop) (r : App.Routing σ) (r' : App.Routing σ') : Prop where
  poisonCause : r'.poisonCause = r.poisonCause
  envelope : r'.envelope = r.envelope
  urn : r'.urn = r.urn
  handler : Option.Rel
    (fun handler handler' => ∀ data metaBlock envelope, Sim R (handler data metaBlock envelope) (handler' data metaBlock envelope))
    r.handler r'.handler

theorem classify : (∃ e, app.classify m = .error e ∧ app'.classify m = .error e) ∨
    ∃ r r', app.classify m = .ok r ∧ app'.classify m = .ok r' ∧ Routed R r r' := by
  have hc : app'.causeOf m = app.causeOf m := by
    unfold App.causeOf
    rw [h.classifiesPoison]
  unfold App.classify
  rw [hc]
  cases app.causeOf m with
  | error e => exact .inl ⟨e, rfl, rfl⟩
  | ok cause =>
    simp only [bind, Except.bind]
    cases App.envelopeOf m cause with
    | error e => exact .inl ⟨e, rfl, rfl⟩
    | ok envelope =>
      dsimp only
      cases (((envelope.getJ (str "job")).orElse (envelope.getJ (str "urn"))).orElse (.str [])).toStr with
      | error e => exact .inl ⟨e, rfl, rfl⟩
      | ok bodyUrn =>
        dsimp only
        generalize (if m.routeUrn.text ≠ [] ∧ ¬ envelope.isEmpty then m.routeUrn.text else bodyUrn) = urn
        refine .inr ⟨_, _, rfl, rfl, rfl, rfl, rfl, ?_⟩
        dsimp only
        split
        · exact h.handlers urn
        · exact .none

theorem invoke {handler : Handler σ} {handler' : Handler σ'}
    (hh : ∀ data metaBlock envelope, Sim R (handler data metaBlock envelope) (handler' data metaBlock envelope))
    (envelope : Dict Json) : Sim R (app.invoke handler envelope) (app'.invoke handler' envelope) := by
  unfold App.invoke
  exact Sim.bind (Sim.lift _) fun _ => Sim.bind (Sim.lift _) fun _ => Sim.bind (hh _ _ _) fun _ => h.setPhase_sim _

theorem attempt {r : App.Routing σ} {r' : App.Routing σ'} (hr : Routed R r r') : Sim R (app.attempt m r) (app'.attempt m r') := by
  obtain ⟨cause, envelope, urn, handler⟩ := r
  obtain ⟨cause', envelope', urn', handler'⟩ := r'
  obtain ⟨rfl, rfl, rfl, hh⟩ := hr
  unfold App.attempt
  cases cause' with
  | some cause =>
    exact Sim.bind (h.setPhase_sim _) fun _ => Sim.bind (h.routeBodyPoison cause) fun _ => Sim.pure false
  | none =>
    cases hh with
    | none =>
      exact Sim.bind (h.setPhase_sim _) fun _ => Sim.bind (h.routeUnknown _ _) fun _ => Sim.pure false
    | some hh =>
      exact Sim.bind (h.setPhase_sim _) fun _ => Sim.bind (h.invoke hh _) fun _ =>
        Sim.bind (h.setPhase_sim _) fun _ => Sim.pure true

theorem recover {r : App.Routing σ} {r' : App.Routing σ'} (hr : Routed R r r') (exc : PyExc) :
    Sim R (app.recover m r exc) (app'.recover m r' exc) := by
  unfold App.recover
  rw [hr.poisonCause, hr.envelope]
  refine Sim.bind (h.setPhase_sim _) fun _ => Sim.ite (Sim.ite ?_ ?_) ?_
  · exact Sim.bind h.abandonUnsettled fun _ => Sim.pure false
  · exact Sim.bind h.rewindUnsettled fun _ => Sim.pure false
  · exact Sim.bind (h.retryOrDeadLetter _ _) fun _ => Sim.pure false

/-- The two dispatches do the same. -/
theorem dispatch : Sim R (app.dispatch m) (app'.dispatch m) := by
  unfold App.dispatch
  rcases h.classify with ⟨e, h1, h2⟩ | ⟨r, r', h1, h2, hr⟩
  · rw [h1, h2]
    exact fun s s' hs => ⟨rfl, hs⟩
  · rw [h1, h2]
    have hsettle : Sim R (app.settle m r) (app'.settle m r') := by
      unfold App.settle
      refine Sim.tryFinally (Sim.bind (Sim.tryExcept (h.attempt hr) fun e => h.recover hr e) fun b => ?_) h.endPhase
      exact Sim.ite h.ackSettled (Sim.pure ())
    exact fun s s' hs => hsettle s s' hs

end App.Simulates

end Interpreter

end BabelQueue
