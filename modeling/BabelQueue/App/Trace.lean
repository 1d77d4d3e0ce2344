import BabelQueue.App.Custody

/-!
# Traced runs

`app.traced` is `app` with a record of what `dispatch` calls: each call of a handler or of the
transport adds an `Event` with how it ended. The state below the trace is that of `app`.

* `record_spec`: an event is all that tracing adds.
* `dispatch_traced`: tracing changes neither the outcome nor the state of `dispatch`.
-/

namespace BabelQueue

open Py Py.Json

inductive Event
  | handler (r : Except PyExc Unit)
  | publish (queue body : Str) (r : Except PyExc Unit)
  | redeliver (body : Str) (r : Except PyExc Unit)
  | deadLetter (queue body : Str) (r : Except PyExc Unit)
  | ack (r : Except PyExc Unit)
  | rewind (r : Except PyExc Unit)
  | abandon (r : Except PyExc Unit)
  | native (r : Except PyExc Unit)
  deriving DecidableEq

abbrev Trace := List Event

variable {σ η α : Type}

/-- `c`, with an event for how it ends. -/
def record (event : Except PyExc Unit → Event) (c : Act σ α) : Act (σ × Trace) α := fun s =>
  ((c s.1).1, (c s.1).2, s.2 ++ [event ((c s.1).1.map fun _ => ())])

/-- `c`, without an event. -/
def silent (c : Act σ α) : Act (σ × Trace) α := fun s => ((c s.1).1, (c s.1).2, s.2)

def Transport.traced (T : Transport σ η) : Transport (σ × Trace) η where
  classifiesPoison := T.classifiesPoison
  retryTiersMs := T.retryTiersMs
  publish queue body := record (.publish queue body) (T.publish queue body)
  pop queue := silent (T.pop queue)
  ack m := record .ack (T.ack m)
  publishRouted := T.publishRouted.map fun c queue body route => record (.publish queue body) (c queue body route)
  publishSettle := T.publishSettle.map fun c queue body route key => record (.publish queue body) (c queue body route key)
  redeliver := T.redeliver.map fun c m body delay => record (.redeliver body) (c m body delay)
  deadLetter := T.deadLetter.map fun c m queue body => record (.deadLetter queue body) (c m queue body)
  rewind := T.rewind.map fun c m => record .rewind (c m)
  abandon := T.abandon.map fun c m => record .abandon (c m)
  deadLetterQueueName := T.deadLetterQueueName
  settleNative := T.settleNative.map fun c m reason description => record .native (c m reason description)
  settleNativeDeadLetter :=
    T.settleNativeDeadLetter.map fun c m reason description => record .native (c m reason description)

def App.traced (app : App σ η) : App (σ × Trace) η where
  transport := app.transport.traced
  handlers := Dict.mapValues
    (fun handler data metaBlock envelope => record .handler (handler data metaBlock envelope))
    app.handlers
  onUnknownUrn := app.onUnknownUrn
  maxAttempts := app.maxAttempts
  deadLetterEnabled := app.deadLetterEnabled
  deadLetterQueue := app.deadLetterQueue
  deadLetterSuffix := app.deadLetterSuffix
  retryDelay := app.retryDelay
  unknownUrnReleaseDelay := app.unknownUrnReleaseDelay
  deadLetterObserver := app.deadLetterObserver.map fun observer event => silent (observer event)
  now s := app.now s.1
  setPhase p s := (app.setPhase p s.1, s.2)
  endPhase s := (app.endPhase s.1, s.2)

/-! ## Properties of the trace -/

theorem record_spec {p q x : Trace → Prop} {event : Except PyExc Unit → Event} {c : Act σ α}
    (hq : ∀ tr, p tr → q (tr ++ [event (.ok ())])) (hx : ∀ tr e, p tr → x (tr ++ [event (.error e)])) :
    Triple (fun s => p s.2) (record event c) (fun _ s => q s.2) fun _ s => x s.2 := by
  rintro ⟨s, tr⟩ hp
  rw [record]
  dsimp only at hp ⊢
  cases (c s).1 with
  | ok a => exact hq tr hp
  | error e => exact hx tr e hp

theorem silent_spec {p : Trace → Prop} {c : Act σ α} :
    Triple (fun s => p s.2) (silent c) (fun _ s => p s.2) fun _ s => p s.2 := by
  rintro ⟨s, tr⟩ hp
  rw [silent]
  dsimp only at hp ⊢
  cases (c s).1 <;> exact hp

/-! ## Tracing changes nothing -/

/-- `c'` is `c`, whatever the trace. -/
def Erases (c' : Act (σ × Trace) α) (c : Act σ α) : Prop :=
  ∀ s tr, (c' (s, tr)).1 = (c s).1 ∧ (c' (s, tr)).2.1 = (c s).2

namespace Erases

variable {β : Type} {c' : Act (σ × Trace) α} {c : Act σ α}

theorem record (event : Except PyExc Unit → Event) (c : Act σ α) : Erases (BabelQueue.record event c) c :=
  fun _ _ => ⟨rfl, rfl⟩

theorem silent (c : Act σ α) : Erases (BabelQueue.silent c) c := fun _ _ => ⟨rfl, rfl⟩

protected theorem pure (a : α) : Erases (σ := σ) (pure a) (pure a) := fun _ _ => ⟨rfl, rfl⟩

theorem raise (e : PyExc) : Erases (σ := σ) (α := α) (Act.raise e) (Act.raise e) := fun _ _ => ⟨rfl, rfl⟩

theorem lift (r : Except PyExc α) : Erases (σ := σ) (Act.lift r) (Act.lift r) := fun _ _ => ⟨rfl, rfl⟩

theorem modify (f : σ → σ) : Erases (Act.modify fun s : σ × Trace => (f s.1, s.2)) (Act.modify f) :=
  fun _ _ => ⟨rfl, rfl⟩

theorem bind {k' : α → Act (σ × Trace) β} {k : α → Act σ β} (h : Erases c' c) (hk : ∀ a, Erases (k' a) (k a)) :
    Erases (c' >>= k') (c >>= k) := by
  intro s tr
  obtain ⟨h1, h2⟩ := h s tr
  rw [Act.bind_run, Act.bind_run]
  rcases e' : c' (s, tr) with ⟨r', s', tr'⟩
  rcases e : c s with ⟨r, s₁⟩
  rw [e', e] at h1 h2
  obtain rfl : r' = r := h1
  obtain rfl : s' = s₁ := h2
  cases r' with
  | ok a => exact hk a s' tr'
  | error x => exact ⟨rfl, rfl⟩

theorem get_bind {k' : σ × Trace → Act (σ × Trace) β} {k : σ → Act σ β} (hk : ∀ s tr, Erases (k' (s, tr)) (k s)) :
    Erases (Act.get >>= k') (Act.get >>= k) := fun s tr => hk s tr s tr

theorem tryExcept {cs : List ExcClass} {f' : PyExc → Act (σ × Trace) α} {f : PyExc → Act σ α} (h : Erases c' c)
    (hf : ∀ e, Erases (f' e) (f e)) : Erases (Act.tryExcept c' cs f') (Act.tryExcept c cs f) := by
  intro s tr
  obtain ⟨h1, h2⟩ := h s tr
  rw [Act.tryExcept, Act.tryExcept]
  rcases e' : c' (s, tr) with ⟨r', s', tr'⟩
  rcases e : c s with ⟨r, s₁⟩
  rw [e', e] at h1 h2
  obtain rfl : r' = r := h1
  obtain rfl : s' = s₁ := h2
  cases r' with
  | ok a => exact ⟨rfl, rfl⟩
  | error x =>
    dsimp only
    split
    · exact hf x s' tr'
    · exact ⟨rfl, rfl⟩

theorem tryFinally {f : σ → σ} (h : Erases c' c) :
    Erases (Act.tryFinally c' fun s => (f s.1, s.2)) (Act.tryFinally c f) := by
  intro s tr
  obtain ⟨h1, h2⟩ := h s tr
  exact ⟨h1, congrArg f h2⟩

theorem ite {p : Prop} [Decidable p] {d' : Act (σ × Trace) α} {d : Act σ α} (h : Erases c' c) (hd : Erases d' d) :
    Erases (if p then c' else d') (if p then c else d) := by
  split
  · exact h
  · exact hd

end Erases

section Runtime

variable [Interpreter] (app : App σ η) (m : ReceivedMessage η)

omit [Interpreter] in
theorem publishKeepingRoute_traced (T : Transport σ η) (queue body : Str) (route : RouteUrn) (key : Option Bytes) :
    publishKeepingRoute T.traced queue body route key =
      record (.publish queue body) (publishKeepingRoute T queue body route key) := by
  unfold publishKeepingRoute
  simp only [Transport.traced]
  cases T.publishSettle with
  | some c => rfl
  | none =>
    cases T.publishRouted with
    | some c => dsimp only [Option.map]; split <;> rfl
    | none => rfl

omit [Interpreter] in
theorem publishFor_traced (queue body : Str) :
    app.traced.publishFor m queue body = record (.publish queue body) (app.publishFor m queue body) :=
  publishKeepingRoute_traced _ _ _ _ _

namespace Erases

omit [Interpreter] in
theorem ackSettled : Erases (app.traced.ackSettled m) (app.ackSettled m) :=
  (Erases.record _ _).tryExcept fun _ => Erases.pure ()

omit [Interpreter] in
theorem publishFor (queue body : Str) : Erases (app.traced.publishFor m queue body) (app.publishFor m queue body) := by
  rw [publishFor_traced]; exact Erases.record _ _

omit [Interpreter] in
theorem notifyDeadLetter (event : DeadLetterEvent) :
    Erases (app.traced.notifyDeadLetter event) (app.notifyDeadLetter event) := by
  unfold App.notifyDeadLetter
  simp only [App.traced]
  cases app.deadLetterObserver with
  | none => exact Erases.pure ()
  | some observer => exact (Erases.silent _).tryExcept fun _ => Erases.pure ()

theorem release (body : Str) (delay : Float64) : Erases (app.traced.release m body delay) (app.release m body delay) := by
  unfold App.release
  simp only [App.traced, Transport.traced]
  cases app.transport.redeliver with
  | some redeliver => exact Erases.record _ _
  | none => exact (Erases.lift _).bind fun b => (publishFor app m _ b).bind fun _ => ackSettled app m

omit [Interpreter] in
theorem writeDeadLetter (queue body : Str) (sourceQueue : Option Str) (reason : Str) :
    Erases (app.traced.writeDeadLetter m queue body sourceQueue reason)
      (app.writeDeadLetter m queue body sourceQueue reason) := by
  unfold App.writeDeadLetter
  simp only [App.traced, Transport.traced]
  cases app.transport.deadLetter with
  | some write => exact (Erases.record _ _).bind fun _ => notifyDeadLetter app _
  | none => exact (publishFor app m _ _).bind fun _ => (ackSettled app m).bind fun _ => notifyDeadLetter app _

omit [Interpreter] in
theorem settleNative (reason description : Str) :
    Erases (app.traced.settleNative m reason description) (app.settleNative m reason description) := by
  unfold App.settleNative
  simp only [App.traced, Transport.traced]
  cases app.transport.settleNativeDeadLetter with
  | some settle =>
    refine ((Erases.bind (Erases.record _ _) fun b => ?_).tryExcept fun _ => Erases.pure ()).bind fun _ => Erases.pure true
    cases b with
    | true => exact notifyDeadLetter app _
    | false => exact Erases.pure ()
  | none =>
    cases app.transport.settleNative with
    | some settle => exact ((Erases.record _ _).tryExcept fun _ => Erases.pure ()).bind fun _ => Erases.pure true
    | none => exact Erases.pure false

omit [Interpreter] in
theorem rewindUnsettled : Erases (app.traced.rewindUnsettled m) (app.rewindUnsettled m) := by
  unfold App.rewindUnsettled
  simp only [App.traced, Transport.traced]
  cases app.transport.rewind with
  | none => exact Erases.pure ()
  | some rewind => exact (Erases.record _ _).tryExcept fun _ => Erases.pure ()

omit [Interpreter] in
theorem abandonUnsettled : Erases (app.traced.abandonUnsettled m) (app.abandonUnsettled m) := by
  have hr : app.traced.transport.rewind = app.transport.rewind.map fun c m => BabelQueue.record .rewind (c m) := rfl
  have ha : app.traced.transport.abandon = app.transport.abandon.map fun c m => BabelQueue.record .abandon (c m) := rfl
  unfold App.abandonUnsettled
  rw [hr, ha]
  cases app.transport.rewind with
  | none =>
    cases app.transport.abandon with
    | none => exact rewindUnsettled app m
    | some abandon => exact (Erases.record _ _).tryExcept fun _ => Erases.pure ()
  | some rewind => exact rewindUnsettled app m

theorem deadLetter (envelope : Dict Json) (reason : Str) (exc : Option PyExc) :
    Erases (app.traced.deadLetter m envelope reason exc) (app.deadLetter m envelope reason exc) := by
  unfold App.deadLetter
  refine (Erases.lift _).bind fun _ => (Erases.lift _).bind fun _ => (Erases.lift _).bind fun _ => ?_
  exact get_bind fun s tr => (Erases.lift _).bind fun _ => (Erases.lift _).bind fun _ => writeDeadLetter app m _ _ _ _

theorem retryOrDeadLetter (envelope : Dict Json) (exc : PyExc) :
    Erases (app.traced.retryOrDeadLetter m envelope exc) (app.retryOrDeadLetter m envelope exc) := by
  unfold App.retryOrDeadLetter
  refine (Erases.lift _).bind fun _ => Erases.ite ?_ (Erases.ite (deadLetter app m _ _ _) (ackSettled app m))
  refine Erases.tryExcept ?_ fun _ => rewindUnsettled app m
  exact (Erases.lift _).bind fun _ => (Erases.lift _).bind fun _ => release app m _ _

theorem settleTransportPoison (cause : Option Str) (attempts : Int) :
    Erases (app.traced.settleTransportPoison m cause attempts) (app.settleTransportPoison m cause attempts) :=
  get_bind fun _ _ => (Erases.lift _).bind fun _ => (Erases.lift _).bind fun _ => writeDeadLetter app m _ _ _ _

omit [Interpreter] in
theorem settleVersionGated (always : Bool) (reason : Str) :
    Erases (app.traced.settleVersionGated m always reason) (app.settleVersionGated m always reason) := by
  unfold App.settleVersionGated
  refine Erases.ite ((Erases.lift _).bind fun _ => writeDeadLetter app m _ _ _ _) ?_
  exact (settleNative app m _ _).bind fun _ => Erases.ite (Erases.pure ()) (ackSettled app m)

theorem routePoison (p : PoisonRoute) : Erases (app.traced.routePoison m p) (app.routePoison m p) := by
  unfold App.routePoison
  have ht : app.traced.retryTiersUnavailable = app.retryTiersUnavailable := by
    unfold App.retryTiersUnavailable
    simp only [App.traced, Transport.traced, Option.isSome_map]
  rw [ht]
  exact Erases.ite (ackSettled app m) (Erases.ite (settleVersionGated app m _ _)
    (Erases.ite (ackSettled app m) (retryOrDeadLetter app m _ _)))

theorem routeBodyPoison (cause : Str) : Erases (app.traced.routeBodyPoison m cause) (app.routeBodyPoison m cause) := by
  unfold App.routeBodyPoison
  refine Erases.ite (ackSettled app m) ((Erases.lift _).bind fun _ => ?_)
  refine Erases.ite (settleTransportPoison app m _ _) ((settleNative app m _ _).bind fun _ => ?_)
  exact Erases.ite (Erases.pure ()) (retryOrDeadLetter app m _ _)

theorem applyStrategy (urn : Str) (envelope : Dict Json) :
    Erases (app.traced.applyStrategy m urn envelope) (app.applyStrategy m urn envelope) := by
  unfold App.applyStrategy
  refine Erases.ite ?_ (Erases.ite (deadLetter app m _ _ _) (Erases.raise _))
  exact (release app m _ _).tryExcept fun _ => rewindUnsettled app m

theorem routeUnknown (urn : Str) (envelope : Dict Json) :
    Erases (app.traced.routeUnknown m urn envelope) (app.routeUnknown m urn envelope) := by
  unfold App.routeUnknown
  split
  · exact routePoison app m _
  · exact Erases.ite (settleTransportPoison app m _ _) (Erases.ite (ackSettled app m)
      (Erases.ite (settleVersionGated app m _ _) (applyStrategy app m _ _)))

end Erases

/-- The routing, with the handler traced. -/
def App.Routing.traced (r : App.Routing σ) : App.Routing (σ × Trace) :=
  ⟨r.poisonCause, r.envelope, r.urn,
    r.handler.map fun handler data metaBlock envelope => record .handler (handler data metaBlock envelope)⟩

theorem classify_traced : app.traced.classify m = (app.classify m).map App.Routing.traced := by
  unfold App.classify
  have hc : app.traced.causeOf m = app.causeOf m := rfl
  rw [hc]
  cases app.causeOf m with
  | error e => rfl
  | ok cause =>
    simp only [bind, Except.bind]
    cases App.envelopeOf m cause with
    | error e => rfl
    | ok envelope =>
      dsimp only
      cases (((envelope.getJ (str "job")).orElse (envelope.getJ (str "urn"))).orElse (.str [])).toStr with
      | error e => rfl
      | ok bodyUrn =>
        dsimp only
        generalize (if m.routeUrn.text ≠ [] ∧ ¬ envelope.isEmpty then m.routeUrn.text else bodyUrn) = urn
        simp only [pure, Except.pure, Except.map, App.Routing.traced, App.traced, Dict.get?_mapValues]
        split <;> rfl

namespace Erases

omit [Interpreter] in
theorem invoke (handler : Handler σ) (envelope : Dict Json) :
    Erases (app.traced.invoke (fun data metaBlock envelope => BabelQueue.record .handler (handler data metaBlock envelope))
      envelope) (app.invoke handler envelope) :=
  (Erases.lift _).bind fun _ => (Erases.lift _).bind fun _ => (Erases.record _ _).bind fun _ =>
    Erases.modify (app.setPhase .settling)

theorem attempt (r : App.Routing σ) : Erases (app.traced.attempt m r.traced) (app.attempt m r) := by
  obtain ⟨cause, envelope, urn, handler⟩ := r
  have hp : ∀ p, Erases (Act.modify (app.traced.setPhase p)) (Act.modify (app.setPhase p)) :=
    fun p => Erases.modify (app.setPhase p)
  unfold App.attempt
  cases cause with
  | some cause => exact (hp _).bind fun _ => (routeBodyPoison app m cause).bind fun _ => Erases.pure false
  | none =>
    cases handler with
    | none => exact (hp _).bind fun _ => (routeUnknown app m urn envelope).bind fun _ => Erases.pure false
    | some handler =>
      exact (hp _).bind fun _ => (invoke app handler envelope).bind fun _ => (hp _).bind fun _ => Erases.pure true

theorem recover (r : App.Routing σ) (exc : PyExc) :
    Erases (app.traced.recover m r.traced exc) (app.recover m r exc) := by
  unfold App.recover
  refine (Erases.modify (app.setPhase .settling)).bind fun _ => ?_
  refine Erases.ite ?_ ((retryOrDeadLetter app m _ _).bind fun _ => Erases.pure false)
  exact Erases.ite ((abandonUnsettled app m).bind fun _ => Erases.pure false)
    ((rewindUnsettled app m).bind fun _ => Erases.pure false)

theorem dispatch : Erases (app.traced.dispatch m) (app.dispatch m) := by
  unfold App.dispatch
  rw [classify_traced]
  cases app.classify m with
  | error e => exact fun _ _ => ⟨rfl, rfl⟩
  | ok r =>
    refine Erases.tryFinally (f := app.endPhase) (((attempt app m r).tryExcept fun e => recover app m r e).bind fun b => ?_)
    exact Erases.ite (ackSettled app m) (Erases.pure ())

end Erases

/-- Tracing changes neither how `dispatch` ends nor the state it leaves. -/
theorem dispatch_traced (s : σ) (tr : Trace) :
    (app.traced.dispatch m (s, tr)).1 = (app.dispatch m s).1 ∧
      (app.traced.dispatch m (s, tr)).2.1 = (app.dispatch m s).2 := Erases.dispatch app m s tr

end Runtime

end BabelQueue
