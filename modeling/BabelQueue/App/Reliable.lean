import BabelQueue.App.NoSilentLoss

/-!
# Reliable transports

A transport whose operations never raise, and what the private methods of the runtime add to the
trace on it.
-/

namespace BabelQueue

open Py Py.Json

variable {σ η α : Type}

/-- `c` never raises. -/
def Returns (c : Act σ α) : Prop := ∀ s, ∃ a s', c s = (.ok a, s')

/-- No operation of the transport raises. -/
structure Transport.Reliable (T : Transport σ η) : Prop where
  publish : ∀ queue body, Returns (T.publish queue body)
  ack : ∀ m, Returns (T.ack m)
  publishRouted : ∀ c ∈ T.publishRouted, ∀ queue body route, Returns (c queue body route)
  publishSettle : ∀ c ∈ T.publishSettle, ∀ queue body route key, Returns (c queue body route key)
  redeliver : ∀ c ∈ T.redeliver, ∀ m body delay, Returns (c m body delay)
  deadLetter : ∀ c ∈ T.deadLetter, ∀ m queue body, Returns (c m queue body)
  rewind : ∀ c ∈ T.rewind, ∀ m, Returns (c m)
  abandon : ∀ c ∈ T.abandon, ∀ m, Returns (c m)
  deadLetterQueueName : ∀ f ∈ T.deadLetterQueueName, ∀ queue suffix, ∃ name, f queue suffix = .ok name
  settleNative : ∀ c ∈ T.settleNative, ∀ m reason description, Returns (c m reason description)
  settleNativeDeadLetter : ∀ c ∈ T.settleNativeDeadLetter, ∀ m reason description, Returns (c m reason description)

/-! ## Triples -/

/-- A call that never raises adds its event. -/
theorem Returns.record_spec {p q : Trace → Prop} {event : Except PyExc Unit → Event} {c : Act σ α}
    (hc : Returns c) {E : PyExc → σ × Trace → Prop} (hq : ∀ tr, p tr → q (tr ++ [event (.ok ())])) :
    Triple (fun s => p s.2) (record event c) (fun _ s => q s.2) E := by
  rintro ⟨s, tr⟩ hp
  obtain ⟨a, s', h⟩ := hc s
  rw [record]
  dsimp only
  rw [h]
  exact hq tr hp

/-- A pure call that returns `a`, and what is done with it. -/
theorem triple_lift_ok {β : Type} {P : σ → Prop} {r : Except PyExc α} {a : α} (h : r = .ok a) {k : α → Act σ β}
    {Q : β → σ → Prop} {E : PyExc → σ → Prop} (hk : Triple P (k a) Q E) : Triple P (Act.lift r >>= k) Q E := by
  subst h; exact hk

/-- A pure call that raises ends the block. -/
theorem triple_lift_error {β : Type} {P : σ → Prop} {r : Except PyExc α} {e : PyExc} (h : r = .error e)
    {k : α → Act σ β} {Q : β → σ → Prop} {E : PyExc → σ → Prop} (he : ∀ s, P s → E e s) :
    Triple P (Act.lift r >>= k) Q E := by
  subst h; exact he

theorem triple_get {β : Type} {P : σ → Prop} {k : σ → Act σ β} {Q : β → σ → Prop} {E : PyExc → σ → Prop}
    (h : ∀ s, Triple P (k s) Q E) : Triple P (Act.get >>= k) Q E := fun s hs => h s s hs

/-- A time can be written. -/
theorem App.now_lt (app : App σ η) (s : σ) : (app.now s).1.natAbs < 10 ^ maxStrDigits :=
  (app.now s).2.trans
    ((Nat.pow_lt_pow_left (by omega) (by omega)).trans (Nat.pow_lt_pow_right (by omega) (by decide)))

section Runtime

variable [Interpreter] {app : App σ η} (hT : app.transport.Reliable) (m : ReceivedMessage η) {p q : Trace → Prop}

include hT

omit [Interpreter] in
theorem Transport.Reliable.publishFor {queue body : Str} {E : PyExc → σ × Trace → Prop}
    (h : ∀ tr, p tr → q (tr ++ [.publish queue body (.ok ())])) :
    Triple (fun s => p s.2) (app.traced.publishFor m queue body) (fun _ s => q s.2) E := by
  rw [publishFor_traced]
  refine Returns.record_spec ?_ h
  unfold App.publishFor publishKeepingRoute
  split
  · next c hc => exact hT.publishSettle c hc _ _ _ _
  · split
    · next c hc =>
      split
      · exact hT.publishRouted c hc _ _ _
      · exact hT.publish _ _
    · exact hT.publish _ _

omit [Interpreter] in
theorem Transport.Reliable.ackSettled {E : PyExc → σ × Trace → Prop} (h : ∀ tr, p tr → q (tr ++ [.ack (.ok ())])) :
    Triple (fun s => p s.2) (app.traced.ackSettled m) (fun _ s => q s.2) E :=
  Triple.tryExcept (E := fun _ _ => False) (Returns.record_spec (hT.ack m) h) (fun _ _ _ hs => hs.elim)
    fun _ _ _ hs => hs.elim

omit hT [Interpreter] in
/-- An observer leaves the trace alone; what it raises and `except Exception` does not catch goes on. -/
theorem notifyDeadLetter_spec (event : DeadLetterEvent) :
    Triple (fun s => p s.2) (app.traced.notifyDeadLetter event) (fun _ s => p s.2)
      (fun e s => e.isException = false ∧ p s.2) := by
  unfold App.notifyDeadLetter
  split
  · exact Triple.pure () fun _ h => h
  · next observer ho =>
    obtain ⟨observer, -, rfl⟩ := Option.map_eq_some_iff.mp ho
    refine Triple.tryExcept (silent_spec (p := p)) (fun e _ => Triple.pure () fun _ h => h) fun e s he hs => ⟨?_, hs⟩
    rwa [isAny_exception] at he

omit [Interpreter] in
theorem deadLetterTarget_isOk : ∃ target, app.deadLetterTarget m = .ok target := by
  unfold App.deadLetterTarget
  split
  · exact ⟨_, rfl⟩
  · next f hf _ => exact hT.deadLetterQueueName f hf _ _
  · exact ⟨_, rfl⟩

/-- The events of a dead-letter write. -/
def deadLetterEvents (app : App σ η) (target record : Str) : Trace :=
  if app.transport.deadLetter.isSome then [.deadLetter target record (.ok ())]
  else [.publish target record (.ok ()), .ack (.ok ())]

omit [Interpreter] in
theorem Transport.Reliable.writeDeadLetter {target body : Str} (sourceQueue : Option Str) (reason : Str)
    (h : ∀ tr, p tr → q (tr ++ deadLetterEvents app target body)) :
    Triple (fun s => p s.2) (app.traced.writeDeadLetter m target body sourceQueue reason) (fun _ s => q s.2)
      (fun e s => e.isException = false ∧ q s.2) := by
  unfold App.writeDeadLetter
  have hd : app.traced.transport.deadLetter =
      app.transport.deadLetter.map fun c m queue body => record (.deadLetter queue body) (c m queue body) := rfl
  rw [hd]
  cases hc : app.transport.deadLetter with
  | some c =>
    refine Triple.bind (Returns.record_spec (q := q) (hT.deadLetter c hc m target body) fun tr hp => ?_)
      fun _ => notifyDeadLetter_spec _
    simpa [deadLetterEvents, hc] using h tr hp
  | none =>
    refine Triple.bind (hT.publishFor m (q := fun tr => ∃ tr', p tr' ∧ tr = tr' ++ [.publish target body (.ok ())])
      fun tr hp => ⟨tr, hp, rfl⟩) fun _ => ?_
    refine Triple.bind (hT.ackSettled m (p := fun tr => ∃ tr', p tr' ∧ tr = tr' ++ [.publish target body (.ok ())]) (q := q) ?_) fun _ => notifyDeadLetter_spec _
    rintro _ ⟨tr, hp, rfl⟩
    simpa [deadLetterEvents, hc] using h tr hp

/-! ## The shape of a dispatch -/

omit hT

/-- From the `try` on: what the `try` and the `except` do. -/
theorem settle_spec {r : App.Routing (σ × Trace)} {P : σ × Trace → Prop} {p' : PyExc → Trace → Prop}
    (ha : Triple P (app.traced.attempt m r) (fun b s => b = false ∧ q s.2)
      fun e s => if e.isException then p' e s.2 else q s.2)
    (hr : ∀ e, e.isException = true →
      Triple (fun s => p' e s.2) (app.traced.recover m r e) (fun b s => b = false ∧ q s.2) fun _ s => q s.2) :
    Triple P (app.traced.settle m r) (fun _ s => q s.2) fun _ s => q s.2 := by
  unfold App.settle
  refine Triple.tryFinally (f := app.traced.endPhase) (Q := fun _ s => q s.2) (E := fun _ s => q s.2) ?_
  refine Triple.bind (Q := fun b s => b = false ∧ q s.2) (Triple.tryExcept ha (fun e he => ?_) fun e s he hs => ?_)
    fun b => ?_
  · rw [isAny_exception] at he
    simp only [he, if_true]
    exact hr e he
  · rw [isAny_exception] at he
    simp only [he, Bool.false_eq_true, if_false] at hs
    exact hs
  · rintro s ⟨rfl, hs⟩
    exact hs

/-- A dispatch that gets past `classify`. -/
theorem dispatch_spec {r : App.Routing σ} (hr : app.classify m = .ok r) {P : σ × Trace → Prop}
    {Q : Unit → σ × Trace → Prop} {E : PyExc → σ × Trace → Prop} (h : Triple P (app.traced.settle m r.traced) Q E) :
    Triple P (app.traced.dispatch m) Q E := by
  unfold App.dispatch
  refine triple_lift_ok ?_ h
  rw [classify_traced, hr]
  rfl

omit [Interpreter] in
/-- The trace of a run that starts with the empty one. -/
theorem trace_of_spec {c : Act (σ × Trace) Unit} (h : Triple (fun s => s.2 = []) c (fun _ s => q s.2) fun _ s => q s.2)
    (s : σ) : q (c (s, [])).2.2 := by
  have := h (s, []) rfl
  revert this
  rcases c (s, []) with ⟨_ | _, _⟩ <;> exact id

/-- What a dispatch leaves in the trace, from what its `try` and its `except` do. -/
theorem dispatch_trace {r : App.Routing σ} (hr : app.classify m = .ok r) (p' : PyExc → Trace → Prop) (q : Trace → Prop)
    (ha : Triple (fun s => s.2 = []) (app.traced.attempt m r.traced) (fun b s => b = false ∧ q s.2)
      fun e s => if e.isException then p' e s.2 else q s.2)
    (he : ∀ e, e.isException = true →
      Triple (fun s => p' e s.2) (app.traced.recover m r.traced e) (fun b s => b = false ∧ q s.2) fun _ s => q s.2)
    (s : σ) : q (app.traced.dispatch m (s, [])).2.2 :=
  trace_of_spec (dispatch_spec m hr
    (settle_spec m (q := q) ha he)) s

end Runtime

end BabelQueue
