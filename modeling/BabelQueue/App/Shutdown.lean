import Mathlib.Logic.Relation
import BabelQueue.Transports.InMemory

/-!
# Graceful shutdown (`consume`, `_on_shutdown_signal`)

`consume` one statement after the other, on the main thread and with its signal handlers. A signal
arrives between two statements or inside a call, and the deadline may pass at any time.

* `Consumer.next`: what a statement does; `Loop.throw`: where an exception goes from it.
* `Consumer.Step`: a statement, a signal or the deadline.
* `Calm`: no signal raises where the message in hand is not released for it, and no other exception
  leaves a call.
* `shutdown_settles`: no message is both settled and released; in a calm run each one is settled or
  released when `consume` has ended.

A settlement is one step: a signal does not raise while the phase is `_SETTLING`.
-/

namespace BabelQueue

open Py Py.Json

/-- `_ShutdownDeadline` -/
def shutdownDeadline : ExcClass := .defined (str "_ShutdownDeadline") .baseException

/-- `consume`, with the configuration it reads. -/
structure Consumer (σ η : Type) where
  app : App σ η
  queue : Str
  maxMessages : Option Nat
  /-- `shutdown_timeout <= 0` -/
  immediate : Bool

/-- The statement that is next. -/
inductive Stmt (σ η : Type)
  /-- `while …` -/
  | loop
  /-- `received = self.transport.pop(…)` -/
  | pop
  /-- `inflight = received` -/
  | keep (m : ReceivedMessage η)
  /-- `self._last_phase = _IDLE` -/
  | resetPhase (m : ReceivedMessage η)
  /-- `if self._stop.is_set()` -/
  | checkStop (m : ReceivedMessage η)
  /-- `inflight = None`, before a release -/
  | drop (m : ReceivedMessage η)
  /-- `self._release_unprocessed(received)` -/
  | handBack (m : ReceivedMessage η)
  /-- `dispatch`, before its `try` -/
  | classify (m : ReceivedMessage η)
  /-- The `try` of `dispatch`, up to its first phase. -/
  | start (m : ReceivedMessage η) (r : App.Routing σ)
  | poison (m : ReceivedMessage η) (r : App.Routing σ) (cause : Str)
  | unknown (m : ReceivedMessage η) (r : App.Routing σ)
  | invoke (m : ReceivedMessage η) (r : App.Routing σ) (handler : Handler σ)
  /-- `self._phase = _SETTLING`, after the handler -/
  | invoked (m : ReceivedMessage η) (r : App.Routing σ)
  /-- `self._phase = _SETTLING`, in the `except` -/
  | failed (m : ReceivedMessage η) (r : App.Routing σ) (exc : PyExc)
  | recover (m : ReceivedMessage η) (r : App.Routing σ) (exc : PyExc)
  | ack (m : ReceivedMessage η)
  /-- `self._last_phase = self._phase`, with the exception that is on its way -/
  | leave (m : ReceivedMessage η) (exc : Option PyExc)
  /-- `self._phase = _IDLE` -/
  | idle (m : ReceivedMessage η) (exc : Option PyExc)
  /-- `inflight = None`, after `dispatch` -/
  | dispatched (m : ReceivedMessage η)
  /-- `processed += 1` -/
  | count
  /-- `except KeyboardInterrupt` -/
  | interrupted
  /-- `self._release_unprocessed(inflight)` -/
  | release (m : ReceivedMessage η)
  /-- The `finally` of `consume`. -/
  | close (exc : Option PyExc)
  | ended (exc : Option PyExc)

namespace Stmt

variable {σ η : Type}

def isEnded : Stmt σ η → Bool
  | .ended _ => true
  | _ => false

/-- A call that a signal may leave halfway. -/
def isCall : Stmt σ η → Bool
  | .pop | .handBack _ | .invoke _ _ _ | .release _ => true
  | _ => false

end Stmt

/-- What became of a message that was popped. -/
structure Fate where
  settled : Bool
  released : Bool
  deriving DecidableEq

structure Loop (σ η : Type) where
  stmt : Stmt σ η
  world : σ
  /-- `self._stop` -/
  stop : Bool
  signalled : Bool
  deadlineHit : Bool
  /-- The deadline timer runs. -/
  timer : Bool
  phase : Phase
  lastPhase : Phase
  inflight : Option (ReceivedMessage η)
  processed : Nat
  /-- The messages that were popped, the last one first. -/
  fates : List Fate

namespace Loop

variable {σ η : Type} (c : Loop σ η)

/-- `self._on_shutdown_signal`: what it raises. -/
def onShutdownSignal (immediate : Bool) : Option PyExc × Loop σ η :=
  if c.deadlineHit then (if c.phase = .handling then some ⟨shutdownDeadline, []⟩ else none, c)
  else if c.stop && c.signalled then (if c.phase = .settling then none else some ⟨.keyboardInterrupt, []⟩, c)
  else if c.phase ≠ .handling then (none, { c with signalled := true, stop := true })
  else if immediate then (some ⟨shutdownDeadline, []⟩, { c with signalled := true, stop := true })
  else (none, { c with signalled := true, stop := true, timer := true })

/-- An exception that leaves `dispatch`. -/
def throwDispatch (m : ReceivedMessage η) (exc : PyExc) : Loop σ η :=
  if exc.isA shutdownDeadline then { c with stmt := .drop m }
  else if exc.isA .keyboardInterrupt then { c with stmt := .interrupted }
  else { c with stmt := .close (some exc) }

/-- An exception of the statement that is next. An `Exception` in the `try` of `dispatch` goes to its `except`. -/
def throw (exc : PyExc) : Loop σ η :=
  match c.stmt with
  | .start m r | .poison m r _ | .unknown m r | .invoke m r _ | .invoked m r =>
    { c with stmt := if exc.isException then .failed m r exc else .leave m (some exc) }
  | .failed m _ _ | .recover m _ _ | .ack m => { c with stmt := .leave m (some exc) }
  | .classify m | .leave m _ | .idle m _ => c.throwDispatch m exc
  | .interrupted | .release _ => { c with stmt := .close (some exc) }
  | .close _ | .ended _ => { c with stmt := .ended (some exc) }
  | _ => { c with stmt := if exc.isA .keyboardInterrupt then .interrupted else .close (some exc) }

/-- An exception of a signal does not lose the message in hand: there is none, or `inflight` has it and it will be
released. -/
def Guarded (exc : PyExc) : Prop :=
  match c.stmt with
  | .keep _ | .handBack _ | .release _ => False
  | .interrupted => c.inflight = none ∨ c.lastPhase = .settling
  | .resetPhase _ => c.lastPhase ≠ .settling ∧ exc.isA .keyboardInterrupt = true
  | .checkStop _ | .drop _ => exc.isA .keyboardInterrupt = true
  | _ => True

/-- The message in hand is settled. -/
def settle : Loop σ η := { c with fates := c.fates.modifyHead fun f => { f with settled := true } }

/-- The message in hand is released. -/
def release : Loop σ η := { c with fates := c.fates.modifyHead fun f => { f with released := true } }

/-- The state after a call that returns and does `f`, or raises. -/
def after {α : Type} (run : Except PyExc α × σ) (f : α → Loop σ η → Loop σ η) : Loop σ η :=
  match run with
  | (.ok a, w) => f a { c with world := w }
  | (.error exc, w) => { c with world := w }.throw exc

end Loop

namespace Consumer

variable [Interpreter] {σ η : Type} (k : Consumer σ η)

/-- What the next statement does. -/
def next (c : Loop σ η) : Loop σ η :=
  match c.stmt with
  | .loop => { c with stmt :=
      if c.stop = false ∧ ∀ n ∈ k.maxMessages, c.processed < n then .pop else .close none }
  | .pop => c.after (k.app.transport.pop k.queue c.world) fun received c =>
    match received with
    | none => { c with stmt := if k.maxMessages.isSome then .close none else .loop }
    | some m => { c with stmt := .keep m, fates := ⟨false, false⟩ :: c.fates }
  | .keep m => { c with stmt := .resetPhase m, inflight := some m }
  | .resetPhase m => { c with stmt := .checkStop m, lastPhase := .idle }
  | .checkStop m => { c with stmt := if c.stop then .drop m else .classify m }
  | .drop m => { c with stmt := .handBack m, inflight := none }
  | .handBack m => c.after (k.app.releaseUnprocessed m c.world) fun _ c => { c.release with stmt := .close none }
  | .classify m => c.after (k.app.classify m, c.world) fun r c => { c with stmt := .start m r }
  | .start m r =>
    match r.poisonCause, r.handler with
    | some cause, _ => { c with stmt := .poison m r cause, phase := .settling }
    | none, none => { c with stmt := .unknown m r, phase := .settling }
    | none, some handler => { c with stmt := .invoke m r handler, phase := .handling }
  | .poison m _ cause => c.after (k.app.routeBodyPoison m cause c.world) fun _ c => { c.settle with stmt := .leave m none }
  | .unknown m r => c.after (k.app.routeUnknown m r.urn r.envelope c.world) fun _ c =>
    { c.settle with stmt := .leave m none }
  | .invoke m r handler => c.after (k.app.invoke handler r.envelope c.world) fun _ c => { c with stmt := .invoked m r }
  | .invoked m _ => { c with stmt := .ack m, phase := .settling }
  | .failed m r exc => { c with stmt := .recover m r exc, phase := .settling }
  | .recover m r exc => c.after (k.app.recover m r exc c.world) fun _ c => { c.settle with stmt := .leave m none }
  | .ack m => c.after (k.app.ackSettled m c.world) fun _ c => { c.settle with stmt := .leave m none }
  | .leave m exc => { c with stmt := .idle m exc, lastPhase := c.phase }
  | .idle m none => { c with stmt := .dispatched m, phase := .idle }
  | .idle m (some exc) => { c with phase := .idle }.throwDispatch m exc
  | .dispatched _ => { c with stmt := .count, inflight := none }
  | .count => { c with stmt := .loop, processed := c.processed + 1 }
  | .interrupted =>
    match c.inflight with
    | some m => { c with stmt := if c.lastPhase = .settling then .close none else .release m }
    | none => { c with stmt := .close none }
  | .release m => c.after (k.app.releaseUnprocessed m c.world) fun _ c => { c.release with stmt := .close none }
  | .close exc => { c with stmt := .ended exc, timer := false, stop := false }
  | .ended _ => c


/-- What happens next. -/
inductive Event
  | run
  | signal
  | expire

/-- One step: a statement, a signal or the deadline. What a call has done when a signal interrupts it is arbitrary. -/
inductive Step : Loop σ η → Event → Loop σ η → Prop
  | run {c : Loop σ η} : c.stmt.isEnded = false → Step c .run (k.next c)
  | signal {c c' : Loop σ η} : c.stmt.isEnded = false → c.onShutdownSignal k.immediate = (none, c') → Step c .signal c'
  | raises {c c' : Loop σ η} {exc : PyExc} {w : σ} : c.stmt.isEnded = false →
      c.onShutdownSignal k.immediate = (some exc, c') → (c.stmt.isCall = true ∨ w = c.world) →
      Step c .signal ({ c' with world := w }.throw exc)
  | expire {c : Loop σ η} : c.timer = true → Step c .expire { c with deadlineHit := true, timer := false }

/-- The state when `consume` is called; a stop may have been requested, and the last phase is that of the call before. -/
def init (w : σ) (stop : Bool) (phase lastPhase : Phase) : Loop σ η where
  stmt := .loop
  world := w
  stop := stop
  signalled := false
  deadlineHit := false
  timer := false
  phase := phase
  lastPhase := lastPhase
  inflight := none
  processed := 0
  fates := []

/-- A run whose steps all meet `P`. -/
def Run (P : Loop σ η → Event → Prop) : Loop σ η → Loop σ η → Prop :=
  Relation.ReflTransGen fun c c' => ∃ event, k.Step c event c' ∧ P c event

/-- The calls of the next statement end as `consume` can handle it. -/
def Lands (c : Loop σ η) : Prop :=
  match c.stmt with
  | .classify m => ∃ r, k.app.classify m = .ok r
  | .poison m _ cause => ∀ exc, (k.app.routeBodyPoison m cause c.world).1 = .error exc → exc.isException = true
  | .unknown m r => ∀ exc, (k.app.routeUnknown m r.urn r.envelope c.world).1 = .error exc → exc.isException = true
  | .invoke _ r handler => ∀ exc, (k.app.invoke handler r.envelope c.world).1 = .error exc →
      exc.isException = true ∨ exc.isA .keyboardInterrupt = true
  | .recover m r exc => ∃ again, (k.app.recover m r exc c.world).1 = .ok again
  | .ack m => (k.app.ackSettled m c.world).1 = .ok ()
  | .handBack m | .release m => (k.app.releaseUnprocessed m c.world).1 = .ok ()
  | _ => True

/-- The condition of the guarantee: calls end as `consume` can handle it, and no signal raises where it cannot. -/
def Calm (c : Loop σ η) : Event → Prop
  | .run => k.Lands c
  | .signal => ∀ exc ∈ (c.onShutdownSignal k.immediate).1, c.Guarded exc
  | .expire => True

end Consumer

/-! ## The fates of the messages -/

section

variable {σ η : Type} {calm : Prop} {c c' : Loop σ η}

/-- Not both, and in a calm run one of the two. -/
def Fate.Fair (calm : Prop) (f : Fate) : Prop :=
  ¬ (f.settled = true ∧ f.released = true) ∧ (calm → f.settled = true ∨ f.released = true)

/-- No message is in hand. -/
def Loop.Closed (calm : Prop) (c : Loop σ η) : Prop := ∀ f ∈ c.fates, f.Fair calm

/-- The message in hand is neither settled nor released. -/
def Loop.Open (calm : Prop) (c : Loop σ η) : Prop := ∃ rest, c.fates = ⟨false, false⟩ :: rest ∧ ∀ f ∈ rest, f.Fair calm

/-- `consume` catches the exception of a signal. -/
def caughtAtLoop (exc : PyExc) : Prop := exc.isA shutdownDeadline = true ∨ exc.isA .keyboardInterrupt = true

/-- What is known before a statement. -/
def Loop.Inv (calm : Prop) (c : Loop σ η) : Prop :=
  match c.stmt with
  | .loop | .pop | .count => c.inflight = none ∧ c.Closed calm
  | .keep _ | .handBack _ => c.inflight = none ∧ c.Open calm
  | .resetPhase m => c.inflight = some m ∧ c.Open calm
  | .drop m => c.inflight = some m ∧ (calm → c.lastPhase ≠ .settling) ∧ c.Open calm
  | .checkStop m | .classify m | .start m _ | .invoked m _ | .failed m _ _ =>
    c.inflight = some m ∧ c.lastPhase ≠ .settling ∧ c.Open calm
  | .invoke m _ _ => c.inflight = some m ∧ c.lastPhase ≠ .settling ∧ c.phase = .handling ∧ c.Open calm
  | .poison m _ _ | .unknown m _ | .recover m _ _ | .ack m =>
    c.inflight = some m ∧ c.lastPhase ≠ .settling ∧ c.phase = .settling ∧ c.Open calm
  | .leave m none => c.inflight = some m ∧ c.phase = .settling ∧ c.Closed calm
  | .leave m (some exc) => c.inflight = some m ∧ c.Open calm ∧
      (calm → c.lastPhase ≠ .settling ∧ c.phase ≠ .settling ∧ caughtAtLoop exc)
  | .idle m none => c.inflight = some m ∧ c.phase = .settling ∧ c.lastPhase = .settling ∧ c.Closed calm
  | .idle m (some exc) => c.inflight = some m ∧ c.Open calm ∧ (calm → c.lastPhase ≠ .settling ∧ caughtAtLoop exc)
  | .dispatched m => c.inflight = some m ∧ c.lastPhase = .settling ∧ c.Closed calm
  | .interrupted =>
    if c.inflight.isSome = true ∧ c.lastPhase ≠ .settling then c.Open calm else c.Closed calm
  | .release _ => c.Open calm
  | .close _ | .ended _ => c.Closed calm

/-- Without the condition a message may be left behind. -/
theorem Loop.Open.closed (h : c.Open calm) (hn : ¬ calm) : c.Closed calm := by
  obtain ⟨rest, hf, hrest⟩ := h
  rw [Loop.Closed, hf]
  exact List.forall_mem_cons.mpr ⟨⟨by simp, fun hc => absurd hc hn⟩, hrest⟩

/-- Both are never true of one message. -/
theorem Loop.Inv.not_both (h : c.Inv calm) : ∀ f ∈ c.fates, ¬ (f.settled = true ∧ f.released = true) := by
  have hclosed : c.Closed calm → ∀ f ∈ c.fates, ¬ (f.settled = true ∧ f.released = true) := fun hc f hf => (hc f hf).1
  have hopen : c.Open calm → ∀ f ∈ c.fates, ¬ (f.settled = true ∧ f.released = true) := by
    rintro ⟨rest, hf, hrest⟩
    rw [hf]
    exact List.forall_mem_cons.mpr ⟨by simp, fun f hf => (hrest f hf).1⟩
  obtain ⟨stmt, _, _, _, _, _, phase, lastPhase, inflight, _, fates⟩ := c
  cases stmt with
  | loop | pop | count => exact hclosed h.2
  | keep _ | handBack _ | resetPhase _ => exact hopen h.2
  | drop _ | checkStop _ | classify _ | start _ _ | invoked _ _ | failed _ _ _ => exact hopen h.2.2
  | invoke _ _ _ | poison _ _ _ | unknown _ _ | recover _ _ _ | ack _ => exact hopen h.2.2.2
  | leave _ e =>
    cases e with
    | none => exact hclosed h.2.2
    | some e => exact hopen h.2.1
  | idle _ e =>
    cases e with
    | none => exact hclosed h.2.2.2
    | some e => exact hopen h.2.1
  | dispatched _ => exact hclosed h.2.2
  | interrupted =>
    dsimp only [Loop.Inv] at h
    split_ifs at h
    · exact hopen h
    · exact hclosed h
  | release _ => exact hopen h
  | close _ | ended _ => exact hclosed h

theorem Loop.Open.settle (h : c.Open calm) : c.settle.Closed calm := by
  obtain ⟨rest, hf, hrest⟩ := h
  rw [Loop.Closed, Loop.settle, hf]
  exact List.forall_mem_cons.mpr ⟨⟨by simp, fun _ => .inl rfl⟩, hrest⟩

theorem Loop.Open.release (h : c.Open calm) : c.release.Closed calm := by
  obtain ⟨rest, hf, hrest⟩ := h
  rw [Loop.Closed, Loop.release, hf]
  exact List.forall_mem_cons.mpr ⟨⟨by simp, fun _ => .inr rfl⟩, hrest⟩

/-- A signal raises outside a settlement only, and changes flags only. -/
theorem onShutdownSignal_spec {immediate : Bool} {raised : Option PyExc}
    (h : c.onShutdownSignal immediate = (raised, c')) :
    (c'.stmt = c.stmt ∧ c'.phase = c.phase ∧ c'.lastPhase = c.lastPhase ∧ c'.inflight = c.inflight ∧ c'.fates = c.fates) ∧
      ∀ exc ∈ raised, c.phase ≠ .settling ∧ caughtAtLoop exc ∧ exc.isException = false := by
  have hdeadline : caughtAtLoop ⟨shutdownDeadline, []⟩ ∧ PyExc.isException ⟨shutdownDeadline, []⟩ = false :=
    ⟨.inl (by decide), by decide⟩
  have hinterrupt : caughtAtLoop ⟨.keyboardInterrupt, []⟩ ∧ PyExc.isException ⟨.keyboardInterrupt, []⟩ = false :=
    ⟨.inr (by decide), by decide⟩
  unfold Loop.onShutdownSignal at h
  split_ifs at h with h₁ h₂ h₃ h₄ h₅ h₆ <;> cases h
  · refine ⟨⟨rfl, rfl, rfl, rfl, rfl⟩, ?_⟩
    rintro _ ⟨⟩
    exact ⟨by rw [h₂]; decide, hdeadline⟩
  · exact ⟨⟨rfl, rfl, rfl, rfl, rfl⟩, nofun⟩
  · exact ⟨⟨rfl, rfl, rfl, rfl, rfl⟩, nofun⟩
  · refine ⟨⟨rfl, rfl, rfl, rfl, rfl⟩, ?_⟩
    rintro _ ⟨⟩
    exact ⟨h₄, hinterrupt⟩
  · exact ⟨⟨rfl, rfl, rfl, rfl, rfl⟩, nofun⟩
  · refine ⟨⟨rfl, rfl, rfl, rfl, rfl⟩, ?_⟩
    rintro _ ⟨⟩
    exact ⟨fun hs => h₅ (by rw [hs]; decide), hdeadline⟩
  · exact ⟨⟨rfl, rfl, rfl, rfl, rfl⟩, nofun⟩

theorem Loop.Open.interrupted {m : ReceivedMessage η} (ho : c.Open calm) (hm : c.inflight = some m)
    (h : calm → c.lastPhase ≠ .settling) : Loop.Inv calm { c with stmt := .interrupted } := by
  show if _ then _ else _
  split_ifs with hl
  · exact ho
  · refine ho.closed fun hc => hl ⟨?_, h hc⟩
    rw [hm]
    rfl

theorem Loop.Closed.interrupted (hc : c.Closed calm) (h : c.inflight = none ∨ c.lastPhase = .settling) :
    Loop.Inv calm { c with stmt := .interrupted } := by
  show if _ then _ else _
  rw [if_neg]
  · exact hc
  · rintro ⟨hm, hl⟩
    exact h.elim (fun h => by rw [h] at hm; cases hm) hl

theorem Loop.Inv.throwDispatch {m : ReceivedMessage η} {exc : PyExc} (hm : c.inflight = some m) (ho : c.Open calm)
    (h : calm → c.lastPhase ≠ .settling ∧ caughtAtLoop exc) : (c.throwDispatch m exc).Inv calm := by
  unfold Loop.throwDispatch
  split_ifs with hd hk
  · exact ⟨hm, fun hc => (h hc).1, ho⟩
  · exact ho.interrupted hm fun hc => (h hc).1
  · exact ho.closed fun hc => (h hc).2.elim hd hk

/-- What is known after a signal has raised. -/
theorem Loop.Inv.throw {exc : PyExc} (h : c.Inv calm) (hphase : c.phase ≠ .settling) (hcaught : caughtAtLoop exc)
    (hexc : exc.isException = false) (hg : calm → c.Guarded exc) : (c.throw exc).Inv calm := by
  obtain ⟨stmt, w, stop, signalled, deadlineHit, timer, phase, lastPhase, inflight, processed, fates⟩ := c
  -- the message in hand and the exception go on to the `finally` of `dispatch`
  have hleave : ∀ {m}, inflight = some m → lastPhase ≠ .settling →
      Loop.Open calm ⟨stmt, w, stop, signalled, deadlineHit, timer, phase, lastPhase, inflight, processed, fates⟩ →
      Loop.Inv calm ⟨.leave m (some exc), w, stop, signalled, deadlineHit, timer, phase, lastPhase, inflight, processed, fates⟩ :=
    fun hm hl ho => ⟨hm, ho, fun _ => ⟨hl, hphase, hcaught⟩⟩
  cases stmt with
  | loop | pop | count =>
    dsimp only [Loop.throw]
    split_ifs
    · exact Loop.Closed.interrupted h.2 (.inl h.1)
    · exact h.2
  | dispatched m =>
    dsimp only [Loop.throw]
    split_ifs
    · exact Loop.Closed.interrupted h.2.2 (.inr h.2.1)
    · exact h.2.2
  | keep m | handBack m =>
    dsimp only [Loop.throw]
    split_ifs
    · exact Loop.Closed.interrupted (h.2.closed hg) (.inl h.1)
    · exact h.2.closed hg
  | resetPhase m =>
    dsimp only [Loop.throw]
    split_ifs with hk
    · exact Loop.Open.interrupted h.2 h.1 fun hc => (hg hc).1
    · exact h.2.closed fun hc => hk (hg hc).2
  | checkStop m =>
    dsimp only [Loop.throw]
    split_ifs with hk
    · exact Loop.Open.interrupted h.2.2 h.1 fun _ => h.2.1
    · exact h.2.2.closed fun hc => hk (hg hc)
  | drop m =>
    dsimp only [Loop.throw]
    split_ifs with hk
    · exact Loop.Open.interrupted h.2.2 h.1 h.2.1
    · exact h.2.2.closed fun hc => hk (hg hc)
  | classify m => exact Loop.Inv.throwDispatch h.1 h.2.2 fun _ => ⟨h.2.1, hcaught⟩
  | start m r | invoked m r =>
    dsimp only [Loop.throw]
    rw [hexc]
    exact hleave h.1 h.2.1 h.2.2
  | invoke m r handler =>
    dsimp only [Loop.throw]
    rw [hexc]
    exact hleave h.1 h.2.1 h.2.2.2
  | failed m r e => exact hleave h.1 h.2.1 h.2.2
  | poison m r cause | unknown m r | recover m r e | ack m => exact absurd h.2.2.1 hphase
  | leave m e =>
    cases e with
    | none => exact absurd h.2.1 hphase
    | some e => exact Loop.Inv.throwDispatch h.1 h.2.1 fun hc => ⟨(h.2.2 hc).1, hcaught⟩
  | idle m e =>
    cases e with
    | none => exact absurd h.2.1 hphase
    | some e => exact Loop.Inv.throwDispatch h.1 h.2.1 fun hc => ⟨(h.2.2 hc).1, hcaught⟩
  | interrupted =>
    dsimp only [Loop.Inv] at h
    split_ifs at h with hl
    · refine Loop.Open.closed h fun hc => (hg hc).elim (fun hi => ?_) hl.2
      dsimp only at hi
      rw [hi] at hl
      cases hl.1
    · exact h
  | release m => exact Loop.Open.closed h hg
  | close e | ended e => exact h

theorem Loop.Inv.after {α : Type} {run : Except PyExc α × σ} {f : α → Loop σ η → Loop σ η}
    (hok : ∀ a w, run = (.ok a, w) → (f a { c with world := w }).Inv calm)
    (herror : ∀ exc w, run = (.error exc, w) → (({ c with world := w } : Loop σ η).throw exc).Inv calm) :
    (c.after run f).Inv calm := by
  unfold Loop.after
  split
  · exact hok _ _ rfl
  · exact herror _ _ rfl

/-! ## Runs -/

variable [Interpreter] {k : Consumer σ η}

/-- What is known after a statement. -/
theorem Loop.Inv.next (h : c.Inv calm) (hl : calm → k.Lands c) : (k.next c).Inv calm := by
  obtain ⟨stmt, w, stop, signalled, deadlineHit, timer, phase, lastPhase, inflight, processed, fates⟩ := c
  cases stmt with
  | loop =>
    dsimp only [Consumer.next]
    split_ifs
    · exact h
    · exact h.2
  | pop =>
    refine Loop.Inv.after (fun received w' _ => ?_) fun exc w' _ => ?_
    · cases received with
      | none =>
        dsimp only
        split_ifs
        · exact h.2
        · exact h
      | some m => exact ⟨h.1, fates, rfl, h.2⟩
    · dsimp only [Loop.throw]
      split_ifs
      · exact Loop.Closed.interrupted h.2 (.inl h.1)
      · exact h.2
  | keep m => exact ⟨rfl, h.2⟩
  | resetPhase m => exact ⟨h.1, Phase.noConfusion, h.2⟩
  | checkStop m =>
    dsimp only [Consumer.next]
    split_ifs
    · exact ⟨h.1, fun _ => h.2.1, h.2.2⟩
    · exact h
  | drop m => exact ⟨rfl, h.2.2⟩
  | handBack m =>
    refine Loop.Inv.after (fun _ w' _ => Loop.Open.release h.2) fun exc w' hrun => ?_
    have hn : ¬ calm := fun hc => by
      have hok : (k.app.releaseUnprocessed m w).1 = .ok () := hl hc
      rw [hrun] at hok
      cases hok
    dsimp only [Loop.throw]
    split_ifs
    · exact Loop.Closed.interrupted (Loop.Open.closed h.2 hn) (.inl h.1)
    · exact Loop.Open.closed h.2 hn
  | classify m =>
    refine Loop.Inv.after (fun r w' _ => h) fun exc w' hrun => ?_
    have hn : ¬ calm := fun hc => by
      obtain ⟨r, hr⟩ := hl hc
      rw [hr] at hrun
      cases hrun
    exact Loop.Inv.throwDispatch h.1 h.2.2 fun hc => absurd hc hn
  | start m r =>
    dsimp only [Consumer.next]
    split
    · exact ⟨h.1, h.2.1, rfl, h.2.2⟩
    · exact ⟨h.1, h.2.1, rfl, h.2.2⟩
    · exact ⟨h.1, h.2.1, rfl, h.2.2⟩
  | poison m r cause =>
    refine Loop.Inv.after (fun _ w' _ => ⟨h.1, h.2.2.1, Loop.Open.settle h.2.2.2⟩) fun exc w' hrun => ?_
    dsimp only [Loop.throw]
    split_ifs with he
    · exact ⟨h.1, h.2.1, h.2.2.2⟩
    · exact ⟨h.1, h.2.2.2, fun hc => absurd (hl hc exc (congrArg Prod.fst hrun)) he⟩
  | unknown m r =>
    refine Loop.Inv.after (fun _ w' _ => ⟨h.1, h.2.2.1, Loop.Open.settle h.2.2.2⟩) fun exc w' hrun => ?_
    dsimp only [Loop.throw]
    split_ifs with he
    · exact ⟨h.1, h.2.1, h.2.2.2⟩
    · exact ⟨h.1, h.2.2.2, fun hc => absurd (hl hc exc (congrArg Prod.fst hrun)) he⟩
  | invoke m r handler =>
    refine Loop.Inv.after (fun _ w' _ => ⟨h.1, h.2.1, h.2.2.2⟩) fun exc w' hrun => ?_
    dsimp only [Loop.throw]
    split_ifs with he
    · exact ⟨h.1, h.2.1, h.2.2.2⟩
    · refine ⟨h.1, h.2.2.2, fun hc => ⟨h.2.1, ?_, ?_⟩⟩
      · rw [h.2.2.1]
        exact Phase.noConfusion
      · exact .inr ((hl hc exc (congrArg Prod.fst hrun)).resolve_left he)
  | invoked m r => exact ⟨h.1, h.2.1, rfl, h.2.2⟩
  | failed m r e => exact ⟨h.1, h.2.1, rfl, h.2.2⟩
  | recover m r e =>
    refine Loop.Inv.after (fun _ w' _ => ⟨h.1, h.2.2.1, Loop.Open.settle h.2.2.2⟩) fun exc w' hrun => ?_
    refine ⟨h.1, h.2.2.2, fun hc => ?_⟩
    obtain ⟨again, hok⟩ := hl hc
    rw [hrun] at hok
    cases hok
  | ack m =>
    refine Loop.Inv.after (fun _ w' _ => ⟨h.1, h.2.2.1, Loop.Open.settle h.2.2.2⟩) fun exc w' hrun => ?_
    refine ⟨h.1, h.2.2.2, fun hc => ?_⟩
    have hok : (k.app.ackSettled m w).1 = .ok () := hl hc
    rw [hrun] at hok
    cases hok
  | leave m e =>
    cases e with
    | none => exact ⟨h.1, h.2.1, h.2.1, h.2.2⟩
    | some e => exact ⟨h.1, h.2.1, fun hc => (h.2.2 hc).2⟩
  | idle m e =>
    cases e with
    | none => exact ⟨h.1, h.2.2.1, h.2.2.2⟩
    | some e => exact Loop.Inv.throwDispatch h.1 h.2.1 h.2.2
  | dispatched m => exact ⟨rfl, h.2.2⟩
  | count => exact h
  | interrupted =>
    dsimp only [Loop.Inv] at h
    cases inflight with
    | none =>
      rw [if_neg (by simp)] at h
      exact h
    | some m =>
      dsimp only [Consumer.next]
      split_ifs with hs
      · rw [if_neg (by simp [hs])] at h
        exact h
      · rw [if_pos ⟨rfl, hs⟩] at h
        exact h
  | release m =>
    refine Loop.Inv.after (fun _ w' _ => Loop.Open.release h) fun exc w' hrun => Loop.Open.closed h fun hc => ?_
    have hok : (k.app.releaseUnprocessed m w).1 = .ok () := hl hc
    rw [hrun] at hok
    cases hok
  | close e | ended e => exact h

omit [Interpreter] in
/-- What is known stays known when flags change. -/
theorem Loop.Inv.congr (h : c.Inv calm) (hc : c'.stmt = c.stmt ∧ c'.phase = c.phase ∧ c'.lastPhase = c.lastPhase ∧
    c'.inflight = c.inflight ∧ c'.fates = c.fates) : c'.Inv calm := by
  obtain ⟨stmt, _, _, _, _, _, phase, lastPhase, inflight, _, fates⟩ := c
  obtain ⟨stmt', _, _, _, _, _, phase', lastPhase', inflight', _, fates'⟩ := c'
  obtain ⟨h₁, h₂, h₃, h₄, h₅⟩ := hc
  dsimp only at h₁ h₂ h₃ h₄ h₅
  subst h₁ h₂ h₃ h₄ h₅
  exact h

theorem Consumer.Step.inv {event : Consumer.Event} (hs : k.Step c event c') (h : c.Inv calm) (hc : calm → k.Calm c event) :
    c'.Inv calm := by
  cases hs with
  | run _ => exact h.next hc
  | signal _ hsig => exact h.congr (onShutdownSignal_spec hsig).1
  | @raises c₁ exc w _ hsig _ =>
    obtain ⟨hflags, hraised⟩ := onShutdownSignal_spec hsig
    obtain ⟨hphase, hcaught, hexc⟩ := hraised exc rfl
    have h₁ : Loop.Inv calm { c₁ with world := w } := h.congr hflags
    refine h₁.throw ?_ hcaught hexc fun hcalm => ?_
    · exact fun e => hphase (hflags.2.1 ▸ e)
    · have hg := hc hcalm exc (by rw [hsig]; rfl)
      unfold Loop.Guarded at hg ⊢
      rw [← hflags.1, ← hflags.2.2.1, ← hflags.2.2.2.1] at hg
      exact hg
  | expire _ => exact h.congr ⟨rfl, rfl, rfl, rfl, rfl⟩

theorem Consumer.Run.inv {P : Loop σ η → Consumer.Event → Prop} (hP : ∀ c event, P c event → calm → k.Calm c event)
    (hr : k.Run P c c') (h : c.Inv calm) : c'.Inv calm := by
  induction hr with
  | refl => exact h
  | tail _ hs ih =>
    obtain ⟨event, hstep, hp⟩ := hs
    exact hstep.inv ih (hP _ event hp)

/-- In no run a message is both settled and released. In a run that meets the condition each one is settled or released
when `consume` has ended. -/
theorem shutdown_settles (k : Consumer σ η) (w : σ) (stop : Bool) (phase lastPhase : Phase) :
    (∀ c, k.Run (fun _ _ => True) (Consumer.init w stop phase lastPhase) c →
      ∀ f ∈ c.fates, ¬ (f.settled = true ∧ f.released = true)) ∧
    ∀ c exc, k.Run k.Calm (Consumer.init w stop phase lastPhase) c → c.stmt = .ended exc →
      ∀ f ∈ c.fates, f.settled = true ∨ f.released = true := by
  have hinit : ∀ calm, (Consumer.init w stop phase lastPhase : Loop σ η).Inv calm := fun _ => ⟨rfl, nofun⟩
  refine ⟨fun c hr f hf => ?_, fun c exc hr hended f hf => ?_⟩
  · exact (hr.inv (fun _ _ _ hc => hc.elim) (hinit False)).not_both f hf
  · have hinv := hr.inv (fun _ _ hc _ => hc) (hinit True)
    unfold Loop.Inv at hinv
    rw [hended] at hinv
    exact (hinv f hf).2 trivial

end

section CPython

attribute [local instance] cpython

def ordersConsumer : Consumer InMemory Unit := ⟨InMemory.app, str "orders", none, false⟩

/-- A queue with one message. -/
def oneOrder : InMemory := [(str "orders", [(str "hello", [])])]

/-- A message that arrives after the first signal is in hand, and is about to be released. -/
def handingBack : Loop InMemory Unit where
  stmt := .handBack (popped [] (str "hello") (str "orders") () [])
  world := [(str "orders", [])]
  stop := true
  signalled := true
  deadlineHit := false
  timer := false
  phase := .idle
  lastPhase := .idle
  inflight := none
  processed := 0
  fates := [⟨false, false⟩]

theorem run_handingBack {P : Loop InMemory Unit → Consumer.Event → Prop} (hrun : ∀ c, ordersConsumer.Lands c → P c .run)
    (hsignal : ∀ c, (c.onShutdownSignal false).1 = none → P c .signal) :
    ordersConsumer.Run P (Consumer.init oneOrder false .idle .idle) handingBack := by
  refine .head ⟨.run, .run rfl, hrun _ trivial⟩ ?_
  refine .head ⟨.signal, .signal rfl rfl, hsignal _ rfl⟩ ?_
  refine .head ⟨.run, .run rfl, hrun _ trivial⟩ ?_
  refine .head ⟨.run, .run rfl, hrun _ trivial⟩ ?_
  refine .head ⟨.run, .run rfl, hrun _ trivial⟩ ?_
  refine .head ⟨.run, .run rfl, hrun _ trivial⟩ ?_
  exact .single ⟨.run, .run rfl, hrun _ trivial⟩

/-- Without a second signal it is released. -/
theorem shutdown_settles_order : ∃ c exc, ordersConsumer.Run ordersConsumer.Calm (Consumer.init oneOrder false .idle .idle) c ∧
    c.stmt = .ended exc ∧ c.fates ≠ [] ∧ ∀ f ∈ c.fates, f.settled = true ∨ f.released = true := by
  have hreturns : (ordersConsumer.app.releaseUnprocessed (popped [] (str "hello") (str "orders") () [])
      handingBack.world).1 = .ok () := rfl
  have hreached : ordersConsumer.Run ordersConsumer.Calm (Consumer.init oneOrder false .idle .idle) handingBack :=
    run_handingBack (fun _ h => h) fun c h exc he => nomatch h.symm.trans he
  have hended := (hreached.tail ⟨.run, .run rfl, hreturns⟩).tail ⟨.run, .run rfl, trivial⟩
  have hfates : (ordersConsumer.next (ordersConsumer.next handingBack)).fates = [⟨false, true⟩] := rfl
  exact ⟨_, none, hended, rfl, hfates ▸ List.cons_ne_nil _ _, (shutdown_settles ordersConsumer oneOrder false .idle .idle).2 _ none hended rfl⟩

/-- A second signal between `inflight = None` and the release leaves it behind. -/
theorem shutdown_strands : ¬ ∀ c exc, ordersConsumer.Run (fun _ _ => True) (Consumer.init oneOrder false .idle .idle) c →
    c.stmt = .ended exc → ∀ f ∈ c.fates, f.settled = true ∨ f.released = true := by
  intro h
  have hreached := run_handingBack (P := fun _ _ => True) (fun _ _ => trivial) fun _ _ => trivial
  have hended := ((hreached.tail ⟨.signal, .raises rfl rfl (.inr rfl), trivial⟩).tail ⟨.run, .run rfl, trivial⟩).tail
    ⟨.run, .run rfl, trivial⟩
  have hlost := h _ none hended rfl ⟨false, false⟩ (List.mem_singleton_self _)
  exact absurd hlost (by decide)

end CPython

end BabelQueue
