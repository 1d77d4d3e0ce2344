import Mathlib.Logic.Relation
import BabelQueue.App.Simulation

/-!
# The dead-letter observer

`app.noted wrote` is `app` with a log of its dead-letter writes and of the calls of its observer; `wrote`
says whether a write, from a state, puts its record on the queue.

* `Told`: what the log is made of; `dispatch_noted`: each dispatch keeps it, and the log changes nothing.
* `Matched`: each record written is told to the observer once, and nothing else is.
* `Told.matched_iff`: the log is matched if and only if exactly the writes that return wrote.
* `dispatch_silenced`: whether the observer raises does not matter.
-/

namespace BabelQueue

open Py Py.Json

inductive LetterEvent
  /-- A dead-letter write: whether the call returned, and whether the record was written. -/
  | write (queue : Str) (returned wrote : Bool)
  /-- A native dead-letter that was reported as `True`. -/
  | native
  /-- A call of the observer. -/
  | notice (event : DeadLetterEvent)

abbrev LetterLog := List LetterEvent

variable {σ η α : Type}

/-- `c`, with what it adds to the log. -/
def note (events : Except PyExc α → σ → LetterLog) (c : Act σ α) : Act (σ × LetterLog) α := fun s =>
  ((c s.1).1, (c s.1).2, s.2 ++ events (c s.1).1 s.1)

/-- `c`, which adds nothing. -/
def unnoted (c : Act σ α) : Act (σ × LetterLog) α := fun s => ((c s.1).1, (c s.1).2, s.2)

namespace App

/-- The write of `_write_dead_letter`. -/
def writeRecord (app : App σ η) (m : ReceivedMessage η) (queue body : Str) : Act σ Unit :=
  match app.transport.deadLetter with
  | some deadLetter => deadLetter m queue body
  | none => do
    app.publishFor m queue body
    app.ackSettled m

theorem writeDeadLetter_eq (app : App σ η) (m : ReceivedMessage η) (queue body : Str) (sourceQueue : Option Str) (reason : Str) :
    app.writeDeadLetter m queue body sourceQueue reason =
      (do app.writeRecord m queue body; app.notifyDeadLetter ⟨orStr sourceQueue m.queue, queue, reason⟩) := by
  unfold writeDeadLetter writeRecord
  cases app.transport.deadLetter with
  | some deadLetter => rfl
  | none =>
    funext s
    simp only [Act.bind_run]
    rcases app.publishFor m queue body s with ⟨_ | _, _⟩ <;> rfl

/-- `app`, with the log. The record is written by one call, whatever the transport. -/
def noted (app : App σ η) (wrote : ReceivedMessage η → Str → Str → σ → Bool) : App (σ × LetterLog) η where
  transport :=
    { classifiesPoison := app.transport.classifiesPoison
      retryTiersMs := app.transport.retryTiersMs
      publish := fun queue body => unnoted (app.transport.publish queue body)
      pop := fun queue => unnoted (app.transport.pop queue)
      ack := fun m => unnoted (app.transport.ack m)
      publishRouted := app.transport.publishRouted.map fun c queue body route => unnoted (c queue body route)
      publishSettle := app.transport.publishSettle.map fun c queue body route key => unnoted (c queue body route key)
      redeliver := app.transport.redeliver.map fun c m body delay => unnoted (c m body delay)
      deadLetter := some fun m queue body =>
        note (fun r s => [.write queue r.toBool (wrote m queue body s)]) (app.writeRecord m queue body)
      rewind := app.transport.rewind.map fun c m => unnoted (c m)
      abandon := app.transport.abandon.map fun c m => unnoted (c m)
      deadLetterQueueName := app.transport.deadLetterQueueName
      settleNative := app.transport.settleNative.map fun c m reason description => unnoted (c m reason description)
      settleNativeDeadLetter := app.transport.settleNativeDeadLetter.map fun c m reason description =>
        note (fun r _ => match r with | .ok true => [.native] | _ => []) (c m reason description) }
  handlers := app.handlers.mapValues fun handler data metaBlock envelope => unnoted (handler data metaBlock envelope)
  onUnknownUrn := app.onUnknownUrn
  maxAttempts := app.maxAttempts
  deadLetterEnabled := app.deadLetterEnabled
  deadLetterQueue := app.deadLetterQueue
  deadLetterSuffix := app.deadLetterSuffix
  retryDelay := app.retryDelay
  unknownUrnReleaseDelay := app.unknownUrnReleaseDelay
  deadLetterObserver := app.deadLetterObserver.map fun observer event => note (fun _ _ => [.notice event]) (observer event)
  now s := app.now s.1
  setPhase p s := (app.setPhase p s.1, s.2)
  endPhase s := (app.endPhase s.1, s.2)

end App

/-! ## The log -/

/-- What the log is made of: the observer is told of each write that returns, and of each native
dead-letter, with nothing in between. -/
inductive Told : LetterLog → Prop
  | nil : Told []
  | returned {log : LetterLog} (h : Told log) {queue : Str} (wrote : Bool) {event : DeadLetterEvent}
      (hq : event.deadLetterQueue = queue) : Told (log ++ [.write queue true wrote, .notice event])
  | raised {log : LetterLog} (h : Told log) (queue : Str) (wrote : Bool) : Told (log ++ [.write queue false wrote])
  | native {log : LetterLog} (h : Told log) (event : DeadLetterEvent) : Told (log ++ [.native, .notice event])

/-- Each record that was written, or dead-lettered natively, is told to the observer, once, and
the observer is told of nothing else. -/
inductive Matched : LetterLog → Prop
  | nil : Matched []
  | written {log : LetterLog} (h : Matched log) (queue : Str) (returned : Bool) {event : DeadLetterEvent}
      (hq : event.deadLetterQueue = queue) : Matched (log ++ [.write queue returned true, .notice event])
  | nothing {log : LetterLog} (h : Matched log) (queue : Str) (returned : Bool) :
      Matched (log ++ [.write queue returned false])
  | native {log : LetterLog} (h : Matched log) (event : DeadLetterEvent) : Matched (log ++ [.native, .notice event])

theorem matched_notice {log : LetterLog} {e : LetterEvent} {event : DeadLetterEvent} :
    Matched (log ++ [e, .notice event]) ↔
      Matched log ∧ ((∃ returned, e = .write event.deadLetterQueue returned true) ∨ e = .native) := by
  constructor
  · intro h
    generalize hl : log ++ [e, .notice event] = log' at h
    have hlast : ∀ {l : LetterLog} {a b : LetterEvent}, log ++ [e, .notice event] = l ++ [a, b] →
        log = l ∧ e = a ∧ .notice event = b := by
      intro l a b he
      obtain ⟨rfl, h2⟩ := List.append_inj' he rfl
      simpa using h2
    cases h with
    | nil => simp at hl
    | written h queue returned hq =>
      obtain ⟨rfl, rfl, h3⟩ := hlast hl
      cases h3
      exact ⟨h, .inl ⟨returned, by rw [hq]⟩⟩
    | nothing h queue returned =>
      rw [show log ++ [e, .notice event] = (log ++ [e]) ++ [.notice event] by simp] at hl
      have := List.append_inj' hl rfl
      simp at this
    | native h event' =>
      obtain ⟨rfl, rfl, -⟩ := hlast hl
      exact ⟨h, .inr rfl⟩
  · rintro ⟨h, ⟨returned, rfl⟩ | rfl⟩
    · exact h.written _ _ rfl
    · exact h.native _

theorem matched_write {log : LetterLog} {queue : Str} {returned wrote : Bool} :
    Matched (log ++ [.write queue returned wrote]) ↔ Matched log ∧ wrote = false := by
  constructor
  · intro h
    generalize hl : log ++ [.write queue returned wrote] = log' at h
    have hnotice : ∀ {l : LetterLog} {a : LetterEvent} {event : DeadLetterEvent},
        log ++ [.write queue returned wrote] ≠ l ++ [a, .notice event] := by
      intro l a event he
      rw [show l ++ [a, .notice event] = (l ++ [a]) ++ [.notice event] by simp] at he
      have := List.append_inj' he rfl
      simp at this
    cases h with
    | nil => simp at hl
    | written => exact absurd hl hnotice
    | nothing h =>
      obtain ⟨rfl, h2⟩ := List.append_inj' hl rfl
      simp only [List.cons.injEq, LetterEvent.write.injEq, and_true] at h2
      exact ⟨h, h2.2.2⟩
    | native => exact absurd hl hnotice
  · rintro ⟨h, rfl⟩
    exact h.nothing _ _

/-- Exactly the writes that return wrote their record. -/
def Honest (log : LetterLog) : Prop := ∀ queue returned wrote, .write queue returned wrote ∈ log → returned = wrote

theorem honest_append {log log' : LetterLog} : Honest (log ++ log') ↔ Honest log ∧ Honest log' := by
  unfold Honest
  simp only [List.mem_append]
  exact ⟨fun h => ⟨fun q r w hm => h q r w (.inl hm), fun q r w hm => h q r w (.inr hm)⟩,
    fun h q r w hm => hm.elim (h.1 q r w) (h.2 q r w)⟩

theorem honest_write {queue : Str} {returned wrote : Bool} : Honest [.write queue returned wrote] ↔ returned = wrote := by
  refine ⟨fun h => h queue returned wrote (by simp), ?_⟩
  rintro h q r w hm
  cases List.mem_singleton.mp hm
  exact h

theorem honest_notice {event : DeadLetterEvent} : Honest [.notice event] := by
  intro q r w hm
  cases List.mem_singleton.mp hm

theorem honest_native : Honest [.native] := by
  intro q r w hm
  cases List.mem_singleton.mp hm

/-- When the observer is told of exactly what was written. -/
theorem Told.matched_iff {log : LetterLog} (h : Told log) : Matched log ↔ Honest log := by
  induction h with
  | nil => simp [Matched.nil, Honest]
  | @returned log _ queue wrote event hq ih =>
    have hlog : Honest (log ++ [.write queue true wrote, .notice event]) ↔ Honest log ∧ true = wrote := by
      rw [show log ++ [.write queue true wrote, .notice event] = log ++ [.write queue true wrote] ++ [.notice event] by simp,
        honest_append, honest_append, honest_write, and_iff_left honest_notice]
    rw [matched_notice, hlog, ih, hq]
    simp [eq_comm]
  | raised _ queue wrote ih =>
    rw [matched_write, honest_append, ih, honest_write]
    simp [eq_comm]
  | @native log _ event ih =>
    have hlog : Honest (log ++ [.native, .notice event]) ↔ Honest log := by
      rw [show log ++ [.native, .notice event] = log ++ [.native] ++ [.notice event] by simp,
        honest_append, honest_append, and_iff_left honest_notice, and_iff_left honest_native]
    rw [matched_notice, hlog, ih]
    simp

/-! ## A dispatch -/

section Interpreter

variable [Interpreter]

/-- The states of `app` and of `app.noted wrote`: the same, beside a log of that form. -/
def Beside (s : σ) (s' : σ × LetterLog) : Prop := s'.1 = s ∧ Told s'.2

omit [Interpreter] in
theorem unnoted_sim (c : Act σ α) : Sim Beside c (unnoted c) := by
  rintro s ⟨s', log⟩ ⟨rfl, h⟩
  exact ⟨rfl, rfl, h⟩

variable {app : App σ η} (m : ReceivedMessage η) (wrote : ReceivedMessage η → Str → Str → σ → Bool)

omit [Interpreter] in
theorem ackSettled_noted : Sim Beside (app.ackSettled m) ((app.noted wrote).ackSettled m) :=
  Sim.tryExcept (unnoted_sim _) fun _ => Sim.pure ()

omit [Interpreter] in
theorem publishFor_noted (queue body : Str) :
    Sim Beside (app.publishFor m queue body) ((app.noted wrote).publishFor m queue body) := by
  unfold App.publishFor publishKeepingRoute App.noted
  dsimp only
  cases app.transport.publishSettle with
  | some c => exact unnoted_sim _
  | none =>
    cases app.transport.publishRouted with
    | some c => exact Sim.ite (unnoted_sim _) (unnoted_sim _)
    | none => exact unnoted_sim _

theorem release_noted (body : Str) (delay : Float64) :
    Sim Beside (app.release m body delay) ((app.noted wrote).release m body delay) := by
  have hr : (app.noted wrote).transport.redeliver =
      app.transport.redeliver.map fun c m body delay => unnoted (c m body delay) := rfl
  unfold App.release
  rw [hr]
  cases app.transport.redeliver with
  | some redeliver => exact unnoted_sim _
  | none =>
    exact Sim.bind (Sim.lift _) fun _ => Sim.bind (publishFor_noted m wrote _ _) fun _ => ackSettled_noted m wrote

omit [Interpreter] in
theorem rewindUnsettled_noted : Sim Beside (app.rewindUnsettled m) ((app.noted wrote).rewindUnsettled m) := by
  have hr : (app.noted wrote).transport.rewind = app.transport.rewind.map fun c m => unnoted (c m) := rfl
  unfold App.rewindUnsettled
  rw [hr]
  cases app.transport.rewind with
  | none => exact Sim.pure ()
  | some rewind => exact Sim.tryExcept (unnoted_sim _) fun _ => Sim.pure ()

omit [Interpreter] in
theorem abandonUnsettled_noted : Sim Beside (app.abandonUnsettled m) ((app.noted wrote).abandonUnsettled m) := by
  have hr : (app.noted wrote).transport.rewind = app.transport.rewind.map fun c m => unnoted (c m) := rfl
  have ha : (app.noted wrote).transport.abandon = app.transport.abandon.map fun c m => unnoted (c m) := rfl
  unfold App.abandonUnsettled
  rw [hr, ha]
  cases app.transport.rewind with
  | some rewind => exact rewindUnsettled_noted m wrote
  | none =>
    cases app.transport.abandon with
    | none => exact rewindUnsettled_noted m wrote
    | some abandon => exact Sim.tryExcept (unnoted_sim _) fun _ => Sim.pure ()

omit [Interpreter] in
/-- The observer is called once, and that is noted. -/
theorem notifyDeadLetter_noted {observer : DeadLetterEvent → Act σ Unit} (ho : app.deadLetterObserver = some observer)
    (event : DeadLetterEvent) (s : σ) (log : LetterLog) :
    (app.noted wrote).notifyDeadLetter event (s, log) =
      ((app.notifyDeadLetter event s).1, (app.notifyDeadLetter event s).2, log ++ [.notice event]) := by
  unfold App.notifyDeadLetter
  simp only [App.noted, ho, Option.map]
  unfold Act.tryExcept note
  rcases observer event s with ⟨e | _, s'⟩
  · dsimp only
    split <;> rfl
  · rfl

omit [Interpreter] in
theorem writeDeadLetter_noted {observer : DeadLetterEvent → Act σ Unit} (ho : app.deadLetterObserver = some observer)
    (queue body : Str) (sourceQueue : Option Str) (reason : Str) :
    Sim Beside (app.writeDeadLetter m queue body sourceQueue reason)
      ((app.noted wrote).writeDeadLetter m queue body sourceQueue reason) := by
  rintro s ⟨s', log⟩ ⟨rfl, hlog⟩
  rw [App.writeDeadLetter_eq, App.writeDeadLetter_eq]
  have hw : (app.noted wrote).writeRecord m queue body =
      note (fun r s => [.write queue r.toBool (wrote m queue body s)]) (app.writeRecord m queue body) := rfl
  rw [hw, Act.bind_run, Act.bind_run]
  unfold note
  rcases app.writeRecord m queue body s' with ⟨e | _, t⟩
  · exact ⟨rfl, rfl, hlog.raised queue _⟩
  · dsimp only
    rw [notifyDeadLetter_noted wrote ho, List.append_assoc]
    exact ⟨rfl, rfl, hlog.returned _ rfl⟩

omit [Interpreter] in
theorem settleNative_noted {observer : DeadLetterEvent → Act σ Unit} (ho : app.deadLetterObserver = some observer)
    (reason description : Str) :
    Sim Beside (app.settleNative m reason description) ((app.noted wrote).settleNative m reason description) := by
  have hd : (app.noted wrote).transport.settleNativeDeadLetter =
      app.transport.settleNativeDeadLetter.map fun c m reason description =>
        note (fun r _ => match r with | .ok true => [.native] | _ => []) (c m reason description) := rfl
  have hs : (app.noted wrote).transport.settleNative =
      app.transport.settleNative.map fun c m reason description => unnoted (c m reason description) := rfl
  unfold App.settleNative
  rw [hd, hs]
  cases app.transport.settleNativeDeadLetter with
  | some settle =>
    refine Sim.bind (Sim.tryExcept ?_ fun _ => Sim.pure ()) fun _ => Sim.pure true
    rintro s ⟨s', log⟩ ⟨rfl, hlog⟩
    rw [Act.bind_run, Act.bind_run]
    unfold note
    dsimp only
    generalize settle m reason description s' = ended
    rcases ended with ⟨e | b, t⟩
    · exact ⟨rfl, rfl, by simpa using hlog⟩
    · cases b with
      | false => exact ⟨rfl, rfl, by simpa using hlog⟩
      | true =>
        dsimp only
        rw [if_pos rfl, if_pos rfl, notifyDeadLetter_noted wrote ho, List.append_assoc]
        exact ⟨rfl, rfl, hlog.native _⟩
  | none =>
    cases app.transport.settleNative with
    | some settle => exact Sim.bind (Sim.tryExcept (unnoted_sim _) fun _ => Sim.pure ()) fun _ => Sim.pure true
    | none => exact Sim.pure false

/-- With an observer, noting changes nothing but the log, and keeps its form. -/
theorem simulates_noted {observer : DeadLetterEvent → Act σ Unit} (ho : app.deadLetterObserver = some observer) :
    app.Simulates Beside (app.noted wrote) m where
  classifiesPoison := rfl
  onUnknownUrn := rfl
  maxAttempts := rfl
  deadLetterEnabled := rfl
  retryDelay := rfl
  unknownUrnReleaseDelay := rfl
  retryTiersUnavailable := by
    unfold App.retryTiersUnavailable
    simp only [App.noted, Option.isSome_map]
  deadLetterTarget := rfl
  now := by rintro s ⟨s', log⟩ ⟨rfl, -⟩; rfl
  setPhase := by rintro phase s ⟨s', log⟩ ⟨rfl, h⟩; exact ⟨rfl, h⟩
  endPhase := by rintro s ⟨s', log⟩ ⟨rfl, h⟩; exact ⟨rfl, h⟩
  handlers := by
    intro urn
    simp only [App.noted, Dict.get?_mapValues]
    cases app.handlers.get? urn with
    | none => exact .none
    | some handler => exact .some fun _ _ _ => unnoted_sim _
  ackSettled := ackSettled_noted m wrote
  release := release_noted m wrote
  writeDeadLetter := writeDeadLetter_noted m wrote ho
  settleNative := settleNative_noted m wrote ho
  rewindUnsettled := rewindUnsettled_noted m wrote
  abandonUnsettled := abandonUnsettled_noted m wrote

/-! ## Runs -/

/-- A dispatch of some delivery, or a step of others. -/
inductive NotedStep (app : App σ η) (wrote : ReceivedMessage η → Str → Str → σ → Bool) :
    σ × LetterLog → σ × LetterLog → Prop
  | dispatch (m : ReceivedMessage η) (s : σ × LetterLog) : NotedStep app wrote s ((app.noted wrote).dispatch m s).2
  | elsewhere (s s' : σ) (log : LetterLog) : NotedStep app wrote (s, log) (s', log)

/-- The log of a run, from an empty one. -/
def NotedRun (app : App σ η) (wrote : ReceivedMessage η → Str → Str → σ → Bool) (log : LetterLog) : Prop :=
  ∃ s s', Relation.ReflTransGen (NotedStep app wrote) (s, []) (s', log)

theorem NotedRun.told {observer : DeadLetterEvent → Act σ Unit} (ho : app.deadLetterObserver = some observer)
    {log : LetterLog} (h : NotedRun app wrote log) : Told log := by
  obtain ⟨s, s', h⟩ := h
  generalize hs : ((s, []) : σ × LetterLog) = start at h
  suffices ∀ t, Relation.ReflTransGen (NotedStep app wrote) start t → Told t.2 from this _ h
  intro t ht
  induction ht with
  | refl => rw [← hs]; exact .nil
  | tail _ hstep ih =>
    cases hstep with
    | dispatch m => exact ((simulates_noted m wrote ho).dispatch _ _ ⟨rfl, ih⟩).2.2
    | elsewhere => exact ih

/-! ## An observer that raises -/

/-- The observer, with its exceptions swallowed. -/
def silenced (observer : DeadLetterEvent → Act σ Unit) (event : DeadLetterEvent) : Act σ Unit := fun s =>
  (.ok (), (observer event s).2)

/-- Whether the observer raises changes neither how a dispatch ends nor what it does. -/
theorem dispatch_silenced {observer : DeadLetterEvent → Act σ Unit} (ho : app.deadLetterObserver = some observer)
    (hex : ∀ event s e, (observer event s).1 = .error e → e.isException = true) :
    { app with deadLetterObserver := some (silenced observer) }.dispatch m = app.dispatch m := by
  have hrefl : ∀ {α : Type} (c : Act σ α), Sim Eq c c := by
    rintro α c s s' rfl
    exact ⟨rfl, rfl⟩
  have hnotify : ∀ event, app.notifyDeadLetter event =
      { app with deadLetterObserver := some (silenced observer) }.notifyDeadLetter event := by
    intro event
    funext s
    unfold App.notifyDeadLetter
    rw [ho]
    unfold Act.tryExcept silenced
    dsimp only
    cases hr : observer event s with
    | mk r t =>
      cases r with
      | ok u => rfl
      | error e =>
        dsimp only
        rw [isAny_exception, hex event s e (by rw [hr]), if_pos rfl]
        rfl
  have hsim : app.Simulates Eq { app with deadLetterObserver := some (silenced observer) } m :=
    { classifiesPoison := rfl, onUnknownUrn := rfl, maxAttempts := rfl, deadLetterEnabled := rfl, retryDelay := rfl,
      unknownUrnReleaseDelay := rfl, retryTiersUnavailable := rfl, deadLetterTarget := rfl
      now := by rintro s s' rfl; rfl
      setPhase := by rintro phase s s' rfl; rfl
      endPhase := by rintro s s' rfl; rfl
      handlers := fun urn => by
        cases app.handlers.get? urn with
        | none => exact .none
        | some handler => exact .some fun _ _ _ => hrefl _
      ackSettled := hrefl _
      release := fun _ _ => hrefl _
      writeDeadLetter := fun queue body sourceQueue reason => by
        rw [App.writeDeadLetter_eq, App.writeDeadLetter_eq]
        exact Sim.bind (hrefl _) fun _ => hnotify _ ▸ hrefl _
      settleNative := fun reason description => by
        unfold App.settleNative
        dsimp only
        simp only [hnotify]
        exact hrefl _
      rewindUnsettled := hrefl _
      abandonUnsettled := hrefl _ }
  funext s
  have := hsim.dispatch s s rfl
  exact (Prod.ext this.1 this.2).symm

end Interpreter

end BabelQueue
