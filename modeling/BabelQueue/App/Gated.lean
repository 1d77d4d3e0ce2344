import BabelQueue.App.Settled

/-!
# Version-gated deliveries

A delivery under a version-gated route is quarantined: it reaches no handler, is not retried, and
what `dispatch` does with it does not depend on its body.

* `Quarantine app m tr`: the traces of such a dispatch, one constructor for each way to end.
* `Blind`: a transport, an observer and a clock that do not tell two bodies apart; `dispatch_blind`:
  then the two dispatches make the same calls and end in the same way.
-/

namespace BabelQueue

open Py Py.Json

variable {σ η : Type}

/-- A route of the version gate, other than the reserved route of a poison body. -/
def Gated (m : ReceivedMessage η) : Prop :=
  ∃ route, m.routeUrn = .plain route ∧ startsWith route unsupportedSchemaRoutePrefix = true ∧
    route ≠ nonNumericAttemptsRoute

theorem Gated.gated {m : ReceivedMessage η} (h : Gated m) : m.gated = true := by
  obtain ⟨route, hr, hs, -⟩ := h
  unfold ReceivedMessage.gated
  rw [hr]
  exact hs

/-- A write of the body of `m` to the dead-letter target. -/
inductive RawWrite (app : App σ η) (m : ReceivedMessage η) (r : Except PyExc Unit) : Event → Prop
  | publish {target : Str} (ht : app.deadLetterTarget m = .ok target) : RawWrite app m r (.publish target m.body r)
  | deadLetter {target : Str} (ht : app.deadLetterTarget m = .ok target) :
      RawWrite app m r (.deadLetter target m.body r)

/-- An event that hands a delivery back. -/
inductive HandBack : Event → Prop
  | rewind (r : Except PyExc Unit) : HandBack (.rewind r)
  | abandon (r : Except PyExc Unit) : HandBack (.abandon r)

/-- What a dispatch of a gated delivery does. -/
inductive Quarantine (app : App σ η) (m : ReceivedMessage η) : Trace → Prop
  /-- Nothing, or it is handed back. -/
  | left {back : Trace} (hb : back.length ≤ 1) (h : ∀ e ∈ back, HandBack e) : Quarantine app m back
  /-- It is dropped. -/
  | dropped (r : Except PyExc Unit) : Quarantine app m [.ack r]
  /-- It is left to the broker. -/
  | native (r : Except PyExc Unit) : Quarantine app m [.native r]
  /-- Its body is written to the dead-letter queue, in one step or before the acknowledgement. -/
  | written {e : Event} (he : RawWrite app m (.ok ()) e) {ack : Trace} (ha : ack = [] ∨ ∃ r, ack = [.ack r]) :
      Quarantine app m (e :: ack)
  /-- The write fails, and it is handed back. -/
  | failed {e : Event} {x : PyExc} (he : RawWrite app m (.error x) e) {back : Trace} (hb : back.length ≤ 1)
      (h : ∀ e ∈ back, HandBack e) : Quarantine app m (e :: back)

/-- Before a write has succeeded. -/
inductive Refused (app : App σ η) (m : ReceivedMessage η) : Trace → Prop
  | start : Refused app m []
  | write {e : Event} {x : PyExc} (he : RawWrite app m (.error x) e) : Refused app m [e]

theorem Refused.quarantine {app : App σ η} {m : ReceivedMessage η} {tr : Trace} (h : Refused app m tr) :
    Quarantine app m tr := by
  cases h with
  | start => exact .left (by simp) (by simp)
  | write he => exact .failed he (by simp) (by simp)

theorem Refused.append {app : App σ η} {m : ReceivedMessage η} {tr : Trace} (h : Refused app m tr) {e : Event}
    (he : HandBack e) : Quarantine app m (tr ++ [e]) := by
  cases h with
  | start => exact .left (by simp) (by simpa using he)
  | write hw => exact .failed hw (by simp) (by simpa using he)

section Interpreter

variable [Interpreter] {app : App σ η} {m : ReceivedMessage η}

/-! ## What a dispatch does -/

section Quarantine

variable {p q : Trace → Prop}

omit [Interpreter] in
/-- A call whose exceptions are only logged, with its event. -/
theorem caught_record {event : Except PyExc Unit → Event} {c : Act σ Unit} (h : ∀ tr r, p tr → q (tr ++ [event r])) :
    Triple (fun s => p s.2) (Act.tryExcept (record event c) [.exception] fun _ => pure ()) (fun _ s => q s.2)
      fun e s => e.isException = false ∧ q s.2 := by
  refine Triple.tryExcept (E := fun _ s => q s.2) (record_spec (fun tr hp => h tr _ hp) fun tr e hp => h tr _ hp)
    (fun _ _ => Triple.pure () fun _ hs => hs) fun e s he hs => ⟨?_, hs⟩
  rwa [isAny_exception] at he

/-- How the `try` ends: when the `except` is next, no write has succeeded. -/
def Outcome (app : App σ η) (m : ReceivedMessage η) (e : PyExc) (s : σ × Trace) : Prop :=
  Quarantine app m s.2 ∧ (e.isException = true → Refused app m s.2)

omit [Interpreter] in
theorem outcome_of_final {e : PyExc} {s : σ × Trace} (h : e.isException = false ∧ Quarantine app m s.2) :
    Outcome app m e s := ⟨h.2, fun he => by rw [h.1] at he; cases he⟩

omit [Interpreter] in
theorem writeDeadLetter_gated {target : Str} (ht : app.deadLetterTarget m = .ok target) (reason : Str) :
    Triple (fun s => s.2 = []) (app.traced.writeDeadLetter m target m.body none reason)
      (fun _ s => Quarantine app m s.2) (Outcome app m) := by
  have hnotify : Triple (fun s => Quarantine app m s.2)
      (app.traced.notifyDeadLetter ⟨orStr none m.queue, target, reason⟩)
      (fun _ s => Quarantine app m s.2) (Outcome app m) :=
    (notifyDeadLetter_spec _).conseq (fun _ => id) (fun _ _ => id) fun _ _ => outcome_of_final
  unfold App.writeDeadLetter
  cases hd : app.transport.deadLetter with
  | some c =>
    have hd' : app.traced.transport.deadLetter =
        some fun m queue body => record (.deadLetter queue body) (c m queue body) := by
      simp only [App.traced, Transport.traced, hd, Option.map_some]
    rw [hd']
    refine Triple.bind (Triple.conseq (record_spec (p := fun tr => tr = []) (q := Quarantine app m) (x := Refused app m)
      ?_ ?_) (fun _ => id) (fun _ _ => id) fun _ _ hs => ⟨hs.quarantine, fun _ => hs⟩) fun _ => hnotify
    · rintro _ rfl
      exact .written (.deadLetter ht) (.inl rfl)
    · rintro _ e rfl
      exact .write (.deadLetter ht)
  | none =>
    have hd' : app.traced.transport.deadLetter = none := by
      simp only [App.traced, Transport.traced, hd, Option.map_none]
    rw [hd', publishFor_traced]
    refine Triple.bind (Triple.conseq (record_spec (p := fun tr => tr = [])
      (q := fun tr => tr = [.publish target m.body (.ok ())]) (x := Refused app m) ?_ ?_) (fun _ => id) (fun _ _ => id)
      fun _ _ hs => ⟨hs.quarantine, fun _ => hs⟩) fun _ => ?_
    · rintro _ rfl
      rfl
    · rintro _ e rfl
      exact .write (.publish ht)
    · refine Triple.bind (Triple.conseq (caught_record (p := fun tr => tr = [.publish target m.body (.ok ())])
        (q := Quarantine app m) ?_) (fun _ => id) (fun _ _ => id) fun _ _ => outcome_of_final) fun _ => hnotify
      rintro _ r rfl
      exact .written (.publish ht) (.inr ⟨r, rfl⟩)

omit [Interpreter] in
theorem settleNative_gated (reason description : Str) :
    Triple (fun s => s.2 = []) (app.traced.settleNative m reason description)
      (fun settled s => if settled then Quarantine app m s.2 else s.2 = []) (Outcome app m) := by
  have hrecord : ∀ (c : Act σ Bool), Triple (fun s => s.2 = []) (record .native c)
      (fun _ s => Quarantine app m s.2) fun _ s => Quarantine app m s.2 := by
    refine fun c => record_spec (p := fun tr => tr = []) ?_ ?_
    · rintro _ rfl
      exact .native _
    · rintro _ e rfl
      exact .native _
  unfold App.settleNative
  split
  · next settle hs =>
    obtain ⟨settle, -, rfl⟩ := Option.map_eq_some_iff.mp hs
    refine Triple.bind (Triple.tryExcept (E := fun _ s => Quarantine app m s.2) (Triple.bind (hrecord _) fun b => ?_)
      (fun _ _ => Triple.pure () fun _ h => h) fun e s he h => outcome_of_final ⟨by rwa [isAny_exception] at he, h⟩)
      fun _ => Triple.pure true fun _ h => h
    split
    · exact (notifyDeadLetter_spec _).conseq (fun _ => id) (fun _ _ => id) fun _ _ h => h.2
    · exact Triple.pure () fun _ h => h
  · next settle _ hs =>
    obtain ⟨settle, -, rfl⟩ := Option.map_eq_some_iff.mp hs
    refine Triple.bind (Triple.conseq (caught_record (p := fun tr => tr = []) (q := Quarantine app m) ?_) (fun _ => id)
      (fun _ _ => id) fun _ _ => outcome_of_final) fun _ => Triple.pure true fun _ h => h
    rintro _ r rfl
    exact .native r
  · exact Triple.pure false fun _ h => h

omit [Interpreter] in
theorem settleVersionGated_gated (reason : Str) :
    Triple (fun s => s.2 = []) (app.traced.settleVersionGated m false reason) (fun _ s => Quarantine app m s.2)
      (Outcome app m) := by
  unfold App.settleVersionGated
  split
  · cases ht : app.deadLetterTarget m with
    | error e =>
      refine triple_lift_error ht ?_
      rintro ⟨s, _⟩ rfl
      exact ⟨Refused.start.quarantine, fun _ => .start⟩
    | ok target => exact triple_lift_ok ht (writeDeadLetter_gated ht reason)
  · refine Triple.bind (settleNative_gated _ _) fun settled => ?_
    cases settled with
    | true => exact Triple.pure () fun _ h => h
    | false =>
      refine (caught_record (p := fun tr => tr = []) (q := Quarantine app m) ?_).conseq (fun _ => id) (fun _ _ => id)
        fun _ _ => outcome_of_final
      rintro _ r rfl
      exact .dropped r

omit [Interpreter] in
/-- The `except` of a gated delivery hands it back. -/
theorem abandonUnsettled_gated :
    Triple (fun s => Refused app m s.2) (app.traced.abandonUnsettled m) (fun _ s => Quarantine app m s.2)
      fun _ s => Quarantine app m s.2 := by
  unfold App.abandonUnsettled
  split
  · next abandon _ ha =>
    obtain ⟨abandon, -, rfl⟩ := Option.map_eq_some_iff.mp ha
    exact (caught_record (p := Refused app m) fun tr r h => h.append (.abandon r)).conseq (fun _ => id)
      (fun _ _ => id) fun _ _ h => h.2
  · unfold App.rewindUnsettled
    split
    · exact Triple.pure () fun _ h => h.quarantine
    · next rewind hr =>
      obtain ⟨rewind, -, rfl⟩ := Option.map_eq_some_iff.mp hr
      exact (caught_record (p := Refused app m) fun tr r h => h.append (.rewind r)).conseq (fun _ => id)
        (fun _ _ => id) fun _ _ h => h.2

/-- The `try` of a gated delivery. -/
theorem attempt_quarantine (h : Gated m) :
    Triple (fun s => s.2 = []) (app.traced.attempt m (App.Routing.traced ⟨none, [], [], none⟩))
      (fun again s => again = false ∧ Quarantine app m s.2) (Outcome app m) := by
  have hg := h.gated
  obtain ⟨route, hr, -, hne⟩ := h
  refine Triple.bind (Triple.modify (Q := fun _ s => s.2 = []) _ fun _ hs => hs) fun _ =>
    Triple.bind (Q := fun _ s => Quarantine app m s.2) ?_ fun _ => Triple.pure false fun _ hs => ⟨rfl, hs⟩
  unfold App.routeUnknown
  rw [hr]
  dsimp only
  rw [if_neg hne]
  split
  · refine (caught_record (p := fun tr => tr = []) (q := Quarantine app m) ?_).conseq (fun _ => id) (fun _ _ => id)
      fun _ _ => outcome_of_final
    rintro _ r rfl
    exact .dropped r
  · exact settleVersionGated_gated _

/-- The trace of a dispatch of a gated delivery. -/
theorem dispatch_quarantine (h : Gated m) (s : σ) : Quarantine app m (app.traced.dispatch m (s, [])).2.2 := by
  refine dispatch_trace m (classify_gated h.gated) (fun _ => Refused app m) (Quarantine app m) ?_ (fun e _ => ?_) s
  · refine (attempt_quarantine h).conseq (fun _ => id) (fun _ _ => id) fun e s hs => ?_
    split
    · next he => exact hs.2 he
    · exact hs.1
  · unfold App.recover
    simp only [h.gated, Bool.or_true, if_true]
    exact Triple.bind (Triple.modify (Q := fun _ s => Refused app m s.2) _ fun _ hs => hs) fun _ =>
      Triple.bind abandonUnsettled_gated fun _ => Triple.pure false fun _ hs => ⟨rfl, hs⟩

end Quarantine

/-! ## Two bodies -/

/-- The event without the body it carries. -/
def Event.shape : Event → Event
  | .publish queue _ r => .publish queue [] r
  | .redeliver _ r => .redeliver [] r
  | .deadLetter queue _ r => .deadLetter queue [] r
  | e => e

/-- The same delivery with another body. -/
def ReceivedMessage.withBody (m : ReceivedMessage η) (body : Str) : ReceivedMessage η := { m with body := body }

/-- Nothing outside the runtime tells the bodies of `m` and `m.withBody body` apart: each call on
them ends in the same way, and `R` relates the states of the two runs. -/
structure Blind (R : σ → σ → Prop) (app : App σ η) (m : ReceivedMessage η) (body : Str) : Prop where
  publish : ∀ queue, Rel R (app.transport.publish queue m.body) (app.transport.publish queue body)
  ack : Rel R (app.transport.ack m) (app.transport.ack (m.withBody body))
  publishRouted : ∀ c ∈ app.transport.publishRouted, ∀ queue route, Rel R (c queue m.body route) (c queue body route)
  publishSettle : ∀ c ∈ app.transport.publishSettle, ∀ queue route key,
    Rel R (c queue m.body route key) (c queue body route key)
  deadLetter : ∀ c ∈ app.transport.deadLetter, ∀ queue, Rel R (c m queue m.body) (c (m.withBody body) queue body)
  rewind : ∀ c ∈ app.transport.rewind, Rel R (c m) (c (m.withBody body))
  abandon : ∀ c ∈ app.transport.abandon, Rel R (c m) (c (m.withBody body))
  settleNative : ∀ c ∈ app.transport.settleNative, ∀ reason description,
    Rel R (c m reason description) (c (m.withBody body) reason description)
  settleNativeDeadLetter : ∀ c ∈ app.transport.settleNativeDeadLetter, ∀ reason description,
    Rel R (c m reason description) (c (m.withBody body) reason description)
  observer : ∀ c ∈ app.deadLetterObserver, ∀ event, Rel R (c event) (c event)
  setPhase : ∀ phase s s', R s s' → R (app.setPhase phase s) (app.setPhase phase s')
  endPhase : ∀ s s', R s s' → R (app.endPhase s) (app.endPhase s')

/-- Related states, and traces that differ in bodies only. -/
def SameShape (R : σ → σ → Prop) (s s' : σ × Trace) : Prop :=
  R s.1 s'.1 ∧ s.2.map Event.shape = s'.2.map Event.shape

section Blind

variable {R : σ → σ → Prop} {body : Str}

omit [Interpreter] in
theorem record_rel {α : Type} {event event' : Except PyExc Unit → Event} {c c' : Act σ α} (h : Rel R c c')
    (he : ∀ r, (event r).shape = (event' r).shape) : Rel (SameShape R) (record event c) (record event' c') := by
  rintro ⟨s, tr⟩ ⟨s', tr'⟩ ⟨hs, htr⟩
  obtain ⟨h1, h2⟩ := h s s' hs
  refine ⟨h1, h2, ?_⟩
  simp only [record, List.map_append, List.map_cons, List.map_nil, he, h1, htr]

omit [Interpreter] in
theorem silent_rel {α : Type} {c c' : Act σ α} (h : Rel R c c') : Rel (SameShape R) (silent c) (silent c') := by
  rintro ⟨s, tr⟩ ⟨s', tr'⟩ ⟨hs, htr⟩
  obtain ⟨h1, h2⟩ := h s s' hs
  exact ⟨h1, h2, htr⟩

variable (B : Blind R app m body)

include B

namespace Blind

omit [Interpreter] in
theorem ackSettled : Rel (SameShape R) (app.traced.ackSettled m) (app.traced.ackSettled (m.withBody body)) :=
  Rel.tryExcept (record_rel B.ack fun _ => rfl) fun _ => Rel.pure ()

omit [Interpreter] in
theorem notifyDeadLetter (event : DeadLetterEvent) :
    Rel (SameShape R) (app.traced.notifyDeadLetter event) (app.traced.notifyDeadLetter event) := by
  unfold App.notifyDeadLetter
  split
  · exact Rel.pure ()
  · next observer ho =>
    obtain ⟨observer, hob, rfl⟩ := Option.map_eq_some_iff.mp ho
    exact Rel.tryExcept (silent_rel (B.observer observer hob event)) fun _ => Rel.pure ()

omit [Interpreter] in
theorem publishFor (queue : Str) :
    Rel (SameShape R) (app.traced.publishFor m queue m.body) (app.traced.publishFor (m.withBody body) queue body) := by
  rw [publishFor_traced, publishFor_traced]
  refine record_rel ?_ fun _ => rfl
  unfold App.publishFor publishKeepingRoute
  split
  · next c hc => exact B.publishSettle c hc _ _ _
  · split
    · next c hc =>
      show Rel R (if m.routeUrn.text ≠ [] then _ else _) (if m.routeUrn.text ≠ [] then _ else _)
      split
      · exact B.publishRouted c hc _ _
      · exact B.publish _
    · exact B.publish _

omit [Interpreter] in
theorem writeDeadLetter (target reason : Str) :
    Rel (SameShape R) (app.traced.writeDeadLetter m target m.body none reason)
      (app.traced.writeDeadLetter (m.withBody body) target body none reason) := by
  unfold App.writeDeadLetter
  split
  · next c hc =>
    obtain ⟨c, hd, rfl⟩ := Option.map_eq_some_iff.mp hc
    exact Rel.bind (record_rel (B.deadLetter c hd target) fun _ => rfl) fun _ => B.notifyDeadLetter _
  · exact Rel.bind (B.publishFor target) fun _ => Rel.bind B.ackSettled fun _ => B.notifyDeadLetter _

omit [Interpreter] in
theorem nativeSettle (reason description : Str) :
    Rel (SameShape R) (app.traced.settleNative m reason description)
      (app.traced.settleNative (m.withBody body) reason description) := by
  unfold App.settleNative
  split
  · next settle hs =>
    obtain ⟨settle, h, rfl⟩ := Option.map_eq_some_iff.mp hs
    refine Rel.bind (Rel.tryExcept (Rel.bind
      (record_rel (B.settleNativeDeadLetter settle h reason description) fun _ => rfl) fun b => ?_)
      fun _ => Rel.pure ()) fun _ => Rel.pure true
    split
    · exact B.notifyDeadLetter _
    · exact Rel.pure ()
  · next settle _ hs =>
    obtain ⟨settle, h, rfl⟩ := Option.map_eq_some_iff.mp hs
    exact Rel.bind (Rel.tryExcept (record_rel (B.settleNative settle h reason description) fun _ => rfl)
      fun _ => Rel.pure ()) fun _ => Rel.pure true
  · exact Rel.pure false

omit [Interpreter] in
theorem settleVersionGated (always : Bool) (reason : Str) :
    Rel (SameShape R) (app.traced.settleVersionGated m always reason)
      (app.traced.settleVersionGated (m.withBody body) always reason) := by
  unfold App.settleVersionGated
  split
  · exact Rel.bind (Rel.lift _) fun target => B.writeDeadLetter target reason
  · refine Rel.bind (B.nativeSettle _ _) fun settled => ?_
    split
    · exact Rel.pure ()
    · exact B.ackSettled

omit [Interpreter] in
theorem abandonUnsettled :
    Rel (SameShape R) (app.traced.abandonUnsettled m) (app.traced.abandonUnsettled (m.withBody body)) := by
  unfold App.abandonUnsettled
  split
  · next abandon _ ha =>
    obtain ⟨abandon, h, rfl⟩ := Option.map_eq_some_iff.mp ha
    exact Rel.tryExcept (record_rel (B.abandon abandon h) fun _ => rfl) fun _ => Rel.pure ()
  · unfold App.rewindUnsettled
    split
    · exact Rel.pure ()
    · next rewind hr =>
      obtain ⟨rewind, h, rfl⟩ := Option.map_eq_some_iff.mp hr
      exact Rel.tryExcept (record_rel (B.rewind rewind h) fun _ => rfl) fun _ => Rel.pure ()

omit [Interpreter] in
theorem phase (phase : Phase) :
    Rel (SameShape R) (Act.modify (app.traced.setPhase phase)) (Act.modify (app.traced.setPhase phase)) :=
  Rel.modify fun s s' h => ⟨B.setPhase phase s.1 s'.1 h.1, h.2⟩

/-- The body changes neither the calls of a dispatch of a gated delivery, nor how they and the
dispatch end. -/
theorem dispatch (h : Gated m) :
    Rel (SameShape R) (app.traced.dispatch m) (app.traced.dispatch (m.withBody body)) := by
  have hc : app.traced.classify m = .ok ⟨none, [], [], none⟩ := classify_gated h.gated
  have hc' : app.traced.classify (m.withBody body) = .ok ⟨none, [], [], none⟩ :=
    classify_gated (m := m.withBody body) h.gated
  have hg := h.gated
  have hg' : (m.withBody body).gated = true := hg
  unfold App.dispatch
  rw [hc, hc']
  show Rel (SameShape R) (app.traced.settle m _) (app.traced.settle (m.withBody body) _)
  unfold App.settle
  refine Rel.tryFinally (Rel.bind (Rel.tryExcept ?_ fun e => ?_) fun again => ?_)
    fun s s' hs => ⟨B.endPhase s.1 s'.1 hs.1, hs.2⟩
  · obtain ⟨route, hr, -, hne⟩ := h
    have hr' : (m.withBody body).routeUrn = .plain route := hr
    refine Rel.bind (B.phase _) fun _ => Rel.bind ?_ fun _ => Rel.pure false
    unfold App.routeUnknown
    rw [hr, hr']
    dsimp only
    rw [if_neg hne, if_neg hne, hg, hg']
    split
    · exact B.ackSettled
    · exact B.settleVersionGated _ _
  · unfold App.recover
    rw [hg, hg', Bool.or_true]
    exact Rel.bind (B.phase _) fun _ => Rel.bind B.abandonUnsettled fun _ => Rel.pure false
  · split
    · exact B.ackSettled
    · exact Rel.pure ()

end Blind

end Blind

/-! ## Quarantine -/

/-- A handler was called, or a retry was handed over. -/
def Event.isHandlerOrRetry : Event → Bool
  | .handler _ => true
  | .redeliver .. => true
  | _ => false

/-- The event writes `body` to `queue`. -/
inductive Event.Writes : Event → Str → Str → Except PyExc Unit → Prop
  | publish (queue body : Str) (r : Except PyExc Unit) : Writes (.publish queue body r) queue body r
  | deadLetter (queue body : Str) (r : Except PyExc Unit) : Writes (.deadLetter queue body r) queue body r

omit [Interpreter] in
theorem RawWrite.writes {r : Except PyExc Unit} {e : Event} (he : RawWrite app m r e) {queue body : Str}
    {r' : Except PyExc Unit} (hw : e.Writes queue body r') :
    app.deadLetterTarget m = .ok queue ∧ body = m.body ∧ r' = r := by
  cases he with
  | publish ht => cases hw; exact ⟨ht, rfl, rfl⟩
  | deadLetter ht => cases hw; exact ⟨ht, rfl, rfl⟩

omit [Interpreter] in
theorem HandBack.not_writes {e : Event} (he : HandBack e) {queue body : Str} {r : Except PyExc Unit} :
    ¬ e.Writes queue body r := by
  intro hw
  cases he <;> cases hw

/-- What holds of the calls for a gated delivery: no handler and no retry, only its own body is written
and only to the dead-letter target, and nothing is acknowledged or written besides a write that fails. -/
structure Quarantined (app : App σ η) (m : ReceivedMessage η) (tr : Trace) : Prop where
  untouched : ∀ e ∈ tr, e.isHandlerOrRetry = false
  raw : ∀ e ∈ tr, ∀ queue body r, e.Writes queue body r → app.deadLetterTarget m = .ok queue ∧ body = m.body
  failed : ∀ e ∈ tr, ∀ queue body x, e.Writes queue body (.error x) →
    Unacked tr ∧ ∀ e' ∈ tr, ∀ queue' body' r, e'.Writes queue' body' r → e' = e

omit [Interpreter] in
theorem Quarantine.quarantined {tr : Trace} (h : Quarantine app m tr) : Quarantined app m tr := by
  have hback : ∀ {e}, HandBack e → e.isHandlerOrRetry = false ∧ e.isAck = false := by
    rintro e (_ | _) <;> exact ⟨rfl, rfl⟩
  have hraw : ∀ {e r}, RawWrite app m r e → e.isHandlerOrRetry = false ∧ e.isAck = false := by
    rintro e r (_ | _) <;> exact ⟨rfl, rfl⟩
  cases h with
  | left hb hback' =>
    exact ⟨fun e he => (hback (hback' e he)).1, fun e he _ _ _ hw => absurd hw (hback' e he).not_writes,
      fun e he _ _ _ hw => absurd hw (hback' e he).not_writes⟩
  | dropped r =>
    refine ⟨?_, ?_, ?_⟩ <;> intro e he <;> obtain rfl := List.mem_singleton.mp he
    · rfl
    · exact fun _ _ _ hw => nomatch hw
    · exact fun _ _ _ hw => nomatch hw
  | native r =>
    refine ⟨?_, ?_, ?_⟩ <;> intro e he <;> obtain rfl := List.mem_singleton.mp he
    · rfl
    · exact fun _ _ _ hw => nomatch hw
    · exact fun _ _ _ hw => nomatch hw
  | @written w hw ack ha =>
    have hack : ∀ e ∈ ack, ∃ r, e = .ack r := by
      rcases ha with rfl | ⟨r, rfl⟩
      · simp
      · simp
    refine ⟨fun e he => ?_, fun e he _ _ _ hw' => ?_, fun e he _ _ _ hw' => ?_⟩ <;>
      rcases List.mem_cons.mp he with rfl | he
    · exact (hraw hw).1
    · obtain ⟨r, rfl⟩ := hack e he
      rfl
    · exact ⟨(hw.writes hw').1, (hw.writes hw').2.1⟩
    · obtain ⟨r, rfl⟩ := hack e he
      cases hw'
    · exact nomatch (hw.writes hw').2.2
    · obtain ⟨r, rfl⟩ := hack e he
      cases hw'
  | @failed w x hw back hb hback' =>
    refine ⟨fun e he => ?_, fun e he _ _ _ hw' => ?_, fun e he _ _ _ hw' => ?_⟩ <;>
      rcases List.mem_cons.mp he with rfl | he
    · exact (hraw hw).1
    · exact (hback (hback' e he)).1
    · exact ⟨(hw.writes hw').1, (hw.writes hw').2.1⟩
    · exact absurd hw' (hback' e he).not_writes
    · refine ⟨fun e he => ?_, fun e he _ _ _ hw'' => ?_⟩ <;> rcases List.mem_cons.mp he with rfl | he
      · exact (hraw hw).2
      · exact (hback (hback' e he)).2
      · rfl
      · exact absurd hw'' (hback' e he).not_writes
    · exact absurd hw' (hback' e he).not_writes

/-- A gated delivery is quarantined, and neither the calls nor the outcome depend on its body. -/
theorem dispatch_gated (h : Gated m) (s : σ) :
    Quarantined app m (app.traced.dispatch m (s, [])).2.2 ∧
      ∀ (R : σ → σ → Prop) (body : Str) (s' : σ), Blind R app m body → R s s' →
        (app.traced.dispatch m (s, [])).1 = (app.traced.dispatch (m.withBody body) (s', [])).1 ∧
          (app.traced.dispatch m (s, [])).2.2.map Event.shape =
            (app.traced.dispatch (m.withBody body) (s', [])).2.2.map Event.shape := by
  refine ⟨(dispatch_quarantine h s).quarantined, fun R body s' B hs => ?_⟩
  have := B.dispatch h (s, []) (s', []) ⟨hs, rfl⟩
  exact ⟨this.1, this.2.2⟩

end Interpreter

section CPython

attribute [local instance] cpython

/-- A delivery of an unsupported schema version. -/
def futureVersion (body : Str) : ReceivedMessage Unit :=
  popped (str "babelqueue:unsupported-schema-version:2") body (str "orders") () []

theorem futureVersion_gated (body : Str) : Gated (futureVersion body) :=
  ⟨_, rfl, by decide +kernel, by decide +kernel⟩

theorem InMemory.blind (body body' : Str) :
    Blind (fun _ _ => True) InMemory.appWithDeadLetters (futureVersion body) body' where
  publish _ _ _ _ := ⟨rfl, trivial⟩
  ack _ _ _ := ⟨rfl, trivial⟩
  publishRouted _ h := nomatch h
  publishSettle _ h := nomatch h
  deadLetter _ h := nomatch h
  rewind _ h := nomatch h
  abandon _ h := nomatch h
  settleNative _ h := nomatch h
  settleNativeDeadLetter _ h := nomatch h
  observer _ h := nomatch h
  setPhase _ _ _ _ := trivial
  endPhase _ _ _ := trivial

theorem futureVersion_quarantined :
    Quarantined InMemory.appWithDeadLetters (futureVersion (str "x"))
        (InMemory.appWithDeadLetters.traced.dispatch (futureVersion (str "x")) ([], [])).2.2 ∧
      (InMemory.appWithDeadLetters.traced.dispatch (futureVersion (str "x")) ([], [])).2.2.map Event.shape =
        (InMemory.appWithDeadLetters.traced.dispatch (futureVersion (str "y")) ([], [])).2.2.map Event.shape := by
  have h : Quarantined InMemory.appWithDeadLetters _ _ ∧ _ := dispatch_gated (futureVersion_gated (str "x")) []
  exact ⟨h.1, (h.2 _ (str "y") [] (InMemory.blind _ _) trivial).2⟩

/-- With an empty suffix the dead-letter target is the delivery's own queue. -/
def InMemory.appWithoutSuffix : App InMemory Unit := { InMemory.appWithDeadLetters with deadLetterSuffix := some [] }

/-- The record goes to the queue the delivery came from. -/
theorem futureVersion_own_queue :
    (InMemory.appWithoutSuffix.traced.dispatch (futureVersion (str "x")) ([], [])).2.2 =
      [.publish (futureVersion (str "x")).queue (str "x") (.ok ()), .ack (.ok ())] := by
  rfl

end CPython

end BabelQueue
