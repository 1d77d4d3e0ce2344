import BabelQueue.Transports.InMemory

/-!
# Poison bodies

With dead-lettering on, a poison body is dead-lettered at once, unless `json.loads` ends in a
`RecursionError` on it: `_poison_attempts` parses the body once more and does not catch it.
-/

namespace BabelQueue

open Py Py.Json

section Interpreter

variable [Interpreter] {σ η : Type} {app : App σ η} {m : ReceivedMessage η}

/-- A poison body reaches no handler. -/
theorem classify_poison {cause : Str} (hc : app.causeOf m = .ok (some cause)) :
    app.classify m = .ok ⟨some cause, [], [], none⟩ := by
  unfold App.classify
  rw [hc]
  simp only [bind, Except.bind, App.envelopeOf, Option.isSome_some, Bool.or_true, if_true]
  have he : (((Dict.getJ ([] : Dict Json) (str "job")).orElse (Dict.getJ ([] : Dict Json) (str "urn"))).orElse
      (.str [])).toStr = .ok [] := rfl
  rw [he]
  simp [pure, Except.pure]

omit [Interpreter] in
theorem gated_eq_false (hr : m.routeUrn = .plain []) : m.gated = false := by
  unfold ReceivedMessage.gated
  rw [hr]
  decide +kernel

/-- On a transport that leaves it to the runtime, a delivery without a route is classified by its
body. -/
theorem causeOf_eq (hc : app.transport.classifiesPoison = false) (hr : m.routeUrn = .plain []) :
    app.causeOf m = poisonCause m.body true := by
  unfold App.causeOf
  rw [gated_eq_false hr, hc, hr]
  rfl

theorem gated_of_cause {cause : Str} (hc : app.causeOf m = .ok (some cause)) : m.gated = false := by
  unfold App.causeOf at hc
  split at hc
  · cases hc
  · next h => simp only [Bool.or_eq_true, not_or, Bool.not_eq_true] at h; exact h.1

/-- The count `_poison_attempts` gives can be written, unless the broker's own is too large. -/
theorem poisonAttempts_lt {n : Int} (h : poisonAttempts m = .ok n) :
    n.natAbs < 10 ^ maxStrDigits ↔ m.nativeAttempts.toNat < 10 ^ maxStrDigits := by
  unfold poisonAttempts at h
  obtain ⟨d, hd, h⟩ := bind_eq_ok.mp h
  cases h
  have hb := (storable_of_parseEnvelope hd).attempts_lt (str "attempts")
  revert hb
  generalize (d.getJ (str "attempts")).asInt?.getD 0 = b
  generalize 10 ^ maxStrDigits = k
  intro hb
  omega

theorem poisonAttempts_error_iff : (∃ e, poisonAttempts m = .error e) ↔ Overdeep m.body := by
  rw [overdeep_iff]
  unfold poisonAttempts
  cases parseEnvelope m.body with
  | ok d => simp [bind, Except.bind, pure, Except.pure]
  | error e => simp [bind, Except.bind]

/-- One dead-letter write of the poison record of `m`, and nothing else: no handler, no other
publish, one acknowledgement after the write. -/
def PoisonDeadLettered (app : App σ η) (m : ReceivedMessage η) (cause : Str) (tr : Trace) : Prop :=
  ∃ target record attempts now, app.deadLetterTarget m = .ok target ∧
    buildPoisonRecord m.body (poisonBlock m (some cause) attempts now).toDict = .ok record ∧
    tr = deadLetterEvents app target record

/-- Nothing but rewinds. -/
def Quiet (tr : Trace) : Prop := ∀ e ∈ tr, ∃ r, e = .rewind r

theorem PoisonDeadLettered.not_quiet {cause : Str} {tr : Trace} (h : PoisonDeadLettered app m cause tr) : ¬ Quiet tr := by
  obtain ⟨target, record, attempts, now, -, -, rfl⟩ := h
  intro hq
  unfold deadLetterEvents at hq
  split at hq
  · obtain ⟨r, h⟩ := hq _ List.mem_cons_self
    cases h
  · obtain ⟨r, h⟩ := hq _ List.mem_cons_self
    cases h

/-- The `try` of a poison delivery. -/
theorem attempt_poison {cause : Str} {P : σ × Trace → Prop} {p : Trace → Prop} {q : Unit → σ × Trace → Prop}
    {E : PyExc → σ × Trace → Prop} (hP : ∀ s, P s → p s.2)
    (h : Triple (fun s => p s.2) (app.traced.routeBodyPoison m cause) q E) :
    Triple P (app.traced.attempt m (App.Routing.traced ⟨some cause, [], [], none⟩)) (fun b s => b = false ∧ q () s) E :=
  Triple.bind (Triple.modify _ fun s hs => hP s hs) fun _ =>
    Triple.bind h fun _ => Triple.pure false fun _ hs => ⟨rfl, hs⟩

theorem routeBodyPoison_deadLetters (hT : app.transport.Reliable) {cause : Str}
    (hd : app.deadLetters = true) (hu : app.onUnknownUrn ≠ .delete) (hover : ¬ Overdeep m.body)
    (hn : m.nativeAttempts.toNat < 10 ^ maxStrDigits) :
    Triple (fun s => s.2 = []) (app.traced.routeBodyPoison m cause) (fun _ s => PoisonDeadLettered app m cause s.2)
      fun e s => e.isException = false ∧ PoisonDeadLettered app m cause s.2 := by
  obtain ⟨n, ha⟩ : ∃ n, poisonAttempts m = .ok n := by
    cases h : poisonAttempts m with
    | ok n => exact ⟨n, rfl⟩
    | error e => exact absurd (poisonAttempts_error_iff.mp ⟨e, h⟩) hover
  obtain ⟨target, ht⟩ := deadLetterTarget_isOk hT m
  unfold App.routeBodyPoison
  rw [if_neg (by exact hu)]
  refine triple_lift_ok ha ?_
  rw [if_pos (by exact hd)]
  refine triple_get fun s => triple_lift_ok ht ?_
  obtain ⟨record, hr⟩ : ∃ record,
      buildPoisonRecord m.body (poisonBlock m (some cause) n (app.traced.now s)).toDict = .ok record := by
    exact buildPoisonRecord_isOk.mpr ⟨app.now_lt s.1, (poisonAttempts_lt ha).mpr hn⟩
  refine triple_lift_ok hr (hT.writeDeadLetter m (p := fun tr => tr = []) (q := PoisonDeadLettered app m cause) _ _ ?_)
  rintro tr rfl
  exact ⟨target, record, n, _, ht, hr, rfl⟩

/-- What goes wrong before the write leaves the delivery unsettled. -/
theorem routeBodyPoison_raises {cause : Str} (hd : app.deadLetters = true) (hu : app.onUnknownUrn ≠ .delete)
    (h : Overdeep m.body ∨ ¬ m.nativeAttempts.toNat < 10 ^ maxStrDigits) :
    Triple (fun s => s.2 = []) (app.traced.routeBodyPoison m cause) (fun _ _ => False) fun _ s => s.2 = [] := by
  unfold App.routeBodyPoison
  rw [if_neg (by exact hu)]
  cases ha : poisonAttempts m with
  | error e => exact triple_lift_error rfl fun _ hs => hs
  | ok n =>
    refine triple_lift_ok rfl ?_
    rw [if_pos (by exact hd)]
    refine triple_get fun s => ?_
    cases ht : app.traced.deadLetterTarget m with
    | error e => exact triple_lift_error rfl fun _ hs => hs
    | ok target =>
      refine triple_lift_ok rfl ?_
      cases hr : buildPoisonRecord m.body (poisonBlock m (some cause) n (app.traced.now s)).toDict with
      | error e => exact triple_lift_error rfl fun _ hs => hs
      | ok record =>
        exfalso
        rcases h with h | h
        · obtain ⟨e, he⟩ := poisonAttempts_error_iff.mpr h
          rw [ha] at he
          cases he
        · exact h ((poisonAttempts_lt ha).mp (buildPoisonRecord_isOk.mp ⟨record, hr⟩).2)

/-- The `except` of a poison delivery only rewinds. -/
theorem recover_poison (hT : app.transport.Reliable) {cause : Str} (hc : app.causeOf m = .ok (some cause)) {e : PyExc} :
    Triple (fun s => s.2 = []) (app.traced.recover m (App.Routing.traced ⟨some cause, [], [], none⟩) e)
      (fun b s => b = false ∧ Quiet s.2) fun _ s => Quiet s.2 := by
  have hw : Triple (fun s : σ × Trace => s.2 = []) (app.traced.rewindUnsettled m) (fun _ s => Quiet s.2)
      fun _ s => Quiet s.2 := by
    unfold App.rewindUnsettled
    split
    · exact Triple.pure () fun s hs => by rw [hs]; exact fun e he => by cases he
    · next rewind hr =>
      obtain ⟨c, h, rfl⟩ := Option.map_eq_some_iff.mp hr
      refine Triple.tryExcept (E := fun _ _ => False) (Returns.record_spec (p := fun tr => tr = []) (q := Quiet)
        (hT.rewind c h m) ?_) (fun _ _ _ hs => hs.elim) fun _ _ _ hs => hs.elim
      rintro tr rfl
      simp [Quiet]
  unfold App.recover
  refine Triple.bind (Triple.modify (Q := fun _ s => s.2 = []) _ fun _ hs => hs) fun _ => ?_
  simp only [App.Routing.traced, Option.isSome_some, Bool.true_or, if_true, gated_of_cause hc, Bool.false_eq_true,
    if_false]
  exact Triple.bind hw fun _ => Triple.pure false fun _ hs => ⟨rfl, hs⟩

/-- What goes wrong before the write leaves nothing but rewinds. -/
theorem poison_left (hT : app.transport.Reliable) {cause : Str} (hc : app.causeOf m = .ok (some cause))
    (hd : app.deadLetters = true) (hu : app.onUnknownUrn ≠ .delete)
    (h : Overdeep m.body ∨ ¬ m.nativeAttempts.toNat < 10 ^ maxStrDigits) (s : σ) :
    Quiet (app.traced.dispatch m (s, [])).2.2 := by
  refine dispatch_trace m (classify_poison hc) (fun _ tr => tr = []) Quiet ?_ (fun e _ => recover_poison hT hc) s
  refine (attempt_poison (p := fun tr => tr = []) (fun _ hs => hs) (routeBodyPoison_raises hd hu h)).conseq
    (fun _ => id) (fun _ _ h => h.2.elim) fun e s hs => ?_
  split
  · exact hs
  · rw [hs]; exact fun e he => by cases he

/-- With dead-lettering on and a transport that does not fail, a poison delivery is dead-lettered at
once if and only if `json.loads` does not end in a `RecursionError` on its body (and the broker's
delivery count can be written as text). -/
theorem poison_dead_lettered_iff (hT : app.transport.Reliable) {cause : Str} (hc : app.causeOf m = .ok (some cause))
    (hd : app.deadLetters = true) (hu : app.onUnknownUrn ≠ .delete) (s : σ) :
    PoisonDeadLettered app m cause (app.traced.dispatch m (s, [])).2.2 ↔
      ¬ Overdeep m.body ∧ m.nativeAttempts.toNat < 10 ^ maxStrDigits := by
  constructor
  · intro h
    by_contra hcon
    rw [not_and_or, not_not] at hcon
    exact h.not_quiet (poison_left hT hc hd hu hcon s)
  · rintro ⟨hover, hn⟩
    refine dispatch_trace m (classify_poison hc) (fun _ _ => False) (PoisonDeadLettered app m cause) ?_
      (fun _ _ _ hs => hs.elim) s
    refine (attempt_poison (p := fun tr => tr = []) (fun _ hs => hs)
      (routeBodyPoison_deadLetters hT hd hu hover hn)).conseq (fun _ => id) (fun _ _ h => h) fun e s hs => ?_
    rw [if_neg (by simp [hs.1])]
    exact hs.2

end Interpreter

section CPython

attribute [local instance] cpython

/-- The in-memory runtime with a dead-letter queue. -/
def InMemory.appWithDeadLetters : App InMemory Unit := { InMemory.app with deadLetterEnabled := true }

/-- A delivery whose body is no JSON. -/
def plainText : ReceivedMessage Unit := popped [] (str "x") (str "orders") () []

theorem plainText_not_overdeep : ¬ Overdeep plainText.body := by
  intro h
  obtain ⟨e, he⟩ := poisonAttempts_error_iff.mpr h
  rw [show poisonAttempts plainText = .ok 0 by decide +kernel] at he
  cases he

def plainTextCause : Str := str "invalid JSON: Expecting value: line 1 column 1 (char 0)"

theorem plainText_dead_lettered :
    PoisonDeadLettered InMemory.appWithDeadLetters plainText plainTextCause
      (InMemory.appWithDeadLetters.traced.dispatch plainText ([], [])).2.2 := by
  have hT : InMemory.appWithDeadLetters.transport.Reliable := InMemory.reliable
  have hc : InMemory.appWithDeadLetters.causeOf plainText = .ok (some plainTextCause) := by decide +kernel
  exact (poison_dead_lettered_iff hT hc rfl (by simp [InMemory.appWithDeadLetters, InMemory.app]) []).mpr
    ⟨plainText_not_overdeep, Nat.pow_pos (by decide)⟩

/-- A delivery of brackets nested beyond the recursion limit. -/
def brackets : ReceivedMessage Unit :=
  popped [] (List.replicate (Interpreter.maxDepth + 1) (cp '[')) (str "orders") () []

/-- The brackets are poison, and neither dead-lettered nor acknowledged. -/
theorem brackets_left :
    ∃ cause, InMemory.appWithDeadLetters.causeOf brackets = .ok (some cause) ∧
      ¬ PoisonDeadLettered InMemory.appWithDeadLetters brackets cause
        (InMemory.appWithDeadLetters.traced.dispatch brackets ([], [])).2.2 := by
  have hT : InMemory.appWithDeadLetters.transport.Reliable := InMemory.reliable
  obtain ⟨cause, hc⟩ := overdeep_brackets.poisonCause true
  have hc' : InMemory.appWithDeadLetters.causeOf brackets = .ok (some cause) := (causeOf_eq rfl rfl).trans hc
  refine ⟨cause, hc', fun h => h.not_quiet ?_⟩
  exact poison_left hT hc' rfl (by simp [InMemory.appWithDeadLetters, InMemory.app]) (.inl overdeep_brackets) []

end CPython

end BabelQueue
