import BabelQueue.App.Settled

/-!
# One bad message

On a transport that does not fail, `dispatch` of what a pop hands over returns with the delivery
settled if and only if the delivery `Survives` (`dispatch_settles_iff`). It does not when

* the retry path is needed for an envelope whose `attempts` is `null`: the poison check passes it,
  `int` refuses it,
* the next attempt has no retry delay, or its number cannot be written, or
* a poison body is so deep that `_poison_attempts` raises `RecursionError`.
-/

namespace BabelQueue

open Py Py.Json

section Interpreter

variable [Interpreter] {σ η : Type} {app : App σ η} {m : ReceivedMessage η}

/-! ## A dispatch -/

/-- The strategy for an envelope without a handler settles it. -/
def App.StrategySettles (app : App σ η) (envelope : Dict Json) : Prop :=
  app.onUnknownUrn = .delete ∨ app.onUnknownUrn = .release ∨
    app.onUnknownUrn = .deadLetter ∧ ∃ n, envelopeAttempts envelope = .ok n

/-- Why a delivery is settled by a `dispatch` that returns. -/
inductive Survives (app : App σ η) (m : ReceivedMessage η) (s : σ) : Prop
  /-- It arrived under the poison route. -/
  | gated (h : m.gated = true)
  /-- Its body is poison, can be parsed once more, and is deleted, dead-lettered or retried. -/
  | poison {cause : Str} (hc : app.causeOf m = .ok (some cause))
      (h : app.onUnknownUrn = .delete ∨ ¬ Overdeep m.body ∧
        (app.deadLetters = true ∨ ∀ n, poisonAttempts m = .ok n → app.RetryPasses n))
  /-- Its handler returns. -/
  | handled {r : App.Routing σ} {handler : Handler σ} (hr : app.classify m = .ok r) (hh : r.handler = some handler)
      {data metaBlock : Json} (hd : dictOf ((r.envelope.getJ (str "data")).orElse (.obj [])) = .ok data)
      (hm : dictOf ((r.envelope.getJ (str "meta")).orElse (.obj [])) = .ok metaBlock)
      (h : (handler data metaBlock r.envelope (app.setPhase .handling s)).1 = .ok ())
  /-- It has no handler, and is deleted, given back, or dead-lettered with its count. -/
  | unknown {r : App.Routing σ} (hr : app.classify m = .ok r) (hc : r.poisonCause = none) (hh : r.handler = none)
      (h : app.StrategySettles r.envelope)
  /-- It goes through the retry path, which can count. -/
  | retried {r : App.Routing σ} (hr : app.classify m = .ok r) (hc : r.poisonCause = none) {n : Int}
      (hn : envelopeAttempts r.envelope = .ok n) (h : app.RetryPasses n)

section Dispatch

variable (hT : app.transport.Reliable) (hp : app.Polite) (hu : app.transport.Unaided) {p : σ × Trace → Prop}

omit [Interpreter] in
/-- The `else` of `dispatch` acknowledges, the `except` decides. -/
theorem decides_settle [Interpreter] (hT : app.transport.Reliable) {r : App.Routing (σ × Trace)} {b : Prop}
    {x : PyExc → Prop}
    (ha : Triple p (app.traced.attempt m r) (fun again s => if again then b else Settled s.2 ↔ b) fun e s =>
      ¬ Settled s.2 ∧ if e.isException then x e else ¬ b)
    (hr : ∀ e, x e → Triple (fun s => ¬ Settled s.2) (app.traced.recover m r e)
      (fun again s => again = false ∧ (Settled s.2 ↔ b)) fun _ s => ¬ Settled s.2 ∧ ¬ b) :
    Triple p (app.traced.settle m r) (fun _ s => Settled s.2 ↔ b) fun _ s => ¬ Settled s.2 ∧ ¬ b := by
  unfold App.settle
  refine Triple.tryFinally (f := app.traced.endPhase) (Q := fun _ s => Settled s.2 ↔ b)
    (E := fun _ s => ¬ Settled s.2 ∧ ¬ b) ?_
  refine Triple.bind (Q := fun again s => if again then b else Settled s.2 ↔ b)
    (Triple.tryExcept ha (fun e he => ?_) fun e s he hs => ?_) fun again => ?_
  · rw [isAny_exception] at he
    rintro s ⟨hs, hx⟩
    rw [he, if_pos rfl] at hx
    refine ((hr e hx).post fun again s hs => ?_) s hs
    rw [hs.1]
    exact hs.2
  · rw [isAny_exception] at he
    rw [he] at hs
    exact hs
  · cases again with
    | true =>
      rintro s (hb : b)
      exact (settles_ackSettled hT).conseq (fun _ (_ : True) => trivial) (fun _ _ hs => ⟨fun _ => hb, fun _ => hs⟩)
        (fun _ _ => False.elim) s trivial
    | false => exact Triple.pure () fun _ hs => hs

include hT hp

/-- A delivery under the poison route is dead-lettered. -/
theorem attempt_gated (hr : m.routeUrn = .plain nonNumericAttemptsRoute) {r : App.Routing (σ × Trace)}
    (hc : r.poisonCause = none) (hh : r.handler = none) :
    Triple p (app.traced.attempt m r) (fun again s => if again then True else (Settled s.2 ↔ True)) fun _ _ => False := by
  unfold App.attempt
  rw [hc, hh]
  refine Triple.bind (Triple.modify (Q := fun _ _ => True) _ fun _ _ => trivial) fun _ =>
    Triple.bind (Q := fun _ s => Settled s.2) ?_ fun _ => Triple.pure false fun s hs => by simpa using hs
  unfold App.routeUnknown
  rw [hr]
  dsimp only
  rw [if_pos rfl]
  obtain ⟨target, ht⟩ := deadLetterTarget_isOk hT m
  refine triple_get fun s => triple_lift_ok ht ?_
  obtain ⟨record, hrec⟩ : ∃ record,
      buildPoisonRecord m.body (poisonBlock m none 0 (app.traced.now s)).toDict = .ok record :=
    buildPoisonRecord_isOk.mpr ⟨app.now_lt s.1, Nat.pow_pos (by decide)⟩
  exact triple_lift_ok hrec (settles_writeDeadLetter hT hp _ _ _ _)

include hu

/-- A poison body is deleted, or parsed once more and then dead-lettered or retried. -/
theorem decides_routeBodyPoison {cause : Str} (h0 : m.nativeAttempts = 0) :
    Decides (app.traced.routeBodyPoison m cause) (app.onUnknownUrn = .delete ∨ ¬ Overdeep m.body ∧
      (app.deadLetters = true ∨ ∀ n, poisonAttempts m = .ok n → app.RetryPasses n)) := by
  unfold App.routeBodyPoison
  split
  · next hdel => exact (settles_ackSettled hT).decides (.inl hdel)
  · next hdel =>
    refine Decides.congr ?_ (or_iff_right hdel).symm
    cases hn : poisonAttempts m with
    | error e =>
      exact triple_lift_error rfl fun _ hs => ⟨hs, fun h => h.1 (poisonAttempts_error_iff.mp ⟨e, hn⟩)⟩
    | ok n =>
      have hover : ¬ Overdeep m.body := by
        intro h
        obtain ⟨e, he⟩ := poisonAttempts_error_iff.mpr h
        rw [hn] at he
        cases he
      have hw : n.natAbs < 10 ^ maxStrDigits := (poisonAttempts_lt hn).mpr (by rw [h0]; exact Nat.pow_pos (by decide))
      refine triple_lift_ok rfl ?_
      split
      · next hd =>
        refine Settles.decides ?_ ⟨hover, .inl hd⟩
        obtain ⟨target, ht⟩ := deadLetterTarget_isOk hT m
        refine triple_get fun s => triple_lift_ok ht ?_
        obtain ⟨record, hrec⟩ : ∃ record,
            buildPoisonRecord m.body (poisonBlock m (some cause) n (app.traced.now s)).toDict = .ok record :=
          buildPoisonRecord_isOk.mpr ⟨app.now_lt s.1, hw⟩
        exact triple_lift_ok hrec (settles_writeDeadLetter hT hp _ _ _ _)
      · next hd =>
        have hd' : app.deadLetterEnabled ≠ true := by
          intro h
          exact hd (by unfold App.deadLetters; simp [App.traced, h])
        rw [settleNative_unaided hu]
        refine Decides.congr (decides_retryOrDeadLetter hT hp hu (routable_attempts hw) (fun h => absurd h hd') _) ?_
        have ha : envelopeAttempts [(str "attempts", .int n)] = .ok n := by
          unfold envelopeAttempts
          simp [Dict.get?, Json.toInt]
        simp only [ha, Except.ok.injEq, exists_eq_left', forall_eq', hover, not_false_eq_true, true_and]
        exact (or_iff_right hd).symm

omit hT hp in
/-- The `except` of a poison delivery leaves it as it is. -/
theorem recover_unsettled {cause : Str} (hg : m.gated = false) {e : PyExc} {b : Prop} (hb : ¬ b) :
    Triple (fun s => ¬ Settled s.2) (app.traced.recover m (App.Routing.traced ⟨some cause, [], [], none⟩) e)
      (fun again s => again = false ∧ (Settled s.2 ↔ b)) fun _ s => ¬ Settled s.2 ∧ ¬ b := by
  unfold App.recover
  simp only [App.Routing.traced, Option.isSome_some, Bool.true_or, if_true, hg, Bool.false_eq_true, if_false,
    rewindUnsettled_unaided hu]
  refine Triple.bind (Triple.modify (Q := fun _ s => ¬ Settled s.2) _ fun _ hs => hs) fun _ =>
    Triple.bind (Q := fun _ s => ¬ Settled s.2) (Triple.pure () fun _ hs => hs) fun _ => ?_
  exact Triple.pure false fun _ hs => ⟨rfl, fun h => absurd h hs, fun h => absurd h hb⟩

/-- The `except` of an envelope goes through the retry path. -/
theorem recover_envelope {envelope : Dict Json} {urn : Str} {handler : Option (Handler σ)} (h : Routable envelope)
    (hi : HasKind .integer (envelope.getJ (str "attempts"))) (hg : m.gated = false) (e : PyExc) :
    Triple (fun s => ¬ Settled s.2) (app.traced.recover m (App.Routing.traced ⟨none, envelope, urn, handler⟩) e)
      (fun again s => again = false ∧ (Settled s.2 ↔ ∃ n, envelopeAttempts envelope = .ok n ∧ app.RetryPasses n))
      fun _ s => ¬ Settled s.2 ∧ ¬ ∃ n, envelopeAttempts envelope = .ok n ∧ app.RetryPasses n := by
  unfold App.recover
  simp only [App.Routing.traced, Option.isSome_none, Bool.false_or, hg, Bool.false_eq_true, if_false]
  have hr := decides_retryOrDeadLetter (m := m) hT hp hu h 
    (fun _ n hn => (Int.natAbs_add_le n 1).trans_lt (envelopeAttempts_lt hi hn)) e
  exact Triple.bind (Triple.modify (Q := fun _ (s : σ × Trace) => ¬ Settled s.2) _ fun _ hs => hs) fun _ =>
    Triple.bind hr fun _ => Triple.pure false fun _ hs => ⟨rfl, hs⟩

omit [Interpreter] hT hp hu in
theorem not_settled_append {e : Event} (he : e.settles = false) {tr : Trace} (h : ¬ Settled tr) :
    ¬ Settled (tr ++ [e]) := by
  rintro ⟨x, hx, hs⟩
  rcases List.mem_append.mp hx with hx | hx
  · exact h ⟨x, hx, hs⟩
  · rw [List.mem_singleton.mp hx, he] at hs
    cases hs

omit hT hu in
/-- The `try` of an envelope with a handler. -/
theorem attempt_handler {envelope : Dict Json} {urn : Str} {handler : Handler σ}
    (hh : app.handlers.get? urn = some handler) {data metaBlock : Json}
    (hd : dictOf ((envelope.getJ (str "data")).orElse (.obj [])) = .ok data)
    (hm : dictOf ((envelope.getJ (str "meta")).orElse (.obj [])) = .ok metaBlock) (s : σ) :
    Triple (· = (s, [])) (app.traced.attempt m (App.Routing.traced ⟨none, envelope, urn, some handler⟩))
      (fun again _ => again = true ∧ (handler data metaBlock envelope (app.setPhase .handling s)).1 = .ok ())
      fun e s' => ¬ Settled s'.2 ∧ e.isException = true ∧
        (handler data metaBlock envelope (app.setPhase .handling s)).1 ≠ .ok () := by
  refine Triple.bind (Triple.modify (Q := fun _ s' => s' = (app.setPhase .handling s, [])) _ ?_) fun _ => ?_
  · rintro _ rfl
    rfl
  refine Triple.bind (Q := fun _ _ => (handler data metaBlock envelope (app.setPhase .handling s)).1 = .ok ()) ?_
    fun _ => Triple.bind (Triple.modify (Q := fun _ _ => _) _ fun _ hs => hs) fun _ => Triple.pure true fun _ hs => ⟨rfl, hs⟩
  unfold App.invoke
  refine triple_lift_ok hd (triple_lift_ok hm (Triple.bind ?_ fun _ => Triple.modify (Q := fun _ _ => _) _ fun _ hs => hs))
  rintro _ rfl
  have hraise := hp.handler urn handler hh data metaBlock envelope (app.setPhase .handling s)
  dsimp only [App.Routing.traced, record]
  revert hraise
  rcases handler data metaBlock envelope (app.setPhase .handling s) with ⟨e | _, s'⟩
  · intro hraise
    refine ⟨?_, hraise e rfl, by simp⟩
    rintro ⟨event, he, hset⟩
    obtain rfl := List.mem_singleton.mp he
    cases hset
  · exact fun _ => rfl

omit [Interpreter] hT hp hu in
theorem isException_unknownUrnError (msg : Str) : (⟨unknownUrnError, msg⟩ : PyExc).isException = true := by
  simp [PyExc.isException, PyExc.isA, unknownUrnError, babelQueueError, ExcClass.ancestors]

omit hu in
/-- The `try` of an envelope without a handler. -/
theorem attempt_unknown {d envelope : Dict Json} {urn : Str} (hl : loads m.body = .ok (.obj d))
    (henv : Routable envelope) (hi : HasKind .integer (envelope.getJ (str "attempts")))
    (hne : urn ≠ []) (hr : m.routeUrn = .plain []) (hg : m.gated = false) :
    Triple (fun s => ¬ Settled s.2)
      (app.traced.attempt m (App.Routing.traced ⟨none, envelope, urn, none⟩))
      (fun again s => again = false ∧ Settled s.2 ∧ app.StrategySettles envelope)
      fun e s => ¬ Settled s.2 ∧ (e.isException = true ∨ ∀ n, envelopeAttempts envelope ≠ .ok n) ∧
        ¬ app.StrategySettles envelope := by
  have done : ∀ {c : Act (σ × Trace) Unit} {a : Prop} {E : PyExc → σ × Trace → Prop}, Settles c → a →
      Triple (fun s => ¬ Settled s.2) c (fun _ s => Settled s.2 ∧ a) E := fun hc ha =>
    hc.conseq (fun _ _ => trivial) (fun _ _ hs => ⟨hs, ha⟩) fun _ _ => False.elim
  refine Triple.bind (Triple.modify (Q := fun _ (s : σ × Trace) => ¬ Settled s.2) _ fun _ hs => hs) fun _ =>
    Triple.bind ?_ fun _ => Triple.pure false fun _ hs => ⟨rfl, hs⟩
  unfold App.routeUnknown
  rw [hr]
  dsimp only
  rw [if_neg (by decide +kernel)]
  split
  · next hdel => exact done (settles_ackSettled hT) (.inl hdel)
  next hdel =>
  rw [hg, if_neg (by simp)]
  unfold App.applyStrategy
  split
  · next hrel =>
    refine done ?_ (.inr (.inl hrel.1))
    exact Triple.tryExcept (E := fun _ _ => False) (settles_release hT (withoutForbiddenKeys_isOk hl) _)
      (fun _ _ _ => False.elim) fun _ _ _ => False.elim
  next hrel =>
  have hrel' : app.onUnknownUrn ≠ .release := fun h => hrel ⟨h, hne⟩
  split
  · next hdl =>
    cases hn : envelopeAttempts envelope with
    | ok n =>
      exact done (settles_deadLetter hT hp henv hn (Nat.lt_of_succ_lt (envelopeAttempts_lt hi hn)) _ _)
        (.inr (.inr ⟨hdl, n, hn⟩))
    | error e =>
      obtain ⟨metaBlock, queue, hm, hq⟩ := originalQueue_isOk (m := m) henv
      refine triple_lift_ok hm (triple_lift_ok hq (triple_lift_error hn fun s hs => ⟨hs, .inr (by simp), ?_⟩))
      have hdel' : app.onUnknownUrn ≠ .delete := hdel
      simp [App.StrategySettles, hdel', hrel', hn]
  · next hdl =>
    refine Triple.raise _ fun s hs => ⟨hs, .inl (isException_unknownUrnError _), ?_⟩
    rintro (h | h | h)
    · exact hdel h
    · exact hrel' h
    · exact hdl h.1

end Dispatch

/-! ## The condition, by what was found out -/

theorem survives_poison_iff (hg : m.gated = false) {cause : Str} (hc : app.causeOf m = .ok (some cause)) {s : σ} :
    (app.onUnknownUrn = .delete ∨ ¬ Overdeep m.body ∧
      (app.deadLetters = true ∨ ∀ n, poisonAttempts m = .ok n → app.RetryPasses n)) ↔ Survives app m s := by
  have hclass := classify_poison hc
  refine ⟨.poison hc, fun h => ?_⟩
  cases h with
  | gated h => rw [hg] at h; cases h
  | poison _ h => exact h
  | handled hr hh => rw [hclass] at hr; cases hr; cases hh
  | unknown hr hc' => rw [hclass] at hr; cases hr; cases hc'
  | retried hr hc' => rw [hclass] at hr; cases hr; cases hc'

theorem survives_unknown_iff (hg : m.gated = false) {envelope : Dict Json} {urn : Str} {s : σ}
    (hclass : app.classify m = .ok ⟨none, envelope, urn, none⟩) :
    (app.StrategySettles envelope ∨
      ∃ n, envelopeAttempts envelope = .ok n ∧ app.RetryPasses n) ↔ Survives app m s := by
  constructor
  · rintro (h | ⟨n, hn, h⟩)
    · exact .unknown hclass rfl rfl h
    · exact .retried hclass rfl hn h
  · intro h
    cases h with
    | gated h => rw [hg] at h; cases h
    | poison hc => rw [(App.classify_ok hclass).1] at hc; cases hc
    | handled hr hh => rw [hclass] at hr; cases hr; cases hh
    | unknown hr _ _ h => rw [hclass] at hr; cases hr; exact .inl h
    | retried hr _ hn h => rw [hclass] at hr; cases hr; exact .inr ⟨_, hn, h⟩

theorem survives_handled_iff (hg : m.gated = false) {envelope : Dict Json} {urn : Str} {handler : Handler σ}
    (hclass : app.classify m = .ok ⟨none, envelope, urn, some handler⟩) {data metaBlock : Json}
    (hd : dictOf ((envelope.getJ (str "data")).orElse (.obj [])) = .ok data)
    (hm : dictOf ((envelope.getJ (str "meta")).orElse (.obj [])) = .ok metaBlock) (s : σ) :
    ((handler data metaBlock envelope (app.setPhase .handling s)).1 = .ok () ∨
      ∃ n, envelopeAttempts envelope = .ok n ∧ app.RetryPasses n) ↔ Survives app m s := by
  constructor
  · rintro (h | ⟨n, hn, h⟩)
    · exact .handled hclass rfl hd hm h
    · exact .retried hclass rfl hn h
  · intro h
    cases h with
    | gated h => rw [hg] at h; cases h
    | poison hc => rw [(App.classify_ok hclass).1] at hc; cases hc
    | handled hr hh hd' hm' h =>
      rw [hclass] at hr
      cases hr
      cases hh
      rw [hd] at hd'
      rw [hm] at hm'
      cases hd'
      cases hm'
      exact .inl h
    | unknown hr _ hh => rw [hclass] at hr; cases hr; cases hh
    | retried hr _ hn h => rw [hclass] at hr; cases hr; exact .inr ⟨_, hn, h⟩

omit [Interpreter] in
theorem settled_iff_of_triple {p : σ × Trace → Prop} {c : Act (σ × Trace) Unit} {b : Prop}
    (h : Triple p c (fun _ s => Settled s.2 ↔ b) fun _ s => ¬ Settled s.2 ∧ ¬ b) {s : σ × Trace} (hs : p s) :
    (c s).1 = .ok () ∧ Settled (c s).2.2 ↔ b := by
  have := h s hs
  revert this
  rcases c s with ⟨e | _, s'⟩
  · rintro ⟨-, hb⟩
    simp [hb]
  · intro hb
    simpa using hb

end Interpreter

namespace InMemory

theorem unaided : app.transport.Unaided := ⟨rfl, rfl, rfl, rfl⟩

theorem polite : app.Polite where
  handler _ _ h := by cases h
  observer _ h := by cases h

end InMemory

section CPython

attribute [local instance] cpython

def nullAttempts : ReceivedMessage Unit := popped [] (str "\x7b\"job\":\"urn:x\",\"attempts\":null\x7d") (str "orders") () []

end CPython

end BabelQueue
