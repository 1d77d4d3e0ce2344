import BabelQueue.App.Gated

/-!
# The `dead_letter` strategy for unknown URNs

An envelope without a handler, under `on_unknown_urn=DEAD_LETTER`, is acknowledged only with a copy of
it written, unless three things meet in one dispatch: the dead-letter write fails, the retries are
exhausted, and `dead_letter` is off. Then the retry path drops it.

* `KeepsCopy app m s`: they do not meet in the dispatch of `m` from `s`.
* `redeliveries_keep_copy`: in a run whose dispatches all have it, no acknowledgement comes without a
  copy.
-/

namespace BabelQueue

open Py Py.Json

variable {σ η : Type}

section Interpreter

variable [Interpreter]

/-- An envelope with an identity and without a handler, on a transport without a dead-letter writer,
under `on_unknown_urn=DEAD_LETTER`. -/
structure Unknown (app : App σ η) (m : ReceivedMessage η) : Prop where
  strategy : app.onUnknownUrn = .deadLetter
  writer : app.transport.deadLetter = none
  route : ∃ route, m.routeUrn = .plain route
  wellFormed : poisonCause m.body true = .ok none
  unhandled : ∀ r, app.classify m = .ok r → r.handler = none

/-- A copy of `m` was published: a record to the dead-letter queue, or a retry copy to its own. -/
def Copied (app : App σ η) (m : ReceivedMessage η) (tr : Trace) : Prop :=
  ∃ queue body, Successor app m queue body ∧ .publish queue body (.ok ()) ∈ tr

/-- The dead-letter write of `m` returns, whatever the record. -/
def DeadLetterReturns (app : App σ η) (m : ReceivedMessage η) (s : σ) : Prop :=
  ∃ target, app.deadLetterTarget m = .ok target ∧
    ∀ body, (app.publishFor m target body (app.setPhase .settling s)).1 = .ok ()

/-- Dead-lettering is on, retries are left, or the dead-letter write returns. -/
def KeepsCopy (app : App σ η) (m : ReceivedMessage η) (s : σ) : Prop :=
  app.deadLetterEnabled = true ∨
    (∀ envelope n, decodeLenient m.body = .ok envelope → envelopeAttempts envelope = .ok n → n + 1 < app.maxAttempts) ∨
    DeadLetterReturns app m s

/-- A run: each delivery is dispatched in turn, from a state the outside world has changed in any
way since the last dispatch. For each, the state it started from and its trace. -/
def App.redeliveries (app : App σ η) : List ((σ → σ) × ReceivedMessage η) → σ → List (ReceivedMessage η × σ × Trace)
  | [], _ => []
  | (change, m) :: ms, s =>
    let r := app.traced.dispatch m (change s, [])
    (m, change s, r.2.2) :: app.redeliveries ms r.2.1

variable {app : App σ η} {m : ReceivedMessage η}

/-! ## One dispatch -/

theorem poisonCause_mono {raw : Str} (h : poisonCause raw true = .ok none) (requireIdentity : Bool) :
    poisonCause raw requireIdentity = .ok none := by
  cases requireIdentity with
  | true => exact h
  | false =>
    unfold poisonCause at h ⊢
    split at h
    · cases h
    next hu =>
    rw [if_neg hu]
    split at h
    · cases h
    · cases h
    · next d hd => simp
    · cases h

theorem Unknown.causeOf (h : Unknown app m) : app.causeOf m = .ok none := by
  unfold App.causeOf
  split
  · rfl
  · exact poisonCause_mono h.wellFormed _

/-- The only drop rule for such a delivery. -/
theorem Unknown.exhausted (h : Unknown app m) (hd : DropRule app m) :
    m.gated = false ∧ app.deadLetterEnabled = false ∧ ∃ envelope n, decodeLenient m.body = .ok envelope ∧
      envelopeAttempts envelope = .ok n ∧ app.maxAttempts ≤ n + 1 := by
  have hon : app.deadLetters = true := by simp [App.deadLetters, h.strategy]
  obtain ⟨route, hr⟩ := h.route
  cases hd with
  | delete _ _ hu => rw [h.strategy] at hu; cases hu
  | gated _ hd => rw [hon] at hd; cases hd
  | tierless hp => rw [hr] at hp; cases hp
  | exhausted henv ha hn hd =>
    cases henv with
    | decoded hg _ henv => exact ⟨hg, hd, _, _, henv, ha, hn⟩
    | poisonRoute hp => rw [hr] at hp; cases hp
    | poisonBody hc => rw [h.causeOf] at hc; cases hc

theorem Unknown.classify (h : Unknown app m) (hg : m.gated = false) {d : Dict Json} (hl : loads m.body = .ok (.obj d))
    (hid : isValidUrn ((foldIdentity d).getJ (str "job")) = true) :
    ∃ urn, app.classify m = .ok ⟨none, foldIdentity d, urn, none⟩ := by
  obtain ⟨urn, -, -, h1, h2⟩ := toStr_of_identity hid ((foldIdentity d).getJ (str "urn")) (.str [])
  have hc : ∃ urn handler, app.classify m = .ok ⟨none, foldIdentity d, urn, handler⟩ := by
    unfold App.classify
    rw [h.causeOf]
    simp only [bind, Except.bind, App.envelopeOf, hg, Option.isSome_none, Bool.or_self, Bool.false_eq_true, if_false,
      decodeLenient_obj hl, h1, h2, Json.toStr, pure, Except.pure]
    exact ⟨_, _, rfl⟩
  obtain ⟨urn, handler, hc⟩ := hc
  obtain rfl : handler = none := h.unhandled _ hc
  exact ⟨urn, hc⟩

/-- With a dead-letter write that returns, the record comes before the acknowledgement. -/
theorem Unknown.deadLetter_written (h : Unknown app m) {envelope : Dict Json} (henv : RetryEnvelope app m envelope)
    (hr : Routable envelope) {n : Int} (hn : envelopeAttempts envelope = .ok n) (hw : n.natAbs < 10 ^ maxStrDigits)
    {s : σ} (hret : DeadLetterReturns app m s) :
    Triple (· = (app.setPhase .settling s, [])) (app.traced.deadLetter m envelope (str "unknown_urn") none)
      (fun _ s' => AcksAfter (Copied app m) s'.2) fun e s' => e.isException = false ∧ AcksAfter (Copied app m) s'.2 := by
  obtain ⟨metaBlock, queue, hm, hq⟩ := originalQueue_isOk (m := m) hr
  obtain ⟨target, ht, hpub⟩ := hret
  unfold App.deadLetter
  refine triple_lift_ok hm (triple_lift_ok hq (triple_lift_ok hn (triple_get fun s' => triple_lift_ok ht ?_)))
  obtain ⟨body, hb⟩ : ∃ body, encode (annotate envelope (str "unknown_urn") queue n none none (app.now s'.1)) = .ok body := by
    refine encode_isOk (hr.clean.set (by simp [Plain]) _) (hr.storable.set _ ?_ (DeadLetterBlock.toDict_proper _))
    exact DeadLetterBlock.writable_toDict.mpr ⟨app.now_lt s'.1, hw⟩
  refine triple_lift_ok hb ?_
  have hcopied : Copied app m [.publish target body (.ok ())] :=
    ⟨target, body, .deadLetter ht (.annotated (.inl henv) hb), by simp⟩
  have hd : app.traced.transport.deadLetter = none := by
    simp only [App.traced, Transport.traced, h.writer, Option.map_none]
  unfold App.writeDeadLetter
  rw [hd]
  refine Triple.bind (Q := fun _ s' => s'.2 = [.publish target body (.ok ())]) ?_ fun _ => Triple.bind
    (Q := fun _ s' => AcksAfter (Copied app m) s'.2) ?_ fun _ => notifyDeadLetter_spec _
  · rintro _ rfl
    rw [publishFor_traced, record]
    simp only [hpub body]
    rfl
  · refine caught_record (p := fun tr => tr = [.publish target body (.ok ())]) ?_
    rintro _ r rfl
    refine Unacked.acksAfter_append (fun e he => ?_) hcopied
    rw [List.mem_singleton.mp he]
    rfl

/-- With a dead-letter write that returns, the `try` ends the delivery. -/
theorem Unknown.attempt_written (h : Unknown app m) (hg : m.gated = false) {d : Dict Json}
    (hl : loads m.body = .ok (.obj d)) (ht : Typed topKinds d) {n : Int}
    (hn : envelopeAttempts (foldIdentity d) = .ok n) {s : σ} (hw : DeadLetterReturns app m s) (urn : Str) :
    Triple (· = (s, [])) (app.traced.attempt m (App.Routing.traced ⟨none, foldIdentity d, urn, none⟩))
      (fun again s' => again = false ∧ AcksAfter (Copied app m) s'.2)
      fun e s' => e.isException = false ∧ AcksAfter (Copied app m) s'.2 := by
  obtain ⟨route, hr⟩ := h.route
  have hroute : route ≠ nonNumericAttemptsRoute := by
    rintro rfl
    rw [ReceivedMessage.gated, hr] at hg
    exact absurd hg (by decide +kernel)
  have hi : HasKind .integer ((foldIdentity d).getJ (str "attempts")) :=
    hasKind_foldIdentity ht (by simp [topKinds, Dict.get?]) (by simp [Plain]) (by simp)
  refine Triple.bind (Triple.modify (Q := fun _ s' => s' = (app.setPhase .settling s, [])) _ ?_) fun _ =>
    Triple.bind (Q := fun _ s' => AcksAfter (Copied app m) s'.2) ?_ fun _ => Triple.pure false fun _ hs => ⟨rfl, hs⟩
  · rintro _ rfl
    rfl
  unfold App.routeUnknown App.applyStrategy
  rw [hr]
  dsimp only
  rw [if_neg hroute, if_neg (by simp [App.traced, h.strategy]), hg, if_neg (by simp),
    if_neg (by simp [App.traced, h.strategy]), if_pos (by simp [App.traced, h.strategy])]
  exact h.deadLetter_written (.decoded hg h.causeOf (decodeLenient_obj hl)) (routable_foldIdentity hl ht) hn
    (Nat.lt_of_succ_lt (envelopeAttempts_lt hi hn)) hw

theorem Unknown.dispatch_written (h : Unknown app m) (hg : m.gated = false) {envelope : Dict Json} {n : Int}
    (henv : decodeLenient m.body = .ok envelope) (hn : envelopeAttempts envelope = .ok n) {s : σ}
    (hw : DeadLetterReturns app m s) :
    AcksAfter (Copied app m) (app.traced.dispatch m (s, [])).2.2 := by
  obtain ⟨d, hl, ht, hid⟩ := poisonCause_none h.wellFormed
  rw [decodeLenient_obj hl] at henv
  cases henv
  obtain ⟨urn, hc⟩ := h.classify hg hl (isValidUrn_foldIdentity (hid rfl))
  have ha : Triple (· = (s, [])) (app.traced.attempt m (App.Routing.traced ⟨none, foldIdentity d, urn, none⟩))
      (fun again s' => again = false ∧ AcksAfter (Copied app m) s'.2)
      fun e s' => if e.isException then False else AcksAfter (Copied app m) s'.2 :=
    (h.attempt_written hg hl ht hn hw urn).conseq (fun _ => id) (fun _ _ => id) fun e s' hs => by rw [hs.1]; exact hs.2
  have := dispatch_spec m hc (@settle_spec _ _ _ app m (AcksAfter (Copied app m)) _ _ (fun _ _ => False) ha
    fun _ _ _ hs => hs.elim) (s, []) rfl
  revert this
  rcases app.traced.dispatch m (s, []) with ⟨_ | _, _⟩ <;> exact id

/-- A dispatch acknowledges only with a copy written. -/
theorem Unknown.dispatch_keeps (h : Unknown app m) {s : σ} (hk : KeepsCopy app m s) :
    AcksAfter (Copied app m) (app.traced.dispatch m (s, [])).2.2 := by
  by_cases hd : DropRule app m
  · obtain ⟨hg, hoff, envelope, n, henv, hn, hmax⟩ := h.exhausted hd
    rcases hk with hon | hleft | hw
    · rw [hoff] at hon; cases hon
    · have := hleft envelope n henv hn
      omega
    · exact h.dispatch_written hg henv hn hw
  · have C : Custody app.traced m _ _ fun s => AcksAfter (Copied app m) s.2 :=
      custody_traced (fun hd' => absurd hd' hd)
        (fun r handler hr hh => by rw [h.unhandled r hr] at hh; cases hh)
        fun queue body hs tr => ⟨queue, body, hs, by simp⟩
    have := C.dispatch (s, []) (fun _ he => by cases he)
    revert this
    rcases app.traced.dispatch m (s, []) with ⟨_ | _, _⟩ <;> exact id

/-! ## A run -/

/-- In a run of deliveries without a handler, each of which keeps a copy, none is acknowledged without
one. -/
theorem redeliveries_keep_copy (ms : List ((σ → σ) × ReceivedMessage η)) (s : σ) (hm : ∀ c ∈ ms, Unknown app c.2)
    (hk : ∀ d ∈ app.redeliveries ms s, KeepsCopy app d.1 d.2.1) :
    ∀ d ∈ app.redeliveries ms s, AcksAfter (Copied app d.1) d.2.2 := by
  induction ms generalizing s with
  | nil => exact fun d hd => nomatch hd
  | cons c ms ih =>
    rw [App.redeliveries, List.forall_mem_cons] at hk ⊢
    exact ⟨(hm c List.mem_cons_self).dispatch_keeps hk.1,
      ih _ (fun c' hc' => hm c' (List.mem_cons_of_mem _ hc')) hk.2⟩

theorem unhandled_of_no_handlers (h : app.handlers = []) {r : App.Routing σ} (hr : app.classify m = .ok r) :
    r.handler = none := by
  unfold App.classify at hr
  obtain ⟨cause, -, hr⟩ := bind_eq_ok.mp hr
  obtain ⟨envelope, -, hr⟩ := bind_eq_ok.mp hr
  obtain ⟨bodyUrn, -, hr⟩ := bind_eq_ok.mp hr
  cases hr
  simp [h]

end Interpreter

section CPython

attribute [local instance] cpython

/-- An envelope without a handler. -/
def unhandled : ReceivedMessage Unit := popped [] (str "\x7b\"job\":\"urn:x\"\x7d") (str "orders") () []

/-- One attempt, under the strategy, with dead-lettering off or on. -/
def InMemory.strategyApp (deadLetter : Bool) : App InMemory Unit :=
  { InMemory.app with onUnknownUrn := .deadLetter, maxAttempts := 1, deadLetterEnabled := deadLetter }

theorem unhandled_wellFormed : poisonCause unhandled.body true = .ok none := by decide +kernel

theorem InMemory.unknown_unhandled (deadLetter : Bool) : Unknown (strategyApp deadLetter) unhandled :=
  ⟨rfl, rfl, ⟨_, rfl⟩, unhandled_wellFormed, fun _ => unhandled_of_no_handlers rfl⟩

theorem unhandled_keeps_copy :
    ((InMemory.strategyApp true).redeliveries [(id, unhandled)] []).Forall
      fun d => AcksAfter (Copied (InMemory.strategyApp true) d.1) d.2.2 :=
  List.forall_iff_forall_mem.mpr (redeliveries_keep_copy [(id, unhandled)] []
    (by simpa using InMemory.unknown_unhandled true) fun _ _ => .inl rfl)

/-- A broker that refuses every publish. -/
def InMemory.refusingApp : App InMemory Unit :=
  { strategyApp false with
    transport := { InMemory.transport with publish := fun _ _ => Act.raise ⟨.exception, str "refused"⟩ } }

/-- The refused dead-letter write is followed by an acknowledgement. -/
theorem unhandled_dropped :
    Unknown InMemory.refusingApp unhandled ∧
      ¬ AcksAfter (Copied InMemory.refusingApp unhandled) (InMemory.refusingApp.traced.dispatch unhandled ([], [])).2.2 := by
  refine ⟨⟨rfl, rfl, ⟨_, rfl⟩, unhandled_wellFormed, fun _ => unhandled_of_no_handlers rfl⟩, fun h => ?_⟩
  have hshape : (InMemory.refusingApp.traced.dispatch unhandled ([], [])).2.2.map Event.shape =
      [.publish (str "orders.dlq") [] (.error ⟨.exception, str "refused"⟩), .ack (.ok ())] := by
    decide +kernel
  obtain ⟨w, tr, htr, hw, hack⟩ := List.map_eq_cons_iff.mp hshape
  obtain ⟨a, tr, rfl, ha, hnil⟩ := List.map_eq_cons_iff.mp hack
  obtain rfl := List.map_eq_nil_iff.mp hnil
  cases a <;> cases ha
  obtain ⟨queue, body, -, hmem⟩ := h.2 [w] _ [] (by rw [htr]; rfl)
  rw [← List.mem_singleton.mp hmem] at hw
  cases hw

end CPython

end BabelQueue
