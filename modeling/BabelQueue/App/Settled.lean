import BabelQueue.App.Poison
import BabelQueue.Transports.Delivery

/-!
# Settled deliveries

On a transport that does not fail, which private methods settle a delivery.

* `Popped`: what a pop of the in-memory, AMQP and Redis transports hands over.
* `Classified.cases`: such a delivery is under the poison route, poison, or an envelope with an identity.
* `Settles c`: `c` returns with the delivery settled. `Decides c b`: it does so if and only if `b`.
-/

namespace BabelQueue

open Py Py.Json

variable {σ η : Type}

/-- The event settles the delivery: acknowledged, given back, or dead-lettered. -/
def Event.settles : Event → Bool
  | .ack (.ok _) => true
  | .redeliver _ (.ok _) => true
  | .deadLetter _ _ (.ok _) => true
  | _ => false

def Settled (tr : Trace) : Prop := ∃ e ∈ tr, e.settles = true

theorem Settled.append {tr : Trace} (h : Settled tr) (tr' : Trace) : Settled (tr ++ tr') := by
  obtain ⟨e, he, hs⟩ := h
  exact ⟨e, List.mem_append_left _ he, hs⟩

theorem settled_append {e : Event} (h : e.settles = true) (tr : Trace) : Settled (tr ++ [e]) := ⟨e, by simp, h⟩

/-- A transport with nothing to hand an unsettled delivery back with. -/
structure Transport.Unaided (T : Transport σ η) : Prop where
  rewind : T.rewind = none
  abandon : T.abandon = none
  settleNative : T.settleNative = none
  settleNativeDeadLetter : T.settleNativeDeadLetter = none

variable [Interpreter]

/-! ## Deliveries of the three transports -/

/-- The message of a `pop` of the in-memory, AMQP or Redis transport. -/
inductive Popped : {η : Type} → Transport σ η → ReceivedMessage η → Prop
  | memory {T : Transport σ Unit} (hT : T.Unaided) (hc : T.classifiesPoison = false) (body queue : Str)
      (headers : Dict Str) : Popped T (popped [] body queue () headers)
  | amqp {T : Transport σ Nat} (hT : T.Unaided) (hc : T.classifiesPoison = false) (queue : Str) (body : Bytes)
      (deliveryTag : Nat) (headers : Dict Str) : Popped T (amqpMessage queue body deliveryTag headers)
  | legacy {T : Transport σ RedisHandle} {m : ReceivedMessage RedisHandle} (hT : T.Unaided)
      (hc : T.classifiesPoison = true) {queue text token : Str} (h : legacyMessage queue text token = .ok m) : Popped T m
  | zset {T : Transport σ RedisHandle} {m : ReceivedMessage RedisHandle} (hT : T.Unaided)
      (hc : T.classifiesPoison = true) {queue job reserved : Str} (h : zsetMessage queue job reserved = .ok m) : Popped T m

/-- What the runtime relies on: a delivery without a route that is classified by someone, or one
under the reserved poison route. -/
structure Classified (T : Transport σ η) (m : ReceivedMessage η) : Prop where
  unaided : T.Unaided
  route : m.routeUrn = .plain [] ∧ (T.classifiesPoison = true → poisonCause m.body true = .ok none) ∨
    m.routeUrn = .plain nonNumericAttemptsRoute
  native : m.nativeAttempts = 0

theorem classified_of_cause {T : Transport σ η} (hT : T.Unaided) {body queue : Str} {handle : η} {headers : Dict Str}
    {route : Str} (h : route = [] ∧ (T.classifiesPoison = true → poisonCause body true = .ok none) ∨
      route = nonNumericAttemptsRoute) : Classified T (popped route body queue handle headers) := by
  refine ⟨hT, ?_, rfl⟩
  rcases h with ⟨rfl, h⟩ | rfl
  · exact .inl ⟨rfl, h⟩
  · exact .inr rfl

theorem Popped.classified {T : Transport σ η} {m : ReceivedMessage η} (h : Popped T m) : Classified T m := by
  cases h with
  | memory hT hc => exact classified_of_cause hT (.inl ⟨rfl, fun h => by rw [hc] at h; cases h⟩)
  | amqp hT hc => exact classified_of_cause hT (.inl ⟨rfl, fun h => by rw [hc] at h; cases h⟩)
  | @legacy T m hT hc queue text token h =>
    unfold legacyMessage at h
    obtain ⟨⟨body, headers⟩, -, h⟩ := bind_eq_ok.mp h
    obtain ⟨route, hr, h⟩ := bind_eq_ok.mp h
    cases h
    refine classified_of_cause hT ?_
    unfold legacyRoute at hr
    split at hr
    · cases hr; exact .inr rfl
    · obtain ⟨cause, hcause⟩ := poisonCause_returns body true
      rw [hcause] at hr
      cases hr
      cases cause with
      | none => exact .inl ⟨rfl, fun _ => hcause⟩
      | some c => exact .inr rfl
  | @zset T m hT hc queue job reserved h =>
    unfold zsetMessage at h
    split at h
    · cases h; exact classified_of_cause hT (.inr rfl)
    · obtain ⟨cause, hcause⟩ := poisonCause_returns job true
      rw [hcause] at h
      cases h
      refine classified_of_cause hT ?_
      cases cause with
      | none => exact .inl ⟨rfl, fun _ => hcause⟩
      | some c => exact .inr rfl

/-! ## What is found out about a delivery -/

/-- An envelope every private method can read. -/
structure Routable (envelope : Dict Json) : Prop where
  clean : Clean envelope
  storable : Storable envelope
  metaBlock : HasKind .object (envelope.getJ (str "meta"))

theorem Routable.setAttempts {envelope : Dict Json} (h : Routable envelope) {n : Int}
    (hn : n.natAbs < 10 ^ maxStrDigits) : Routable (envelope.set (str "attempts") (.int n)) := by
  refine ⟨h.clean.set (by simp [Plain]) _, h.storable.set _ (writable_int.mpr hn) trivial, ?_⟩
  rw [Dict.getJ, Dict.get?_set_of_ne _ _ (by simp)]
  exact h.metaBlock

/-- The envelope the retry path counts a poison body with. -/
theorem routable_attempts {n : Int} (hn : n.natAbs < 10 ^ maxStrDigits) : Routable [(str "attempts", .int n)] :=
  Routable.setAttempts ⟨clean_nil, storable_nil, .inl rfl⟩ hn

theorem routable_foldIdentity {raw : Str} {d : Dict Json} (hl : loads raw = .ok (.obj d)) (ht : Typed topKinds d) :
    Routable (foldIdentity d) :=
  ⟨clean_foldIdentity d, storable_foldIdentity (storable_of_loads hl),
    hasKind_meta_foldIdentity (ht _ _ (by simp [topKinds, Dict.get?]))⟩

omit [Interpreter] in
/-- Folding keeps the kind of a member it does not look at. -/
theorem hasKind_foldIdentity {d : Dict Json} (ht : Typed topKinds d) {key : Str} {kind : MemberKind}
    (hk : topKinds.get? key = some kind) (hp : Plain key) (hj : key ≠ str "job") :
    HasKind kind ((foldIdentity d).getJ key) := by
  rw [Dict.getJ, get?_foldIdentity d hp hj]
  exact ht key kind hk

omit [Interpreter] in
theorem orElse_object {v : Json} (h : HasKind .object v) :
    ∃ d : Dict Json, v.orElse (.obj []) = .obj d ∧ (v = .obj d ∨ d = []) := by
  rcases h with rfl | ⟨d, rfl⟩
  · exact ⟨[], rfl, .inr rfl⟩
  · rw [Json.orElse]
    split
    · exact ⟨d, rfl, .inl rfl⟩
    · exact ⟨[], rfl, .inr rfl⟩

omit [Interpreter] in
theorem dictOf_isOk {v : Json} (h : HasKind .object v) : ∃ d, dictOf (v.orElse (.obj [])) = .ok d := by
  obtain ⟨d, hd, -⟩ := orElse_object h
  exact ⟨.obj d, by rw [hd]; rfl⟩

omit [Interpreter] in
theorem toStr_of_identity {d : Dict Json} (h : isValidUrn (d.getJ (str "job")) = true) (v w : Json) :
    ∃ urn, d.getJ (str "job") = .str urn ∧ urn ≠ [] ∧ (d.getJ (str "job")).orElse v = .str urn ∧
      (Json.str urn).orElse w = .str urn := by
  cases hv : d.getJ (str "job") with
  | str urn =>
    rw [hv] at h
    have hne : urn ≠ [] := by
      rintro rfl
      simp [isValidUrn, strip, lstrip, rstrip] at h
    exact ⟨urn, rfl, hne, by simp [Json.orElse, Json.truthy, hne], by simp [Json.orElse, Json.truthy, hne]⟩
  | _ => rw [hv] at h; cases h

/-- A typed count can be written, and the next one. -/
theorem envelopeAttempts_lt {envelope : Dict Json} (h : HasKind .integer (envelope.getJ (str "attempts"))) {n : Int}
    (hn : envelopeAttempts envelope = .ok n) : n.natAbs + 1 < 10 ^ maxStrDigits := by
  have hk : n.natAbs + 1 < 10 ^ 20 := by
    unfold envelopeAttempts at hn
    rw [Dict.getJ] at h
    cases ha : envelope.get? (str "attempts") with
    | none =>
      rw [ha] at hn
      obtain rfl : (0 : Int) = n := by simpa [Json.toInt] using hn
      decide
    | some v =>
      rw [ha] at h hn
      rcases h with rfl | ⟨i, rfl, h1, h2⟩
      · cases hn
      · cases hn
        simp only [int64Min, int64Max] at h1 h2
        omega
  exact hk.trans (Nat.pow_lt_pow_right (by omega) (by decide))

variable {app : App σ η} {m : ReceivedMessage η}

/-- A gated delivery reaches no handler. -/
theorem classify_gated (hg : m.gated = true) : app.classify m = .ok ⟨none, [], [], none⟩ := by
  have he : (((Dict.getJ ([] : Dict Json) (str "job")).orElse (Dict.getJ ([] : Dict Json) (str "urn"))).orElse
      (.str [])).toStr = .ok [] := rfl
  unfold App.classify App.causeOf
  rw [hg]
  simp only [bind, Except.bind, App.envelopeOf, hg, Bool.true_or, if_true]
  rw [he]
  simp [pure, Except.pure]

/-- A delivery that is not poison, on the empty route. -/
theorem classify_sound (hr : m.routeUrn = .plain []) (hc : app.causeOf m = .ok none)
    (hp : poisonCause m.body true = .ok none) :
    ∃ d urn, loads m.body = .ok (.obj d) ∧ Typed topKinds d ∧ urn ≠ [] ∧
      app.classify m = .ok ⟨none, foldIdentity d, urn, app.handlers.get? urn⟩ := by
  obtain ⟨d, hl, ht, hid⟩ := poisonCause_none hp
  obtain ⟨urn, hj, hne, h1, h2⟩ := toStr_of_identity (isValidUrn_foldIdentity (hid rfl))
    ((foldIdentity d).getJ (str "urn")) (.str [])
  refine ⟨d, urn, hl, ht, hne, ?_⟩
  have hg := gated_eq_false hr
  unfold App.classify
  rw [hc]
  simp only [bind, Except.bind, App.envelopeOf, hg, Option.isSome_none, Bool.or_self, Bool.false_eq_true, if_false,
    decodeLenient_obj hl, h1, h2, Json.toStr, hr, RouteUrn.text, ne_eq, not_true_eq_false, false_and,
    Option.isNone_none, and_true, pure, Except.pure]
  rw [if_pos hne]

/-- A delivery is under the poison route, poison, or an envelope with an identity. -/
theorem Classified.cases (h : Classified app.transport m) :
    (m.gated = true ∧ m.routeUrn = .plain nonNumericAttemptsRoute) ∨
      m.gated = false ∧ ((∃ cause, app.causeOf m = .ok (some cause)) ∨
        m.routeUrn = .plain [] ∧ ∃ d urn, loads m.body = .ok (.obj d) ∧ Typed topKinds d ∧ urn ≠ [] ∧
          app.classify m = .ok ⟨none, foldIdentity d, urn, app.handlers.get? urn⟩) := by
  rcases h.route with ⟨hr, hp⟩ | hr
  · right
    refine ⟨gated_eq_false hr, ?_⟩
    obtain ⟨cause, hcause⟩ := poisonCause_returns m.body true
    cases hcp : app.transport.classifiesPoison with
    | true =>
      have hc : app.causeOf m = .ok none := by
        unfold App.causeOf
        rw [hcp, Bool.or_true]
        rfl
      exact .inr ⟨hr, classify_sound hr hc (hp hcp)⟩
    | false =>
      have hc : app.causeOf m = .ok cause := (causeOf_eq hcp hr).trans hcause
      cases cause with
      | some cause => exact .inl ⟨cause, hc⟩
      | none => exact .inr ⟨hr, classify_sound hr hc hcause⟩
  · left
    refine ⟨?_, hr⟩
    unfold ReceivedMessage.gated
    rw [hr]
    decide +kernel

/-! ## Settling on a transport that does not fail -/

/-- No handler and no observer ends in an exception that `except Exception` does not catch. -/
structure App.Polite (app : App σ η) : Prop where
  handler : ∀ urn handler, app.handlers.get? urn = some handler →
    ∀ data metaBlock envelope s e, (handler data metaBlock envelope s).1 = .error e → e.isException = true
  observer : ∀ observer ∈ app.deadLetterObserver, ∀ event s e, (observer event s).1 = .error e → e.isException = true

/-- The attempt after the `n`-th is not a retry, or its number can be written and there is a delay for it. -/
def App.RetryPasses (app : App σ η) (n : Int) : Prop :=
  n + 1 < app.maxAttempts → (n + 1).natAbs < 10 ^ maxStrDigits ∧ ∃ delay, app.retryDelay (n + 1) = .ok delay

/-- `c` returns with the delivery settled. -/
def Settles {α : Type} (c : Act (σ × Trace) α) : Prop :=
  Triple (fun _ => True) c (fun _ s => Settled s.2) fun _ _ => False

/-- From an unsettled delivery, `c` returns with it settled if and only if `b`. -/
def Decides {α : Type} (c : Act (σ × Trace) α) (b : Prop) : Prop :=
  Triple (fun s => ¬ Settled s.2) c (fun _ s => Settled s.2 ↔ b) fun _ s => ¬ Settled s.2 ∧ ¬ b

omit [Interpreter] in
theorem Settles.decides {α : Type} {c : Act (σ × Trace) α} {b : Prop} (h : Settles c) (hb : b) : Decides c b :=
  h.conseq (fun _ _ => trivial) (fun _ _ hs => ⟨fun _ => hb, fun _ => hs⟩) fun _ _ => False.elim

omit [Interpreter] in
theorem Decides.congr {α : Type} {c : Act (σ × Trace) α} {b b' : Prop} (h : Decides c b) (e : b ↔ b') : Decides c b' :=
  propext e ▸ h

section Private

variable (hT : app.transport.Reliable) (hp : app.Polite)

include hT

omit [Interpreter] in
theorem settles_ackSettled : Settles (app.traced.ackSettled m) :=
  hT.ackSettled m (p := fun _ => True) fun tr _ => settled_append rfl tr

include hp in
omit [Interpreter] hT in
theorem notifyDeadLetter_returns (event : DeadLetterEvent) :
    Triple (fun s => Settled s.2) (app.traced.notifyDeadLetter event) (fun _ s => Settled s.2) fun _ _ => False := by
  unfold App.notifyDeadLetter
  split
  · exact Triple.pure () fun _ h => h
  · next observer ho =>
    obtain ⟨observer, h, rfl⟩ := Option.map_eq_some_iff.mp ho
    have hs : Triple (fun s : σ × Trace => Settled s.2) (silent (observer event)) (fun _ s => Settled s.2)
        fun e s => e.isException = true ∧ Settled s.2 := by
      rintro ⟨s, tr⟩ htr
      rw [silent]
      cases e : (observer event s).1 with
      | ok a => simpa only [e] using htr
      | error x => simpa only [e] using ⟨hp.observer observer h event s x e, htr⟩
    refine Triple.tryExcept hs (fun e _ => Triple.pure () fun _ h => h.2) fun e s he hs => ?_
    rw [isAny_exception, hs.1] at he
    cases he

include hp in
omit [Interpreter] in
theorem settles_writeDeadLetter (target body : Str) (sourceQueue : Option Str) (reason : Str) :
    Settles (app.traced.writeDeadLetter m target body sourceQueue reason) := by
  unfold App.writeDeadLetter
  have hd : app.traced.transport.deadLetter =
      app.transport.deadLetter.map fun c m queue body => record (.deadLetter queue body) (c m queue body) := rfl
  rw [hd]
  cases hc : app.transport.deadLetter with
  | some c =>
    exact Triple.bind (Returns.record_spec (p := fun _ => True) (q := Settled) (hT.deadLetter c hc m target body)
      fun tr _ => settled_append rfl tr) fun _ => notifyDeadLetter_returns hp _
  | none =>
    exact Triple.bind (hT.publishFor m (p := fun _ => True) (q := fun _ => True) fun _ _ => trivial) fun _ =>
      Triple.bind (settles_ackSettled hT) fun _ => notifyDeadLetter_returns hp _

/-- A body whose copy can be published is given back. -/
theorem settles_release {body : Str} (hb : ∃ copy, withoutForbiddenKeys body = .ok copy) (delay : Float64) :
    Settles (app.traced.release m body delay) := by
  unfold App.release
  have hd : app.traced.transport.redeliver =
      app.transport.redeliver.map fun c m body delay => record (.redeliver body) (c m body delay) := rfl
  rw [hd]
  cases hc : app.transport.redeliver with
  | some c =>
    exact Returns.record_spec (p := fun _ => True) (q := Settled) (hT.redeliver c hc m body delay)
      fun tr _ => settled_append rfl tr
  | none =>
    obtain ⟨copy, hcopy⟩ := hb
    refine triple_lift_ok hcopy ?_
    exact Triple.bind (hT.publishFor m (p := fun _ => True) (q := fun _ => True) fun _ _ => trivial) fun _ =>
      settles_ackSettled hT

omit hT in
/-- The copy of an object that `json` reads. -/
theorem withoutForbiddenKeys_isOk {body : Str} {d : Dict Json} (h : loads body = .ok (.obj d)) :
    ∃ copy, withoutForbiddenKeys body = .ok copy := by
  unfold withoutForbiddenKeys
  rw [parseEnvelope_obj h]
  simp only [bind, Except.bind, decodeLenient_obj h]
  split
  · exact ⟨_, rfl⟩
  · exact encode_isOk (clean_foldIdentity d) (storable_foldIdentity (storable_of_loads h))

end Private

section Private

variable (hT : app.transport.Reliable) (hp : app.Polite)

include hT hp

omit hT hp in
/-- The original queue of a dead letter can be read. -/
theorem originalQueue_isOk {envelope : Dict Json} (h : Routable envelope) :
    ∃ metaBlock queue, ((envelope.getJ (str "meta")).orElse (.obj [])).getter = .ok metaBlock ∧
      ((metaBlock.getJ (str "queue")).orElse (.str m.queue)).toStr = .ok queue := by
  obtain ⟨d, hd⟩ := maxDepth_succ
  obtain ⟨metaBlock, hm, hmeta⟩ := orElse_object h.metaBlock
  obtain ⟨queue, hq⟩ : ∃ queue, ((Dict.getJ metaBlock (str "queue")).orElse (.str m.queue)).toStr = .ok queue := by
    refine toStr_isOk (d := d) ?_ (by omega)
    unfold Json.orElse
    split
    · rcases hmeta with e | rfl
      · exact (e ▸ (hd ▸ h.storable.writable).getJ (str "meta")).getJ (str "queue")
      · exact writable_null _
    · exact writable_str _ _
  exact ⟨metaBlock, queue, hm ▸ rfl, hq⟩

/-- The dead letter of an envelope whose count can be written. -/
theorem settles_deadLetter {envelope : Dict Json} (h : Routable envelope) {n : Int}
    (hn : envelopeAttempts envelope = .ok n) (hw : n.natAbs < 10 ^ maxStrDigits) (reason : Str) (exc : Option PyExc) :
    Settles (app.traced.deadLetter m envelope reason exc) := by
  obtain ⟨metaBlock, queue, hm, hq⟩ := originalQueue_isOk (m := m) h
  obtain ⟨target, ht⟩ := deadLetterTarget_isOk hT m
  unfold App.deadLetter
  refine triple_lift_ok hm (triple_lift_ok hq (triple_lift_ok hn (triple_get fun s => triple_lift_ok ht ?_)))
  obtain ⟨body, hb⟩ : ∃ body, encode (annotate envelope reason queue n (exc.map PyExc.msg)
      (exc.map fun e => e.cls.name) (app.traced.now s)) = .ok body := by
    refine encode_isOk (h.clean.set (by simp [Plain]) _) (h.storable.set _ ?_ (DeadLetterBlock.toDict_proper _))
    exact DeadLetterBlock.writable_toDict.mpr ⟨app.now_lt s.1, hw⟩
  exact triple_lift_ok hb (settles_writeDeadLetter hT hp _ _ _ _)

end Private

omit [Interpreter] in
theorem rewindUnsettled_unaided (h : app.transport.Unaided) : app.traced.rewindUnsettled m = pure () := by
  unfold App.rewindUnsettled
  simp [App.traced, Transport.traced, h.rewind]

omit [Interpreter] in
theorem settleNative_unaided (h : app.transport.Unaided) (reason description : Str) :
    app.traced.settleNative m reason description = pure false := by
  unfold App.settleNative
  simp [App.traced, Transport.traced, h.settleNative, h.settleNativeDeadLetter]

section Private

variable (hT : app.transport.Reliable) (hp : app.Polite) (hu : app.transport.Unaided)

include hT hu

/-- The republish of attempt `n + 1`. -/
theorem decides_retry {envelope : Dict Json} (h : Routable envelope) {n : Int} (hn : n + 1 < app.maxAttempts) :
    Decides
      (Act.tryExcept
        (do
          let body ← Act.lift (encode (envelope.set (str "attempts") (.int (n + 1))))
          let delay ← Act.lift (app.traced.retryDelay (n + 1))
          app.traced.release m body delay)
        [.exception] fun _ => app.traced.leaveRepublishUnsettled m)
      (app.RetryPasses n) := by
  have hleave : ∀ e : PyExc, Triple (fun s => ¬ Settled s.2 ∧ ¬ app.RetryPasses n) (app.traced.leaveRepublishUnsettled m)
      (fun _ s => Settled s.2 ↔ app.RetryPasses n) fun _ s => ¬ Settled s.2 ∧ ¬ app.RetryPasses n := by
    intro _
    unfold App.leaveRepublishUnsettled
    rw [rewindUnsettled_unaided hu]
    exact Triple.pure () fun _ h => ⟨fun hs => absurd hs h.1, fun hr => absurd hr h.2⟩
  refine Triple.tryExcept (E := fun _ s => ¬ Settled s.2 ∧ ¬ app.RetryPasses n) ?_ (fun e _ => hleave e) fun _ _ _ => id
  cases he : encode (envelope.set (str "attempts") (.int (n + 1))) with
  | error e =>
    refine triple_lift_error rfl fun s hs => ⟨hs, fun hr => ?_⟩
    obtain ⟨body, hb⟩ := (encode_attempts_isOk_iff h.clean h.storable).mpr (hr hn).1
    rw [he] at hb
    cases hb
  | ok body =>
    refine triple_lift_ok rfl ?_
    cases hd : app.retryDelay (n + 1) with
    | error e =>
      refine triple_lift_error hd fun s hs => ⟨hs, fun hr => ?_⟩
      obtain ⟨delay, hdelay⟩ := (hr hn).2
      rw [hd] at hdelay
      cases hdelay
    | ok delay =>
      have hw := (encode_attempts_isOk_iff h.clean h.storable).mp ⟨body, he⟩
      have hl := loads_encode (h.storable.proper.set (str "attempts") (v := .int (n + 1)) trivial) he
      refine triple_lift_ok hd ((settles_release hT (withoutForbiddenKeys_isOk hl) delay).conseq (fun _ _ => trivial)
        (fun _ _ hs => ⟨fun _ _ => ⟨hw, delay, hd⟩, fun _ => hs⟩) fun _ _ => False.elim)

include hp

theorem decides_retryOrDeadLetter {envelope : Dict Json} (h : Routable envelope)
    (hw : app.deadLetterEnabled = true → ∀ n, envelopeAttempts envelope = .ok n → (n + 1).natAbs < 10 ^ maxStrDigits)
    (exc : PyExc) :
    Decides (app.traced.retryOrDeadLetter m envelope exc) (∃ n, envelopeAttempts envelope = .ok n ∧ app.RetryPasses n) := by
  unfold App.retryOrDeadLetter
  cases hn : envelopeAttempts envelope with
  | error e => exact triple_lift_error rfl fun _ hs => ⟨hs, by simp⟩
  | ok n =>
    refine Decides.congr (b := app.RetryPasses n) ?_ (by simp)
    refine triple_lift_ok rfl ?_
    dsimp only
    split
    · next hlt => exact decides_retry hT hu h hlt
    · next hge =>
      have hpass : app.RetryPasses n := fun hlt => absurd hlt hge
      split
      · next hd =>
        refine (settles_deadLetter hT hp (h.setAttempts (hw hd n hn)) ?_ (hw hd n hn) _ _).decides hpass
        unfold envelopeAttempts
        rw [Dict.get?_set_self]
        rfl
      · exact (settles_ackSettled hT).decides hpass

end Private

end BabelQueue
