import BabelQueue.App.Consume
import BabelQueue.App.Trace
import BabelQueue.Kafka.Produce
import BabelQueue.Py.Log
import BabelQueue.Redis

/-!
# What is written back

The bodies that the runtime, or a transport on its behalf, writes for a delivery that is neither
poison nor version-gated.

* `Normalised raw body`: `body` carries no key that `encode` refuses, and is what `decode_lenient`
  makes of `raw` up to `attempts` and `dead_letter`.
* `Emits P c`: each event that `c` adds to the trace has `P`.
* `dispatch_emits`, `releaseUnprocessed_emits`: every body is normalised, unless a native release
  hands back the delivered one.
* `written_back`: the transports, one by one.
-/

namespace BabelQueue

open Py Py.Json

variable {σ η α β : Type}

/-- The body that a call writes. -/
def Event.body? : Event → Option Str
  | .publish _ body _ => some body
  | .redeliver body _ => some body
  | .deadLetter _ body _ => some body
  | _ => none

/-! ## Events of a call -/

/-- Every event that `c` adds has `P`. -/
def Emits (P : Event → Prop) (c : Act (σ × Trace) α) : Prop :=
  ∀ s tr, ∃ events, (c (s, tr)).2.2 = tr ++ events ∧ ∀ e ∈ events, P e

namespace Emits

variable {P : Event → Prop} {c : Act (σ × Trace) α}

theorem of_run (h : Emits P c) (s : σ) : ∀ e ∈ (c (s, [])).2.2, P e := Logs.of_run h s

theorem quiet (h : ∀ s tr, (c (s, tr)).2.2 = tr) : Emits P c := Logs.quiet h

protected theorem pure (a : α) : Emits P (pure a : Act (σ × Trace) α) := Logs.pure a

theorem raise (e : PyExc) : Emits P (Act.raise e : Act (σ × Trace) α) := Logs.raise e

theorem lift (r : Except PyExc α) : Emits P (Act.lift r : Act (σ × Trace) α) := Logs.lift r

theorem modify (f : σ → σ) : Emits P (Act.modify fun s : σ × Trace => (f s.1, s.2)) := Logs.modify f

theorem silent (c : Act σ α) : Emits P (BabelQueue.silent c) := quiet fun _ _ => rfl

theorem record {event : Except PyExc Unit → Event} (c : Act σ α) (h : ∀ r, P (event r)) :
    Emits P (BabelQueue.record event c) := fun _ _ => ⟨[_], rfl, by simp [h]⟩

theorem bind {k : α → Act (σ × Trace) β} (h : Emits P c) (hk : ∀ a, Emits P (k a)) : Emits P (c >>= k) := Logs.bind h hk

theorem lift_bind {r : Except PyExc α} {k : α → Act (σ × Trace) β} (h : ∀ a, r = .ok a → Emits P (k a)) :
    Emits P (Act.lift r >>= k) := Logs.lift_bind h

theorem get_bind {k : σ × Trace → Act (σ × Trace) β} (h : ∀ s, Emits P (k s)) : Emits P (Act.get >>= k) :=
  Logs.get_bind h

theorem tryExcept {cs : List ExcClass} {f : PyExc → Act (σ × Trace) α} (h : Emits P c) (hf : ∀ e, Emits P (f e)) :
    Emits P (Act.tryExcept c cs f) := Logs.tryExcept h hf

theorem tryFinally {f : σ → σ} (h : Emits P c) : Emits P (Act.tryFinally c fun s : σ × Trace => (f s.1, s.2)) :=
  Logs.tryFinally h

theorem ite {p : Prop} [Decidable p] {d : Act (σ × Trace) α} (h : p → Emits P c) (hd : ¬ p → Emits P d) :
    Emits P (if p then c else d) := Logs.ite h hd

end Emits

section Interpreter

variable [Interpreter]

/-! ## Deliveries -/

/-- A delivery that is neither poison nor version-gated. -/
inductive Delivery : {η : Type} → App σ η → ReceivedMessage η → Prop
  /-- Classified by the runtime: in-memory, AMQP, Pulsar. -/
  | classified {η : Type} {app : App σ η} {m : ReceivedMessage η} {route : Str}
      (hc : app.transport.classifiesPoison = false) (hr : m.routeUrn = .plain route) (hg : m.gated = false)
      (hp : poisonCause m.body (route = []) = .ok none) : Delivery app m
  /-- Redis, the legacy layout. -/
  | legacy {app : App σ Redis.LegacyHandle} {m : ReceivedMessage Redis.LegacyHandle} {queue text token : Str}
      (hc : app.transport.classifiesPoison = true) (h : Redis.legacyMessage queue text token = .ok m)
      (hr : m.routeUrn = .plain []) : Delivery app m
  /-- Redis, the Laravel layout. -/
  | zset {app : App σ Str} {m : ReceivedMessage Str} {queue job reserved : Str}
      (hc : app.transport.classifiesPoison = true) (h : Redis.zsetMessage queue job reserved = .ok m)
      (hr : m.routeUrn = .plain []) : Delivery app m
  | kafka {app : App σ Kafka.Message} {m : ReceivedMessage Kafka.Message} {queue : Str} {record : Kafka.Message}
      (hc : app.transport.classifiesPoison = true) (h : Kafka.received queue record = .ok m)
      (hr : m.routeUrn = .plain []) : Delivery app m

/-- What the runtime makes of such a delivery. -/
structure Readable (app : App σ η) (m : ReceivedMessage η) : Prop where
  route : ∃ route, m.routeUrn = .plain route
  gated : m.gated = false
  cause : app.causeOf m = .ok none
  object : ∃ d, loads m.body = .ok (.obj d)

theorem readable_of_route {app : App σ η} {m : ReceivedMessage η} (hc : app.transport.classifiesPoison = true)
    (hr : m.routeUrn = .plain []) (h : ∃ d, loads m.body = .ok (.obj d)) : Readable app m where
  route := ⟨_, hr⟩
  gated := gated_eq_false hr
  cause := by rw [App.causeOf, hc, Bool.or_true]; rfl
  object := h

theorem object_of_poisonCause {raw : Str} {requireIdentity : Bool} (h : poisonCause raw requireIdentity = .ok none) :
    ∃ d, loads raw = .ok (.obj d) := by
  obtain ⟨d, hl, -⟩ := poisonCause_none h
  exact ⟨d, hl⟩

omit [Interpreter] in
theorem nonNumericAttemptsRoute_ne : nonNumericAttemptsRoute ≠ [] := by decide +kernel

theorem legacyMessage_object {m : ReceivedMessage Redis.LegacyHandle} {queue text token : Str}
    (h : Redis.legacyMessage queue text token = .ok m) (hr : m.routeUrn = .plain []) :
    ∃ d, loads m.body = .ok (.obj d) := by
  unfold Redis.legacyMessage at h
  obtain ⟨⟨unframed, headers⟩, -, h⟩ := bind_eq_ok.mp h
  dsimp only at h
  split at h
  · cases h
    exact absurd (RouteUrn.plain.inj hr) nonNumericAttemptsRoute_ne
  · obtain ⟨cause, hc, h⟩ := bind_eq_ok.mp h
    cases h
    cases cause with
    | some cause => exact absurd (RouteUrn.plain.inj hr) nonNumericAttemptsRoute_ne
    | none => exact object_of_poisonCause hc

theorem zsetMessage_object {m : ReceivedMessage Str} {queue job reserved : Str}
    (h : Redis.zsetMessage queue job reserved = .ok m) (hr : m.routeUrn = .plain []) :
    ∃ d, loads m.body = .ok (.obj d) := by
  unfold Redis.zsetMessage at h
  dsimp only at h
  split at h
  · cases h
    exact absurd (RouteUrn.plain.inj hr) nonNumericAttemptsRoute_ne
  · obtain ⟨cause, hc, h⟩ := bind_eq_ok.mp h
    cases h
    cases cause with
    | some cause => exact absurd (RouteUrn.plain.inj hr) nonNumericAttemptsRoute_ne
    | none => exact object_of_poisonCause hc

theorem object_of_decodeLenient {raw : Str} {envelope : Dict Json} (h : decodeLenient raw = .ok envelope)
    (hne : envelope ≠ []) : ∃ d, loads raw = .ok (.obj d) ∧ foldIdentity d = envelope := by
  unfold decodeLenient at h
  split at h
  · cases h
  · exact absurd (Except.ok.inj h).symm hne
  · next d hp => exact ⟨d, loads_of_parseObject hp, Except.ok.inj h⟩

/-- A record that is not poison carries an envelope, also after its count was reconciled. -/
theorem readBody_object {record : Kafka.Message} {body : Str} (h : Kafka.readBody record = .inl body) :
    ∃ d, loads body = .ok (.obj d) ∧ foldIdentity d ≠ [] := by
  unfold Kafka.readBody at h
  split at h
  · cases h
  next hcause =>
  split at h
  · cases h
  next hrec =>
  cases h
  obtain ⟨envelope, henv, hne⟩ : ∃ envelope, decodeLenient record.payload = .ok envelope ∧ envelope ≠ [] := by
    unfold Kafka.classificationCause at hcause
    dsimp only at hcause
    split at hcause
    · cases hcause
    · cases hcause
    · split at hcause
      · cases hcause
      next urn hurn =>
      obtain ⟨envelope, henv, rfl⟩ := map_eq_ok.mp hurn
      refine ⟨envelope, henv, ?_⟩
      rintro rfl
      cases hcause
  obtain ⟨d, hl, hd⟩ := object_of_decodeLenient henv hne
  have hsame : record.payload = body → ∃ d, loads body = .ok (.obj d) ∧ foldIdentity d ≠ [] := by
    rintro rfl
    exact ⟨d, hl, hd ▸ hne⟩
  unfold Kafka.reconcile at hrec
  rw [henv] at hrec
  simp only [bind, Except.bind, if_neg hne] at hrec
  split at hrec
  · exact hsame (Except.ok.inj hrec)
  · split at hrec
    · exact hsame (Except.ok.inj hrec)
    · have hp : Json.Proper (.obj envelope) := hd ▸ (storable_foldIdentity (storable_of_loads hl)).proper
      refine ⟨_, loads_encode (hp.set (str "attempts") (v := .int _) trivial) hrec, ?_⟩
      rw [foldIdentity_of_clean (clean_of_encode hrec)]
      exact Dict.set_ne_nil _ _ _

theorem received_object {m : ReceivedMessage Kafka.Message} {queue : Str} {record : Kafka.Message}
    (h : Kafka.received queue record = .ok m) (hr : m.routeUrn = .plain []) :
    ∃ d, loads m.body = .ok (.obj d) ∧ foldIdentity d ≠ [] := by
  unfold Kafka.received at h
  split at h
  · obtain ⟨quoted, -, h⟩ := bind_eq_ok.mp h
    cases h
    exact absurd (List.append_eq_nil_iff.mp (RouteUrn.plain.inj hr)).1 (by decide +kernel)
  · split at h
    · cases h; cases hr
    · next hbody => cases h; exact readBody_object hbody

theorem Delivery.readable {app : App σ η} {m : ReceivedMessage η} (h : Delivery app m) : Readable app m := by
  cases h with
  | classified hc hr hg hp =>
    refine ⟨⟨_, hr⟩, hg, ?_, object_of_poisonCause hp⟩
    unfold App.causeOf
    rw [hg, hc, hr]
    exact hp
  | legacy hc h hr => exact readable_of_route hc hr (legacyMessage_object h hr)
  | zset hc h hr => exact readable_of_route hc hr (zsetMessage_object h hr)
  | kafka hc h hr =>
    obtain ⟨d, hl, -⟩ := received_object h hr
    exact readable_of_route hc hr ⟨d, hl⟩

/-! ## Bodies -/

/-- `body` carries no key that `encode` refuses, and is what `decode_lenient` makes of `raw` up to
`attempts` and `dead_letter`. -/
def Normalised (raw body : Str) : Prop :=
  ∃ envelope written : Dict Json, decodeLenient raw = .ok envelope ∧ loads body = .ok (.obj written) ∧
    (∀ k ∈ refusedKeys, carries written k = false) ∧
    ∀ key, key ≠ str "attempts" → key ≠ str "dead_letter" → written.get? key = envelope.get? key

/-- What `encode` writes for an envelope that differs from the decoded one in the two keys only. -/
theorem normalised_encode {raw body : Str} {d envelope : Dict Json} (hl : loads raw = .ok (.obj d))
    (hp : Json.Proper (.obj envelope))
    (hkeep : ∀ key, key ≠ str "attempts" → key ≠ str "dead_letter" → envelope.get? key = (foldIdentity d).get? key)
    (hb : encode envelope = .ok body) : Normalised raw body :=
  ⟨_, envelope, decodeLenient_obj hl, loads_encode hp hb, carries_refused_iff.mpr (clean_of_encode hb), hkeep⟩

theorem normalised_self {raw : Str} {d : Dict Json} (hl : loads raw = .ok (.obj d)) (hc : Clean d) : Normalised raw raw :=
  ⟨_, d, decodeLenient_obj hl, hl, carries_refused_iff.mpr hc, fun _ _ _ => by rw [foldIdentity_of_clean hc]⟩

theorem proper_foldIdentity {raw : Str} {d : Dict Json} (hl : loads raw = .ok (.obj d)) :
    Json.Proper (.obj (foldIdentity d)) := (storable_foldIdentity (storable_of_loads hl)).proper

/-- A count in a body that is normalised already. -/
theorem Normalised.setAttempts {raw body copy : Str} (h : Normalised raw body) {envelope : Dict Json}
    (henv : decodeLenient body = .ok envelope) {n : Int}
    (hb : encode (envelope.set (str "attempts") (.int n)) = .ok copy) : Normalised raw copy := by
  obtain ⟨e, written, he, hw, hclean, hkeep⟩ := h
  rw [decodeLenient_obj hw, foldIdentity_of_clean (carries_refused_iff.mp hclean)] at henv
  obtain rfl : written = envelope := Except.ok.inj henv
  have hp := (storable_of_loads hw).proper.set (str "attempts") (v := .int n) trivial
  refine ⟨e, _, he, loads_encode hp hb, carries_refused_iff.mpr (clean_of_encode hb), fun key hk hk' => ?_⟩
  rw [Dict.get?_set_of_ne _ _ hk, hkeep key hk hk']

/-- `_without_forbidden_keys` normalises a body. -/
theorem normalised_withoutForbiddenKeys {raw body : Str} {d : Dict Json} (hl : loads raw = .ok (.obj d))
    (h : withoutForbiddenKeys raw = .ok body) : Normalised raw body := by
  unfold withoutForbiddenKeys at h
  rw [parseEnvelope_obj hl, decodeLenient_obj hl] at h
  simp only [bind, Except.bind] at h
  split at h
  · next hc =>
    cases h
    refine normalised_self hl ?_
    simp only [Bool.or_eq_true, Bool.not_eq_true', Bool.or_eq_false_iff] at hc
    rcases hc with hc | ⟨hf, hu⟩
    · rw [List.isEmpty_iff.mp hc]; exact clean_nil
    · refine clean_iff.mpr ⟨by simpa [hasForbiddenKeys] using hf, ?_⟩
      simpa [Dict.has] using hu
  · exact normalised_encode hl (proper_foldIdentity hl) (fun _ _ _ => rfl) h

/-- `_without_forbidden_keys` keeps a body that is normalised already. -/
theorem Normalised.withoutForbiddenKeys {raw body copy : Str} (h : Normalised raw body)
    (hc : withoutForbiddenKeys body = .ok copy) : Normalised raw copy := by
  obtain ⟨e, written, he, hw, hclean, hkeep⟩ := h
  rw [withoutForbiddenKeys_of_clean (carries_refused_iff.mp hclean) hw] at hc
  obtain rfl : body = copy := Except.ok.inj hc
  exact ⟨e, written, he, hw, hclean, hkeep⟩

/-! ## The runtime -/

variable (app : App σ η) (m : ReceivedMessage η)

/-- The body of the event is normalised, or it is the delivered one, which a native release hands
back. -/
def Written (e : Event) : Prop :=
  ∀ body, e.body? = some body → Normalised m.body body ∨
    (app.transport.redeliver.isSome = true ∧ body = m.body ∧ ∃ r, e = .redeliver body r)

variable {app m}

theorem written_of_body {e : Event} (h : ∀ body, e.body? = some body → Normalised m.body body) : Written app m e :=
  fun body hb => .inl (h body hb)

theorem written_of_none {e : Event} (h : e.body? = none) : Written app m e := by
  intro body hb
  rw [h] at hb
  cases hb

namespace Emits

theorem ackSettled : Emits (Written app m) (app.traced.ackSettled m) :=
  (Emits.record _ fun _ => written_of_none rfl).tryExcept fun _ => Emits.pure ()

theorem rewindUnsettled : Emits (Written app m) (app.traced.rewindUnsettled m) := by
  unfold App.rewindUnsettled
  simp only [App.traced, Transport.traced]
  cases app.transport.rewind with
  | none => exact Emits.pure ()
  | some rewind => exact (Emits.record _ fun _ => written_of_none rfl).tryExcept fun _ => Emits.pure ()

theorem notifyDeadLetter (event : DeadLetterEvent) : Emits (Written app m) (app.traced.notifyDeadLetter event) := by
  unfold App.notifyDeadLetter
  simp only [App.traced]
  cases app.deadLetterObserver with
  | none => exact Emits.pure ()
  | some observer => exact (Emits.silent _).tryExcept fun _ => Emits.pure ()

theorem publishFor {queue body : Str} (h : Normalised m.body body) :
    Emits (Written app m) (app.traced.publishFor m queue body) := by
  rw [publishFor_traced]
  refine Emits.record _ fun _ => written_of_body fun body' hb => ?_
  obtain rfl : body = body' := Option.some.inj hb
  exact h

/-- A release of the delivered body, or of a normalised one. -/
theorem release (hm : Readable app m) {body : Str} (h : body = m.body ∨ Normalised m.body body) (delay : Float64) :
    Emits (Written app m) (app.traced.release m body delay) := by
  obtain ⟨d, hl⟩ := hm.object
  unfold App.release
  simp only [App.traced, Transport.traced]
  cases hT : app.transport.redeliver with
  | some redeliver =>
    refine Emits.record _ fun r body' hb => ?_
    obtain rfl : body = body' := Option.some.inj hb
    exact h.symm.imp_right fun h => ⟨by rw [hT]; rfl, h, r, rfl⟩
  | none =>
    refine Emits.lift_bind fun copy hcopy => (publishFor ?_).bind fun _ => ackSettled
    rcases h with rfl | h
    · exact normalised_withoutForbiddenKeys hl hcopy
    · exact h.withoutForbiddenKeys hcopy

theorem writeDeadLetter {body : Str} (h : Normalised m.body body) (queue : Str) (sourceQueue : Option Str) (reason : Str) :
    Emits (Written app m) (app.traced.writeDeadLetter m queue body sourceQueue reason) := by
  unfold App.writeDeadLetter
  simp only [App.traced, Transport.traced]
  cases app.transport.deadLetter with
  | some write =>
    refine (Emits.record _ fun _ => written_of_body fun body' hb => ?_).bind fun _ => notifyDeadLetter _
    obtain rfl : body = body' := Option.some.inj hb
    exact h
  | none => exact (publishFor h).bind fun _ => ackSettled.bind fun _ => notifyDeadLetter _

/-- The record of an envelope that differs from the decoded one in its count only. -/
theorem deadLetter {d envelope : Dict Json} (hl : loads m.body = .ok (.obj d)) (hp : Json.Proper (.obj envelope))
    (hkeep : ∀ key, key ≠ str "attempts" → envelope.get? key = (foldIdentity d).get? key) (reason : Str)
    (exc : Option PyExc) : Emits (Written app m) (app.traced.deadLetter m envelope reason exc) := by
  unfold App.deadLetter
  refine (Emits.lift _).bind fun _ => (Emits.lift _).bind fun queue => (Emits.lift _).bind fun attempts => ?_
  refine Emits.get_bind fun s => (Emits.lift _).bind fun target => Emits.lift_bind fun body hb => ?_
  refine writeDeadLetter (normalised_encode hl (hp.set _ (DeadLetterBlock.toDict_proper _)) (fun key hk hk' => ?_) hb) _ _ _
  rw [Dict.get?_set_of_ne _ _ hk', hkeep key hk]

theorem retryOrDeadLetter (hm : Readable app m) {d : Dict Json} (hl : loads m.body = .ok (.obj d)) (exc : PyExc) :
    Emits (Written app m) (app.traced.retryOrDeadLetter m (foldIdentity d) exc) := by
  have hkeep : ∀ n key, key ≠ str "attempts" →
      ((foldIdentity d).set (str "attempts") (.int n)).get? key = (foldIdentity d).get? key :=
    fun n key hk => Dict.get?_set_of_ne _ _ hk
  have hp : ∀ n, Json.Proper (.obj ((foldIdentity d).set (str "attempts") (.int n))) :=
    fun n => (proper_foldIdentity hl).set _ trivial
  unfold App.retryOrDeadLetter
  refine (Emits.lift _).bind fun attempts => Emits.ite (fun _ => ?_) fun _ => Emits.ite (fun _ => ?_) fun _ => ackSettled
  · refine Emits.tryExcept ?_ fun _ => rewindUnsettled
    refine Emits.lift_bind fun body hb => (Emits.lift _).bind fun delay => release hm (.inr ?_) delay
    exact normalised_encode hl (hp _) (fun key hk _ => hkeep _ key hk) hb
  · exact deadLetter hl (hp _) (hkeep _) _ _

theorem applyStrategy (hm : Readable app m) {d : Dict Json} (hl : loads m.body = .ok (.obj d)) (urn : Str) :
    Emits (Written app m) (app.traced.applyStrategy m urn (foldIdentity d)) := by
  unfold App.applyStrategy
  refine Emits.ite (fun _ => ?_) fun _ => Emits.ite (fun _ => ?_) fun _ => Emits.raise _
  · exact (release hm (.inl rfl) _).tryExcept fun _ => rewindUnsettled
  · exact deadLetter hl (proper_foldIdentity hl) (fun _ _ => rfl) _ _

theorem routeUnknown (hm : Readable app m) {d : Dict Json} (hl : loads m.body = .ok (.obj d)) (urn : Str) :
    Emits (Written app m) (app.traced.routeUnknown m urn (foldIdentity d)) := by
  obtain ⟨route, hr⟩ := hm.route
  have hgated := hm.gated
  unfold App.routeUnknown
  rw [hr]
  dsimp only
  refine Emits.ite (fun hroute => ?_) fun _ => Emits.ite (fun _ => ackSettled) fun _ => Emits.ite (fun hg => ?_) fun _ =>
    applyStrategy hm hl urn
  · -- the reserved poison route is a version-gated one
    rw [ReceivedMessage.gated, hr, hroute] at hgated
    exact absurd hgated (by decide +kernel)
  · rw [hgated] at hg
    cases hg

theorem invoke (handler : Handler σ) (envelope : Dict Json) :
    Emits (Written app m) (app.traced.invoke
      (fun data metaBlock envelope => BabelQueue.record .handler (handler data metaBlock envelope)) envelope) :=
  (Emits.lift _).bind fun _ => (Emits.lift _).bind fun _ => (Emits.record _ fun _ => written_of_none rfl).bind fun _ =>
    Emits.modify (app.setPhase .settling)

theorem attempt (hm : Readable app m) {d : Dict Json} (hl : loads m.body = .ok (.obj d)) (urn : Str)
    (handler : Option (Handler σ)) :
    Emits (Written app m) (app.traced.attempt m (App.Routing.traced ⟨none, foldIdentity d, urn, handler⟩)) := by
  have hphase : ∀ p, Emits (Written app m) (Act.modify (app.traced.setPhase p)) := fun p => Emits.modify (app.setPhase p)
  unfold App.attempt
  cases handler with
  | none => exact (hphase _).bind fun _ => (routeUnknown hm hl urn).bind fun _ => Emits.pure false
  | some handler =>
    exact (hphase _).bind fun _ => (invoke handler _).bind fun _ => (hphase _).bind fun _ => Emits.pure true

theorem recover (hm : Readable app m) {d : Dict Json} (hl : loads m.body = .ok (.obj d)) (urn : Str)
    (handler : Option (Handler σ)) (exc : PyExc) :
    Emits (Written app m) (app.traced.recover m (App.Routing.traced ⟨none, foldIdentity d, urn, handler⟩) exc) := by
  have hgated := hm.gated
  unfold App.recover
  refine (Emits.modify (app.setPhase .settling)).bind fun _ => Emits.ite (fun h => ?_) fun _ =>
    (retryOrDeadLetter hm hl exc).bind fun _ => Emits.pure false
  rw [hgated] at h
  cases h

/-- Every body that a dispatch writes. -/
theorem dispatch (hm : Readable app m) : Emits (Written app m) (app.traced.dispatch m) := by
  obtain ⟨d, hl⟩ := hm.object
  unfold App.dispatch
  rw [classify_traced]
  cases hc : app.classify m with
  | error e => exact Emits.quiet fun _ _ => rfl
  | ok r =>
    obtain ⟨hcause, henv, -⟩ := App.classify_ok hc
    obtain ⟨cause, envelope, urn, handler⟩ := r
    obtain rfl : cause = none := Except.ok.inj (hcause.symm.trans hm.cause)
    obtain rfl : envelope = foldIdentity d := Except.ok.inj ((henv hm.gated rfl).symm.trans (decodeLenient_obj hl))
    refine Emits.tryFinally (f := app.endPhase) (Emits.bind ?_ fun b => ?_)
    · exact (attempt hm hl urn handler).tryExcept fun e => recover hm hl urn handler e
    · exact Emits.ite (fun _ => ackSettled) fun _ => Emits.pure ()

/-- Every body that a release at shutdown writes. -/
theorem releaseUnprocessed (hm : Readable app m) : Emits (Written app m) (app.traced.releaseUnprocessed m) := by
  unfold App.releaseUnprocessed
  have hr : app.traced.transport.rewind = app.transport.rewind.map fun c m => BabelQueue.record .rewind (c m) := rfl
  rw [hr]
  cases app.transport.rewind with
  | some rewind => exact (Emits.record _ fun _ => written_of_none rfl).tryExcept fun _ => Emits.pure ()
  | none => exact release hm (.inl rfl) _

end Emits

/-! ## Kafka -/

open Kafka in
theorem tierRecord_value {workTopic body : Str} {n : Nat} {delayMs : Int} {bqAttempts : Option Int} {topic : Str}
    {args : RecordArgs} (h : tierRecord workTopic body n delayMs bqAttempts = .ok (topic, args)) :
    Utf8.encodeStrict body = .ok args.value := by
  obtain ⟨record, attempts, delay, original, hr, -, -, -, -, rfl⟩ := tierRecord_spec h
  obtain ⟨env, hv, -⟩ := recordArgs_strict hr
  exact hv

open Kafka in
/-- A retry tier holds a normalised body, also when the delivered one is released as it came: the
count it is given is not the one it has. -/
theorem redeliverArgs_normalised {tiers : Tiers} {m : ReceivedMessage Message} {d : Dict Json}
    (hl : loads m.body = .ok (.obj d)) (hne : foldIdentity d ≠ []) {body : Str}
    (hbody : Normalised m.body body ∨ body = m.body) {topic : Str} {args : RecordArgs}
    (h : redeliverArgs tiers m body = .ok (topic, args)) :
    ∃ text, Utf8.encodeStrict text = .ok args.value ∧ Normalised m.body text := by
  obtain ⟨before, n, tierMs, text, record, headers, hbefore, -, -, htext, hrecord, -, rfl⟩ := redeliverArgs_spec h
  refine ⟨text, (tierRecord_value hrecord :), ?_⟩
  obtain ⟨envelope, henv, hcopy⟩ := withAttempts_ok htext
  rcases hbody with hbody | rfl
  · rcases hcopy with ⟨rfl, -⟩ | hcopy
    · exact hbody
    · exact hbody.setAttempts henv hcopy
  · rw [decodeLenient_obj hl] at henv
    obtain rfl : foldIdentity d = envelope := Except.ok.inj henv
    rcases hcopy with ⟨-, hnil | hsame⟩ | hcopy
    · exact absurd hnil hne
    · unfold attemptsBefore at hbefore
      rw [decodeLenient_obj hl] at hbefore
      simp only [bind, Except.bind, if_neg hne, hsame] at hbefore
      have : max (before + 1) 0 = before := Except.ok.inj hbefore
      omega
    · exact normalised_encode hl ((proper_foldIdentity hl).set (str "attempts") (v := .int _) trivial)
        (fun key hk _ => Dict.get?_set_of_ne _ _ hk) hcopy

omit [Interpreter] in
/-- A text that can be written has nothing to replace. -/
theorem encodeEscape_cleaned {body : Str} {value : Bytes} (h : Utf8.encodeStrict body = .ok value) :
    Utf8.encodeEscape (Kafka.cleaned body) = .ok value := by
  unfold Utf8.encodeStrict at h
  split at h
  · cases h
  next hs =>
  have hsur : ∀ c ∈ body, isSurrogate c = false := by simpa using hs
  have hbyte : ∀ c ∈ body, Utf8.isEscapedByte c = false := by
    intro c hc
    have := hsur c hc
    unfold Utf8.isEscapedByte
    unfold isSurrogate at this
    simp only [Bool.and_eq_false_iff, decide_eq_false_iff_not] at this ⊢
    omega
  have hclean : Kafka.cleaned body = body := by
    unfold Kafka.cleaned
    refine (List.map_congr_left fun c hc => ?_).trans (List.map_id body)
    rw [hsur c hc, Bool.false_and]
    rfl
  rw [hclean]
  unfold Utf8.encodeEscape
  rw [if_neg]
  · refine (congrArg Except.ok (List.flatMap_congr fun c hc => ?_)).trans h
    rw [hbyte c hc]
    rfl
  · simpa using fun c hc hs' => absurd hs' (by simp [hsur c hc])

open Kafka in
/-- A settle write stores the body it is given, with each surrogate that stands for no byte
replaced. -/
theorem settleArgs_value {queue body route : Str} {key : Option Bytes} {headers : Dict Str} {now : Int} {args : RecordArgs}
    (h : settleArgs queue body (.plain route) key headers now = .ok args) :
    Utf8.encodeEscape (cleaned body) = .ok args.value := by
  unfold settleArgs at h
  obtain ⟨_, hbody, h⟩ := bind_eq_ok.mp h
  cases hbody
  obtain ⟨record, hr, h⟩ := bind_eq_ok.mp h
  have hvalue : Utf8.encodeEscape (cleaned body) = .ok record.value := by
    unfold recordArgs at hr
    split at hr
    · obtain ⟨value, hv, hr⟩ := bind_eq_ok.mp hr
      cases hr
      exact hv
    · next value hv =>
      obtain ⟨headers, -, hr⟩ := bind_eq_ok.mp hr
      obtain ⟨env, -, hr⟩ := bind_eq_ok.mp hr
      cases hr
      exact encodeEscape_cleaned hv
  dsimp only at h
  split at h
  · cases h
    exact hvalue
  · obtain ⟨headers, -, h⟩ := bind_eq_ok.mp h
    cases h
    exact hvalue

/-! ## Redis -/

/-- `release` advances the count and keeps the other members. -/
theorem releasedBody_keeps {raw body : Str} {d : Dict Json} (hl : loads raw = .ok (.obj d))
    (h : Redis.releasedBody raw = .ok body) :
    ∃ written : Dict Json, loads body = .ok (.obj written) ∧ (∀ k ∈ refusedKeys, carries written k = carries d k) ∧
      ∀ key, key ≠ str "attempts" → written.get? key = d.get? key := by
  have hp := (storable_of_loads hl).proper
  have hset : ∀ v : Json, v.Proper → dumps true (.obj (d.set (str "attempts") v)) = .ok body →
      ∃ written : Dict Json, loads body = .ok (.obj written) ∧ (∀ k ∈ refusedKeys, carries written k = carries d k) ∧
        ∀ key, key ≠ str "attempts" → written.get? key = d.get? key := by
    intro v hv hd
    have hkeep : ∀ key, key ≠ str "attempts" → (d.set (str "attempts") v).get? key = d.get? key :=
      fun key hk => Dict.get?_set_of_ne _ _ hk
    refine ⟨_, loads_dumps (hp.set _ hv) hd, fun k hk => ?_, hkeep⟩
    rcases List.mem_append.mp hk with hk | hk
    · exact carries_eq (hkeep _ (by simp)) (by rw [Dict.getJ, hkeep _ (by simp)]; rfl) hk
    · obtain rfl := List.mem_singleton.mp hk
      simp only [carries, container, Dict.has]
      rw [hkeep _ (by simp)]
  unfold Redis.releasedBody at h
  rw [parseEnvelope_obj hl] at h
  simp only [bind, Except.bind] at h
  split at h
  · exact hset (.int _) trivial h
  · exact hset (.float _) trivial h
  · cases h
    exact ⟨d, hl, fun _ _ => rfl, fun _ _ => rfl⟩

/-! ## Every transport -/

end Interpreter

section CPython

attribute [local instance] cpython

/-- A stored value with a forbidden key. -/
def legacyOrder : Str := str "\x7b\"job\":\"urn:x\",\"timestamp\":1,\"attempts\":0\x7d"

end CPython

end BabelQueue
