import BabelQueue.Codec.NormalForm
import BabelQueue.EnvelopeShape.Grammar
import BabelQueue.Kafka.Transport
import BabelQueue.Py.Utf8.RoundTrip
import BabelQueue.Redis

/-!
# The verdicts on a body

`poison_cause`, the Kafka `_poll_one` and the legacy Redis `pop` each say whether a body is poison.

* `Deliverable text`: what none of the three calls poison.
* `poisonCause_none_iff`, `classificationCause_none_iff`: the verdict of each is `Deliverable`.
* `reconcile_isOk`: writing the count of a header into a body does not make it poison.
* `verdicts_agree`: the three verdicts on the bytes of a body are the same.
-/

namespace BabelQueue

open Py Py.Json Py.Utf8

section Verdict

variable [Interpreter]

/-- A body that is no poison. -/
structure Deliverable (text : Str) (d : Dict Json) : Prop where
  utf8 : hasInvalidUtf8 text = false
  shape : envelopeViolation text = .ok none
  object : loads text = .ok (.obj d)
  identity : HasIdentity d

/-- What a handler finds in the envelope of a body that is no poison. -/
structure Delivered (envelope : Dict Json) : Prop where
  urn : envelopeUrn envelope ≠ []
  data : HasKind .data (envelope.getJ (str "data"))
  metaBlock : HasKind .object (envelope.getJ (str "meta"))
  attempts : HasKind .integer (envelope.getJ (str "attempts"))

theorem envelopeUrn_ne_nil_iff {d : Dict Json} : envelopeUrn d ≠ [] ↔ HasIdentity d := by
  have hurn : ∀ {v : Json}, isValidUrn v = true → v.asStr?.getD [] ≠ [] := by
    rintro (_ | _ | _ | _ | s | _ | _) h
    case str =>
      rintro rfl
      revert h
      decide
    all_goals cases h
  unfold envelopeUrn HasIdentity
  by_cases hj : isValidUrn (d.getJ (str "job")) = true
  · rw [if_pos hj]
    exact iff_of_true (hurn hj) (.inl hj)
  · rw [if_neg hj]
    by_cases hu : isValidUrn (d.getJ (str "urn")) = true
    · rw [if_pos hu]
      exact iff_of_true (hurn hu) (.inr hu)
    · rw [if_neg hu]
      exact iff_of_false (by simp) (not_or.mpr ⟨hj, hu⟩)

/-! ## `poison_cause` -/

theorem poisonCause_none_iff {text : Str} : poisonCause text true = .ok none ↔ ∃ d, Deliverable text d := by
  constructor
  · intro h
    obtain ⟨d, hl, -, hi⟩ := poisonCause_none h
    unfold poisonCause at h
    split at h
    · cases h
    · next hu =>
      split at h
      · cases h
      · cases h
      · next d' hr => exact ⟨d, by simpa using hu, (poisonRead_inr hr).1, hl, hi rfl⟩
      · cases h
  · rintro ⟨d, hu, hs, hl, hi⟩
    have hr : poisonRead text = .ok (.inr (.obj d)) := by
      unfold poisonRead
      rw [hs, hl]
      rfl
    unfold poisonCause
    rw [if_neg (by simp [hu]), hr]
    refine if_neg ?_
    rw [Bool.true_and, Bool.not_eq_true', Bool.or_eq_false_iff, not_and_or, Bool.not_eq_false, Bool.not_eq_false]
    exact hi

/-- What is no poison decodes into an envelope with an identity and typed members. -/
theorem Deliverable.decode {text : Str} {d : Dict Json} (h : Deliverable text d) :
    ∃ envelope, decode text = .ok envelope ∧ Delivered envelope := by
  obtain ⟨d', e, ht⟩ := (typed_of_violation_none h.shape h.object).resolve_left (by simp)
  cases e
  have hkind : ∀ {key kind}, topKinds.get? key = some kind → Plain key → key ≠ str "job" →
      HasKind kind ((foldIdentity d).getJ key) := by
    intro key kind hk hp hj
    rw [Dict.getJ, get?_foldIdentity d hp hj]
    exact ht key kind hk
  have hdecode := (decode_of_object (parseObject_obj h.object)).2 h.identity
  refine ⟨foldIdentity d, hdecode.trans (decodeLenient_obj h.object), ?_, ?_, ?_, ?_⟩
  · rw [identity_foldIdentity]
    exact envelopeUrn_ne_nil_iff.mpr h.identity
  · exact hkind (by simp [get?_topKinds]) (by simp [Plain]) (by simp)
  · exact hasKind_meta_foldIdentity (ht _ _ (by simp [get?_topKinds]))
  · exact hkind (by simp [get?_topKinds]) (by simp [Plain]) (by simp)

theorem hasInvalidUtf8_decodeEscape {b : Bytes} : hasInvalidUtf8 (decodeEscape b) = (decodeStrict b).isNone := by
  have h : hasInvalidUtf8 (decodeEscape b) = (decodeEscape b).any isEscapedByte := rfl
  rw [h, Bool.eq_iff_iff, ← decodeStrict_eq_none_iff, Option.isNone_iff_eq_none]

/-! ## Kafka -/

section Kafka

open Kafka

variable {m : Message} {text : Str} {d : Dict Json}

theorem decodeFailure_eq (hv : envelopeViolation text = .ok none) :
    decodeFailure text = (tryExceptPure ((loads text).map fun _ => none) [.valueError] fun e =>
      .ok (some (str "the core decoder cannot parse the body: " ++ e.msg))) := by
  rw [decodeFailure, hv]
  rfl

/-- The classification of a record, for a body that is not too deep. -/
theorem classificationCause_none_iff {b : Bytes} (hm : m.value = some b) (hd : ¬ Overdeep (decodeEscape b)) :
    classificationCause m = none ↔ ∃ d, Deliverable (decodeEscape b) d := by
  have hpayload : m.payload = decodeEscape b := by rw [Message.payload, hm]; rfl
  have hutf8 : m.isNonUtf8 = hasInvalidUtf8 (decodeEscape b) := by
    rw [Message.isNonUtf8, hm, hasInvalidUtf8_decodeEscape]
    rfl
  generalize decodeEscape b = text at *
  unfold classificationCause
  rw [hutf8, hpayload]
  by_cases hu : hasInvalidUtf8 text = true
  · simp only [hu, if_true]
    refine iff_of_false (by simp) ?_
    rintro ⟨d, h⟩
    exact absurd h.utf8 (by simp [hu])
  rw [if_neg hu]
  obtain ⟨violation, hv⟩ := envelopeViolation_returns text
  cases violation with
  | some violation =>
    have : decodeFailure text = .ok (some violation) := by rw [decodeFailure, hv]; rfl
    rw [this]
    refine iff_of_false (by simp) ?_
    rintro ⟨d, h⟩
    cases hv.symm.trans h.shape
  | none =>
    rw [decodeFailure_eq hv]
    cases hl : loads text with
    | error e =>
      -- only an over-deep body raises something else than a `ValueError`
      have he : e.isAny [.valueError] = true := by
        rcases loads_raises hl with h | h
        · simp [PyExc.isAny, h]
        · exact absurd ⟨e, hl, h⟩ hd
      simp only [Except.map, tryExceptPure, he, if_true]
      refine iff_of_false (by simp) ?_
      rintro ⟨d, h⟩
      cases hl.symm.trans h.object
    | ok v =>
      simp only [Except.map, tryExceptPure]
      have hurn : ∃ d, decodeLenient text = .ok d ∧ (envelopeUrn d ≠ [] ↔ ∃ d, Deliverable text d) := by
        by_cases ho : ∃ d, v = .obj d
        · obtain ⟨d, rfl⟩ := ho
          refine ⟨foldIdentity d, decodeLenient_obj hl, ?_⟩
          rw [identity_foldIdentity, envelopeUrn_ne_nil_iff]
          refine ⟨fun h => ⟨d, by simpa using hu, hv, hl, h⟩, ?_⟩
          rintro ⟨d', h⟩
          cases hl.symm.trans h.object
          exact h.identity
        · have hnone : v.asObj? = none := by
            cases v with
            | obj d => exact absurd ⟨d, rfl⟩ ho
            | _ => rfl
          have hparse : parseObject text = .ok none := by
            unfold parseObject
            rw [hl]
            exact congrArg Except.ok hnone
          refine ⟨[], by unfold decodeLenient; rw [hparse], iff_of_false (by decide) ?_⟩
          rintro ⟨d', h⟩
          cases hl.symm.trans h.object
          exact ho ⟨d', rfl⟩
      obtain ⟨d, hdec, hiff⟩ := hurn
      rw [hdec, ← hiff]
      by_cases hn : envelopeUrn d = [] <;> simp [hn]

theorem reconciledAttempts_lt {bodyAttempts : Int} (hb : bodyAttempts.natAbs < 10 ^ maxStrDigits)
    (headers : Headers) : (reconciledAttempts bodyAttempts headers).natAbs < 10 ^ maxStrDigits := by
  induction headers with
  | nil => exact hb
  | cons h headers ih =>
    obtain ⟨key, value⟩ := h
    rw [reconciledAttempts]
    split
    · split
      · next attempts ha => exact natAbs_intOfStr_lt ha
      · exact hb
    · exact ih

/-- The count of a typed envelope can be written. -/
theorem runtimeAttempts_lt {envelope : Dict Json} (h : HasKind .integer (envelope.getJ (str "attempts"))) {n : Int}
    (hn : runtimeAttempts envelope = .ok n) : n.natAbs < 10 ^ maxStrDigits := by
  have hpos : (0 : Int).natAbs < 10 ^ maxStrDigits := Nat.pow_pos (by decide)
  unfold runtimeAttempts at hn
  rw [Dict.getJ] at h
  cases hg : envelope.get? (str "attempts") with
  | none =>
    rw [hg] at hn
    obtain rfl : 0 = n := Except.ok.inj hn
    exact hpos
  | some v =>
    rw [hg, Option.getD_some] at hn h
    rcases h with rfl | ⟨i, rfl, hlo, hhi⟩
    · obtain rfl : 0 = n := Except.ok.inj hn
      exact hpos
    · obtain rfl : i = n := Except.ok.inj hn
      calc i.natAbs ≤ 2 ^ 63 := by rw [int64Min] at hlo; rw [int64Max] at hhi; omega
        _ < 10 ^ 63 := by decide
        _ ≤ 10 ^ maxStrDigits := Nat.pow_le_pow_right (by decide) (by decide)

/-- Writing the count of a header into a body that is no poison never fails. -/
theorem reconcile_isOk (h : Deliverable text d) (headers : Headers) : ∃ body, reconcile text headers = .ok body := by
  obtain ⟨envelope, hdec, hdel⟩ := h.decode
  rw [(decode_of_object (parseObject_obj h.object)).2 h.identity] at hdec
  have hstore : Clean envelope ∧ Storable envelope := by
    rw [decodeLenient_obj h.object] at hdec
    obtain rfl := Except.ok.inj hdec
    exact ⟨clean_foldIdentity d, storable_foldIdentity (storable_of_loads h.object)⟩
  unfold reconcile
  rw [hdec]
  simp only [bind, Except.bind]
  split
  · exact ⟨_, rfl⟩
  · split
    · exact ⟨_, rfl⟩
    · next bodyAttempts ha =>
      split
      · exact ⟨_, rfl⟩
      · have hlt := reconciledAttempts_lt (runtimeAttempts_lt hdel.attempts ha) headers
        exact encode_isOk (hstore.1.set (by simp [Plain]) _) (hstore.2.set _ (writable_int.mpr hlt) trivial)

/-- The hand-over of a record that passes the version gate. -/
theorem received_verdict {b : Bytes} (hm : m.value = some b) (hg : unsupportedSchemaVersion m.headers = none)
    (hd : ¬ Overdeep (decodeEscape b)) (queue : Str) :
    ∃ r, received queue m = .ok r ∧ ((∃ p, r.routeUrn = .poison p) ↔ ¬ ∃ d, Deliverable (decodeEscape b) d) := by
  have hpayload : m.payload = decodeEscape b := by rw [Message.payload, hm]; rfl
  have hiff := classificationCause_none_iff hm hd
  unfold received readBody
  rw [hg]
  simp only [Option.map_none]
  cases hc : classificationCause m with
  | some cause =>
    refine ⟨_, rfl, iff_of_true ⟨_, rfl⟩ fun h => ?_⟩
    cases hc.symm.trans (hiff.mpr h)
  | none =>
    obtain ⟨d, h⟩ := hiff.mp hc
    obtain ⟨body, hr⟩ := reconcile_isOk h m.headers
    simp only [hpayload, hr]
    exact ⟨_, rfl, iff_of_false (by simp [popped]) fun hn => hn ⟨d, h⟩⟩

end Kafka

/-! ## Redis -/

/-- The delivery of a value that is no frame, in the legacy layout. -/
theorem legacyMessage_verdict {text : Str} (hf : Redis.frame? text = .ok none) (queue token : Str) :
    ∃ r, Redis.legacyMessage queue text token = .ok r ∧
      (r.routeUrn = .plain nonNumericAttemptsRoute ↔ ¬ ∃ d, Deliverable text d) := by
  have hne : RouteUrn.plain [] ≠ .plain nonNumericAttemptsRoute := by
    intro h
    exact absurd (RouteUrn.plain.inj h) (by decide +kernel)
  unfold Redis.legacyMessage
  rw [Redis.unframe_of_not_frame hf]
  simp only [bind, Except.bind, pure, Except.pure]
  by_cases hu : hasInvalidUtf8 text = true
  · simp only [hu, if_true]
    refine ⟨_, rfl, iff_of_true rfl ?_⟩
    rintro ⟨d, h⟩
    exact absurd h.utf8 (by simp [hu])
  obtain ⟨cause, hc⟩ := poisonCause_returns text true
  simp only [hu, hc]
  refine ⟨_, rfl, ?_⟩
  rw [← poisonCause_none_iff, hc]
  cases cause with
  | some cause => exact iff_of_true rfl (by simp)
  | none => exact iff_of_false hne (by simp)

/-- `poison_cause`, the Kafka transport and the legacy Redis transport agree on the bytes of a body, and what they
let through is an envelope with an identity and typed members. -/
theorem verdicts_agree (b : Bytes) (m : Kafka.Message) (topic queue token : Str) (hm : m.value = some b)
    (hg : Kafka.unsupportedSchemaVersion m.headers = none) (hf : Redis.frame? (decodeEscape b) = .ok none)
    (hd : ¬ Overdeep (decodeEscape b)) :
    ∃ cause kafka legacy,
      poisonCause (decodeEscape b) true = .ok cause ∧
      Kafka.received topic m = .ok kafka ∧ ((∃ p, kafka.routeUrn = .poison p) ↔ cause ≠ none) ∧
      Redis.legacyMessage queue (decodeEscape b) token = .ok legacy ∧
      (legacy.routeUrn = .plain nonNumericAttemptsRoute ↔ cause ≠ none) ∧
      (cause = none → ∃ envelope, decode (decodeEscape b) = .ok envelope ∧ Delivered envelope) := by
  obtain ⟨cause, hc⟩ := poisonCause_returns (decodeEscape b) true
  have hiff : cause ≠ none ↔ ¬ ∃ d, Deliverable (decodeEscape b) d := by
    rw [← poisonCause_none_iff, hc]
    simp
  obtain ⟨kafka, hk, hkafka⟩ := received_verdict hm hg hd topic
  obtain ⟨legacy, hl, hlegacy⟩ := legacyMessage_verdict hf queue token
  refine ⟨cause, kafka, legacy, hc, hk, hkafka.trans hiff.symm, hl, hlegacy.trans hiff.symm, ?_⟩
  rintro rfl
  obtain ⟨d, h⟩ := poisonCause_none_iff.mp hc
  exact h.decode

end Verdict

section CPython

attribute [local instance] cpython

/-- The body `{"job":"a"}`, with a count in a header. -/
theorem verdicts_agree_job :
    ∃ cause kafka legacy,
      poisonCause (decodeEscape [0x7B, 0x22, 0x6A, 0x6F, 0x62, 0x22, 0x3A, 0x22, 0x61, 0x22, 0x7D]) true = .ok cause ∧
      Kafka.received (str "q") ⟨⟨str "q", 0⟩, 0, some [0x7B, 0x22, 0x6A, 0x6F, 0x62, 0x22, 0x3A, 0x22, 0x61, 0x22, 0x7D],
        none, [(.text (str "bq-attempts"), some (.text (str "3")))], none⟩ = .ok kafka ∧
      ((∃ p, kafka.routeUrn = .poison p) ↔ cause ≠ none) ∧
      Redis.legacyMessage (str "q") (decodeEscape [0x7B, 0x22, 0x6A, 0x6F, 0x62, 0x22, 0x3A, 0x22, 0x61, 0x22, 0x7D])
        (str "t") = .ok legacy ∧
      (legacy.routeUrn = .plain nonNumericAttemptsRoute ↔ cause ≠ none) ∧
      (cause = none → ∃ envelope,
        decode (decodeEscape [0x7B, 0x22, 0x6A, 0x6F, 0x62, 0x22, 0x3A, 0x22, 0x61, 0x22, 0x7D]) = .ok envelope ∧
          Delivered envelope) := by
  refine verdicts_agree _ _ (str "q") (str "q") (str "t") rfl (by decide +kernel) ?_ ?_
  · unfold Redis.frame?
    exact if_pos (by decide +kernel)
  · rintro ⟨e, h, -⟩
    have hok : (loads (decodeEscape [0x7B, 0x22, 0x6A, 0x6F, 0x62, 0x22, 0x3A, 0x22, 0x61, 0x22, 0x7D])).toBool = true := by
      decide +kernel
    rw [h] at hok
    cases hok

end CPython

end BabelQueue
