import BabelQueue.Codec.NormalForm
import BabelQueue.Kafka.Transport

/-!
# What `produce` is called with

What the arguments of a write are made of, when they are made.

* `recordArgs_strict`: those of a publish.
* `tierRecord_spec`, `withAttempts_ok`: a record on a retry tier, and its body.
* `redeliverArgs_spec`, `delayedArgs_spec`: the tier of a retry and of a requested delay.
* `createdAt_withAttempts`: `meta.created_at` is not touched.
-/

namespace BabelQueue.Kafka

open Py Py.Json

/-- The headers of a tier record before the delay and the topic. -/
def tierBase (headers : RecordHeaders) (bqAttempts : Option Bytes) : RecordHeaders :=
  let headers := headers.filter fun h => h.1 ∉ [delayHeader, originalTopicHeader]
  match bqAttempts with
  | none => headers
  | some attempts => headers.filter (fun h => h.1 ≠ str "bq-attempts") ++ [(str "bq-attempts", attempts)]

section Interpreter

variable [Interpreter]

theorem recordArgs_strict {body : Str} {args : RecordArgs} (h : recordArgs body false = .ok args) :
    ∃ env, Utf8.encodeStrict body = .ok args.value ∧ projection body = .ok args.headers ∧ parseEnvelope body = .ok env ∧
      args.timestamp = createdAt env ∧ args.key = none := by
  unfold recordArgs at h
  split at h
  · cases h
  · next value hv =>
    obtain ⟨headers, hh, h⟩ := bind_eq_ok.mp h
    obtain ⟨env, he, h⟩ := bind_eq_ok.mp h
    cases h
    exact ⟨env, hv, hh, he, rfl, rfl⟩

/-- A number as the bytes of a header. -/
def intBytes (n : Int) : Except PyExc Bytes := do
  let text ← intStr n
  Utf8.encodeStrict text

/-- An optional count as the bytes of a header. -/
def countBytes : Option Int → Except PyExc (Option Bytes)
  | none => .ok none
  | some n => (intBytes n).map some

theorem tierRecord_spec {workTopic body : Str} {n : Nat} {delayMs : Int} {bqAttempts : Option Int} {topic : Str}
    {args : RecordArgs} (h : tierRecord workTopic body n delayMs bqAttempts = .ok (topic, args)) :
    ∃ record attempts delay original, recordArgs body false = .ok record ∧ topic = retryTopic workTopic n ∧
      countBytes bqAttempts = .ok attempts ∧ intBytes delayMs = .ok delay ∧ Utf8.encodeStrict workTopic = .ok original ∧
      args = { record with
        headers := tierBase record.headers attempts ++ [(delayHeader, delay), (originalTopicHeader, original)] } := by
  unfold tierRecord at h
  obtain ⟨record, hr, h⟩ := bind_eq_ok.mp h
  cases bqAttempts with
  | none =>
    obtain ⟨headers, hh, h⟩ := bind_eq_ok.mp h
    obtain ⟨text, ht, h⟩ := bind_eq_ok.mp h
    obtain ⟨delay, hd, h⟩ := bind_eq_ok.mp h
    obtain ⟨original, ho, h⟩ := bind_eq_ok.mp h
    cases hh
    cases h
    exact ⟨record, none, delay, original, hr, rfl, rfl, bind_eq_ok.mpr ⟨text, ht, hd⟩, ho, rfl⟩
  | some a =>
    obtain ⟨text', ht', h⟩ := bind_eq_ok.mp h
    obtain ⟨b, hb, h⟩ := bind_eq_ok.mp h
    obtain ⟨headers, hh, h⟩ := bind_eq_ok.mp h
    obtain ⟨text, ht, h⟩ := bind_eq_ok.mp h
    obtain ⟨delay, hd, h⟩ := bind_eq_ok.mp h
    obtain ⟨original, ho, h⟩ := bind_eq_ok.mp h
    cases hh
    cases h
    have hcount : countBytes (some a) = .ok (some b) := map_eq_ok.mpr ⟨b, bind_eq_ok.mpr ⟨text', ht', hb⟩, rfl⟩
    exact ⟨record, some b, delay, original, hr, rfl, hcount, bind_eq_ok.mpr ⟨text, ht, hd⟩, ho, rfl⟩

theorem withAttempts_ok {body copy : Str} {n : Int} (h : withAttempts body n = .ok copy) :
    ∃ envelope, decodeLenient body = .ok envelope ∧
      ((copy = body ∧ (envelope = [] ∨ runtimeAttempts envelope = .ok n)) ∨
        encode (envelope.set (str "attempts") (.int n)) = .ok copy) := by
  unfold withAttempts at h
  obtain ⟨envelope, henv, h⟩ := bind_eq_ok.mp h
  refine ⟨envelope, henv, ?_⟩
  split at h
  · next he => exact .inl ⟨(Except.ok.inj h).symm, .inl he⟩
  · split at h
    · next ha => exact .inl ⟨(Except.ok.inj h).symm, .inr ha.1⟩
    · exact .inr h

/-- A retry goes to the tier of the count before it, and to the last one from then on. -/
theorem redeliverArgs_spec {tiers : Tiers} {m : ReceivedMessage Message} {body topic : Str} {args : RecordArgs}
    (h : redeliverArgs tiers m body = .ok (topic, args)) :
    ∃ (before : Int) (n : Nat) (tierMs : Int) (text : Str) (record : RecordArgs) (headers : RecordHeaders),
      attemptsBefore m = .ok before ∧ n = min before.toNat (tiers.ms.length - 1) ∧ tiers.ms[n]? = some tierMs ∧
      withAttempts body (before + 1) = .ok text ∧
      tierRecord m.queue text (n + 1) tierMs (some (before + 1)) = .ok (topic, record) ∧
      withExtraHeaders record.headers (m.headers.filter fun h => h.1 ∈ traceContextHeaderKeys) = .ok headers ∧
      args = { record with headers := headers, key := m.key } := by
  unfold redeliverArgs at h
  split at h
  · cases h
  · next first rest hms =>
    obtain ⟨before, hb, h⟩ := bind_eq_ok.mp h
    obtain ⟨text, ht, h⟩ := bind_eq_ok.mp h
    obtain ⟨⟨topic', record⟩, hr, h⟩ := bind_eq_ok.mp h
    obtain ⟨headers, hh, h⟩ := bind_eq_ok.mp h
    cases h
    have hlen : min before.toNat rest.length < (first :: rest).length := by
      rw [List.length_cons]
      omega
    refine ⟨before, min before.toNat rest.length, _, text, record, headers, hb, by rw [hms]; rfl, ?_, ht, hr, hh, rfl⟩
    rw [hms, List.getElem?_eq_getElem hlen, List.getD_eq_getElem?_getD, List.getElem?_eq_getElem hlen, Option.getD_some]

/-- A requested delay goes to the smallest tier that covers it. -/
theorem delayedArgs_spec {tiers : Tiers} {queue body topic : Str} {delayMs : Int} {args : RecordArgs}
    (h : delayedArgs tiers queue body delayMs = .ok (topic, args)) :
    ∃ (n : Nat) (tierMs : Int), tiers.ms[n]? = some tierMs ∧ delayMs ≤ tierMs ∧ (∀ t ∈ tiers.ms, delayMs ≤ t → tierMs ≤ t) ∧
      tierRecord queue body (n + 1) delayMs none = .ok (topic, args) := by
  unfold delayedArgs at h
  split at h
  · cases h
  split at h
  · cases h
  split at h
  · next n hn =>
    obtain ⟨hlt, hle, hmin⟩ := List.findIdx?_eq_some_iff_getElem.mp hn
    refine ⟨n, tiers.ms[n], List.getElem?_eq_getElem hlt, by simpa using hle, fun t ht hd => ?_, h⟩
    obtain ⟨i, hi, rfl⟩ := List.mem_iff_getElem.mp ht
    have hni : n ≤ i := by
      by_contra hlt'
      have := hmin i (by omega)
      simp only [decide_eq_true_eq] at this
      exact this hd
    rcases Nat.lt_or_eq_of_le hni with hlt' | rfl
    · exact (List.pairwise_iff_getElem.mp tiers.ascending n i hlt hi hlt').le
    · exact le_rfl
  · cases h

/-- No tier is chosen for a delay that none covers. -/
theorem delayedArgs_uncovered {tiers : Tiers} {queue body : Str} {delayMs : Int} (h : ∀ t ∈ tiers.ms, t < delayMs) :
    ∃ e, delayedArgs tiers queue body delayMs = .error e := by
  cases hd : delayedArgs tiers queue body delayMs with
  | error e => exact ⟨e, rfl⟩
  | ok r =>
    obtain ⟨topic, args⟩ := r
    obtain ⟨n, tierMs, hn, hle, -⟩ := delayedArgs_spec hd
    have := h tierMs (List.mem_of_getElem? hn)
    omega

/-! ## `meta.created_at` -/

theorem createdAt_congr {env env' : Dict Json}
    (h : (metaOf env').getJ (str "created_at") = (metaOf env).getJ (str "created_at")) : createdAt env' = createdAt env := by
  unfold createdAt
  rw [h]

/-- The count of a body is set, and `meta.created_at` is not touched. -/
theorem createdAt_withAttempts {body copy : Str} {n : Int} {env env' : Dict Json} (h : withAttempts body n = .ok copy)
    (he : parseEnvelope body = .ok env) (he' : parseEnvelope copy = .ok env') : createdAt env' = createdAt env := by
  obtain ⟨envelope, hdec, ⟨rfl, -⟩ | hcopy⟩ := withAttempts_ok h
  · rw [he] at he'
    rw [Except.ok.inj he']
  · rcases body_cases body with hover | ⟨d, hl⟩ | ⟨hparse, hdec', -⟩
    · obtain ⟨e, hover⟩ := overdeep_iff.mp hover
      rw [he] at hover
      cases hover
    · rw [parseEnvelope_obj hl] at he
      obtain rfl := Except.ok.inj he
      rw [decodeLenient_obj hl] at hdec
      obtain rfl := Except.ok.inj hdec
      have hproper := (storable_foldIdentity (storable_of_loads hl)).proper.set (str "attempts") (v := .int n) trivial
      rw [parseEnvelope_obj (loads_encode hproper hcopy)] at he'
      obtain rfl := Except.ok.inj he'
      apply createdAt_congr
      unfold metaOf
      rw [show ((foldIdentity d).set (str "attempts") (.int n)).getJ (str "meta") = (foldIdentity d).getJ (str "meta") by
        rw [Dict.getJ, Dict.getJ, Dict.get?_set_of_ne _ _ (by decide)]]
      exact getJ_meta_foldIdentity d (by decide +kernel)
    · rw [hparse] at he
      obtain rfl := Except.ok.inj he
      rw [hdec'] at hdec
      obtain rfl := Except.ok.inj hdec
      have hproper : Json.Proper (.obj (Dict.set ([] : Dict Json) (str "attempts") (.int n))) :=
        storable_nil.proper.set (str "attempts") (v := .int n) trivial
      rw [parseEnvelope_obj (loads_encode hproper hcopy)] at he'
      obtain rfl := Except.ok.inj he'
      rfl

end Interpreter

end BabelQueue.Kafka
