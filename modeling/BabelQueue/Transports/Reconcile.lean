import BabelQueue.App

/-!
# The broker's delivery count (`sqs_transport.py`, `asb_transport.py`, `artemis_transport.py`)

Each `_reconcile` raises the `attempts` of a popped body to the broker's count of deliveries.

* `Sqs.reconcile`, `Asb.reconcile`, `Artemis.reconcile`: the three.
* `Reconciled body native r`: what they are for.
* `Countable current body n`: when a body comes through.
* `reconciles_iff`: each reconciles exactly the countable bodies.
-/

namespace BabelQueue

open Py Py.Json

section Interpreter

variable [Interpreter]

/-- The end of `_reconcile`: the count `current` of `env` is raised to `native` in `reencoded`. -/
def raiseAttempts (current : Dict Json → Except PyExc Int) (body : Str) (native : Int) (env : Dict Json)
    (reencoded : Except PyExc (Dict Json)) : Except PyExc Str :=
  if env = [] then .ok body else do
    let count ← current env
    if native ≤ count then pure body else do
      let reencoded ← reencoded
      encode (reencoded.set (str "attempts") (.int native))

/-- `SqsTransport._reconcile`, for the text of an `ApproximateReceiveCount`. -/
def Sqs.reconcile (body receiveCount : Str) : Except PyExc Str :=
  match intOfStr receiveCount with
  | .error _ => .ok body
  | .ok rc =>
    if rc ≤ 1 then .ok body else do
      let env ← parseEnvelope body
      raiseAttempts envelopeAttempts body (rc - 1) env (decodeLenient body)

/-- `AsbTransport._reconcile`. Without a `DeliveryCount`, `int(None)` raises a `TypeError`. -/
def Asb.reconcile (body : Str) (deliveryCount : Option Int) : Except PyExc Str :=
  match deliveryCount with
  | none => .ok body
  | some dc =>
    if dc ≤ 1 then .ok body else do
      let env ← decodeLenient body
      raiseAttempts envelopeAttempts body (dc - 1) env (.ok env)

/-- `int(env.get("attempts", 0) or 0)` -/
def truthyAttempts (env : Dict Json) : Except PyExc Int :=
  (((env.get? (str "attempts")).getD (.int 0)).orElse (.int 0)).toInt

/-- `ArtemisTransport._reconcile` -/
def Artemis.reconcile (body : Str) (deliveryCount : Int) : Except PyExc Str :=
  if deliveryCount ≤ 0 then .ok body else do
    let env ← decodeLenient body
    raiseAttempts truthyAttempts body deliveryCount env (.ok env)

/-- The deliveries before this one, if the broker counts them. -/
def Sqs.native (receiveCount : Str) : Option Int := (intOfStr receiveCount).toOption.map (· - 1)

def Asb.native (deliveryCount : Option Int) : Option Int := deliveryCount.map (· - 1)

/-- A body comes back; one with an integer count has the larger of the two counts, and is the same
body when its own is not the smaller. -/
structure Reconciled (body : Str) (native : Option Int) (r : Except PyExc Str) : Prop where
  returns : ∃ out, r = .ok out
  raised : ∀ n ∈ native, ∀ (d : Dict Json) (a : Int), loads body = .ok (.obj d) → d.get? (str "attempts") = some (.int a) →
    ∃ out, r = .ok out ∧ decodeLenient out = .ok ((foldIdentity d).set (str "attempts") (.int (max a n)))
  kept : ∀ n ∈ native, ∀ (d : Dict Json) (a : Int), loads body = .ok (.obj d) → d.get? (str "attempts") = some (.int a) → n ≤ a →
    r = .ok body

/-- A redelivered body is not nested too deep, its count can be read, and the broker's count has no more
digits than are written. On a first delivery the body has no count below the broker's. -/
structure Countable (current : Dict Json → Except PyExc Int) (body : Str) (n : Int) : Prop where
  shallow : 0 < n → ¬ Overdeep body
  counted : 0 < n → ∀ d, loads body = .ok (.obj d) → ∃ a, current d = .ok a
  written : 0 < n → ∀ d a, loads body = .ok (.obj d) → foldIdentity d ≠ [] → current d = .ok a → a < n →
    n.natAbs < 10 ^ maxStrDigits
  first : n ≤ 0 → ∀ (d : Dict Json) (a : Int), loads body = .ok (.obj d) → d.get? (str "attempts") = some (.int a) → n ≤ a

/-! ## One count -/

/-- A reader of the count looks at `attempts` only, takes an integer for itself, and an object
without members for a first delivery. -/
structure ReadsAttempts (current : Dict Json → Except PyExc Int) : Prop where
  congr : ∀ {d e : Dict Json}, d.get? (str "attempts") = e.get? (str "attempts") → current d = current e
  int : ∀ {d : Dict Json} {a : Int}, d.get? (str "attempts") = some (.int a) → current d = .ok a
  nil : current [] = .ok 0

theorem readsAttempts_envelope : ReadsAttempts envelopeAttempts where
  congr h := by rw [envelopeAttempts, h]; rfl
  int h := by rw [envelopeAttempts, h]; rfl
  nil := rfl

theorem readsAttempts_truthy : ReadsAttempts truthyAttempts where
  congr h := by rw [truthyAttempts, h]; rfl
  int {d a} h := by
    rw [truthyAttempts, h, Option.getD_some, orElse]
    split
    · rfl
    · next ht =>
      have : a = 0 := by simpa [truthy] using ht
      rw [this]
      rfl
  nil := rfl

section Count

variable {current : Dict Json → Except PyExc Int} (hcurrent : ReadsAttempts current) {body : Str} {d env : Dict Json}
  {reencoded : Except PyExc (Dict Json)} (hl : loads body = .ok (.obj d))
  (henv : env.get? (str "attempts") = d.get? (str "attempts")) (hre : reencoded = .ok (foldIdentity d)) {n : Int}

include hcurrent hl henv hre

theorem raiseAttempts_isOk_iff : (∃ out, raiseAttempts current body n env reencoded = .ok out) ↔
    (env ≠ [] → ∃ a, current d = .ok a ∧ (a < n → n.natAbs < 10 ^ maxStrDigits)) := by
  have hencode := encode_attempts_isOk_iff (n := n) (clean_foldIdentity d) (storable_foldIdentity (storable_of_loads hl))
  unfold raiseAttempts
  rw [hcurrent.congr henv, hre]
  by_cases hnil : env = []
  · rw [if_pos hnil]
    exact iff_of_true ⟨_, rfl⟩ (absurd hnil)
  · rw [if_neg hnil, forall_prop_of_true hnil]
    cases current d with
    | error e => exact iff_of_false (fun ⟨_, h⟩ => by cases h) (fun ⟨_, h, _⟩ => by cases h)
    | ok a =>
      show (∃ out, (if n ≤ a then (Except.ok body : Except PyExc Str) else
        encode ((foldIdentity d).set (str "attempts") (.int n))) = .ok out) ↔ _
      by_cases hle : n ≤ a
      · rw [if_pos hle]
        exact iff_of_true ⟨_, rfl⟩ ⟨a, rfl, fun h => absurd h (by omega)⟩
      · rw [if_neg hle, hencode]
        exact ⟨fun h => ⟨a, rfl, fun _ => h⟩, fun ⟨_, ha, h⟩ => by cases ha; exact h (by omega)⟩

theorem raiseAttempts_int {a : Int} (ha : d.get? (str "attempts") = some (.int a)) {out : Str}
    (h : raiseAttempts current body n env reencoded = .ok out) :
    decodeLenient out = .ok ((foldIdentity d).set (str "attempts") (.int (max a n))) ∧ (n ≤ a → out = body) := by
  have hfold : (foldIdentity d).get? (str "attempts") = some (.int a) :=
    (get?_foldIdentity d (by simp [Plain]) (by simp)).trans ha
  have hsame : decodeLenient body = .ok ((foldIdentity d).set (str "attempts") (.int a)) := by
    rw [decodeLenient_obj hl, Dict.set_of_get? hfold]
  have hnil : env ≠ [] := by
    rintro rfl
    rw [ha] at henv
    cases henv
  unfold raiseAttempts at h
  rw [if_neg hnil, hcurrent.congr henv, hcurrent.int ha, hre] at h
  replace h : (if n ≤ a then (Except.ok body : Except PyExc Str) else
    encode ((foldIdentity d).set (str "attempts") (.int n))) = .ok out := h
  by_cases hle : n ≤ a
  · rw [if_pos hle] at h
    cases h
    exact ⟨by rw [max_eq_left hle]; exact hsame, fun _ => rfl⟩
  · rw [if_neg hle] at h
    have hproper := (storable_foldIdentity (storable_of_loads hl)).proper.set (str "attempts") (v := .int n) trivial
    refine ⟨?_, fun h => absurd h hle⟩
    rw [decodeLenient_encode hproper h, max_eq_right (by omega)]

end Count

/-! ## One delivery -/

section Deliveries

variable {current : Dict Json → Except PyExc Int} {body : Str} {n : Int}

theorem reconciled_uncounted : Reconciled body none (.ok body) :=
  ⟨⟨body, rfl⟩, fun _ h => (by cases h), fun _ h => (by cases h)⟩

/-- A body that is passed through. -/
theorem reconciled_self : Reconciled body (some n) (.ok body) ↔
    ∀ (d : Dict Json) (a : Int), loads body = .ok (.obj d) → d.get? (str "attempts") = some (.int a) → n ≤ a := by
  have hfold : ∀ {d : Dict Json} {a : Int}, d.get? (str "attempts") = some (.int a) →
      (foldIdentity d).get? (str "attempts") = some (.int a) := fun {d a} ha =>
    (get?_foldIdentity d (by simp [Plain]) (by simp)).trans ha
  constructor
  · intro h d a hl ha
    obtain ⟨out, hout, hdec⟩ := h.raised n rfl d a hl ha
    cases hout
    rw [decodeLenient_obj hl] at hdec
    have hget := congrArg (fun e => Dict.get? e (str "attempts")) (Except.ok.inj hdec)
    simp only [Dict.get?_set_self, hfold ha, Option.some.injEq, Json.int.injEq] at hget
    omega
  · refine fun h => ⟨⟨body, rfl⟩, ?_, fun _ _ _ _ _ _ _ => rfl⟩
    rintro _ ⟨⟩ d a hl ha
    refine ⟨body, rfl, ?_⟩
    rw [decodeLenient_obj hl, max_eq_left (h d a hl ha), Dict.set_of_get? (hfold ha)]

/-- A redelivery whose count is read from `view d`, for a body that holds `d`. -/
theorem reconciled_iff (hcurrent : ReadsAttempts current) {read : Except PyExc (Dict Json)}
    (view : Dict Json → Dict Json) (reencode : Dict Json → Except PyExc (Dict Json))
    (hdeep : Overdeep body → ∃ e, read = .error e)
    (hnone : parseEnvelope body = .ok [] → decodeLenient body = .ok [] → read = .ok [])
    (hread : ∀ d : Dict Json, loads body = .ok (.obj d) → read = .ok (view d) ∧
      (view d).get? (str "attempts") = d.get? (str "attempts") ∧ reencode (view d) = .ok (foldIdentity d)) :
    Reconciled body (some n) (read >>= fun env => raiseAttempts current body n env (reencode env)) ↔
      ¬ Overdeep body ∧ ∀ d, loads body = .ok (.obj d) → ∃ a, current d = .ok a ∧
        (view d ≠ [] → a < n → n.natAbs < 10 ^ maxStrDigits) := by
  rcases body_cases body with hover | ⟨d, hl⟩ | ⟨hparse, hdec, hother⟩
  · obtain ⟨e, he⟩ := hdeep hover
    rw [he]
    exact iff_of_false (fun h => by obtain ⟨out, hout⟩ := h.returns; cases hout) fun h => h.1 hover
  · have hover : ¬ Overdeep body := by
      rintro ⟨e, he, -⟩
      rw [hl] at he
      cases he
    obtain ⟨hr, hview, hre⟩ := hread d hl
    have hd : ∀ d', loads body = .ok (.obj d') → d' = d := fun d' hl' => by
      rw [hl] at hl'
      cases hl'
      rfl
    have hisOk := raiseAttempts_isOk_iff hcurrent hl hview hre (n := n)
    rw [hr]
    show Reconciled body (some n) (raiseAttempts current body n (view d) (reencode (view d))) ↔ _
    have hall : (¬ Overdeep body ∧ ∀ d', loads body = .ok (.obj d') → ∃ a, current d' = .ok a ∧
        (view d' ≠ [] → a < n → n.natAbs < 10 ^ maxStrDigits)) ↔
        (view d ≠ [] → ∃ a, current d = .ok a ∧ (a < n → n.natAbs < 10 ^ maxStrDigits)) := by
      constructor
      · intro h hne
        obtain ⟨a, ha, hw⟩ := h.2 d hl
        exact ⟨a, ha, hw hne⟩
      · refine fun h => ⟨hover, fun d' hl' => ?_⟩
        rw [hd d' hl']
        by_cases hnil : view d = []
        · refine ⟨0, ?_, fun hne => absurd hnil hne⟩
          rw [hnil] at hview
          rw [← hcurrent.congr hview, hcurrent.nil]
        · obtain ⟨a, ha, hw⟩ := h hnil
          exact ⟨a, ha, fun _ => hw⟩
    rw [hall, ← hisOk]
    refine ⟨Reconciled.returns, fun hout => ⟨hout, ?_, ?_⟩⟩
    · rintro _ ⟨⟩ d' a hl' ha
      obtain rfl := hd d' hl'
      obtain ⟨out, hout⟩ := hout
      exact ⟨out, hout, (raiseAttempts_int hcurrent hl hview hre ha hout).1⟩
    · rintro _ ⟨⟩ d' a hl' ha hle
      obtain rfl := hd d' hl'
      obtain ⟨out, hout⟩ := hout
      rw [hout, (raiseAttempts_int hcurrent hl hview hre ha hout).2 hle]
  · rw [hnone hparse hdec]
    have hover : ¬ Overdeep body := by
      rw [overdeep_iff]
      rintro ⟨e, he⟩
      rw [hparse] at he
      cases he
    refine iff_of_true ?_ ⟨hover, fun d hl => absurd hl (hother d)⟩
    exact ⟨⟨body, rfl⟩, fun _ _ d _ hl => absurd hl (hother d), fun _ _ d _ hl => absurd hl (hother d)⟩

theorem countable_of_first (hn : n ≤ 0) : Countable current body n ↔
    ∀ (d : Dict Json) (a : Int), loads body = .ok (.obj d) → d.get? (str "attempts") = some (.int a) → n ≤ a :=
  ⟨fun h => h.first hn, fun h => ⟨fun h => by omega, fun h => by omega, fun h => by omega, fun _ => h⟩⟩

/-- A redelivery that is counted in the decoded envelope. -/
theorem reconciled_iff_countable (hcurrent : ReadsAttempts current) (hn : 0 < n) :
    Reconciled body (some n) (decodeLenient body >>= fun env => raiseAttempts current body n env (.ok env)) ↔
      Countable current body n := by
  refine (reconciled_iff hcurrent foldIdentity .ok ?_ ?_ ?_).trans ?_
  · exact decodeLenient_error_iff.mpr
  · exact fun _ h => h
  · exact fun d hl => ⟨decodeLenient_obj hl, get?_foldIdentity d (by simp [Plain]) (by simp), rfl⟩
  constructor
  · rintro ⟨hover, h⟩
    refine ⟨fun _ => hover, fun _ d hl => ?_, fun _ d a hl hne ha hlt => ?_, fun h => by omega⟩
    · obtain ⟨a, ha, -⟩ := h d hl
      exact ⟨a, ha⟩
    · obtain ⟨a', ha', hw⟩ := h d hl
      rw [ha] at ha'
      cases ha'
      exact hw hne hlt
  · intro h
    refine ⟨h.shallow hn, fun d hl => ?_⟩
    obtain ⟨a, ha⟩ := h.counted hn d hl
    exact ⟨a, ha, fun hne hlt => h.written hn d a hl hne ha hlt⟩

end Deliveries

/-! ## The transports -/

theorem sqs_reconciles_iff (body receiveCount : Str) :
    Reconciled body (Sqs.native receiveCount) (Sqs.reconcile body receiveCount) ↔
      ∀ n ∈ Sqs.native receiveCount, Countable envelopeAttempts body n := by
  unfold Sqs.native Sqs.reconcile
  cases hrc : intOfStr receiveCount with
  | error e =>
    exact iff_of_true reconciled_uncounted fun n hn => by cases hn
  | ok rc =>
    have hdigits := natAbs_intOfStr_lt hrc
    show Reconciled body (some (rc - 1)) (if rc ≤ 1 then .ok body else _) ↔ ∀ n ∈ some (rc - 1), _
    simp only [Option.mem_some_iff, forall_eq']
    by_cases hfirst : rc ≤ 1
    · rw [if_pos hfirst, reconciled_self, countable_of_first (by omega)]
    · rw [if_neg hfirst]
      refine (reconciled_iff readsAttempts_envelope id (fun _ => decodeLenient body) ?_ ?_ ?_).trans ?_
      · exact overdeep_iff.mp
      · exact fun h _ => h
      · exact fun d hl => ⟨parseEnvelope_obj hl, rfl, decodeLenient_obj hl⟩
      have hwritten : (rc - 1).natAbs < 10 ^ maxStrDigits := lt_of_le_of_lt (by omega) hdigits
      constructor
      · rintro ⟨hover, h⟩
        exact ⟨fun _ => hover, fun _ d hl => (h d hl).imp fun _ h => h.1, fun _ _ _ _ _ _ _ => hwritten,
          fun h => by omega⟩
      · intro h
        exact ⟨h.shallow (by omega), fun d hl => (h.counted (by omega) d hl).imp fun a ha => ⟨ha, fun _ _ => hwritten⟩⟩

theorem asb_reconciles_iff (body : Str) (deliveryCount : Option Int) :
    Reconciled body (Asb.native deliveryCount) (Asb.reconcile body deliveryCount) ↔
      ∀ n ∈ Asb.native deliveryCount, Countable envelopeAttempts body n := by
  unfold Asb.native Asb.reconcile
  cases deliveryCount with
  | none => exact iff_of_true reconciled_uncounted fun n hn => by cases hn
  | some dc =>
    simp only [Option.map_some, Option.mem_some_iff, forall_eq']
    by_cases hfirst : dc ≤ 1
    · rw [if_pos hfirst, reconciled_self, countable_of_first (by omega)]
    · rw [if_neg hfirst]
      exact reconciled_iff_countable readsAttempts_envelope (by omega)

theorem artemis_reconciles_iff (body : Str) (deliveryCount : Int) :
    Reconciled body (some deliveryCount) (Artemis.reconcile body deliveryCount) ↔
      Countable truthyAttempts body deliveryCount := by
  unfold Artemis.reconcile
  by_cases hfirst : deliveryCount ≤ 0
  · rw [if_pos hfirst, reconciled_self, countable_of_first hfirst]
  · rw [if_neg hfirst]
    exact reconciled_iff_countable readsAttempts_truthy (by omega)

/-- The bodies and counts that come through the three reconciles as they should. -/
theorem reconciles_iff :
    (∀ body receiveCount, Reconciled body (Sqs.native receiveCount) (Sqs.reconcile body receiveCount) ↔
      ∀ n ∈ Sqs.native receiveCount, Countable envelopeAttempts body n) ∧
    (∀ body deliveryCount, Reconciled body (Asb.native deliveryCount) (Asb.reconcile body deliveryCount) ↔
      ∀ n ∈ Asb.native deliveryCount, Countable envelopeAttempts body n) ∧
    ∀ body deliveryCount, Reconciled body (some deliveryCount) (Artemis.reconcile body deliveryCount) ↔
      Countable truthyAttempts body deliveryCount :=
  ⟨sqs_reconciles_iff, asb_reconciles_iff, artemis_reconciles_iff⟩

end Interpreter

section CPython

attribute [local instance] cpython

/-- A body whose `attempts` has the text `attempts`. -/
def countedBody (attempts : String) : Str := str "\x7b\"job\":\"urn:x\",\"attempts\":" ++ str attempts ++ str "\x7d"

/-- A `null` count ends the second delivery by SQS and by Service Bus, and a list the one by Artemis. -/
theorem miscounted :
    ¬ Reconciled (countedBody "null") (Sqs.native (str "2")) (Sqs.reconcile (countedBody "null") (str "2")) ∧
      ¬ Reconciled (countedBody "null") (Asb.native (some 2)) (Asb.reconcile (countedBody "null") (some 2)) ∧
      ¬ Reconciled (countedBody "[1]") (some 1) (Artemis.reconcile (countedBody "[1]") 1) := by
  have hraises : ∀ {r : Except PyExc Str}, r.isOk = false → ¬ ∃ out, r = .ok out := by
    rintro _ h ⟨out, rfl⟩
    cases h
  refine ⟨fun h => hraises ?_ h.returns, fun h => hraises ?_ h.returns, fun h => hraises ?_ h.returns⟩
  all_goals decide +kernel

end CPython

end BabelQueue
