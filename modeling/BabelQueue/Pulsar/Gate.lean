import Mathlib.Logic.Relation
import BabelQueue.Pulsar.Properties

/-!
# The version gate, from copy to copy

* `Copies message copy`: `copy` is written for `message`, or for a copy of it, any number of times.
* `Survives`: what such a copy keeps of a gated message.
* `gate_survives`: the route is read back, and every copy of a gated message is gated.
-/

namespace BabelQueue.Pulsar

open Py Py.Json Py.Utf8

section Interpreter

variable [Interpreter]

/-- `copy` is written for `message`, with any number of copies in between. -/
abbrev Copies : Message → Message → Prop := Relation.TransGen Copy

/-! ## One copy -/

omit [Interpreter] in
theorem unsupportedSchemaVersion_eq_some {properties : Dict Str} {version : Str} :
    unsupportedSchemaVersion properties = some version ↔
      properties.get? (str "bq-schema-version") = some version ∧
        ¬ (version.all (· ∈ asciiWhitespace) = true ∨ version = intText Kafka.schemaVersion) := by
  unfold unsupportedSchemaVersion
  cases properties.get? (str "bq-schema-version") with
  | none => simp
  | some raw =>
    rw [Option.bind_some]
    by_cases h : raw.all (· ∈ asciiWhitespace) = true ∨ raw = intText Kafka.schemaVersion
    · rw [if_pos h]
      simp only [reduceCtorEq, false_iff, not_and, not_not, Option.some.injEq]
      rintro rfl
      exact h
    · rw [if_neg h]
      simp only [Option.some.injEq]
      exact ⟨fun he => ⟨he, he ▸ h⟩, And.left⟩

theorem received_gated {d : Delivery} {version : Str} (h : unsupportedSchemaVersion d.message.properties = some version)
    (queue : Str) :
    received queue d = (gateRoute version d.message.properties).map fun route => (popped route d.payload queue d [], none) := by
  unfold received
  rw [h]
  rfl

/-- What a copy of a gated message keeps of it. -/
theorem Copy.of_gated {message copy : Message} {version : Str} (hv : unsupportedSchemaVersion message.properties = some version)
    (h : Copy message copy) :
    (∃ route, gateRoute version message.properties = .ok route) ∧ unsupportedSchemaVersion copy.properties = some version ∧
      (∀ job, message.properties.get? (str "bq-job") = some job → copy.properties.get? (str "bq-job") = some job) ∧
      ∀ job, message.properties.get? (str "bq-job") = none → copy.properties.get? (str "bq-job") = some job →
        BodyJob copy.data job := by
  obtain ⟨queue, d, m, mismatch, body, rfl, hm, hbody⟩ := h.written
  rw [received_gated hv, map_eq_ok] at hm
  obtain ⟨route, hroute, hm⟩ := hm
  obtain rfl : popped route d.payload queue d [] = m := congrArg Prod.fst hm
  obtain ⟨properties, hprojection, hdata, hget⟩ := hbody.spec
  obtain ⟨hproper, hversion, hjob, hnone⟩ := projection_gate (parseGateRoute_gateRoute hroute) hprojection
  have hversion' := (hget hproper (str "bq-schema-version") (by decide)).trans hversion
  have hjob' := hget hproper (str "bq-job") (by decide)
  refine ⟨⟨route, hroute⟩, ?_, fun job h => hjob'.trans (hjob job h), fun job hno h => ?_⟩
  · exact unsupportedSchemaVersion_eq_some.mpr ⟨hversion', (unsupportedSchemaVersion_eq_some.mp hv).2⟩
  · exact hnone copy.data job hno hdata (hjob'.symm.trans h)

/-! ## Any number of copies -/

/-- What a copy of a gated message keeps. -/
structure Survives (message : Message) (version : Str) (copy : Message) : Prop where
  keepsVersion : copy.properties.get? (str "bq-schema-version") = some version
  keepsJob : ∀ job, message.properties.get? (str "bq-job") = some job → copy.properties.get? (str "bq-job") = some job
  /-- The reserved route is not written, unless it is the job of a body and the message carried none. -/
  unreserved : ∀ route, gateRoute version message.properties = .ok route → copy.properties.get? (str "bq-job") = some route →
    message.properties.get? (str "bq-job") = none ∧ ∃ written, Copies message written ∧ BodyJob written.data route
  /-- A pop hands the body over as it is, under the gate route. -/
  gated : ∀ queue d m mismatch, d.message = copy → received queue d = .ok (m, mismatch) →
    m.gated = true ∧ m.body = d.payload ∧
      parseGateRoute m.routeUrn.text = some (version, copy.properties.get? (str "bq-job"))
  /-- The pop returns, unless there was no job and the one that was written has no UTF-8 form. -/
  returns : (message.properties.get? (str "bq-job")).isSome = true ∨
      (∀ job, copy.properties.get? (str "bq-job") = some job → Encodable job) →
    ∀ queue d, d.message = copy → ∃ m, received queue d = .ok (m, none)

omit [Interpreter] in
theorem gateRoute_congr {version : Str} {p p' : Dict Str} (h : p.get? (str "bq-job") = p'.get? (str "bq-job")) :
    gateRoute version p = gateRoute version p' := by
  unfold gateRoute
  rw [h]

omit [Interpreter] in
theorem startsWith_gateRoute {version route : Str} {properties : Dict Str} (h : gateRoute version properties = .ok route) :
    startsWith route unsupportedSchemaRoutePrefix = true := by
  have hparse := parseGateRoute_gateRoute h
  unfold parseGateRoute at hparse
  split at hparse
  · assumption
  · cases hparse

theorem Copies.survives {message copy : Message} {version : Str}
    (hv : unsupportedSchemaVersion message.properties = some version) (h : Copies message copy) :
    Survives message version copy := by
  -- The version and the job are carried along; a job that was missing comes from a body on the way.
  obtain ⟨hroute, hcopy, hjob, hnone⟩ : (∃ route, gateRoute version message.properties = .ok route) ∧
      unsupportedSchemaVersion copy.properties = some version ∧
      (∀ job, message.properties.get? (str "bq-job") = some job → copy.properties.get? (str "bq-job") = some job) ∧
      ∀ job, message.properties.get? (str "bq-job") = none → copy.properties.get? (str "bq-job") = some job →
        ∃ written, Copies message written ∧ BodyJob written.data job := by
    induction h with
    | single h =>
      obtain ⟨hroute, hcopy, hjob, hnone⟩ := h.of_gated hv
      exact ⟨hroute, hcopy, hjob, fun job hno hj => ⟨_, .single h, hnone job hno hj⟩⟩
    | @tail b c hb hc ih =>
      obtain ⟨hroute, hb', hjob, hnone⟩ := ih
      obtain ⟨-, hc', hjob', hnone'⟩ := hc.of_gated hb'
      refine ⟨hroute, hc', fun job hj => hjob' job (hjob job hj), fun job hno hj => ?_⟩
      cases hbj : b.properties.get? (str "bq-job") with
      | none => exact ⟨c, .tail hb hc, hnone' job hbj hj⟩
      | some job' =>
        obtain rfl : job' = job := Option.some.inj ((hjob' job' hbj).symm.trans hj)
        exact hnone job' hno hbj
  refine ⟨(unsupportedSchemaVersion_eq_some.mp hcopy).1, hjob, fun route hr hj => ?_, ?_, ?_⟩
  · cases hmj : message.properties.get? (str "bq-job") with
    | none => exact ⟨rfl, hnone route hmj hj⟩
    | some job =>
      -- The route is longer than the job in it.
      obtain rfl : job = route := Option.some.inj ((hjob job hmj).symm.trans hj)
      exact absurd (lt_gateRoute hr hmj) (lt_irrefl _)
  · rintro queue d m mismatch rfl hm
    rw [received_gated hcopy, map_eq_ok] at hm
    obtain ⟨route, hr, hm⟩ := hm
    obtain rfl : popped route d.payload queue d [] = m := congrArg Prod.fst hm
    exact ⟨startsWith_gateRoute hr, rfl, parseGateRoute_gateRoute hr⟩
  · rintro hjobs queue d rfl
    obtain ⟨route, hr⟩ : ∃ route, gateRoute version d.message.properties = .ok route := by
      rcases hjobs with hsome | hencodable
      · obtain ⟨job, hmj⟩ := Option.isSome_iff_exists.mp hsome
        rwa [gateRoute_congr (hmj.trans (hjob job hmj).symm)] at hroute
      · obtain ⟨_, hr⟩ := hroute
        exact gateRoute_isOk (encodable_of_gateRoute hr) hencodable
    exact ⟨_, by rw [received_gated hcopy, hr]; rfl⟩

/-- What is written under a gate route is defined where the projection of the body is. -/
theorem routedMessage_gate {route version body : Str} {job : Option Str} (hr : parseGateRoute route = some (version, job))
    (hbody : Encodable body) (hp : ∃ properties, projection body [] = .ok properties) :
    ∃ copy, routedMessage body route = .ok copy := by
  obtain ⟨data, hdata⟩ := encodable_iff.mp hbody
  obtain ⟨_, hp⟩ := hp
  unfold projection at hp
  obtain ⟨env, henv, hp⟩ := bind_eq_ok.mp hp
  obtain ⟨properties, hproperties, -⟩ := bind_eq_ok.mp hp
  unfold routedMessage projection
  rw [hdata, henv, hr]
  simp only [bind, Except.bind, hproperties]
  exact ⟨_, rfl⟩

/-- A gate route is read back, no other route is, and whatever is written for a gated message is gated
in the same way. -/
theorem gate_survives :
    (∀ (version : Str) (properties : Dict Str), Encodable version →
      (∀ job, properties.get? (str "bq-job") = some job → Encodable job) →
      ∃ route, gateRoute version properties = .ok route ∧
        parseGateRoute route = some (version, properties.get? (str "bq-job"))) ∧
    (∀ route, startsWith route unsupportedSchemaRoutePrefix = false → parseGateRoute route = none) ∧
    ∀ (message : Message) (version : Str), unsupportedSchemaVersion message.properties = some version →
      (∀ route body, gateRoute version message.properties = .ok route → Encodable body →
        (∃ properties, projection body [] = .ok properties) → ∃ copy, routedMessage body route = .ok copy) ∧
      ∀ copy, Copies message copy → Survives message version copy := by
  refine ⟨fun version properties hv hj => ?_, fun _ => parseGateRoute_of_not_prefix, fun message version hv => ⟨?_, ?_⟩⟩
  · obtain ⟨route, hr⟩ := gateRoute_isOk hv hj
    exact ⟨route, hr, parseGateRoute_gateRoute hr⟩
  · exact fun route body hr => routedMessage_gate (parseGateRoute_gateRoute hr)
  · exact fun copy => Copies.survives hv

end Interpreter

section CPython

attribute [local instance] cpython

/-- A client in memory: the messages that were sent and not received, oldest first. -/
def sandboxClient : PulsarClient Sent where
  send topic message sent := (.ok (), sent ++ [(topic, message)])
  receive topic sent :=
    match sent.find? fun x => x.1 = topic with
    | none => (.ok none, sent)
    | some x => (.ok (some ⟨0, x.2, 0⟩), sent.erase x)
  acknowledge _ _ := pure ()
  negativeAcknowledge _ _ := pure ()

def sandbox : PulsarTransport Sent := ⟨sandboxClient, [], none⟩

/-- `BabelQueue(dead_letter=True)` without handlers. -/
def lettersApp : App Sent Delivery where
  transport := sandbox.transport.toTransport
  handlers := []
  onUnknownUrn := .fail
  maxAttempts := 3
  deadLetterEnabled := true
  deadLetterQueue := none
  deadLetterSuffix := none
  retryDelay _ := .ok Float64.zero
  unknownUrnReleaseDelay := Float64.zero
  deadLetterObserver := none
  now _ := ⟨0, epoch_in_range⟩
  setPhase _ := id
  endPhase := id

/-- A message of schema version 2 with a body that names only `job`, and the properties `more`. -/
def versionTwo (job : String) (more : Dict Str) : Message :=
  ⟨encodePass (str "\x7b\"job\":\"" ++ str job ++ str "\"\x7d"), (str "bq-schema-version", str "2") :: more⟩

/-- What is written for it. -/
def versionTwoLetter (job written : String) : Message :=
  ⟨encodePass (str "\x7b\"job\":\"" ++ str job ++ str "\"\x7d"),
    [(str "bq-job", str written), (str "bq-attempts", str "0"), (str "bq-schema-version", str "2")]⟩

/-- A dead-letter write under the gate route `route`. -/
theorem copies_of_letter {message copy : Message} (route : Str)
    (hv : unsupportedSchemaVersion message.properties = some (str "2"))
    (hr : gateRoute (str "2") message.properties = .ok route)
    (hs : (str "orders.dlq", copy) ∈ ((lettersApp.sending sandbox).dispatch
      (popped route (decodeEscape message.data) (str "orders") ⟨0, message, 0⟩ []) ([], [])).2.2) :
    Copies message copy := by
  have hreceived := received_gated (d := ⟨0, message, 0⟩) hv (str "orders")
  rw [hr] at hreceived
  exact .single (.dispatched sandbox lettersApp rfl hreceived hs)

theorem gate_survives_letter :
    Survives (versionTwo "urn:a" [(str "bq-job", str "urn:b")]) (str "2") (versionTwoLetter "urn:a" "urn:b") :=
  (gate_survives.2.2 _ (str "2") (by decide +kernel)).2 _
    (copies_of_letter (str "babelqueue:unsupported-schema-version:2?bq-job=urn%3Ab") (by decide +kernel)
      (by decide +kernel) (by decide +kernel))

/-- A message without `bq-job`, whose body names the reserved route as its job. -/
theorem gate_route_written :
    unsupportedSchemaVersion (versionTwo "babelqueue:unsupported-schema-version:2" []).properties = some (str "2") ∧
      Copies (versionTwo "babelqueue:unsupported-schema-version:2" [])
        (versionTwoLetter "babelqueue:unsupported-schema-version:2" "babelqueue:unsupported-schema-version:2") ∧
      gateRoute (str "2") (versionTwo "babelqueue:unsupported-schema-version:2" []).properties =
        .ok (str "babelqueue:unsupported-schema-version:2") ∧
      (versionTwoLetter "babelqueue:unsupported-schema-version:2" "babelqueue:unsupported-schema-version:2").properties.get?
        (str "bq-job") = some (str "babelqueue:unsupported-schema-version:2") :=
  ⟨by decide +kernel, copies_of_letter (str "babelqueue:unsupported-schema-version:2") (by decide +kernel)
    (by decide +kernel) (by decide +kernel), by decide +kernel, by decide +kernel⟩

end CPython

end BabelQueue.Pulsar
