import BabelQueue.PoisonRecord.Lossless
import BabelQueue.Pulsar.Copies

/-!
# Routes and properties of Pulsar messages

* `parseGateRoute_gateRoute`: a gate route is read back.
* `projection_gate`, `projection_plain`: what is projected under a gate route, and under any other.
* `Writes.spec`: the properties of a message that is written.
-/

namespace BabelQueue.Pulsar

open Py Py.Json Py.Utf8
open Kafka (outOfBandOf quote)

/-! ## Gate routes -/

/-- What `quote` writes for one byte. -/
def quoteByte (b : Byte) : Str :=
  if isDigit (Fin.ofNat _ b.val) || (97 ≤ b.val && b.val ≤ 122) || (65 ≤ b.val && b.val ≤ 90) ||
      (Fin.ofNat _ b.val : CodePoint) ∈ str "_.-~" then [Fin.ofNat _ b.val]
  else cp '%' :: (hexText 2 b.val).map fun c => if 97 ≤ c.val then Fin.ofNat _ (c.val - 32) else c

theorem quote_eq_ok {s q : Str} : quote s = .ok q ↔ ∃ b, Utf8.encodeStrict s = .ok b ∧ q = b.flatMap quoteByte := by
  have h : quote s = (Utf8.encodeStrict s >>= fun b => pure (b.flatMap quoteByte)) := rfl
  rw [h, bind_eq_ok]
  constructor
  · rintro ⟨b, hb, hq⟩
    exact ⟨b, hb, (Except.ok.inj hq).symm⟩
  · rintro ⟨b, hb, rfl⟩
    exact ⟨b, hb, rfl⟩

theorem escapes_quoteByte : Escapes quoteByte := by
  have h : ∀ b : Byte, (quoteByte b = [Fin.ofNat _ b.val] ∧ b.val < 0x80 ∧ b.val ≠ 0x25) ∨
      quoteByte b = [cp '%', (quoteByte b).getD 1 0, (quoteByte b).getD 2 0] ∧
        hexValue? ((quoteByte b).getD 1 0) = some (b.val / 16) ∧ hexValue? ((quoteByte b).getD 2 0) = some (b.val % 16) := by
    decide +kernel
  intro b
  rcases h b with h | ⟨h, hc, hd⟩
  · exact .inl h
  · exact .inr ⟨_, _, _, _, h, hc, hd, by omega⟩

theorem mark_not_mem_quoteByte : ∀ b : Byte, cp '?' ∉ quoteByte b ∧ 0 < (quoteByte b).length := by decide +kernel

theorem length_le_flatMap {α β : Type} {f : α → List β} (h : ∀ a, 0 < (f a).length) (l : List α) :
    l.length ≤ (l.flatMap f).length := by
  induction l with
  | nil => exact Nat.zero_le _
  | cons a l ih =>
    rw [List.flatMap_cons, List.length_append, List.length_cons]
    have := h a
    omega

/-- A quoted text holds no separator, is not shorter than the text, and is read back. -/
theorem quoted {s q : Str} (h : quote s = .ok q) : unquote q = s ∧ cp '?' ∉ q ∧ s.length ≤ q.length := by
  obtain ⟨b, hb, rfl⟩ := quote_eq_ok.mp h
  refine ⟨unquote_flatMap escapes_quoteByte hb, ?_, ?_⟩
  · rw [List.mem_flatMap]
    rintro ⟨x, -, hx⟩
    exact (mark_not_mem_quoteByte x).1 hx
  · have hbytes : s.length ≤ b.length := by
      unfold Utf8.encodeStrict at hb
      split at hb
      · cases hb
      · cases hb
        exact length_le_flatMap encodePoint_length_pos s
    exact hbytes.trans (length_le_flatMap (fun x => (mark_not_mem_quoteByte x).2) b)

theorem quote_isOk {s : Str} (h : Encodable s) : ∃ q, quote s = .ok q := by
  obtain ⟨b, hb⟩ := encodable_iff.mp h
  exact ⟨_, quote_eq_ok.mpr ⟨b, hb, rfl⟩⟩

theorem gateJobParam_eq : gateJobParam = cp '?' :: str "bq-job=" := by decide

/-- A gate route is read back as the version and the job. -/
theorem parseGateRoute_gateRoute {version route : Str} {properties : Dict Str} (h : gateRoute version properties = .ok route) :
    parseGateRoute route = some (version, properties.get? (str "bq-job")) := by
  unfold gateRoute at h
  obtain ⟨q, hq, h⟩ := bind_eq_ok.mp h
  obtain ⟨hversion, hmark, -⟩ := quoted hq
  unfold parseGateRoute
  cases hjob : properties.get? (str "bq-job") with
  | none =>
    rw [hjob] at h
    obtain rfl : unsupportedSchemaRoutePrefix ++ q = route := Except.ok.inj h
    rw [if_pos (startsWith_append _ _), List.drop_left, gateJobParam_eq, partition_of_not_mem hmark]
    simp only [hversion, Option.map_none]
  | some job =>
    rw [hjob] at h
    obtain ⟨q', hq', h⟩ := bind_eq_ok.mp h
    obtain rfl : unsupportedSchemaRoutePrefix ++ q ++ gateJobParam ++ q' = route := Except.ok.inj h
    rw [List.append_assoc, List.append_assoc, if_pos (startsWith_append _ _), List.drop_left, gateJobParam_eq,
      partition_append hmark]
    simp only [hversion, Option.map_some, (quoted hq').1]

/-- A gate route is longer than the job in it. -/
theorem lt_gateRoute {version route job : Str} {properties : Dict Str} (h : gateRoute version properties = .ok route)
    (hjob : properties.get? (str "bq-job") = some job) : job.length < route.length := by
  unfold gateRoute at h
  obtain ⟨q, -, h⟩ := bind_eq_ok.mp h
  rw [hjob] at h
  obtain ⟨q', hq', h⟩ := bind_eq_ok.mp h
  obtain rfl : unsupportedSchemaRoutePrefix ++ q ++ gateJobParam ++ q' = route := Except.ok.inj h
  have hle := (quoted hq').2.2
  rw [List.length_append, List.length_append, gateJobParam_eq, List.length_cons]
  omega

theorem gateRoute_isOk {version : Str} {properties : Dict Str} (hv : Encodable version)
    (hj : ∀ job, properties.get? (str "bq-job") = some job → Encodable job) :
    ∃ route, gateRoute version properties = .ok route := by
  obtain ⟨q, hq⟩ := quote_isOk hv
  unfold gateRoute
  rw [hq]
  cases hjob : properties.get? (str "bq-job") with
  | none => exact ⟨_, rfl⟩
  | some job =>
    obtain ⟨q', hq'⟩ := quote_isOk (hj job hjob)
    exact ⟨unsupportedSchemaRoutePrefix ++ q ++ gateJobParam ++ q', by
      show (quote job >>= fun q' => pure _) = _
      rw [hq']
      rfl⟩

theorem encodable_of_gateRoute {version route : Str} {properties : Dict Str} (h : gateRoute version properties = .ok route) :
    Encodable version := by
  unfold gateRoute at h
  obtain ⟨q, hq, -⟩ := bind_eq_ok.mp h
  obtain ⟨b, hb, -⟩ := quote_eq_ok.mp hq
  exact encodable_iff.mpr ⟨b, hb⟩

theorem parseGateRoute_of_not_prefix {route : Str} (h : startsWith route unsupportedSchemaRoutePrefix = false) :
    parseGateRoute route = none := by
  rw [parseGateRoute, h, if_neg Bool.false_ne_true]

section Interpreter

variable [Interpreter]

/-! ## Projections -/

/-- `str(value)`, of a value that counts. -/
def textIf (value : Json) (counts : Bool) : Option Str := if counts then value.toStr.toOption else none

theorem projected_spec {key : Str} {value : Json} {counts : Bool} {d : Dict Str} (h : projected key value counts = .ok d) :
    (Dict.keys d).Sublist [key] ∧ ∀ k, Dict.get? d k = if k = key then textIf value counts else none := by
  unfold projected at h
  cases counts with
  | false =>
    obtain rfl : ([] : Dict Str) = d := Except.ok.inj h
    exact ⟨List.nil_sublist _, fun k => by rw [textIf, if_neg Bool.false_ne_true, ite_self]; rfl⟩
  | true =>
    rw [if_pos rfl] at h
    obtain ⟨text, ht, h⟩ := bind_eq_ok.mp h
    obtain rfl : [(key, text)] = d := Except.ok.inj h
    refine ⟨List.Sublist.refl _, fun k => ?_⟩
    rw [textIf, if_pos rfl, ht]
    show (if key = k then some text else none) = if k = key then some text else none
    simp only [eq_comm]

theorem bodyProperties_spec {env : Dict Json} (hne : env ≠ []) {d : Dict Str} (h : bodyProperties env = .ok d) :
    ∃ metaBlock : Dict Json, ((env.getJ (str "meta")).orElse (.obj [])).getter = .ok metaBlock ∧ Dict.Proper d ∧
      Dict.get? d (str "bq-job") = textIf (env.getJ (str "job")) (env.getJ (str "job")).truthy ∧
      Dict.get? d (str "bq-schema-version") =
        textIf (metaBlock.getJ (str "schema_version")) !(metaBlock.getJ (str "schema_version")).isNone := by
  unfold bodyProperties at h
  rw [if_neg hne] at h
  obtain ⟨metaBlock, hmeta, h⟩ := bind_eq_ok.mp h
  obtain ⟨job, hjob, h⟩ := bind_eq_ok.mp h
  obtain ⟨traceId, htrace, h⟩ := bind_eq_ok.mp h
  obtain ⟨messageId, hid, h⟩ := bind_eq_ok.mp h
  obtain ⟨version, hversion, h⟩ := bind_eq_ok.mp h
  obtain ⟨lang, hlang, h⟩ := bind_eq_ok.mp h
  obtain ⟨attempts, -, h⟩ := bind_eq_ok.mp h
  obtain ⟨text, -, h⟩ := bind_eq_ok.mp h
  obtain rfl := Except.ok.inj h
  obtain ⟨kjob, hjob⟩ := projected_spec hjob
  obtain ⟨ktrace, htrace⟩ := projected_spec htrace
  obtain ⟨kid, hid⟩ := projected_spec hid
  obtain ⟨kversion, hversion⟩ := projected_spec hversion
  obtain ⟨klang, hlang⟩ := projected_spec hlang
  refine ⟨metaBlock, hmeta, ?_, ?_, ?_⟩
  · have hkeys : (Dict.keys (job ++ traceId ++ messageId ++ version ++ lang ++ [(str "bq-attempts", text)])).Sublist
        ([str "bq-job"] ++ [str "bq-trace-id"] ++ [str "bq-message-id"] ++ [str "bq-schema-version"] ++
          [str "bq-source-lang"] ++ [str "bq-attempts"]) := by
      unfold Dict.keys
      simp only [List.map_append]
      exact ((((kjob.append ktrace).append kid).append kversion).append klang).append (List.Sublist.refl _)
    exact hkeys.nodup (by decide +kernel)
  all_goals simp [Dict.get?_append, hjob, htrace, hid, hversion, hlang, Dict.get?]

/-- The job that the body of a message is projected with. -/
def BodyJob (data : Bytes) (job : Str) : Prop :=
  ∃ env, parseEnvelope (Utf8.decodeEscape data) = .ok env ∧ (env.getJ (str "job")).truthy = true ∧
    (env.getJ (str "job")).toStr = .ok job

theorem textIf_eq_some {value : Json} {counts : Bool} {text : Str} :
    textIf value counts = some text ↔ counts = true ∧ value.toStr = .ok text := by
  unfold textIf
  cases counts <;> cases value.toStr <;> simp [Except.toOption]

/-- What a body is projected with, whatever the route. -/
theorem bodyProperties_job {body : Str} {env : Dict Json} {d : Dict Str} (he : parseEnvelope body = .ok env)
    (h : bodyProperties env = .ok d) : Dict.Proper d ∧
      ∀ data job, Utf8.encodeStrict body = .ok data → Dict.get? d (str "bq-job") = some job → BodyJob data job := by
  by_cases hne : env = []
  · unfold bodyProperties at h
    rw [if_pos hne] at h
    obtain rfl : ([] : Dict Str) = d := Except.ok.inj h
    exact ⟨List.nodup_nil, fun _ _ _ h => by cases h⟩
  · obtain ⟨metaBlock, -, hproper, hjob, -⟩ := bodyProperties_spec hne h
    refine ⟨hproper, fun data job hdata h => ?_⟩
    obtain ⟨ht, hs⟩ := textIf_eq_some.mp (hjob.symm.trans h)
    exact ⟨env, by rw [decodeEscape_encodeStrict hdata, he], ht, hs⟩

/-- Under a gate route, the version and the job of the delivery are written. -/
theorem projection_gate {body route version : Str} {job : Option Str} (hr : parseGateRoute route = some (version, job))
    {d : Dict Str} (h : projection body route = .ok d) :
    Dict.Proper d ∧ Dict.get? d (str "bq-schema-version") = some version ∧
      (∀ j, job = some j → Dict.get? d (str "bq-job") = some j) ∧
      ∀ data j, job = none → Utf8.encodeStrict body = .ok data → Dict.get? d (str "bq-job") = some j → BodyJob data j := by
  have hne : str "bq-schema-version" ≠ str "bq-job" := by decide
  unfold projection at h
  obtain ⟨env, henv, h⟩ := bind_eq_ok.mp h
  obtain ⟨base, hbase, h⟩ := bind_eq_ok.mp h
  obtain ⟨hproper, hbody⟩ := bodyProperties_job henv hbase
  rw [hr] at h
  cases job with
  | none =>
    obtain rfl : Dict.set base (str "bq-schema-version") version = d := Except.ok.inj h
    refine ⟨hproper.set _ _, Dict.get?_set_self _ _ _, fun j h => (Option.some_ne_none j h.symm).elim,
      fun data j _ hdata hj => ?_⟩
    rw [Dict.get?_set_of_ne _ _ hne.symm] at hj
    exact hbody data j hdata hj
  | some j =>
    obtain rfl : Dict.set (Dict.set base (str "bq-schema-version") version) (str "bq-job") j = d := Except.ok.inj h
    refine ⟨(hproper.set _ _).set _ _, ?_, fun j' hj' => ?_, fun _ _ h => (Option.some_ne_none j h).elim⟩
    · rw [Dict.get?_set_of_ne _ _ hne, Dict.get?_set_self]
    · rw [Dict.get?_set_self, hj']

/-- What a written message carries of its projection. -/
theorem Writes.spec {route body : Str} {copy : Message} (h : Writes route body copy) :
    ∃ d : Dict Str, projection body route = .ok d ∧ Utf8.encodeStrict body = .ok copy.data ∧
      (Dict.Proper d → ∀ key, key ≠ headerReplayBypass → copy.properties.get? key = Dict.get? d key) := by
  rcases h with h | h
  · obtain ⟨data, hdata, h⟩ := bind_eq_ok.mp h
    obtain ⟨d, hd, h⟩ := bind_eq_ok.mp h
    obtain rfl := Except.ok.inj h
    exact ⟨d, hd, hdata, fun _ _ _ => rfl⟩
  · obtain ⟨d, hd, h⟩ := bind_eq_ok.mp h
    obtain ⟨data, hdata, h⟩ := bind_eq_ok.mp h
    obtain rfl := Except.ok.inj h
    refine ⟨d, hd, hdata, fun hproper key hkey => ?_⟩
    have hheaders : outOfBandOf [(headerReplayBypass, str "1")] = [(headerReplayBypass, str "1")] := by decide +kernel
    rw [Dict.get?_update hproper, hheaders]
    show (Dict.get? d key).or (if headerReplayBypass = key then _ else none) = _
    rw [if_neg (Ne.symm hkey), Option.or_none]

end Interpreter

end BabelQueue.Pulsar
