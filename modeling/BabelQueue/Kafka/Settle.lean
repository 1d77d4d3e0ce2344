import BabelQueue.Kafka.Produce
import BabelQueue.PoisonRecord.Lossless
import BabelQueue.Py.Json.Canonical
import BabelQueue.Py.Json.Points

/-!
# Which settle writes can be built

Whether the arguments of `produce` come about for what the runtime writes on behalf of a record.

* `Projects env`: each value that is projected onto a header has a UTF-8 form.
* `Settleable body`, `settleArgs_isOk_iff`: the bodies of a `publish_settle`; `settleable_encode`: what
  `encode` writes is one.
* `Wrappable`, `settleArgs_poison_iff`: the bodies whose poison record is written.
* `Parkable`, `redeliverArgs_isOk_iff`: the bodies of a `redeliver`.
* `settle_writes_iff`: all of it, for the delivery of a record.
-/

namespace BabelQueue.Kafka

open Py Py.Json

/-- The headers of a message have values with a UTF-8 form. -/
def EncodableHeaders (headers : Dict Str) : Prop := ∀ h ∈ headers, Encodable h.2

/-- The values of the headers are bytes, as the client gives them. -/
def BytesHeaders (headers : Headers) : Prop := ∀ h ∈ headers, ∀ value, h.2 = some value → ∃ b, value = .bytes b

/-- The values that `_projection` writes as text. -/
def projectedValues (env : Dict Json) : List Json :=
  [env.getJ (str "job"), env.getJ (str "trace_id"), (metaOf env).getJ (str "id"), (metaOf env).getJ (str "schema_version"),
    (metaOf env).getJ (str "lang")]

section Interpreter

variable [Interpreter]

/-- The text of each projected value has a UTF-8 form. -/
def Projects (env : Dict Json) : Prop := ∀ v ∈ projectedValues env, ∀ s, v.toStr = .ok s → Encodable s

/-- A text is projected: it is not nested too deep, and an object projects. -/
def Projected (text : Str) : Prop := ¬ Overdeep text ∧ ∀ env, loads text = .ok (.obj env) → Projects env

/-- A text with a UTF-8 form is projected; one without is written as it is. -/
def Settleable (text : Str) : Prop := Encodable text → Projected text

/-- What `redeliver` makes of a body has a UTF-8 form: the count is one that can be written, a body that is passed
through is projected, and in one that is encoded again every string has a UTF-8 form. -/
def Parkable (m : ReceivedMessage Message) (body : Str) : Prop :=
  ∃ before envelope, attemptsBefore m = .ok before ∧ decodeLenient body = .ok envelope ∧
    (before + 1).natAbs < 10 ^ maxStrDigits ∧
    if envelope = [] ∨ (runtimeAttempts envelope = .ok (before + 1) ∧ (envelope.getJ (str "attempts")).isNone = false) then
      Encodable body ∧ Projected body
    else Strings Encodable (.obj (envelope.set (str "attempts") (.int (before + 1))))

/-- The poison record of a body has a UTF-8 form only where the values that are projected from it have one. -/
def Wrappable (text : Str) (p : PoisonRoute) : Prop :=
  Encodable p.cause → Encodable p.originalQueue → Spliced Projects text

/-! ## Texts of values -/

omit [Interpreter] in
theorem encodable_hexText (w n : Nat) : Encodable (hexText w n) := by
  intro c hc
  obtain ⟨i, -, rfl⟩ := List.mem_map.mp hc
  exact not_isSurrogate_cp _

omit [Interpreter] in
theorem encodable_cons {c : CodePoint} {s : Str} (hc : isSurrogate c = false) (hs : Encodable s) : Encodable (c :: s) :=
  List.forall_mem_cons.mpr ⟨hc, hs⟩

omit [Interpreter] in
theorem encodable_nil : Encodable [] := fun _ h => nomatch h

theorem encodable_reprCodePoint {quote c : CodePoint} (hc : isSurrogate c = false) : Encodable (reprCodePoint quote c) := by
  have hbackslash : isSurrogate (cp '\\') = false := not_isSurrogate_cp _
  unfold reprCodePoint
  repeat' split
  · exact encodable_cons hbackslash (encodable_cons hc encodable_nil)
  · exact encodable_str _
  · exact encodable_str _
  · exact encodable_str _
  · exact (encodable_str _).append (encodable_hexText _ _)
  · exact encodable_cons hc encodable_nil
  · exact (encodable_str _).append (encodable_hexText _ _)
  · exact (encodable_str _).append (encodable_hexText _ _)
  · exact (encodable_str _).append (encodable_hexText _ _)

theorem encodable_strRepr {s : Str} (hs : Encodable s) : Encodable (strRepr s) := by
  have hquote : ∀ p : Prop, [Decidable p] → isSurrogate (if p then cp '"' else cp '\'') = false := by
    intro p _
    split <;> exact not_isSurrogate_cp _
  unfold strRepr
  refine (encodable_cons (hquote _) fun c hc => ?_).append (encodable_cons (hquote _) encodable_nil)
  obtain ⟨c', hc', hc⟩ := List.mem_flatMap.mp hc
  exact encodable_reprCodePoint (hs c' hc') c hc

omit [Interpreter] in
theorem encodable_commaSpaces {ss : List Str} (h : ∀ s ∈ ss, Encodable s) : Encodable (commaSpaces ss) := by
  induction ss with
  | nil => exact encodable_nil
  | cons s ss ih =>
    obtain ⟨hs, hss⟩ := List.forall_mem_cons.mp h
    cases ss with
    | nil => exact hs
    | cons t ss => exact (hs.append (encodable_str _)).append (ih hss)

omit [Interpreter] in
theorem not_isSurrogate_ascii {c : CodePoint} (h : c.val ≤ 0x7E) : isSurrogate c = false := by
  rw [← Bool.not_eq_true, Utf8.isSurrogate_iff]
  omega

omit [Interpreter] in
theorem encodable_printable {s : Str} (h : ∀ c ∈ s, 0x20 ≤ c.val ∧ c.val ≤ 0x7E) : Encodable s :=
  fun c hc => not_isSurrogate_ascii (h c hc).2

omit [Interpreter] in
theorem encodable_intText (i : Int) : Encodable (intText i) := by
  rw [← NumLit.ofInt_text]
  exact encodable_printable (spells_numLit_le (NumLit.ofInt_valid i))

theorem encodable_reprItems {d : Nat} {vs : List Json} {ss : List Str} (h : reprItems d vs = .ok ss)
    (hs : ∀ v ∈ vs, ∀ s, reprAt d v = .ok s → Encodable s) : ∀ s ∈ ss, Encodable s := by
  induction vs generalizing ss with
  | nil =>
    rw [reprItems] at h
    cases h
    exact fun _ h => absurd h List.not_mem_nil
  | cons v vs ih =>
    obtain ⟨hv, hvs⟩ := List.forall_mem_cons.mp hs
    rw [reprItems] at h
    cases hr : reprAt d v with
    | error e => rw [hr] at h; cases h
    | ok t =>
      cases hrs : reprItems d vs with
      | error e => rw [hr, hrs] at h; cases h
      | ok ts =>
        rw [hr, hrs] at h
        cases h
        exact List.forall_mem_cons.mpr ⟨hv t hr, ih hrs hvs⟩

theorem encodable_reprMembers {d : Nat} {ms : List (Str × Json)} {ss : List Str} (h : reprMembers d ms = .ok ss)
    (hs : ∀ m ∈ ms, Encodable m.1 ∧ ∀ s, reprAt d m.2 = .ok s → Encodable s) : ∀ s ∈ ss, Encodable s := by
  induction ms generalizing ss with
  | nil =>
    rw [reprMembers] at h
    cases h
    exact fun _ h => absurd h List.not_mem_nil
  | cons m ms ih =>
    obtain ⟨k, v⟩ := m
    obtain ⟨⟨hk, hv⟩, hms⟩ := List.forall_mem_cons.mp hs
    rw [reprMembers] at h
    cases hr : reprAt d v with
    | error e => rw [hr] at h; cases h
    | ok t =>
      cases hrs : reprMembers d ms with
      | error e => rw [hr, hrs] at h; cases h
      | ok ts =>
        rw [hr, hrs] at h
        cases h
        exact List.forall_mem_cons.mpr ⟨((encodable_strRepr hk).append (encodable_str _)).append (hv t hr), ih hrs hms⟩

theorem encodable_reprAt {v : Json} (h : Strings Encodable v) {d : Nat} {s : Str} (hs : reprAt d v = .ok s) :
    Encodable s := by
  have hbrackets : ∀ {o c : Char} {ss : List Str}, (∀ t ∈ ss, Encodable t) →
      Encodable (cp o :: commaSpaces ss ++ [cp c]) := fun hss =>
    (encodable_cons (not_isSurrogate_cp _) (encodable_commaSpaces hss)).append
      (encodable_cons (not_isSurrogate_cp _) encodable_nil)
  induction v using Json.ind generalizing d s with
  | null => rw [reprAt] at hs; cases hs; exact encodable_str _
  | bool b => rw [reprAt] at hs; cases hs; cases b <;> exact encodable_str _
  | int i =>
    rw [reprAt, intStr_eq_ok_iff] at hs
    rw [hs.2]
    exact encodable_intText i
  | float x =>
    rw [reprAt] at hs
    cases hs
    cases x with
    | nan => exact encodable_str _
    | inf neg => cases neg <;> exact encodable_str _
    | finite neg m e hc => exact encodable_printable (spells_numLit_le (Float64.readsBack_reprLit neg hc).1)
  | str t =>
    rw [reprAt] at hs
    cases hs
    exact encodable_strRepr h
  | arr vs ih =>
    cases d with
    | zero => rw [reprAt] at hs; cases hs
    | succ d =>
      rw [reprAt] at hs
      obtain ⟨ss, hss, rfl⟩ := map_eq_ok.mp hs
      exact hbrackets (encodable_reprItems hss fun v hv t ht => ih v hv (strings_arr.mp h v hv) ht)
  | obj ms ih =>
    cases d with
    | zero => rw [reprAt] at hs; cases hs
    | succ d =>
      rw [reprAt] at hs
      obtain ⟨ss, hss, rfl⟩ := map_eq_ok.mp hs
      exact hbrackets (encodable_reprMembers hss fun m hm =>
        ⟨(strings_obj.mp h m hm).1, fun t ht => ih m hm (strings_obj.mp h m hm).2 ht⟩)

/-- `str` of a value adds no surrogate to those of its strings. -/
theorem encodable_toStr {v : Json} (h : Strings Encodable v) {s : Str} (hs : v.toStr = .ok s) : Encodable s := by
  cases v with
  | str t =>
    obtain rfl : t = s := Except.ok.inj hs
    exact h
  | _ => exact encodable_reprAt h (show reprAt Interpreter.maxDepth _ = .ok s from hs)

omit [Interpreter] in
theorem strings_getJ {d : Dict Json} (h : Strings Encodable (.obj d)) (k : Str) : Strings Encodable (d.getJ k) := by
  unfold Dict.getJ
  cases hv : d.get? k with
  | none => exact trivial
  | some v => exact h.get? hv

theorem projects_of_strings {env : Dict Json} (h : Strings Encodable (.obj env)) : Projects env := by
  have hmeta : Strings Encodable (.obj (metaOf env)) := by
    unfold metaOf
    cases hv : env.getJ (str "meta") with
    | obj ms => exact hv ▸ strings_getJ h (str "meta")
    | _ => exact strings_obj.mpr fun _ h => nomatch h
  intro v hv s hs
  simp only [projectedValues, List.mem_cons, List.not_mem_nil, or_false] at hv
  rcases hv with rfl | rfl | rfl | rfl | rfl
  · exact encodable_toStr (strings_getJ h _) hs
  · exact encodable_toStr (strings_getJ h _) hs
  · exact encodable_toStr (strings_getJ hmeta _) hs
  · exact encodable_toStr (strings_getJ hmeta _) hs
  · exact encodable_toStr (strings_getJ hmeta _) hs

/-! ## The arguments for a text -/

/-- A header is written with the text of a value. -/
theorem header_isOk_iff {key : Str} {v : Json} (hv : ∃ s, v.toStr = .ok s) :
    (∃ hs : RecordHeaders, (do pure [(key, ← Utf8.encodeStrict (← v.toStr))]) = Except.ok hs) ↔
      ∀ s, v.toStr = .ok s → Encodable s := by
  obtain ⟨s, hs⟩ := hv
  rw [hs]
  simp only [Except.ok.injEq, forall_eq']
  rw [encodable_iff]
  exact isOk_bind_iff_isOk fun b _ => ⟨_, rfl⟩

theorem encodable_null {s : Str} (hs : Json.null.toStr = .ok s) : Encodable s := by
  cases hs
  exact encodable_str "None"

theorem projected_isOk_iff {key : Str} {v : Json} (hv : ∃ s, v.toStr = .ok s) :
    (∃ hs, projected key v = .ok hs) ↔ ∀ s, v.toStr = .ok s → Encodable s := by
  unfold projected
  split
  · exact iff_of_true ⟨_, rfl⟩ fun s hs => encodable_null hs
  · refine iff_of_true ⟨_, rfl⟩ fun s hs => ?_
    cases hs
    exact encodable_nil
  · exact header_isOk_iff hv

theorem projection_isOk_iff {body : Str} {env : Dict Json} (hl : loads body = .ok (.obj env)) :
    (∃ hs, projection body = .ok hs) ↔ Projects env := by
  have hs := storable_of_loads hl
  unfold projection
  rw [parseEnvelope_obj hl]
  refine isOk_bind_iff ⟨env, rfl⟩ fun e he => ?_
  obtain rfl := Except.ok.inj he
  unfold Projects
  by_cases hnil : env = []
  · rw [if_pos hnil, hnil]
    refine iff_of_true ⟨_, rfl⟩ fun v hv s hs => ?_
    have hnull : v = .null := by
      simp only [projectedValues, List.mem_cons, List.not_mem_nil, or_false] at hv
      rcases hv with rfl | rfl | rfl | rfl | rfl <;> rfl
    rw [hnull] at hs
    exact encodable_null hs
  rw [if_neg hnil]
  unfold projectedValues
  simp only [List.forall_mem_cons, List.not_mem_nil, false_implies, implies_true, and_true]
  refine (isOk_bind_iff_and fun job _ => ?_).trans (and_congr_left' (projected_isOk_iff (hs.toStr_isOk _)))
  refine (isOk_bind_iff_and fun traceId _ => ?_).trans (and_congr_left' (projected_isOk_iff (hs.toStr_isOk _)))
  refine (isOk_bind_iff_and fun messageId _ => ?_).trans (and_congr_left' (projected_isOk_iff (hs.inner_toStr_isOk _ _)))
  have hlang : ∀ version attempts : RecordHeaders, (∃ hs : RecordHeaders, (do
        let lang ← projected (str "bq-source-lang") ((metaOf env).getJ (str "lang"))
        pure (job ++ traceId ++ messageId ++ version ++ lang ++ attempts)) = Except.ok hs) ↔
      ∀ s, ((metaOf env).getJ (str "lang")).toStr = .ok s → Encodable s := fun version attempts =>
    (isOk_bind_iff_isOk fun lang _ => ⟨_, rfl⟩).trans (projected_isOk_iff (hs.inner_toStr_isOk _ _))
  split
  · next hv =>
    rw [hv, and_iff_right fun s hs => encodable_null hs]
    exact isOk_bind_iff ⟨[], rfl⟩ fun version _ => hlang version _
  · obtain ⟨text, ht⟩ := hs.inner_toStr_isOk (str "meta") (str "schema_version")
    have hversion : (∀ s, ((metaOf env).getJ (str "schema_version")).toStr = .ok s → Encodable s) ↔ Encodable text := by
      unfold metaOf
      rw [ht]
      simp only [Except.ok.injEq, forall_eq']
    rw [hversion, encodable_iff]
    refine isOk_bind_iff ⟨text, ht⟩ fun s hs => ?_
    obtain rfl := Except.ok.inj (ht.symm.trans hs)
    exact isOk_bind_iff_and fun bytes _ => isOk_bind_iff ⟨_, rfl⟩ fun version _ => hlang version _

theorem projection_isOk_iff_projected {body : Str} : (∃ hs, projection body = .ok hs) ↔ Projected body := by
  rcases body_cases body with hover | ⟨d, hl⟩ | ⟨hparse, -, hother⟩
  · refine iff_of_false ?_ fun h => h.1 hover
    rintro ⟨hs, h⟩
    obtain ⟨e, he⟩ := overdeep_iff.mp hover
    unfold projection at h
    rw [he] at h
    cases h
  · rw [projection_isOk_iff hl]
    unfold Projected
    rw [hl]
    simp only [Except.ok.injEq, Json.obj.injEq, forall_eq']
    refine (and_iff_right ?_).symm
    rintro ⟨e, he, -⟩
    rw [hl] at he
    cases he
  · refine iff_of_true ⟨[], ?_⟩ ⟨?_, fun env hl => absurd hl (hother env)⟩
    · unfold projection
      rw [hparse]
      rfl
    · rw [overdeep_iff]
      rintro ⟨e, he⟩
      rw [hparse] at he
      cases he

omit [Interpreter] in
theorem encodeEscape_isOk (body : Str) : ∃ value, Utf8.encodeEscape (cleaned body) = .ok value := by
  unfold Utf8.encodeEscape
  rw [if_neg]
  · exact ⟨_, rfl⟩
  · rw [List.any_eq_true]
    rintro ⟨c, hc, hs⟩
    obtain ⟨c', -, rfl⟩ := List.mem_map.mp hc
    by_cases h : (isSurrogate c' && !Utf8.isEscapedByte c') = true
    · rw [if_pos h] at hs
      exact absurd hs (by decide)
    · rw [if_neg h] at hs
      exact h hs

/-- The arguments of a write: a text with a UTF-8 form has to be projected, and another one is written only
where the raw form is. -/
theorem recordArgs_isOk_iff {body : Str} {rawOk : Bool} :
    (∃ args, recordArgs body rawOk = .ok args) ↔ if rawOk = true then Settleable body else Encodable body ∧ Projected body := by
  have hencoded : Encodable body → ((∃ args, recordArgs body rawOk = .ok args) ↔ Projected body) := by
    intro h
    obtain ⟨value, hv⟩ := encodable_iff.mp h
    have hparse : ∀ headers, projection body = .ok headers → ∃ env, parseEnvelope body = .ok env := by
      intro headers hh
      unfold projection at hh
      obtain ⟨env, he, -⟩ := bind_eq_ok.mp hh
      exact ⟨env, he⟩
    unfold recordArgs
    rw [hv, ← projection_isOk_iff_projected]
    refine isOk_bind_iff_isOk fun headers hh => ?_
    exact isOk_bind (hparse headers hh) fun env => ⟨_, rfl⟩
  by_cases h : Encodable body
  · rw [hencoded h]
    cases rawOk with
    | true => exact ⟨fun hp _ => hp, fun hs => hs h⟩
    | false => exact (and_iff_right h).symm
  · have hv : ∃ e, Utf8.encodeStrict body = .error e := by
      cases hv : Utf8.encodeStrict body with
      | ok value => exact absurd (encodable_iff.mpr ⟨value, hv⟩) h
      | error e => exact ⟨e, rfl⟩
    obtain ⟨e, hv⟩ := hv
    unfold recordArgs
    rw [hv]
    cases rawOk with
    | true =>
      refine iff_of_true ?_ fun h' => absurd h' h
      obtain ⟨value, hvalue⟩ := encodeEscape_isOk body
      simp only [hvalue]
      exact ⟨_, rfl⟩
    | false => exact iff_of_false (fun ⟨_, h'⟩ => nomatch h') fun h' => h h'.1

/-! ## Headers beside a body -/

omit [Interpreter] in
theorem mem_outOfBandFrom {out : Dict Str} {headers : Headers} {h : Str × Str} (hm : h ∈ outOfBandFrom out headers) :
    h ∈ out ∨ ∃ key value, (key, some value) ∈ headers ∧ value.decode = h.2 := by
  induction headers generalizing out with
  | nil => exact .inl hm
  | cons header headers ih =>
    obtain ⟨key, value⟩ := header
    have hrest : (h ∈ out ∨ ∃ key value, (key, some value) ∈ headers ∧ value.decode = h.2) →
        h ∈ out ∨ ∃ key' value', (key', some value') ∈ (key, value) :: headers ∧ value'.decode = h.2 :=
      Or.imp_right fun ⟨k, v, hm, he⟩ => ⟨k, v, List.mem_cons_of_mem _ hm, he⟩
    rw [outOfBandFrom] at hm
    split at hm
    · next c text hv =>
      obtain ⟨value, rfl, hv⟩ := Option.map_eq_some_iff.mp hv
      split at hm
      · exact hrest (ih hm)
      · rcases ih hm with hm | hm
        · rcases List.mem_append.mp hm with hm | hm
          · exact .inl hm
          · obtain rfl := List.mem_singleton.mp hm
            exact .inr ⟨key, value, List.mem_cons_self, Option.some.inj hv⟩
        · exact hrest (.inr hm)
    · exact hrest (ih hm)

omit [Interpreter] in
/-- The headers of a record, which the client gives as bytes, are surfaced as text with a UTF-8 form. -/
theorem encodable_outOfBandHeaders {headers : Headers} (h : BytesHeaders headers) :
    EncodableHeaders (outOfBandHeaders headers) := by
  intro header hm
  rcases mem_outOfBandFrom hm with hm | ⟨key, value, hm, hv⟩
  · cases hm
  · obtain ⟨b, rfl⟩ := h _ hm value rfl
    rw [← hv]
    exact fun c hc => Utf8.not_isSurrogate_of_decodeReplace hc

omit [Interpreter] in
theorem withExtraHeaders_isOk {headers : RecordHeaders} {extra : Dict Str} (h : EncodableHeaders extra) :
    ∃ written, withExtraHeaders headers extra = .ok written := by
  refine isOk_bind (mapM_isOk_iff.mpr fun header hm => ?_) fun added => ⟨_, rfl⟩
  obtain ⟨hm, -⟩ := List.mem_filter.mp hm
  have hencodable : Encodable header.2 := by
    rcases mem_outOfBandFrom hm with hm | ⟨key, value, hm, hv⟩
    · cases hm
    · obtain ⟨x, hx, he⟩ := List.mem_map.mp hm
      obtain rfl := Option.some.inj (Prod.mk.inj he).2
      rw [← hv]
      exact h x hx
  obtain ⟨bytes, hb⟩ := encodable_iff.mp hencodable
  exact ⟨(header.1, bytes), by obtain ⟨name, value⟩ := header; exact bind_eq_ok.mpr ⟨bytes, hb, rfl⟩⟩

/-! ## `publish_settle` -/

/-- The body that `publish_settle` writes. -/
def settledBody (queue body : Str) (route : RouteUrn) (now : Int) : Except PyExc Str :=
  match route with
  | .poison p => if queue ≠ p.queue then poisonBody body p.cause p.originalQueue p.attempts now else .ok body
  | .plain _ => .ok body

theorem settleArgs_isOk {queue body : Str} {route : RouteUrn} {key : Option Bytes} {now : Int} :
    (∃ args, settleArgs queue body route key [] now = .ok args) ↔
      ∃ text, settledBody queue body route now = .ok text ∧ Settleable text := by
  have hwrite : ∀ text, (∃ args, (do
        let args ← recordArgs text true
        let written ← if ([] : Dict Str) = [] then pure args.headers else withExtraHeaders args.headers []
        pure { args with headers := written, key := key }) = Except.ok args) ↔ Settleable text := by
    intro text
    refine (isOk_bind_iff_isOk fun args _ => ?_).trans (by rw [recordArgs_isOk_iff, if_pos rfl])
    rw [if_pos rfl]
    exact ⟨_, rfl⟩
  unfold settleArgs settledBody
  cases route with
  | plain route => exact (hwrite body).trans (by simp)
  | poison p =>
    dsimp only
    split
    · cases hp : poisonBody body p.cause p.originalQueue p.attempts now with
      | error e => exact iff_of_false (fun ⟨_, h⟩ => by cases h) fun ⟨_, h, _⟩ => by cases h
      | ok text => exact (hwrite text).trans (by simp)
    · exact (hwrite body).trans (by simp)

/-- A body that is written as it is given. -/
theorem settleArgs_isOk_iff {queue body : Str} {route : RouteUrn} {key : Option Bytes} {now : Int}
    (hroute : ∀ p, route = .poison p → queue = p.queue) :
    (∃ args, settleArgs queue body route key [] now = .ok args) ↔ Settleable body := by
  have hbody : settledBody queue body route now = .ok body := by
    cases route with
    | plain route => rfl
    | poison p => exact if_neg (not_not.mpr (hroute p rfl))
  rw [settleArgs_isOk, hbody]
  simp

/-- A text that `encode` writes has a UTF-8 form where every string of the envelope has one. -/
theorem encodable_encode {envelope : Dict Json} {body : Str} (h : encode envelope = .ok body) :
    Encodable body ↔ Strings Encodable (.obj envelope) := by
  rw [encode_of_clean (clean_of_encode h)] at h
  exact forall_mem_dumps (fun _ => not_isSurrogate_ascii) h

/-- Such a text is projected then. -/
theorem projected_encode {envelope : Dict Json} {body : Str} (hp : Json.Proper (.obj envelope))
    (h : encode envelope = .ok body) (hs : Strings Encodable (.obj envelope)) : Projected body := by
  have hl := loads_encode hp h
  refine ⟨?_, fun env he => ?_⟩
  · rintro ⟨e, he, -⟩
    rw [hl] at he
    cases he
  · obtain rfl : envelope = env := Json.obj.inj (Except.ok.inj (hl.symm.trans he))
    exact projects_of_strings hs

/-- What `encode` writes can be settled. -/
theorem settleable_encode {envelope : Dict Json} {body : Str} (hp : Json.Proper (.obj envelope))
    (h : encode envelope = .ok body) : Settleable body :=
  fun hb => projected_encode hp h ((encodable_encode h).mp hb)

/-! ## Poison records -/

omit [Interpreter] in
theorem projectedValues_congr {env env' : Dict Json} (hjob : env'.getJ (str "job") = env.getJ (str "job"))
    (htrace : env'.getJ (str "trace_id") = env.getJ (str "trace_id")) (hmeta : env'.getJ (str "meta") = env.getJ (str "meta")) :
    projectedValues env' = projectedValues env := by
  unfold projectedValues metaOf
  rw [hjob, htrace, hmeta]

theorem projects_set {d : Dict Json} {v : Json} : Projects (d.set (str "dead_letter") v) ↔ Projects d := by
  have hkeep : ∀ key, key ≠ str "dead_letter" → (d.set (str "dead_letter") v).getJ key = d.getJ key := by
    intro key hk
    rw [Dict.getJ, Dict.getJ, Dict.get?_set_of_ne _ _ hk]
  unfold Projects
  rw [projectedValues_congr (hkeep _ (by simp)) (hkeep _ (by simp)) (hkeep _ (by simp))]

/-- A wrap has nothing to project. -/
theorem projects_wrap {text : Str} (h : splicedMembers text = none) : Projects (recordMembers text) := by
  have hnone : ∀ key, key ≠ str "raw" → key ≠ str "raw_encoding" → (recordMembers text).getJ key = Dict.getJ [] key := by
    intro key hraw hencoding
    rw [Dict.getJ, get?_recordMembers h hraw hencoding]
    rfl
  intro v hv s hs
  rw [projectedValues_congr (hnone _ (by simp) (by simp)) (hnone _ (by simp) (by simp)) (hnone _ (by simp) (by simp))] at hv
  have hnull : v = .null := by
    simp only [projectedValues, List.mem_cons, List.not_mem_nil, or_false] at hv
    rcases hv with rfl | rfl | rfl | rfl | rfl <;> rfl
  rw [hnull] at hs
  exact encodable_null hs

omit [Interpreter] in
/-- The block is part of its record. -/
theorem encodable_block {b : Bytes} {ms : List (Str × Tree)} {block record : Str} (h : Keeps b block ms record)
    (hr : Encodable record) : Encodable block := by
  intro c hc
  apply hr
  cases h with
  | spliced => simp [hc]
  | empty => simp [hc]
  | text => simp [wrapText, hc]
  | bytes => simp [wrapBytes, hc]

omit [Interpreter] in
theorem strings_block {b : DeadLetterBlock} (hreason : Encodable b.reason) (hexc : b.exception.elim True Encodable)
    (hlang : Encodable b.lang) :
    Strings Encodable (.obj b.toDict) ↔ b.error.elim True Encodable ∧ Encodable b.originalQueue := by
  have hopt : ∀ o : Option Str, Strings Encodable (optStr o) ↔ o.elim True Encodable := by
    rintro (_ | s) <;> exact Iff.rfl
  have hstr : ∀ s : Str, Strings Encodable (.str s) ↔ Encodable s := fun _ => Iff.rfl
  have hint : ∀ i : Int, Strings Encodable (.int i) := fun _ => trivial
  rw [strings_obj]
  simp only [DeadLetterBlock.toDict, List.forall_mem_cons, List.not_mem_nil, false_implies, implies_true, and_true,
    encodable_str, true_and, hopt, hstr, hint, hreason, hexc, hlang]

/-- A poison record is written, unless it has a UTF-8 form and a projected value has none. -/
theorem settleArgs_poison_iff {b : Bytes} {queue : Str} {p : PoisonRoute} {key : Option Bytes} {now : Int}
    (hq : queue ≠ p.queue) (hnow : now.natAbs < 10 ^ maxStrDigits) (ha : p.attempts.natAbs < 10 ^ maxStrDigits) :
    (∃ args, settleArgs queue (Utf8.decodeEscape b) (.poison p) key [] now = .ok args) ↔
      Wrappable (Utf8.decodeEscape b) p := by
  let block : DeadLetterBlock := ⟨str "poison", some (str "Undecodable BabelQueue body: " ++ p.cause),
    some babelQueueError.name, now, p.originalQueue, p.attempts, sourceLang⟩
  obtain ⟨record, hrecord⟩ := buildPoisonRecord_isOk.mpr (⟨hnow, ha⟩ : block.failedAt.natAbs < _ ∧ block.attempts.natAbs < _)
  have hbody : settledBody queue (Utf8.decodeEscape b) (.poison p) now = .ok record := (if_pos hq).trans hrecord
  have hl := loads_poisonRecord hrecord
  obtain ⟨-, hwell⟩ := poisonRecord_lossless b block.toDict block.toDict_proper
  obtain ⟨ms, blockText, hblock, hkeeps, -, -, -, henc⟩ := (hwell record hrecord).object
  -- the record has a UTF-8 form exactly where the cause and the queue have one
  have hrec : Encodable record ↔ Encodable p.cause ∧ Encodable p.originalQueue := by
    have htext : Encodable blockText ↔ Strings Encodable (.obj block.toDict) :=
      forall_mem_dumpsAt (fun _ => not_isSurrogate_ascii) (dumpsAt_allowNan hblock)
    have herror : Encodable (str "Undecodable BabelQueue body: " ++ p.cause) ↔ Encodable p.cause :=
      ⟨fun h c hc => h c (List.mem_append_right _ hc), fun h => (encodable_str _).append h⟩
    rw [← herror]
    refine Iff.trans ⟨encodable_block hkeeps, henc⟩ (htext.trans ?_)
    exact strings_block (encodable_str _) (encodable_str _) (encodable_str _)
  have hproj : Projected record ↔ Spliced Projects (Utf8.decodeEscape b) := by
    rw [← spliced_iff (str "dead_letter") (.obj block.toDict) (fun d => projects_set) projects_wrap]
    unfold Projected
    rw [hl]
    simp only [Except.ok.injEq, Json.obj.injEq, forall_eq']
    refine and_iff_right ?_
    rintro ⟨e, he, -⟩
    rw [hl] at he
    cases he
  rw [settleArgs_isOk, hbody]
  simp only [Except.ok.injEq, exists_eq_left']
  unfold Settleable Wrappable
  rw [← hproj, hrec, and_imp]

/-! ## `redeliver` -/

theorem tierRecord_isOk_iff {workTopic body : Str} {n : Nat} {delayMs attempts : Int} (hq : Encodable workTopic)
    (hd : delayMs.natAbs < 10 ^ maxStrDigits) :
    (∃ r, tierRecord workTopic body n delayMs (some attempts) = .ok r) ↔
      (Encodable body ∧ Projected body) ∧ attempts.natAbs < 10 ^ maxStrDigits := by
  obtain ⟨original, ho⟩ := encodable_iff.mp hq
  have hint : ∀ {n : Int}, n.natAbs < 10 ^ maxStrDigits → ∃ text bytes, intStr n = .ok text ∧ Utf8.encodeStrict text = .ok bytes := by
    intro n hn
    obtain ⟨bytes, hb⟩ := encodable_iff.mp (encodable_intText n)
    exact ⟨_, bytes, intStr_eq_ok_iff.mpr ⟨hn, rfl⟩, hb⟩
  obtain ⟨delayText, delay, hdt, hdb⟩ := hint hd
  unfold tierRecord
  refine (isOk_bind_iff_and fun args _ => ?_).trans (and_congr_left' (recordArgs_isOk_iff.trans (by rw [if_neg Bool.false_ne_true])))
  dsimp only
  constructor
  · rintro ⟨r, h⟩
    obtain ⟨text, ht, -⟩ := bind_eq_ok.mp h
    exact (intStr_eq_ok_iff.mp ht).1
  · intro ha
    obtain ⟨text, bytes, ht, hb⟩ := hint ha
    exact ⟨_, bind_eq_ok.mpr ⟨text, ht, bind_eq_ok.mpr ⟨bytes, hb, bind_eq_ok.mpr ⟨_, rfl, bind_eq_ok.mpr ⟨delayText, hdt,
      bind_eq_ok.mpr ⟨delay, hdb, bind_eq_ok.mpr ⟨original, ho, rfl⟩⟩⟩⟩⟩⟩⟩

/-- The body that `redeliver` writes has a UTF-8 form and is projected. -/
theorem withAttempts_isOk_iff {body : Str} {envelope : Dict Json} (hdec : decodeLenient body = .ok envelope) {n : Int}
    (hn : n.natAbs < 10 ^ maxStrDigits) :
    (∃ text, withAttempts body n = .ok text ∧ Encodable text ∧ Projected text) ↔
      if envelope = [] ∨ (runtimeAttempts envelope = .ok n ∧ (envelope.getJ (str "attempts")).isNone = false) then
        Encodable body ∧ Projected body
      else Strings Encodable (.obj (envelope.set (str "attempts") (.int n))) := by
  unfold withAttempts
  rw [hdec]
  simp only [bind, Except.bind, pure, Except.pure]
  by_cases hnil : envelope = []
  · rw [if_pos hnil, if_pos (.inl hnil)]
    simp
  rw [if_neg hnil]
  by_cases hsame : runtimeAttempts envelope = .ok n ∧ (envelope.getJ (str "attempts")).isNone = false
  · rw [if_pos hsame, if_pos (.inr hsame)]
    simp
  rw [if_neg hsame, if_neg (not_or.mpr ⟨hnil, hsame⟩)]
  obtain ⟨d, hl⟩ : ∃ d, loads body = .ok (.obj d) := by
    rcases body_cases body with hover | hobj | ⟨-, hother, -⟩
    · obtain ⟨e, he⟩ := decodeLenient_error_iff.mpr hover
      rw [hdec] at he
      cases he
    · exact hobj
    · rw [hdec] at hother
      exact absurd (Except.ok.inj hother) hnil
  rw [decodeLenient_obj hl] at hdec
  obtain rfl := Except.ok.inj hdec
  have hs := storable_foldIdentity (storable_of_loads hl)
  have hproper := hs.proper.set (str "attempts") (v := .int n) trivial
  obtain ⟨text, htext⟩ := (encode_attempts_isOk_iff (clean_foldIdentity d) hs).mpr hn
  rw [htext]
  simp only [Except.ok.injEq, exists_eq_left']
  rw [encodable_encode htext]
  exact and_iff_left_of_imp (projected_encode hproper htext)

/-- A record is parked, unless the body that is written for it has no UTF-8 form or is not projected. -/
theorem redeliverArgs_isOk_iff {tiers : Tiers} (htiers : tiers.ms ≠ [])
    (hms : ∀ tier ∈ tiers.ms, tier.natAbs < 10 ^ maxStrDigits) {m : ReceivedMessage Message} (hq : Encodable m.queue)
    (hh : EncodableHeaders m.headers) {body : Str} :
    (∃ r, redeliverArgs tiers m body = .ok r) ↔ Parkable m body := by
  constructor
  · rintro ⟨⟨topic, args⟩, h⟩
    obtain ⟨before, n, tierMs, text, record, headers, hbefore, -, hn, htext, hrecord, -, -⟩ := redeliverArgs_spec h
    obtain ⟨hwritten, hdigits⟩ := (tierRecord_isOk_iff hq (hms tierMs (List.mem_of_getElem? hn))).mp ⟨_, hrecord⟩
    obtain ⟨envelope, hdec, -⟩ := withAttempts_ok htext
    exact ⟨before, envelope, hbefore, hdec, hdigits, (withAttempts_isOk_iff hdec hdigits).mp ⟨text, htext, hwritten⟩⟩
  · rintro ⟨before, envelope, hbefore, hdec, hdigits, hbody⟩
    obtain ⟨text, htext, hwritten⟩ := (withAttempts_isOk_iff hdec hdigits).mpr hbody
    obtain ⟨first, rest, hcons⟩ := List.exists_cons_of_ne_nil htiers
    have hlen : min before.toNat rest.length < (first :: rest).length := by
      rw [List.length_cons]
      omega
    have hmem : (first :: rest).getD (min before.toNat rest.length) first ∈ tiers.ms := by
      rw [hcons, List.getD_eq_getElem?_getD, List.getElem?_eq_getElem hlen]
      exact List.getElem_mem hlen
    obtain ⟨⟨topic, args⟩, hrecord⟩ := (tierRecord_isOk_iff (n := min before.toNat rest.length + 1) hq
      (hms _ hmem)).mpr ⟨hwritten, hdigits⟩
    have hkept : EncodableHeaders (m.headers.filter fun h => h.1 ∈ traceContextHeaderKeys) :=
      fun h hm => hh h (List.mem_filter.mp hm).1
    obtain ⟨headers, hheaders⟩ : ∃ headers, withExtraHeaders args.headers _ = .ok headers := withExtraHeaders_isOk hkept
    unfold redeliverArgs
    rw [hcons]
    exact ⟨_, bind_eq_ok.mpr ⟨before, hbefore, bind_eq_ok.mpr ⟨text, htext, bind_eq_ok.mpr ⟨(topic, args), hrecord,
      bind_eq_ok.mpr ⟨headers, hheaders, rfl⟩⟩⟩⟩⟩

/-! ## Every settle write -/

theorem headerAttempts_lt (headers : Headers) : (headerAttempts headers).natAbs < 10 ^ maxStrDigits := by
  have hpos : (0 : Int).natAbs < 10 ^ maxStrDigits := Nat.pow_pos (by decide)
  unfold headerAttempts
  split
  · exact hpos
  · split
    · next n hn =>
      have := natAbs_intOfStr_lt hn
      omega
    · exact hpos

/-- What the delivery of a record keeps of it. -/
theorem received_fields {queue : Str} {record : Message} {m : ReceivedMessage Message} (h : received queue record = .ok m) :
    m.queue = queue ∧ m.key = record.key ∧ (m.headers = [] ∨ m.headers = outOfBandHeaders record.headers) ∧
      ∀ p, m.routeUrn = .poison p → m.body = record.payload ∧ p.queue = queue ∧ p.attempts = headerAttempts record.headers := by
  unfold received at h
  split at h
  · obtain ⟨quoted, -, h⟩ := bind_eq_ok.mp h
    cases h
    exact ⟨rfl, rfl, .inl rfl, fun _ h => nomatch h⟩
  · split at h
    · cases h
      refine ⟨rfl, rfl, .inl rfl, fun p hp => ?_⟩
      cases hp
      exact ⟨rfl, rfl, rfl⟩
    · cases h
      exact ⟨rfl, rfl, .inr rfl, fun _ h => nomatch h⟩

/-- Which settle writes of a record can be built. -/
theorem settle_writes_iff {queue : Str} {record : Message} {m : ReceivedMessage Message}
    (h : received queue record = .ok m) (hh : BytesHeaders record.headers) (hq : Encodable queue) {now : Int}
    (hnow : now.natAbs < 2 ^ 63) :
    (∀ target body, (∀ p, m.routeUrn = .poison p → target = queue) →
      ((∃ args, settleArgs target body m.routeUrn m.key [] now = .ok args) ↔ Settleable body)) ∧
    (∀ envelope body, Json.Proper (.obj envelope) → encode envelope = .ok body → Settleable body) ∧
    (∀ target p, m.routeUrn = .poison p → target ≠ queue →
      ((∃ args, settleArgs target m.body m.routeUrn m.key [] now = .ok args) ↔ Wrappable m.body p)) ∧
    ∀ tiers : Tiers, tiers.ms ≠ [] → (∀ tier ∈ tiers.ms, tier.natAbs < 10 ^ maxStrDigits) → ∀ body,
      ((∃ r, redeliverArgs tiers m body = .ok r) ↔ Parkable m body) := by
  obtain ⟨hqueue, -, hheaders, hpoison⟩ := received_fields h
  refine ⟨fun target body ht => ?_, fun envelope body hp hb => settleable_encode hp hb, fun target p hp ht => ?_,
    fun tiers htiers hms body => ?_⟩
  · refine settleArgs_isOk_iff fun p hp => ?_
    rw [(hpoison p hp).2.1]
    exact ht p hp
  · obtain ⟨hbody, hpq, hattempts⟩ := hpoison p hp
    obtain ⟨b, hb⟩ : ∃ b, m.body = Utf8.decodeEscape b := by
      rw [hbody]
      unfold Message.payload
      cases record.value with
      | none => exact ⟨[], rfl⟩
      | some b => exact ⟨b, rfl⟩
    rw [hp, hb]
    have hnow : now.natAbs < 10 ^ maxStrDigits := hnow.trans_le (two_pow_le_ten_pow (by decide))
    exact settleArgs_poison_iff (hpq ▸ ht) hnow (hattempts ▸ headerAttempts_lt record.headers)
  · refine redeliverArgs_isOk_iff htiers hms (hqueue ▸ hq) ?_
    rcases hheaders with hheaders | hheaders
    · rw [hheaders]
      exact fun _ h => absurd h List.not_mem_nil
    · rw [hheaders]
      exact encodable_outOfBandHeaders hh

end Interpreter

section CPython

attribute [local instance] cpython

/-- A body whose `job` is an escaped surrogate. -/
def surrogateJob : Str := str "\x7b\"job\":\"\\ud800\"\x7d"

/-- A record of a later schema version with that body. -/
def laterSurrogate : Message where
  place := ⟨str "orders", 0⟩
  offset := 0
  value := some (Utf8.encodePass surrogateJob)
  key := none
  headers := [(.text (str "bq-schema-version"), some (.bytes [0x32]))]
  timestamp := none

theorem loads_surrogateJob : loads surrogateJob = .ok (.obj [(str "job", .str [0xD800])]) := by
  have hs : SpellsMembers [(str "job", .str [0xD800])] (strText (str "job") ++ cp ':' :: str "\"\\ud800\"") := by
    rw [SpellsMembers]
    refine Member.of (spellsStr_strText _) ?_
    rw [Spells]
    exact ⟨[unicodePiece 0xD800], by simpa using unicodePiece_valid _, by decide +kernel, by decide +kernel⟩
  have hobj : Spells (.obj [(str "job", .str [0xD800])]) surrogateJob := by
    rw [Spells]
    exact ⟨_, by decide +kernel, .inr hs⟩
  obtain ⟨n, hn⟩ := maxDepth_succ
  exact loads_of_spells (Padded.of hobj) (fits_obj.mpr ⟨n + 1, hn, by simp [Fits, Tree.depth, Tree.All, Hooks.Accepts]⟩)

/-- The dead-letter write of that record cannot be built. -/
theorem later_surrogate_unwritable :
    ¬ ∃ args, settleArgs (str "orders.dlq") surrogateJob
      (.plain (unsupportedSchemaRoutePrefix ++ str "2")) none [] 0 = .ok args := by
  have hm : received (str "orders") laterSurrogate =
      .ok ⟨laterSurrogate.payload, str "orders", laterSurrogate, [], .plain (unsupportedSchemaRoutePrefix ++ str "2"), none, 0⟩ := by
    unfold received
    rw [show (unsupportedSchemaVersion laterSurrogate.headers).map truncateDeclaredVersion = some (str "2") by decide +kernel]
    dsimp only
    rw [show quote (str "2") = .ok (str "2") by decide +kernel]
    rfl
  have hbytes : BytesHeaders laterSurrogate.headers := by
    intro h hh value hv
    obtain rfl := List.mem_singleton.mp hh
    exact ⟨_, (Option.some.inj hv).symm⟩
  obtain ⟨hplain, -⟩ := settle_writes_iff hm hbytes (encodable_str "orders") (show (0 : Int).natAbs < 2 ^ 63 by decide)
  have henc : Encodable surrogateJob := by
    unfold surrogateJob
    exact encodable_str _
  rintro ⟨args, hargs⟩
  have hs : Settleable surrogateJob := (hplain (str "orders.dlq") surrogateJob fun p hp => by cases hp).mp ⟨args, hargs⟩
  have hproj := (hs henc).2 _ loads_surrogateJob (.str [0xD800]) List.mem_cons_self _ rfl 0xD800 List.mem_cons_self
  exact absurd hproj (by decide +kernel)

end CPython

end BabelQueue.Kafka
