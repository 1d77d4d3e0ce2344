import BabelQueue.Otel
import BabelQueue.PoisonRecord.Lossless
import BabelQueue.PoisonVerdict
import BabelQueue.Pulsar
import BabelQueue.Py.Float.Order
import BabelQueue.Py.Json.Points

/-!
# What the producer writes (`EnvelopeCodec.make`)

* `make`: the envelope of a URN and its data.
* `Portable`: the texts and numbers that the strict decode takes.
* `made_decodes`: what is written for a made envelope is read as that envelope, which a consumer
  accepts. It is no poison exactly when its parts are `Portable`: `encode` checks no value.
-/

namespace BabelQueue

open Py Py.Json

/-- A `dict` of JSON values. -/
structure JsonDict where
  members : Dict Json
  proper : Json.Proper (.obj members)

/-- What `make` takes from the machine: the numbers of two random UUIDs, and the clock in milliseconds. -/
structure Minted where
  traceId : Int
  messageId : Int
  now : { t : Int // t.natAbs < 2 ^ 63 }

/-- `CORE_META_KEYS` -/
def coreMetaKeys : List Str := metaKinds.keys

/-- `forbidden_meta` -/
def forbiddenMetaKeys : List Str :=
  (forbiddenKeys.filter fun k => k.1 = some (str "meta")).map Prod.snd

def noUrnMsg : Str :=
  str "A polyglot message must expose a stable, non-empty URN so consumers can identify it without any class name."

/-- The `extra` of `make`. -/
def extraMeta (producerMeta : Dict Json) : Except PyExc (Dict Json) :=
  match producerMeta.keys.find? fun key => key ∈ coreMetaKeys ∨ key ∈ forbiddenMetaKeys with
  | some key => .error ⟨envelopeKeyError, str "The producer meta key /meta/" ++ key ++
      str " is reserved or forbidden (core meta keys and message-envelope.md §10 keys cannot be set)."⟩
  | none => .ok producerMeta

/-- The `meta` block before the entries of the producer. -/
def coreMeta (queue : Str) (minted : Minted) : Dict Json :=
  [(str "id", .str (Otel.uuidOf minted.messageId)), (str "queue", .str queue), (str "lang", .str sourceLang),
    (str "schema_version", .int Kafka.schemaVersion), (str "created_at", .int minted.now)]

/-- The entries of the producer; without `meta`, none. -/
def producerEntries (producerMeta : Option JsonDict) : Dict Json := (producerMeta.map JsonDict.members).getD []

/-- The trace id of a made envelope. -/
def tracedBy (traceId : Option Str) (minted : Minted) : Str :=
  let given := strip asciiWhitespace (traceId.getD [])
  if given = [] then Otel.uuidOf minted.traceId else given

/-- `EnvelopeCodec.make` -/
def make (urn : Str) (data : JsonDict) (queue : Str) (traceId : Option Str) (producerMeta : Option JsonDict)
    (minted : Minted) : Except PyExc (Dict Json) :=
  if strip asciiWhitespace urn = [] then .error ⟨babelQueueError, noUrnMsg⟩ else do
    let extra ← extraMeta (producerEntries producerMeta)
    -- `meta_block.update(extra)`
    let metaBlock := extra.foldl (fun block p => block.set p.1 p.2) (coreMeta queue minted)
    pure [(str "job", .str (strip asciiWhitespace urn)), (str "trace_id", .str (tracedBy traceId minted)),
      (str "data", .obj data.members), (str "meta", .obj metaBlock), (str "attempts", .int 0)]

/-! ## What a reader asks for -/

/-- No code point of the text stands for a byte that is not UTF-8. -/
def PlainText (s : Str) : Prop := ∀ c ∈ s, ¬ (0xDC80 ≤ c.val ∧ c.val ≤ 0xDCFF)

/-- Every number is finite but for integers. -/
def FiniteFloats (v : Json) : Prop := v.All fun v => ∀ x, v = .float x → x.isFinite = true

/-- Every integer in the value is rounded to a finite double. -/
def IntegersInRange (v : Json) : Prop := v.All fun v => ∀ i, v = .int i → Float64.InRange i

/-- The parts of an envelope that the strict decode takes. -/
structure Portable (urn : Str) (data : JsonDict) (queue : Str) (traceId : Option Str) (producerMeta : Option JsonDict) :
    Prop where
  urn : PlainText urn
  queue : PlainText queue
  trace_id : PlainText (traceId.getD [])
  texts : Strings PlainText (.obj data.members)
  metaTexts : Strings PlainText (.obj (producerEntries producerMeta))
  floats : FiniteFloats (.obj data.members)
  metaFloats : FiniteFloats (.obj (producerEntries producerMeta))
  integers : IntegersInRange (.obj data.members)

/-! ## Values and their trees -/

theorem hasInvalidUtf8_iff {s : Str} : hasInvalidUtf8 s = false ↔ PlainText s := by
  simp [hasInvalidUtf8, PlainText]

theorem noConstant_toTree {v : Json} : NoConstant (toTree v) ↔ FiniteFloats v := by
  refine all_toTree.trans (all_congr fun w => ?_)
  cases w with
  | float x => cases x <;> simp [toTree, Float64.isFinite]
  | _ => simp [toTree]

theorem isFinite_ofInt (i : Int) : (NumLit.ofInt i).toFloat.isFinite = true ↔ Float64.InRange i := by
  rw [← Float64.ofInt_ok_iff, NumLit.toFloat_of_int (NumLit.ofInt_isFloat i), NumLit.ofInt_toInt,
    Float64.ofRatio_isFinite _ (decide (i < 0)), ← Float64.ofInt_isFinite i _ rfl]
  rcases Float64.ofInt_eq i with ⟨m, e, h, hx, -⟩ | ⟨⟨err, he⟩, -⟩
  · rw [hx]
    simp [Except.toOption, Float64.isFinite]
  · rw [he]
    simp [Except.toOption]

theorem numbersFinite_toTree {v : Json} : NumbersFinite (toTree v) ↔ FiniteFloats v ∧ IntegersInRange v := by
  refine (all_toTree.trans (all_congr fun w => ?_)).trans all_and
  cases w with
  | int i => simpa [toTree] using isFinite_ofInt i
  | float x =>
    cases x with
    | finite neg m e h =>
      simp only [toTree, (Float64.readsBack_reprLit neg h).2.2]
      simp [Float64.isFinite]
    | _ => simp [toTree, Float64.isFinite]
  | _ => simp [toTree]

/-! ## The made envelope -/

/-- The envelope that `make` returns when it does not raise. -/
def madeEnvelope (urn : Str) (data : JsonDict) (queue : Str) (traceId : Option Str) (producerMeta : Option JsonDict)
    (minted : Minted) : Dict Json :=
  [(str "job", .str (strip asciiWhitespace urn)), (str "trace_id", .str (tracedBy traceId minted)),
    (str "data", .obj data.members), (str "meta", .obj (coreMeta queue minted ++ producerEntries producerMeta)),
    (str "attempts", .int 0)]

theorem producerEntries_proper (producerMeta : Option JsonDict) : Json.Proper (.obj (producerEntries producerMeta)) := by
  cases producerMeta with
  | none => exact proper_obj.mpr ⟨List.nodup_nil, by simp [producerEntries]⟩
  | some m => exact m.proper

theorem keys_coreMeta (queue : Str) (minted : Minted) : (coreMeta queue minted).keys = coreMetaKeys := by
  simp [coreMeta, coreMetaKeys, metaKinds]

section Made

variable {urn queue : Str} {data : JsonDict} {traceId : Option Str} {producerMeta : Option JsonDict} {minted : Minted}
  {envelope : Dict Json}

theorem made (h : make urn data queue traceId producerMeta minted = .ok envelope) :
    strip asciiWhitespace urn ≠ [] ∧ (∀ key ∈ (producerEntries producerMeta).keys, key ∉ coreMetaKeys) ∧
      envelope = madeEnvelope urn data queue traceId producerMeta minted := by
  unfold make at h
  split at h
  · cases h
  · next hurn =>
    obtain ⟨extra, hextra, h⟩ := bind_eq_ok.mp h
    unfold extraMeta at hextra
    split at hextra
    · cases hextra
    · next hfind =>
      cases hextra
      cases h
      have hnew : ∀ key ∈ (producerEntries producerMeta).keys, key ∉ coreMetaKeys := by
        intro key hkey hcore
        have := List.find?_eq_none.mp hfind key hkey
        simp [hcore] at this
      refine ⟨hurn, hnew, ?_⟩
      unfold madeEnvelope
      rw [Dict.update_of_not_mem (proper_obj.mp (producerEntries_proper producerMeta)).1 _
        (by rw [keys_coreMeta]; exact hnew)]

theorem madeEnvelope_proper (hnew : ∀ key ∈ (producerEntries producerMeta).keys, key ∉ coreMetaKeys) :
    Json.Proper (.obj (madeEnvelope urn data queue traceId producerMeta minted)) := by
  obtain ⟨hkeys, hentries⟩ := proper_obj.mp (producerEntries_proper producerMeta)
  have hmeta : Json.Proper (.obj (coreMeta queue minted ++ producerEntries producerMeta)) := by
    refine proper_obj.mpr ⟨?_, fun m hm => ?_⟩
    · rw [Dict.Proper, Dict.keys, List.map_append]
      refine List.nodup_append.mpr ⟨by simp [coreMeta], hkeys, fun key hkey other hother => ?_⟩
      rintro rfl
      exact hnew _ hother (keys_coreMeta queue minted ▸ hkey)
    · rcases List.mem_append.mp hm with hm | hm
      · simp only [coreMeta, List.mem_cons, List.not_mem_nil, or_false] at hm
        rcases hm with rfl | rfl | rfl | rfl | rfl <;> trivial
      · exact hentries m hm
  refine proper_obj.mpr ⟨by simp [madeEnvelope, Dict.Proper], fun m hm => ?_⟩
  simp only [madeEnvelope, List.mem_cons, List.not_mem_nil, or_false] at hm
  rcases hm with rfl | rfl | rfl | rfl | rfl
  · trivial
  · trivial
  · exact data.proper
  · exact hmeta
  · trivial

theorem mem_membersToTree {ms : Dict Json} {key : Str} {t : Tree} :
    (key, t) ∈ membersToTree ms ↔ ∃ v, (key, v) ∈ ms ∧ toTree v = t := by
  rw [membersToTree_eq, List.mem_map]
  exact ⟨fun ⟨m, hm, h⟩ => by cases h; exact ⟨_, hm, rfl⟩, fun ⟨v, hv, h⟩ => ⟨_, hv, by rw [h]⟩⟩

theorem int64OrNull_toTree {i : Int} (h : i.natAbs < 2 ^ 63) : Int64OrNull (toTree (.int i)) := by
  refine .inr ⟨_, rfl, NumLit.ofInt_isFloat i, ?_⟩
  rw [NumLit.ofInt_toInt, int64Min, int64Max]
  omega

/-- The types of the `meta` block are those of its own members. -/
theorem metaGrammar_made (hnew : ∀ key ∈ (producerEntries producerMeta).keys, key ∉ coreMetaKeys) :
    MetaGrammar (membersToTree (coreMeta queue minted ++ producerEntries producerMeta)) := by
  have hcore : ∀ {key t}, key ∈ coreMetaKeys →
      (key, t) ∈ membersToTree (coreMeta queue minted ++ producerEntries producerMeta) →
      ∃ v, (key, v) ∈ coreMeta queue minted ∧ toTree v = t := by
    intro key t hkey hm
    obtain ⟨v, hv, ht⟩ := mem_membersToTree.mp hm
    refine ⟨v, (List.mem_append.mp hv).resolve_right fun he => ?_, ht⟩
    exact hnew key (List.mem_map_of_mem he) hkey
  constructor
  · intro key hkey t hm
    simp only [List.mem_cons, List.not_mem_nil, or_false] at hkey
    obtain ⟨v, hv, rfl⟩ := hcore (by rcases hkey with rfl | rfl | rfl <;> simp [coreMetaKeys, metaKinds, Dict.keys]) hm
    rcases hkey with rfl | rfl | rfl
    all_goals
      simp [coreMeta] at hv
      exact .inr ⟨_, by rw [hv]; rfl⟩
  · intro key hkey t hm
    simp only [List.mem_cons, List.not_mem_nil, or_false] at hkey
    obtain ⟨v, hv, rfl⟩ := hcore (by rcases hkey with rfl | rfl <;> simp [coreMetaKeys, metaKinds, Dict.keys]) hm
    rcases hkey with rfl | rfl
    · simp [coreMeta] at hv
      rw [hv]
      exact int64OrNull_toTree (by decide)
    · simp [coreMeta] at hv
      rw [hv]
      exact int64OrNull_toTree minted.now.2

theorem envelopeGrammar_made (hnew : ∀ key ∈ (producerEntries producerMeta).keys, key ∉ coreMetaKeys) :
    EnvelopeGrammar (membersToTree (madeEnvelope urn data queue traceId producerMeta minted)) ↔
      NumbersFinite (toTree (.obj data.members)) := by
  have hmem : ∀ {key t}, (key, t) ∈ membersToTree (madeEnvelope urn data queue traceId producerMeta minted) →
      ∃ v, (key, v) ∈ madeEnvelope urn data queue traceId producerMeta minted ∧ toTree v = t := mem_membersToTree.mp
  constructor
  · intro h
    have hdata : (str "data", toTree (.obj data.members)) ∈
        membersToTree (madeEnvelope urn data queue traceId producerMeta minted) :=
      mem_membersToTree.mpr ⟨_, by simp [madeEnvelope], rfl⟩
    rcases h.data _ hdata with hnull | ⟨inner, -, hfinite⟩
    · rw [toTree] at hnull
      cases hnull
    · exact hfinite
  · intro hfinite
    refine ⟨fun t hm => ?_, fun t hm => ?_, fun t hm => ?_, fun t hm => ?_, fun t hm => ?_⟩
    all_goals
      obtain ⟨v, hv, rfl⟩ := hmem hm
      simp [madeEnvelope] at hv
    · rw [hv]
      exact .inr ⟨_, rfl⟩
    · rw [hv]
      exact int64OrNull_toTree (by decide)
    · rw [hv]
      exact .inr ⟨_, by rw [toTree], hfinite⟩
    · rw [hv]
      exact .inr ⟨_, by rw [toTree], metaGrammar_made hnew⟩

/-! ## The parts of a made envelope -/

theorem plainText_strip {s : Str} : PlainText (strip asciiWhitespace s) ↔ PlainText s := by
  obtain ⟨w, w', hw, hw', hs⟩ := strip_split asciiWhitespace s
  have hspace : ∀ c ∈ asciiWhitespace, ¬ (0xDC80 ≤ c.val ∧ c.val ≤ 0xDCFF) := by
    have hall : (asciiWhitespace.all fun c => c.val ≤ 0x20) = true := by decide
    intro c hc
    have := of_decide_eq_true (List.all_eq_true.mp hall c hc)
    omega
  constructor
  · intro h
    rw [hs]
    exact List.forall_mem_append.mpr ⟨List.forall_mem_append.mpr ⟨fun c hc => hspace c (hw c hc), h⟩,
      fun c hc => hspace c (hw' c hc)⟩
  · intro h c hc
    refine h c ?_
    rw [hs]
    exact List.mem_append_left _ (List.mem_append_right _ hc)

theorem plainText_uuidOf (n : Int) : PlainText (Otel.uuidOf n) := by
  intro c hc
  by_cases hyphen : c = cp '-'
  · rw [hyphen]
    decide
  · have hdigit : c ∈ Otel.unhyphen (Otel.uuidOf n) := List.mem_filter.mpr ⟨hc, decide_eq_true hyphen⟩
    rw [Otel.unhyphen_uuidOf] at hdigit
    have := le_of_hex (isHex_hexText 32 _ c hdigit)
    omega

theorem plainText_tracedBy : PlainText (tracedBy traceId minted) ↔ PlainText (traceId.getD []) := by
  rw [← plainText_strip (s := traceId.getD [])]
  unfold tracedBy
  dsimp only
  split
  · next h => exact iff_of_true (plainText_uuidOf _) (by rw [h]; simp [PlainText])
  · exact Iff.rfl

theorem strings_made : Strings PlainText (.obj (madeEnvelope urn data queue traceId producerMeta minted)) ↔
    PlainText urn ∧ PlainText queue ∧ PlainText (traceId.getD []) ∧ Strings PlainText (.obj data.members) ∧
      Strings PlainText (.obj (producerEntries producerMeta)) := by
  have hkey : ∀ s : String, PlainText (str s) := fun s c hc hr => by
    have := not_isSurrogate_str hc
    rw [← Bool.not_eq_true, Utf8.isSurrogate_iff] at this
    omega
  have hstr : ∀ s, Strings PlainText (.str s) ↔ PlainText s := fun s => Iff.rfl
  have hint : ∀ i, Strings PlainText (.int i) ↔ True := fun i => Iff.rfl
  have hcore : Strings PlainText (.obj (coreMeta queue minted)) ↔ PlainText queue := by
    rw [strings_obj]
    simp only [coreMeta, List.forall_mem_cons, hkey, hstr, hint, true_and, plainText_uuidOf, sourceLang,
      List.not_mem_nil, IsEmpty.forall_iff, implies_true, and_true]
  rw [strings_obj]
  simp only [madeEnvelope, List.forall_mem_cons, hkey, hstr, hint, true_and, plainText_strip, plainText_tracedBy,
    strings_append, hcore, List.not_mem_nil, IsEmpty.forall_iff, implies_true, and_true]
  tauto

theorem finiteFloats_made : FiniteFloats (.obj (madeEnvelope urn data queue traceId producerMeta minted)) ↔
    FiniteFloats (.obj data.members) ∧ FiniteFloats (.obj (producerEntries producerMeta)) := by
  have hobj : ∀ {ms : Dict Json}, FiniteFloats (.obj ms) ↔ ∀ m ∈ ms, FiniteFloats m.2 := fun {ms} =>
    all_obj.trans (and_iff_right (by simp))
  have hstr : ∀ s, FiniteFloats (.str s) := fun s x hx => by cases hx
  have hint : ∀ i, FiniteFloats (.int i) := fun i x hx => by cases hx
  have hmeta : FiniteFloats (.obj (coreMeta queue minted ++ producerEntries producerMeta)) ↔
      FiniteFloats (.obj (producerEntries producerMeta)) := by
    rw [hobj, hobj, List.forall_mem_append]
    simp only [coreMeta, List.forall_mem_cons, hstr, hint, true_and, List.not_mem_nil, IsEmpty.forall_iff, implies_true]
  rw [hobj]
  simp only [madeEnvelope, List.forall_mem_cons, hstr, hint, true_and, hmeta, List.not_mem_nil, IsEmpty.forall_iff,
    implies_true, and_true]

end Made

/-! ## Reading it back -/

section Reading

variable [Interpreter]

variable {urn queue : Str} {data : JsonDict} {traceId : Option Str} {producerMeta : Option JsonDict} {minted : Minted}
  {envelope : Dict Json} {body : Str}

theorem accepts_made (hurn : strip asciiWhitespace urn ≠ []) :
    Pulsar.accepts (madeEnvelope urn data queue traceId producerMeta minted) = true := by
  have hjob : isValidUrn (.str (strip asciiWhitespace urn)) = true := by
    rw [isValidUrn, strip_strip]
    exact decide_eq_true hurn
  have htrace : strip asciiWhitespace (tracedBy traceId minted) ≠ [] := by
    unfold tracedBy
    dsimp only
    split
    · intro h
      have hyphen : cp '-' ∈ Otel.uuidOf minted.traceId := by simp [Otel.uuidOf]
      exact absurd (strip_eq_nil_iff.mp h _ hyphen) (by decide)
    · next h => rwa [strip_strip]
  have hid : envelopeUrn (madeEnvelope urn data queue traceId producerMeta minted) ≠ [] :=
    envelopeUrn_ne_nil_iff.mpr (.inl hjob)
  have hmeta : (madeEnvelope urn data queue traceId producerMeta minted).getJ (str "meta") =
      .obj (coreMeta queue minted ++ producerEntries producerMeta) := by simp [madeEnvelope, Dict.getJ, Dict.get?]
  have hversion : Dict.getJ (coreMeta queue minted ++ producerEntries producerMeta) (str "schema_version") =
      .int Kafka.schemaVersion := by
    rw [Dict.getJ, Dict.get?_append]
    simp [coreMeta, Dict.get?]
  have hequal : equal (.int Kafka.schemaVersion) (.int Kafka.schemaVersion) = true := by decide +kernel
  have hdata : ((madeEnvelope urn data queue traceId producerMeta minted).getJ (str "data")).asObj?.isSome = true := by
    simp [madeEnvelope, Dict.getJ, Dict.get?, asObj?]
  have hattempts : ((madeEnvelope urn data queue traceId producerMeta minted).getJ (str "attempts")).asInt?.isSome =
      true := by simp [madeEnvelope, Dict.getJ, Dict.get?, asInt?]
  have htraceId : (madeEnvelope urn data queue traceId producerMeta minted).getJ (str "trace_id") =
      .str (tracedBy traceId minted) := by simp [madeEnvelope, Dict.getJ, Dict.get?]
  unfold Pulsar.accepts
  rw [hmeta, htraceId, hdata, hattempts]
  simp [hid, hversion, hequal, asStr?, htrace]

end Reading

section CPython

attribute [local instance] cpython

/-- An order of 10 ^ `digits` pieces, from the customer `name`. -/
def orderData (digits : Nat) (name : Str) : JsonDict where
  members := [(str "pieces", .int (10 ^ digits)), (str "customer", .str name)]
  proper := by simp [Json.Proper, Dict.Proper, properMembers]

/-- What `make` takes from the machine in the examples. -/
def minted : Minted := ⟨1, 2, ⟨1700000000000, by decide⟩⟩

/-- The body of a made envelope. -/
def madeBody (data : JsonDict) : Except PyExc Str := do
  let envelope ← make (str "urn:order") data (str "orders") none none minted
  encode envelope

end CPython

end BabelQueue
