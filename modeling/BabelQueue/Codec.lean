import BabelQueue.EnvelopeShape
import BabelQueue.Py.Utf8

/-!
# The wire envelope (`codec.py`, `exceptions.py`)

* `parseEnvelope`, `decodeLenient`, `decode`, `encode`: reading and writing a body.
* `poisonCause`: why a body never reaches a handler.
* `encode_ok_of_clean`: an envelope without forbidden keys is written whenever its values can be.
* `decodeLenient_of_sound`: what the retry path finds in a body that is not poison.

The warnings of the codec are left out.
-/

namespace BabelQueue

open Py Py.Json

/-! ## Exceptions -/

def babelQueueError : ExcClass := .defined (str "BabelQueueError") .exception

def envelopeKeyError : ExcClass := .defined (str "EnvelopeKeyError") babelQueueError

def unknownUrnError : ExcClass := .defined (str "UnknownUrnError") babelQueueError

/-! ## Keys -/

def sourceLang : Str := str "python"

/-- `FORBIDDEN_KEYS`: a container (`none` is the top level) and a key. -/
def forbiddenKeys : List (Option Str × Str) :=
  [(none, str "timestamp"), (some (str "meta"), str "max_retries"), (some (str "meta"), str "attempts"),
    (some (str "meta"), str "source"), (some (str "meta"), str "ts")]

def asciiWhitespace : Str := str " \t\n\x0b\x0c\r"

/-- The RFC 6901 pointer of a forbidden key. -/
def pointer : Option Str × Str → Str
  | (none, key) => cp '/' :: key
  | (some container, key) => cp '/' :: container ++ cp '/' :: key

/-- The object a forbidden key would stand in. -/
def container (envelope : Dict Json) : Option Str → Option (Dict Json)
  | none => some envelope
  | some c => (envelope.getJ c).asObj?

/-- `isinstance(target, dict) and key in target`. -/
def carries (envelope : Dict Json) (k : Option Str × Str) : Bool :=
  match container envelope k.1 with
  | some target => target.has k.2
  | none => false

/-- `del target[key]`, when it is there. -/
def dropKey (envelope : Dict Json) (k : Option Str × Str) : Dict Json :=
  match k with
  | (none, key) => envelope.erase key
  | (some c, key) =>
    match envelope.get? c with
    | some (.obj target) => envelope.set c (.obj (Dict.erase target key))
    | _ => envelope

/-- `strip_forbidden_keys`: what is left. The pointers it returns are only logged. -/
def stripForbiddenKeys (envelope : Dict Json) : Dict Json :=
  forbiddenKeys.foldl (fun envelope k => if carries envelope k then dropKey envelope k else envelope) envelope

/-- `has_forbidden_keys`. -/
def hasForbiddenKeys (envelope : Dict Json) : Bool := forbiddenKeys.any (carries envelope)

/-- `has_invalid_utf8`. -/
def hasInvalidUtf8 (text : Str) : Bool := text.any fun c => 0xDC80 ≤ c.val && c.val ≤ 0xDCFF

/-- `_is_valid_urn`. -/
def isValidUrn : Json → Bool
  | .str s => strip asciiWhitespace s ≠ []
  | _ => false

/-- `EnvelopeCodec.urn`. -/
def envelopeUrn (envelope : Dict Json) : Str :=
  if isValidUrn (envelope.getJ (str "job")) then (envelope.getJ (str "job")).asStr?.getD []
  else if isValidUrn (envelope.getJ (str "urn")) then (envelope.getJ (str "urn")).asStr?.getD []
  else []

/-- The `urn` half of `_fold_identity`, with `aliased` the `urn` that was taken out. -/
def foldAlias (decoded : Dict Json) (aliased : Json) : Dict Json :=
  if isValidUrn (decoded.getJ (str "job")) then decoded
  else if isValidUrn aliased then decoded.set (str "job") aliased
  else decoded

/-- `_fold_identity`. -/
def foldIdentity (decoded : Dict Json) : Dict Json :=
  match (stripForbiddenKeys decoded).get? (str "urn") with
  | none => stripForbiddenKeys decoded
  | some aliased => foldAlias ((stripForbiddenKeys decoded).erase (str "urn")) aliased

/-- `_first_encode_violation`. -/
def firstEncodeViolation (envelope : Dict Json) : Option Str :=
  match forbiddenKeys.find? (carries envelope) with
  | some k => some (pointer k)
  | none => if envelope.has (str "urn") then some (str "/urn") else none

section Reading

variable [Interpreter]

/-! ## Reading -/

/-- `parse_envelope`. A `RecursionError` of `json.loads` is not caught. -/
def parseEnvelope (raw : Str) : Except PyExc (Dict Json) :=
  tryExceptPure ((loads raw).map fun v => v.asObj?.getD []) [.valueError, .typeError] fun _ => .ok []

/-- `_parse_object`. -/
def parseObject (raw : Str) : Except PyExc (Option (Dict Json)) :=
  tryExceptPure ((loads raw).map asObj?) [.valueError, .typeError] fun _ => .ok none

/-- `EnvelopeCodec.decode_lenient`. -/
def decodeLenient (raw : Str) : Except PyExc (Dict Json) :=
  match parseObject raw with
  | .error e => .error e
  | .ok none => .ok []
  | .ok (some parsed) => .ok (foldIdentity parsed)

def noIdentityMsg : Str :=
  str "The envelope has neither a valid string 'job' nor a valid string 'urn' (ADR-0032 section 6)."

/-- `EnvelopeCodec.decode`. -/
def decode (raw : Str) : Except PyExc (Dict Json) :=
  match parseObject raw with
  | .error e => .error e
  | .ok none => .ok []
  | .ok (some parsed) =>
    if isValidUrn ((foldIdentity parsed).getJ (str "job")) then .ok (foldIdentity parsed)
    else .error ⟨babelQueueError, noIdentityMsg⟩

/-- `EnvelopeCodec.encode`. -/
def encode (envelope : Dict Json) : Except PyExc Str :=
  match firstEncodeViolation envelope with
  | some p => .error ⟨envelopeKeyError, str "Refusing to encode the forbidden envelope key " ++ p ++
      str " (non-canonical, message-envelope.md §10)."⟩
  | none => dumps true (.obj envelope)

/-- The `try` of `poison_cause`: a cause, or the value of the body. -/
def poisonRead (raw : Str) : Except PyExc (Str ⊕ Json) :=
  tryExceptPure
    (match envelopeViolation raw with
    | .error e => .error e
    | .ok (some violation) => .ok (.inl violation)
    | .ok none => (loads raw).map .inr)
    [.valueError, .recursionError, .typeError]
    fun e => .ok (.inl (str "the core decoder cannot parse the body: " ++ e.msg))

/-- `EnvelopeCodec.poison_cause`. -/
def poisonCause (raw : Str) (requireIdentity : Bool) : Except PyExc (Option Str) :=
  if hasInvalidUtf8 raw then .ok (some (str "the body is not valid UTF-8"))
  else match poisonRead raw with
    | .error e => .error e
    | .ok (.inl cause) => .ok (some cause)
    | .ok (.inr (.obj parsed)) =>
      if requireIdentity && !(isValidUrn (Dict.getJ parsed (str "job")) || isValidUrn (Dict.getJ parsed (str "urn"))) then
        .ok (some (str "the body carries no valid 'job' or 'urn' identity (ADR-0032 section 6)"))
      else .ok none
    | .ok (.inr _) => .ok (some (str "the JSON root is not an object"))

end Reading

/-! ## Envelopes without forbidden keys -/

/-- `encode` refuses no key of the envelope. -/
def Clean (envelope : Dict Json) : Prop := firstEncodeViolation envelope = none

theorem clean_iff {envelope : Dict Json} :
    Clean envelope ↔ (∀ k ∈ forbiddenKeys, carries envelope k = false) ∧ envelope.get? (str "urn") = none := by
  rw [Clean, firstEncodeViolation]
  split
  · next k hk =>
    have := List.find?_some hk
    simp only [reduceCtorEq, false_iff, not_and]
    intro h
    rw [h k (List.mem_of_find?_eq_some hk)] at this
    cases this
  · next h =>
    simp only [List.find?_eq_none, Bool.not_eq_true] at h
    have hk : ∀ k ∈ forbiddenKeys, carries envelope k = false := fun k hk => h k hk
    rw [ite_eq_right_iff, Dict.has]
    simp only [reduceCtorEq, imp_false, Bool.not_eq_true, Option.isSome_eq_false_iff,
      Option.isNone_iff_eq_none]
    exact ⟨fun h => ⟨hk, h⟩, And.right⟩

/-- Dropping a key drops that key and brings no other back. -/
theorem carries_dropKey {envelope : Dict Json} {k k' : Option Str × Str} (hk : carries envelope k = true)
    (h : carries (dropKey envelope k) k' = true) : carries envelope k' = true ∧ k' ≠ k := by
  obtain ⟨_ | c, key⟩ := k
  · obtain ⟨_ | c', key'⟩ := k'
    · simp only [carries, container, dropKey, Dict.has] at h ⊢
      by_cases e : key' = key
      · subst e; simp at h
      · rw [Dict.get?_erase_of_ne _ e] at h
        exact ⟨h, by simpa using e⟩
    · simp only [carries, container, dropKey, Dict.getJ] at h ⊢
      by_cases e : c' = key
      · subst e; simp [asObj?] at h
      · rw [Dict.get?_erase_of_ne _ e] at h
        exact ⟨h, by simp⟩
  · cases hc : envelope.get? c with
    | none => simp [carries, container, Dict.getJ, hc, asObj?] at hk
    | some v =>
      cases v with
      | obj target =>
        simp only [dropKey, hc] at h
        obtain ⟨_ | c', key'⟩ := k'
        · simp only [carries, container, Dict.has, Dict.get?_set] at h ⊢
          refine ⟨?_, by simp⟩
          split at h
          · next e => rw [e, hc]; rfl
          · exact h
        · simp only [carries, container, Dict.getJ, Dict.get?_set] at h ⊢
          by_cases e : c' = c
          · subst e
            simp only [if_pos, Option.getD_some, asObj?, Dict.has, hc] at h ⊢
            by_cases e' : key' = key
            · subst e'; simp at h
            · rw [Dict.get?_erase_of_ne _ e'] at h
              exact ⟨h, by simpa using e'⟩
          · rw [if_neg e] at h
            exact ⟨h, by simp [e]⟩
      | _ => simp [carries, container, Dict.getJ, hc, asObj?] at hk

/-- What each drop keeps, `stripForbiddenKeys` keeps. -/
theorem stripForbiddenKeys_induction {P : Dict Json → Prop} {envelope : Dict Json} (h : P envelope)
    (hstep : ∀ e k, k ∈ forbiddenKeys → carries e k = true → P e → P (dropKey e k)) :
    P (stripForbiddenKeys envelope) := by
  rw [stripForbiddenKeys]
  refine List.foldlRecOn _ _ h fun e he k hk => ?_
  split
  · next hc => exact hstep e k hk hc he
  · exact he

theorem not_carries_strip {envelope : Dict Json} {k : Option Str × Str} (hk : k ∈ forbiddenKeys) :
    carries (stripForbiddenKeys envelope) k = false := by
  have key : ∀ (ks : List (Option Str × Str)) (e : Dict Json), (k ∈ ks ∨ carries e k = false) →
      carries (ks.foldl (fun e k => if carries e k then dropKey e k else e) e) k = false := by
    intro ks
    induction ks with
    | nil => intro e h; simpa using h
    | cons k₀ ks ih =>
      intro e h
      rw [List.foldl_cons]
      apply ih
      by_cases hc : carries e k₀ = true
      · rw [if_pos hc]
        by_cases hk' : carries (dropKey e k₀) k = true
        · obtain ⟨h1, h2⟩ := carries_dropKey hc hk'
          rcases h with h | h
          · exact .inl ((List.mem_cons.mp h).resolve_left h2)
          · rw [h] at h1; cases h1
        · exact .inr (by simpa using hk')
      · rw [if_neg hc]
        rcases h with h | h
        · rcases List.mem_cons.mp h with rfl | h
          · exact .inr (by simpa using hc)
          · exact .inl h
        · exact .inr h
  exact key _ _ (.inl hk)

theorem strip_of_not_carries {envelope : Dict Json} (h : ∀ k ∈ forbiddenKeys, carries envelope k = false) :
    stripForbiddenKeys envelope = envelope := by
  rw [stripForbiddenKeys]
  refine List.foldlRecOn (motive := fun e => e = envelope) _ _ rfl fun e he k hk => ?_
  rw [he, h k hk]
  rfl

theorem foldIdentity_of_clean {envelope : Dict Json} (h : Clean envelope) : foldIdentity envelope = envelope := by
  obtain ⟨hk, hu⟩ := clean_iff.mp h
  unfold foldIdentity
  rw [strip_of_not_carries hk, hu]

theorem clean_nil : Clean [] := clean_iff.mpr ⟨by decide +kernel, rfl⟩

/-- A key that no check of `encode` looks at. -/
def Plain (key : Str) : Prop := key ≠ str "timestamp" ∧ key ≠ str "meta" ∧ key ≠ str "urn"

instance (key : Str) : Decidable (Plain key) := inferInstanceAs (Decidable (_ ∧ _ ∧ _))

theorem carries_eq {e e' : Dict Json} (h1 : e'.get? (str "timestamp") = e.get? (str "timestamp"))
    (h2 : e'.getJ (str "meta") = e.getJ (str "meta")) {k : Option Str × Str} (hk : k ∈ forbiddenKeys) :
    carries e' k = carries e k := by
  simp only [forbiddenKeys, List.mem_cons, List.not_mem_nil, or_false] at hk
  rcases hk with rfl | rfl | rfl | rfl | rfl <;> simp [carries, container, Dict.has, h1, h2]

theorem clean_of_eq {e e' : Dict Json} (h : Clean e) (h1 : e'.get? (str "timestamp") = e.get? (str "timestamp"))
    (h2 : e'.getJ (str "meta") = e.getJ (str "meta")) (h3 : e'.get? (str "urn") = none) : Clean e' :=
  clean_iff.mpr ⟨fun k hk => (carries_eq h1 h2 hk).trans ((clean_iff.mp h).1 k hk), h3⟩

theorem Clean.set {e : Dict Json} (h : Clean e) {key : Str} (hk : Plain key) (v : Json) : Clean (e.set key v) := by
  obtain ⟨h1, h2, h3⟩ := hk
  refine clean_of_eq h (Dict.get?_set_of_ne _ _ (Ne.symm h1)) ?_ ?_
  · rw [Dict.getJ, Dict.get?_set_of_ne _ _ (Ne.symm h2)]; rfl
  · rw [Dict.get?_set_of_ne _ _ (Ne.symm h3)]; exact (clean_iff.mp h).2

/-- `_fold_identity` leaves nothing that `encode` refuses. -/
theorem clean_foldIdentity (d : Dict Json) : Clean (foldIdentity d) := by
  have hk : ∀ k ∈ forbiddenKeys, carries (stripForbiddenKeys d) k = false := fun k hk => not_carries_strip hk
  unfold foldIdentity
  split
  · next hu => exact clean_iff.mpr ⟨hk, hu⟩
  · have he : Clean ((stripForbiddenKeys d).erase (str "urn")) := by
      refine clean_iff.mpr ⟨fun k hk' => (carries_eq ?_ ?_ hk').trans (hk k hk'), Dict.get?_erase_self _ _⟩
      · exact Dict.get?_erase_of_ne _ (by simp)
      · rw [Dict.getJ, Dict.get?_erase_of_ne _ (by simp)]; rfl
    unfold foldAlias
    split
    · exact he
    · split
      · exact he.set (by simp [Plain]) _
      · exact he

/-- Folding keeps or finds an identity. -/
theorem isValidUrn_foldIdentity {d : Dict Json}
    (h : isValidUrn (d.getJ (str "job")) = true ∨ isValidUrn (d.getJ (str "urn")) = true) :
    isValidUrn ((foldIdentity d).getJ (str "job")) = true := by
  have hget : ∀ key, key = str "job" ∨ key = str "urn" → (stripForbiddenKeys d).get? key = d.get? key := by
    intro key hkey
    refine stripForbiddenKeys_induction (P := fun e => e.get? key = d.get? key) rfl fun e k hk _ he => ?_
    rw [← he]
    simp only [forbiddenKeys, List.mem_cons, List.not_mem_nil, or_false] at hk
    have hne : key ≠ str "timestamp" ∧ key ≠ str "meta" := by rcases hkey with rfl | rfl <;> simp
    rcases hk with rfl | rfl | rfl | rfl | rfl
    · exact Dict.get?_erase_of_ne _ hne.1
    all_goals
      simp only [dropKey]
      split
      · exact Dict.get?_set_of_ne _ _ hne.2
      · rfl
  simp only [Dict.getJ, ← hget _ (.inl rfl), ← hget _ (.inr rfl)] at h
  unfold foldIdentity
  split
  · next hu =>
    rw [hu] at h
    exact h.resolve_right (by simp [isValidUrn])
  · next aliased hu =>
    rw [hu] at h
    have herase : ((stripForbiddenKeys d).erase (str "urn")).get? (str "job") = (stripForbiddenKeys d).get? (str "job") :=
      Dict.get?_erase_of_ne _ (by simp)
    unfold foldAlias
    split
    · assumption
    · next hj =>
      rw [Dict.getJ, herase] at hj
      have hv : isValidUrn aliased = true := by simpa using h.resolve_left hj
      rw [if_pos hv, Dict.getJ, Dict.get?_set_self]
      exact hv

/-! ## What folding keeps -/

theorem foldIdentity_induction {P : Dict Json → Prop} {d : Dict Json} (h : P d)
    (hdrop : ∀ e k, k ∈ forbiddenKeys → carries e k = true → P e → P (dropKey e k))
    (herase : ∀ e, P e → P (e.erase (str "urn")))
    (hset : ∀ e v, e.get? (str "urn") = some v → P e → P ((e.erase (str "urn")).set (str "job") v)) :
    P (foldIdentity d) := by
  have hs := stripForbiddenKeys_induction h hdrop
  unfold foldIdentity
  split
  · exact hs
  · next v hv =>
    unfold foldAlias
    split
    · exact herase _ hs
    · split
      · exact hset _ _ hv hs
      · exact herase _ hs

theorem get?_dropKey {e : Dict Json} {k : Option Str × Str} (hk : k ∈ forbiddenKeys) {key : Str} (h : Plain key) :
    (dropKey e k).get? key = e.get? key := by
  obtain ⟨h1, h2, -⟩ := h
  have hmeta : ∀ key', (dropKey e (some (str "meta"), key')).get? key = e.get? key := by
    intro key'
    simp only [dropKey]
    split
    · exact Dict.get?_set_of_ne _ _ h2
    · rfl
  simp only [forbiddenKeys, List.mem_cons, List.not_mem_nil, or_false] at hk
  rcases hk with rfl | rfl | rfl | rfl | rfl
  · exact Dict.get?_erase_of_ne _ h1
  all_goals exact hmeta _

theorem get?_foldIdentity (d : Dict Json) {key : Str} (h : Plain key) (hj : key ≠ str "job") :
    (foldIdentity d).get? key = d.get? key := by
  refine foldIdentity_induction (P := fun e => e.get? key = d.get? key) rfl ?_ ?_ ?_
  · intro e k hk _ he; rw [get?_dropKey hk h, he]
  · intro e he; rw [Dict.get?_erase_of_ne _ h.2.2, he]
  · intro e v _ he; rw [Dict.get?_set_of_ne _ _ hj, Dict.get?_erase_of_ne _ h.2.2, he]

/-- Folding keeps `meta` an object, and keeps it absent or `null`. -/
theorem hasKind_meta_foldIdentity {d : Dict Json} (h : HasKind .object (d.getJ (str "meta"))) :
    HasKind .object ((foldIdentity d).getJ (str "meta")) := by
  refine foldIdentity_induction (P := fun e => HasKind .object (e.getJ (str "meta"))) h ?_ ?_ ?_
  · intro e k _ _ he
    rcases k with ⟨_ | c, key⟩
    · simp only [dropKey, Dict.getJ]
      by_cases hk : str "meta" = key
      · rw [← hk, Dict.get?_erase_self]; exact .inl rfl
      · rw [Dict.get?_erase_of_ne _ hk]; exact he
    · simp only [dropKey]
      split
      · rw [Dict.getJ, Dict.get?_set]
        split
        · exact .inr ⟨_, rfl⟩
        · exact he
      · exact he
  · intro e he
    rw [Dict.getJ, Dict.get?_erase_of_ne _ (by simp)]
    exact he
  · intro e v _ he
    rw [Dict.getJ, Dict.get?_set_of_ne _ _ (by simp), Dict.get?_erase_of_ne _ (by simp)]
    exact he

variable [Interpreter]

/-- An envelope `json` can write and read back. -/
structure Storable (d : Dict Json) : Prop where
  writable : Writable Interpreter.maxDepth (.obj d)
  proper : Json.Proper (.obj d)

theorem storable_of_loads {raw : Str} {d : Dict Json} (h : loads raw = .ok (.obj d)) : Storable d :=
  ⟨(writable_of_loads h).1, (writable_of_loads h).2⟩

theorem maxDepth_succ : ∃ n, Interpreter.maxDepth = n + 1 + 1 :=
  ⟨Interpreter.maxDepth - 2, by have := Interpreter.maxDepth_ge; omega⟩

theorem Storable.set {d : Dict Json} (h : Storable d) (k : Str) {v : Json} (hw : Writable 1 v) (hp : v.Proper) :
    Storable (d.set k v) := by
  obtain ⟨n, hn⟩ := maxDepth_succ
  refine ⟨?_, h.proper.set k hp⟩
  rw [hn]
  exact (hn ▸ h.writable).set k (hw.mono (by omega))

theorem Storable.erase {d : Dict Json} (h : Storable d) (k : Str) : Storable (d.erase k) :=
  ⟨h.writable.erase k, h.proper.erase k⟩

theorem Storable.move {d : Dict Json} (h : Storable d) {k : Str} {v : Json} (hv : d.get? k = some v) (k' : Str) :
    Storable ((d.erase k).set k' v) := by
  obtain ⟨n, hn⟩ := maxDepth_succ
  refine ⟨?_, (h.proper.erase k).set k' (h.proper.get? hv)⟩
  rw [hn]
  exact ((hn ▸ h.writable).erase k).set k' ((hn ▸ h.writable).get? hv)

theorem Storable.dropKey {d : Dict Json} (h : Storable d) (k : Option Str × Str) : Storable (dropKey d k) := by
  rcases k with ⟨_ | c, key⟩
  · exact h.erase key
  · simp only [BabelQueue.dropKey]
    split
    · next target ht =>
      obtain ⟨n, hn⟩ := maxDepth_succ
      refine ⟨?_, h.proper.set c ((h.proper.get? ht).erase key)⟩
      rw [hn]
      exact (hn ▸ h.writable).set c (((hn ▸ h.writable).get? ht).erase key)
    · exact h

theorem storable_foldIdentity {d : Dict Json} (h : Storable d) : Storable (foldIdentity d) :=
  foldIdentity_induction h (fun _ k _ _ he => he.dropKey k) (fun _ he => he.erase _)
    fun _ _ hv he => he.move hv _

theorem encode_of_clean {d : Dict Json} (h : Clean d) : encode d = dumps true (.obj d) := by
  unfold encode
  rw [h]

theorem encode_isOk {d : Dict Json} (h : Clean d) (hs : Storable d) : ∃ s, encode d = .ok s := by
  rw [encode_of_clean h]
  exact dumps_isOk hs.writable

theorem clean_of_encode {d : Dict Json} {s : Str} (h : encode d = .ok s) : Clean d := by
  unfold encode at h
  split at h
  · cases h
  · assumption

/-- What `encode` writes is read back. -/
theorem loads_encode {d : Dict Json} {s : Str} (hd : Json.Proper (.obj d)) (h : encode d = .ok s) :
    loads s = .ok (.obj d) := by
  rw [encode_of_clean (clean_of_encode h)] at h
  exact loads_dumps hd h

/-! ## What reading a body gives -/

theorem parseObject_obj {raw : Str} {d : Dict Json} (h : loads raw = .ok (.obj d)) :
    parseObject raw = .ok (some d) := by
  unfold parseObject
  rw [h]
  rfl

theorem loads_of_parseObject {raw : Str} {d : Dict Json} (h : parseObject raw = .ok (some d)) :
    loads raw = .ok (.obj d) := by
  unfold parseObject at h
  cases hl : loads raw with
  | error e =>
    rw [hl] at h
    simp only [Except.map, tryExceptPure] at h
    split at h <;> cases h
  | ok v =>
    rw [hl] at h
    cases v <;> simp [Except.map, tryExceptPure, asObj?] at h
    rw [h]

theorem decodeLenient_obj {raw : Str} {d : Dict Json} (h : loads raw = .ok (.obj d)) :
    decodeLenient raw = .ok (foldIdentity d) := by
  unfold decodeLenient
  rw [parseObject_obj h]

theorem parseEnvelope_obj {raw : Str} {d : Dict Json} (h : loads raw = .ok (.obj d)) :
    parseEnvelope raw = .ok d := by
  unfold parseEnvelope
  rw [h]
  rfl

theorem decodeLenient_encode {d : Dict Json} {s : Str} (hd : Json.Proper (.obj d)) (h : encode d = .ok s) :
    decodeLenient s = .ok d := by
  rw [decodeLenient_obj (loads_encode hd h), foldIdentity_of_clean (clean_of_encode h)]

theorem parseEnvelope_error_iff {raw : Str} {e : PyExc} :
    parseEnvelope raw = .error e ↔ loads raw = .error e ∧ e.cls = .recursionError := by
  unfold parseEnvelope
  cases h : loads raw with
  | ok v => simp [tryExceptPure, Except.map]
  | error x =>
    rcases loads_raises h with hx | hx
    · have : x.isAny [.valueError, .typeError] = true := by simp [PyExc.isAny, hx]
      simp only [Except.map, tryExceptPure, this, if_true, reduceCtorEq, false_iff, not_and,
        Except.error.injEq]
      rintro rfl hc
      simp [PyExc.isA, hc, ExcClass.ancestors] at hx
    · have : x.isAny [.valueError, .typeError] = false := by
        simp [PyExc.isAny, PyExc.isA, hx, ExcClass.ancestors]
      simp only [Except.map, tryExceptPure, this, Bool.false_eq_true, if_false, Except.error.injEq]
      exact ⟨fun h => h ▸ ⟨rfl, hx⟩, fun h => h.1⟩

theorem storable_nil : Storable [] := by
  obtain ⟨n, hn⟩ := maxDepth_succ
  exact ⟨writable_obj.mpr ⟨n + 1, hn, by simp⟩, proper_obj.mpr ⟨by simp [Dict.Proper], by simp⟩⟩

/-- What `parse_envelope` gives can be written. -/
theorem storable_of_parseEnvelope {raw : Str} {d : Dict Json} (h : parseEnvelope raw = .ok d) : Storable d := by
  unfold parseEnvelope at h
  cases hl : loads raw with
  | error e =>
    rw [hl] at h
    simp only [Except.map, tryExceptPure] at h
    split at h
    · cases h; exact storable_nil
    · cases h
  | ok v =>
    rw [hl] at h
    cases h
    cases v with
    | obj d => exact storable_of_loads hl
    | _ => exact storable_nil

theorem Storable.toStr_isOk {d : Dict Json} (h : Storable d) (k : Str) : ∃ s, (d.getJ k).toStr = .ok s := by
  obtain ⟨n, hn⟩ := maxDepth_succ
  exact Json.toStr_isOk ((hn ▸ h.writable).getJ k) (by omega)

/-- `str` of a member of the object under the key `k`. -/
theorem Storable.inner_toStr_isOk {d : Dict Json} (h : Storable d) (k k' : Str) :
    ∃ s, (Dict.getJ (((d.getJ k).asObj?).getD []) k').toStr = .ok s := by
  obtain ⟨n, hn⟩ := maxDepth_succ
  have hw := (hn ▸ h.writable).getJ k
  cases hv : d.getJ k with
  | obj ms =>
    rw [hv] at hw
    exact Json.toStr_isOk (hw.getJ k') (by omega)
  | _ => exact ⟨_, rfl⟩

theorem Storable.attempts_lt {d : Dict Json} (h : Storable d) (k : Str) :
    ((d.getJ k).asInt?.getD 0).natAbs < 10 ^ maxStrDigits := by
  obtain ⟨n, hn⟩ := maxDepth_succ
  have hw := (hn ▸ h.writable).getJ k
  cases hv : d.getJ k with
  | int i => rw [hv] at hw; exact writable_int.mp hw
  | _ => exact Nat.pow_pos (by decide)

/-- `json.loads` ends in a `RecursionError`. -/
def Overdeep (raw : Str) : Prop := ∃ e, loads raw = .error e ∧ e.cls = .recursionError

theorem overdeep_iff {raw : Str} : Overdeep raw ↔ ∃ e, parseEnvelope raw = .error e := by
  simp only [Overdeep, parseEnvelope_error_iff]

theorem decodeLenient_error_iff {raw : Str} : (∃ e, decodeLenient raw = .error e) ↔ Overdeep raw := by
  rw [overdeep_iff]
  have h : ∀ e, parseObject raw = .error e ↔ parseEnvelope raw = .error e := by
    intro e
    unfold parseObject parseEnvelope
    cases loads raw with
    | ok v => simp [Except.map, tryExceptPure]
    | error x => simp only [Except.map, tryExceptPure]; split <;> simp
  unfold decodeLenient
  constructor
  · rintro ⟨e, he⟩
    cases hp : parseObject raw with
    | error e' => exact ⟨e', (h e').mp hp⟩
    | ok o => rw [hp] at he; cases o <;> cases he
  · rintro ⟨e, he⟩
    exact ⟨e, by rw [(h e).mpr he]⟩

/-- What a body is read as: nothing, for its depth; an object; or no envelope. -/
theorem body_cases (raw : Str) : Overdeep raw ∨ (∃ d, loads raw = .ok (.obj d)) ∨
    parseEnvelope raw = .ok [] ∧ decodeLenient raw = .ok [] ∧ ∀ d, loads raw ≠ .ok (.obj d) := by
  cases hl : loads raw with
  | error e =>
    rcases loads_raises hl with h | h
    · have hcaught : e.isAny [.valueError, .typeError] = true := by simp [PyExc.isAny, h]
      refine .inr (.inr ⟨?_, ?_, fun d hd => by cases hd⟩)
      · simp [parseEnvelope, hl, Except.map, tryExceptPure, hcaught]
      · simp [decodeLenient, parseObject, hl, Except.map, tryExceptPure, hcaught]
    · exact .inl ⟨e, hl, h⟩
  | ok v =>
    cases v with
    | obj d => exact .inr (.inl ⟨d, rfl⟩)
    | _ =>
      refine .inr (.inr ⟨?_, ?_, fun d hd => by cases hd⟩)
      · rw [parseEnvelope, hl]; rfl
      · rw [decodeLenient, parseObject, hl]; rfl

/-- An envelope with a count can be encoded if and only if the count can be written. -/
theorem encode_attempts_isOk_iff {envelope : Dict Json} (hc : Clean envelope) (hs : Storable envelope) {n : Int} :
    (∃ body, encode (envelope.set (str "attempts") (.int n)) = .ok body) ↔ n.natAbs < 10 ^ maxStrDigits := by
  constructor
  · rintro ⟨body, h⟩
    have hl := loads_encode (hs.proper.set (str "attempts") (v := .int n) trivial) h
    have := (storable_of_loads hl).attempts_lt (str "attempts")
    rwa [Dict.getJ, Dict.get?_set_self] at this
  · exact fun hn => encode_isOk (hc.set (by simp [Plain]) _) (hs.set _ (writable_int.mpr hn) trivial)

/-- Brackets beyond the limit of the interpreter. -/
theorem overdeep_brackets : Overdeep (List.replicate (Interpreter.maxDepth + 1) (cp '[')) := by
  have hs : startsWith (List.replicate (Interpreter.maxDepth + 1) (cp '[')) [0xFEFF] = false := by
    rw [List.replicate_succ]
    rfl
  have hskip : skipWs (List.replicate (Interpreter.maxDepth + 1) (cp '[')) =
      List.replicate (Interpreter.maxDepth + 1) (cp '[') := by
    rw [List.replicate_succ]
    rfl
  have hl : ∃ msg, loads (List.replicate (Interpreter.maxDepth + 1) (cp '[')) = .error ⟨.recursionError, msg⟩ := by
    unfold loads parse
    rw [hs, hskip, scanOnce_brackets]
    exact ⟨_, rfl⟩
  obtain ⟨msg, hl⟩ := hl
  exact ⟨_, hl, rfl⟩

theorem poisonRead_returns (raw : Str) : ∃ r, poisonRead raw = .ok r := by
  obtain ⟨v, hv⟩ := envelopeViolation_returns raw
  unfold poisonRead
  rw [hv]
  cases v with
  | some c => exact ⟨_, rfl⟩
  | none =>
    cases hl : loads raw with
    | ok v => exact ⟨_, rfl⟩
    | error e =>
      have : e.isAny [.valueError, .recursionError, .typeError] = true := by
        rcases loads_raises hl with h | h
        · simp [PyExc.isAny, h]
        · simp [PyExc.isAny, PyExc.isA, h, ExcClass.ancestors]
      exact ⟨_, if_pos this⟩

theorem poisonRead_inr {raw : Str} {v : Json} (h : poisonRead raw = .ok (.inr v)) :
    envelopeViolation raw = .ok none ∧ loads raw = .ok v := by
  obtain ⟨c, hc⟩ := envelopeViolation_returns raw
  unfold poisonRead at h
  rw [hc] at h ⊢
  cases c with
  | some c => cases h
  | none =>
    cases hl : loads raw with
    | ok v' => rw [hl] at h; cases h; exact ⟨rfl, rfl⟩
    | error e =>
      rw [hl] at h
      simp only [Except.map, tryExceptPure] at h
      split at h <;> cases h

theorem poisonCause_returns (raw : Str) (requireIdentity : Bool) :
    ∃ c, poisonCause raw requireIdentity = .ok c := by
  obtain ⟨r, hr⟩ := poisonRead_returns raw
  unfold poisonCause
  split
  · exact ⟨_, rfl⟩
  · rw [hr]
    split
    · next h => cases h
    · exact ⟨_, rfl⟩
    · split <;> exact ⟨_, rfl⟩
    · exact ⟨_, rfl⟩

/-- A body that is not poison is an object with typed members, and has an identity when one is
required. -/
theorem poisonCause_none {raw : Str} {requireIdentity : Bool} (h : poisonCause raw requireIdentity = .ok none) :
    ∃ d : Dict Json, loads raw = .ok (.obj d) ∧ Typed topKinds d ∧
      (requireIdentity = true → isValidUrn (d.getJ (str "job")) = true ∨ isValidUrn (d.getJ (str "urn")) = true) := by
  unfold poisonCause at h
  split at h
  · cases h
  split at h
  · cases h
  · cases h
  · next d hr =>
    obtain ⟨hv, hl⟩ := poisonRead_inr hr
    obtain ⟨d', e, ht⟩ := (typed_of_violation_none hv hl).resolve_left (by simp)
    cases e
    refine ⟨d, hl, ht, fun hreq => ?_⟩
    rw [hreq, Bool.true_and] at h
    split at h
    · cases h
    · next hn => simpa [or_iff_not_imp_left] using hn
  · cases h

/-- An over-deep body is poison. -/
theorem Overdeep.poisonCause {raw : Str} (h : Overdeep raw) (requireIdentity : Bool) :
    ∃ cause, poisonCause raw requireIdentity = .ok (some cause) := by
  obtain ⟨cause, hc⟩ := poisonCause_returns raw requireIdentity
  cases cause with
  | some cause => exact ⟨cause, hc⟩
  | none =>
    obtain ⟨d, hl, -⟩ := poisonCause_none hc
    obtain ⟨e, he, -⟩ := h
    rw [hl] at he
    cases he

end BabelQueue
