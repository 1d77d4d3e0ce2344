import BabelQueue.Codec

/-!
# Decoding normalises, encoding accepts the normal form

* `Folds o fold`: what `_fold_identity` may do to `o`, member by member.
* `folds_foldIdentity`: it does that.
* `encode_refuses_iff`: `encode` refuses the first key of `refusedKeys` that an envelope carries.
* `normal_form`: the two together, with the round trip over any raw text.
-/

namespace BabelQueue

open Py Py.Json

/-- The keys `encode` looks for, in its order. -/
def refusedKeys : List (Option Str × Str) := forbiddenKeys ++ [(none, str "urn")]

/-- The envelope resolves to an identity. -/
def HasIdentity (o : Dict Json) : Prop :=
  isValidUrn (o.getJ (str "job")) = true ∨ isValidUrn (o.getJ (str "urn")) = true

/-- `fold` is `o` without the refused keys, with the identity of `o` under `job`. -/
structure Folds (o fold : Dict Json) : Prop where
  /-- Nothing is left that `encode` refuses. -/
  clean : ∀ k ∈ refusedKeys, carries fold k = false
  /-- The alias takes the place of a `job` that is no identity, if it is one itself. -/
  job : fold.get? (str "job") =
    if isValidUrn (o.getJ (str "job")) then o.get? (str "job")
    else if isValidUrn (o.getJ (str "urn")) then o.get? (str "urn")
    else o.get? (str "job")
  /-- The other members stay. -/
  kept : ∀ key, (none, key) ∉ refusedKeys → key ≠ str "job" → key ≠ str "meta" → fold.get? key = o.get? key
  /-- A `meta` that is no object stays. -/
  kept_meta : (o.getJ (str "meta")).asObj? = none → fold.get? (str "meta") = o.get? (str "meta")
  /-- A `meta` object loses its forbidden members. -/
  kept_block : ∀ block, o.get? (str "meta") = some (.obj block) →
    ∃ block', fold.get? (str "meta") = some (.obj block') ∧
      ∀ key, Dict.get? block' key = if (some (str "meta"), key) ∈ refusedKeys then none else Dict.get? block key
  /-- The identity is the same. -/
  identity : envelopeUrn fold = envelopeUrn o

/-! ## Folding -/

theorem carries_refused_iff {o : Dict Json} :
    (∀ k ∈ refusedKeys, carries o k = false) ↔ Clean o := by
  rw [clean_iff, refusedKeys, List.forall_mem_append]
  simp [carries, container, Dict.has]

theorem get?_stripForbiddenKeys (o : Dict Json) {key : Str} (h : Plain key) :
    (stripForbiddenKeys o).get? key = o.get? key := by
  refine stripForbiddenKeys_induction (P := fun e => e.get? key = o.get? key) rfl fun e k hk _ he => ?_
  rw [get?_dropKey hk h, he]

theorem forbiddenKeys_cases {k : Option Str × Str} (h : k ∈ forbiddenKeys) :
    k = (none, str "timestamp") ∨ ∃ key, k = (some (str "meta"), key) := by
  simp only [forbiddenKeys, List.mem_cons, List.not_mem_nil, or_false] at h
  rcases h with rfl | h
  · exact .inl rfl
  · rcases h with rfl | rfl | rfl | rfl <;> exact .inr ⟨_, rfl⟩

/-- Folding changes `meta` only by dropping the forbidden members of an object. -/
theorem meta_foldIdentity_induction {P : Option Json → Prop} {o : Dict Json} (h : P (o.get? (str "meta")))
    (hdrop : ∀ (block : Dict Json) key, (some (str "meta"), key) ∈ forbiddenKeys → P (some (.obj block)) →
      P (some (.obj (block.erase key)))) :
    P ((foldIdentity o).get? (str "meta")) := by
  refine foldIdentity_induction (P := fun e => P (e.get? (str "meta"))) h ?_ ?_ ?_
  · intro e k hk _ he
    rcases forbiddenKeys_cases hk with rfl | ⟨key, rfl⟩
    · simpa only [dropKey, Dict.get?_erase_of_ne _ (show str "meta" ≠ str "timestamp" by simp)] using he
    · simp only [dropKey]
      split
      · next block hb =>
        rw [Dict.get?_set_self]
        exact hdrop block key hk (hb ▸ he)
      · exact he
  · intro e he
    simpa only [Dict.get?_erase_of_ne _ (show str "meta" ≠ str "urn" by simp)] using he
  · intro e v _ he
    simpa only [Dict.get?_set_of_ne _ _ (show str "meta" ≠ str "job" by simp),
      Dict.get?_erase_of_ne _ (show str "meta" ≠ str "urn" by simp)] using he

theorem get?_urn_stripForbiddenKeys (o : Dict Json) :
    (stripForbiddenKeys o).get? (str "urn") = o.get? (str "urn") := by
  refine stripForbiddenKeys_induction (P := fun e => e.get? (str "urn") = o.get? (str "urn")) rfl ?_
  intro e k hk _ he
  rcases forbiddenKeys_cases hk with rfl | ⟨key, rfl⟩
  · rw [dropKey, Dict.get?_erase_of_ne _ (by simp), he]
  · simp only [dropKey]
    split
    · rw [Dict.get?_set_of_ne _ _ (by simp), he]
    · exact he

theorem job_foldIdentity (o : Dict Json) :
    (foldIdentity o).get? (str "job") =
      if isValidUrn (o.getJ (str "job")) then o.get? (str "job")
      else if isValidUrn (o.getJ (str "urn")) then o.get? (str "urn")
      else o.get? (str "job") := by
  have hj : (stripForbiddenKeys o).get? (str "job") = o.get? (str "job") := get?_stripForbiddenKeys o (by simp [Plain])
  have hju : ((stripForbiddenKeys o).erase (str "urn")).get? (str "job") = o.get? (str "job") := by
    rw [Dict.get?_erase_of_ne _ (by simp), hj]
  unfold foldIdentity
  rw [get?_urn_stripForbiddenKeys]
  simp only [Dict.getJ]
  split
  · next hu => simp [hu, isValidUrn, hj]
  · next aliased hu =>
    simp only [hu, foldAlias, Dict.getJ, hju, Option.getD_some]
    split
    · exact hju
    · split
      · exact Dict.get?_set_self _ _ _
      · exact hju

theorem identity_foldIdentity (o : Dict Json) : envelopeUrn (foldIdentity o) = envelopeUrn o := by
  have hu : (foldIdentity o).getJ (str "urn") = .null := by
    rw [Dict.getJ, (clean_iff.mp (clean_foldIdentity o)).2]
    rfl
  have hj : (foldIdentity o).getJ (str "job") =
      if isValidUrn (o.getJ (str "job")) then o.getJ (str "job")
      else if isValidUrn (o.getJ (str "urn")) then o.getJ (str "urn")
      else o.getJ (str "job") := by
    rw [Dict.getJ, job_foldIdentity]
    split
    · rfl
    · split <;> rfl
  unfold envelopeUrn
  rw [hu, hj]
  by_cases h1 : isValidUrn (o.getJ (str "job")) = true
  · simp only [if_pos h1]
  · by_cases h2 : isValidUrn (o.getJ (str "urn")) = true
    · simp only [if_neg h1, if_pos h2]
    · simp only [if_neg h1, if_neg h2]
      rw [if_neg (by simp [isValidUrn])]

theorem folds_foldIdentity (o : Dict Json) : Folds o (foldIdentity o) where
  clean := carries_refused_iff.mpr (clean_foldIdentity o)
  job := job_foldIdentity o
  kept key hk hj hm := by
    simp only [refusedKeys, List.mem_append, List.mem_cons, List.not_mem_nil, or_false, not_or, forbiddenKeys,
      Prod.mk.injEq, true_and] at hk
    exact get?_foldIdentity o ⟨by simpa using hk.1, hm, hk.2⟩ hj
  kept_meta h := by
    refine meta_foldIdentity_induction (P := fun v => v = o.get? (str "meta")) rfl fun block key _ he => ?_
    rw [Dict.getJ, ← he] at h
    cases h
  kept_block block hb := by
    have hmeta := meta_foldIdentity_induction (o := o)
      (P := fun v => ∃ block' : Dict Json, v = some (.obj block') ∧
        ∀ key, (some (str "meta"), key) ∉ forbiddenKeys → Dict.get? block' key = Dict.get? block key)
      ⟨block, hb, fun _ _ => rfl⟩ ?_
    · obtain ⟨block', hb', hkeep⟩ := hmeta
      refine ⟨block', hb', fun key => ?_⟩
      by_cases hk : (some (str "meta"), key) ∈ refusedKeys
      · rw [if_pos hk]
        have := carries_refused_iff.mpr (clean_foldIdentity o) _ hk
        simpa [carries, container, Dict.getJ, hb', asObj?, Dict.has] using this
      · rw [if_neg hk]
        exact hkeep key fun h => hk (List.mem_append_left _ h)
    · rintro _ key hk ⟨block', he, hkeep⟩
      cases he
      refine ⟨_, rfl, fun key' hk' => ?_⟩
      rw [Dict.get?_erase_of_ne _ (by rintro rfl; exact hk' hk), hkeep key' hk']
  identity := identity_foldIdentity o

/-- Folding keeps the members of `meta` that `encode` does not refuse. -/
theorem getJ_meta_foldIdentity (o : Dict Json) {key : Str} (hkey : (some (str "meta"), key) ∉ refusedKeys) :
    Dict.getJ ((((foldIdentity o).getJ (str "meta")).asObj?).getD []) key =
      Dict.getJ (((o.getJ (str "meta")).asObj?).getD []) key := by
  have hfolds := folds_foldIdentity o
  cases ho : (o.getJ (str "meta")).asObj? with
  | none =>
    have hkept : (foldIdentity o).getJ (str "meta") = o.getJ (str "meta") := by
      unfold Dict.getJ
      rw [hfolds.kept_meta ho]
    rw [hkept, ho]
  | some block =>
    have hblock : o.get? (str "meta") = some (.obj block) := by
      unfold Dict.getJ at ho
      cases hm : o.get? (str "meta") with
      | none => rw [hm] at ho; cases ho
      | some v =>
        rw [hm] at ho
        cases v with
        | obj ms => cases ho; rfl
        | _ => cases ho
    obtain ⟨block', hb', hget⟩ := hfolds.kept_block block hblock
    have hj : (foldIdentity o).getJ (str "meta") = .obj block' := by
      unfold Dict.getJ
      rw [hb']
      rfl
    rw [hj]
    show (Dict.get? block' key).getD .null = (Dict.get? block key).getD .null
    rw [hget, if_neg hkey]

theorem foldIdentity_idem (o : Dict Json) : foldIdentity (foldIdentity o) = foldIdentity o :=
  foldIdentity_of_clean (clean_foldIdentity o)

theorem hasIdentity_foldIdentity {o : Dict Json} :
    isValidUrn ((foldIdentity o).getJ (str "job")) = true ↔ HasIdentity o := by
  refine ⟨fun h => ?_, isValidUrn_foldIdentity⟩
  rw [Dict.getJ, job_foldIdentity] at h
  split at h
  · next hj => exact .inl hj
  · split at h
    · next hu => exact .inr hu
    · exact .inl h

/-! ## Encoding -/

theorem firstEncodeViolation_eq (o : Dict Json) :
    firstEncodeViolation o = (refusedKeys.find? (carries o)).map pointer := by
  rw [firstEncodeViolation, refusedKeys, List.find?_append]
  cases forbiddenKeys.find? (carries o) with
  | some k => rfl
  | none =>
    simp only [Option.none_or, List.find?_cons, List.find?_nil, carries, container]
    cases o.has (str "urn") <;> rfl

variable [Interpreter]

/-- The refusal of `encode`, for the key `k`. -/
def Refuses (o : Dict Json) (k : Option Str × Str) : Prop :=
  encode o = .error ⟨envelopeKeyError, str "Refusing to encode the forbidden envelope key " ++ pointer k ++
    str " (non-canonical, message-envelope.md §10)."⟩

/-- The refusals of `encode` are its only `EnvelopeKeyError`s. -/
theorem encode_keyError_iff {o : Dict Json} :
    (∃ e, encode o = .error e ∧ e.cls = envelopeKeyError) ↔ ∃ k ∈ refusedKeys, carries o k = true := by
  unfold encode
  rw [firstEncodeViolation_eq]
  cases hf : refusedKeys.find? (carries o) with
  | some k =>
    refine ⟨fun _ => ⟨k, List.mem_of_find?_eq_some hf, List.find?_some hf⟩, fun _ => ⟨_, rfl, rfl⟩⟩
  | none =>
    refine ⟨fun ⟨e, he, hc⟩ => ?_, fun ⟨k, hk, hc⟩ => absurd hc (List.find?_eq_none.mp hf k hk)⟩
    rcases dumpsAt_cls he with h | h <;> rw [h] at hc <;> cases hc

theorem encode_refuses {o : Dict Json} {k : Option Str × Str} (h : refusedKeys.find? (carries o) = some k) :
    Refuses o k := by
  unfold Refuses encode
  rw [firstEncodeViolation_eq, h]
  rfl

/-! ## Raw texts -/

/-- What `decode_lenient` returns is written, and read back as it was. -/
theorem encode_decodeLenient {raw : Str} {o : Dict Json} (h : decodeLenient raw = .ok o) :
    ∃ s, encode o = .ok s ∧ decodeLenient s = .ok o := by
  obtain ⟨hc, hs⟩ : Clean o ∧ Storable o := by
    unfold decodeLenient at h
    split at h
    · cases h
    · cases h; exact ⟨clean_nil, storable_nil⟩
    · next parsed hp =>
      cases h
      refine ⟨clean_foldIdentity parsed, storable_foldIdentity ?_⟩
      exact storable_of_loads (loads_of_parseObject hp)
  obtain ⟨s, hs'⟩ := encode_isOk hc hs
  exact ⟨s, hs', decodeLenient_encode hs.proper hs'⟩

theorem decode_of_object {raw : Str} {o : Dict Json} (h : parseObject raw = .ok (some o)) :
    ((∃ e, decode raw = .error e) ↔ ¬ HasIdentity o) ∧ (HasIdentity o → decode raw = decodeLenient raw) := by
  unfold decode decodeLenient
  rw [h]
  dsimp only
  rw [← hasIdentity_foldIdentity]
  split
  · next hid => simp [hid]
  · next hid => simp [hid]

theorem decode_of_not_object {raw : Str} (h : ∀ o, parseObject raw ≠ .ok (some o)) :
    decode raw = decodeLenient raw := by
  unfold decode decodeLenient
  split
  · rfl
  · rfl
  · next o ho => exact absurd ho (h o)

/-- Decoding gives the normal form of an envelope, and encoding accepts the normal forms and no
other envelope. -/
theorem normal_form :
    (∀ o : Dict Json, Folds o (foldIdentity o) ∧ foldIdentity (foldIdentity o) = foldIdentity o) ∧
    (∀ o : Dict Json, ((∃ e, encode o = .error e ∧ e.cls = envelopeKeyError) ↔ ∃ k ∈ refusedKeys, carries o k = true) ∧
      ∀ k, refusedKeys.find? (carries o) = some k → Refuses o k) ∧
    (∀ raw o, decodeLenient raw = .ok o → ∃ s, encode o = .ok s ∧ decodeLenient s = .ok o) ∧
    (∀ raw o, parseObject raw = .ok (some o) →
      ((∃ e, decode raw = .error e) ↔ ¬ HasIdentity o) ∧ (HasIdentity o → decode raw = decodeLenient raw)) ∧
    ∀ raw, (∀ o, parseObject raw ≠ .ok (some o)) → decode raw = decodeLenient raw :=
  ⟨fun o => ⟨folds_foldIdentity o, foldIdentity_idem o⟩, fun _ => ⟨encode_keyError_iff, fun _ => encode_refuses⟩,
    fun _ _ => encode_decodeLenient, fun _ _ => decode_of_object, fun _ => decode_of_not_object⟩

end BabelQueue
