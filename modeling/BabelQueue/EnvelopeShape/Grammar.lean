import BabelQueue.EnvelopeShape

/-!
# What the strict decode accepts

* `EnvelopeGrammar`: the types of the members of a body, occurrence by occurrence.
* `checkObject_none_iff`: `_check_object` finds nothing exactly in the trees of the grammar.
* `envelopeViolation_none_iff`: `envelope_violation` accepts a text exactly when it spells `null` or
  an object of the grammar, not nested deeper than `json` reads.
-/

namespace BabelQueue

open Py Py.Json

def StringOrNull (t : Tree) : Prop := t = .null ∨ ∃ s, t = .str s

/-- `null`, or an integer literal whose value fits an `int64`. -/
def Int64OrNull (t : Tree) : Prop :=
  t = .null ∨ ∃ l, t = .num l ∧ l.isFloat = false ∧ int64Min ≤ l.toInt ∧ l.toInt ≤ int64Max

/-- Every number in the tree, at any depth, is a finite double. -/
def NumbersFinite (t : Tree) : Prop :=
  t.All fun
    | .num l => l.toFloat.isFinite = true
    | .const _ => False
    | _ => True

/-- The members of a `meta` object. -/
structure MetaGrammar (ms : List (Str × Tree)) : Prop where
  strings : ∀ key ∈ [str "id", str "queue", str "lang"], ∀ t, (key, t) ∈ ms → StringOrNull t
  integers : ∀ key ∈ [str "schema_version", str "created_at"], ∀ t, (key, t) ∈ ms → Int64OrNull t

/-- The members of a `dead_letter` object. -/
structure DeadLetterGrammar (ms : List (Str × Tree)) : Prop where
  strings : ∀ key ∈ [str "reason", str "error", str "exception", str "original_queue", str "lang"], ∀ t,
    (key, t) ∈ ms → StringOrNull t
  integers : ∀ key ∈ [str "failed_at", str "attempts"], ∀ t, (key, t) ∈ ms → Int64OrNull t

/-- The members of a body. Every occurrence of a repeated member counts; other members are free. -/
structure EnvelopeGrammar (ms : List (Str × Tree)) : Prop where
  trace_id : ∀ t, (str "trace_id", t) ∈ ms → StringOrNull t
  attempts : ∀ t, (str "attempts", t) ∈ ms → Int64OrNull t
  data : ∀ t, (str "data", t) ∈ ms → t = .null ∨ ∃ inner, t = .obj inner ∧ NumbersFinite t
  meta_block : ∀ t, (str "meta", t) ∈ ms → t = .null ∨ ∃ inner, t = .obj inner ∧ MetaGrammar inner
  dead_letter : ∀ t, (str "dead_letter", t) ∈ ms → t = .null ∨ ∃ inner, t = .obj inner ∧ DeadLetterGrammar inner

/-- The literals of a tree follow the grammar of numbers, as those of a text do. -/
def ValidLiterals (t : Tree) : Prop := t.All fun t => ∀ l, t = .num l → l.Valid

/-! ## Numbers -/

theorem isInt64_iff {t : Tree} (hv : ValidLiterals t) (h : t ≠ .null) : isInt64 t = true ↔ Int64OrNull t := by
  rw [Int64OrNull, or_iff_right h]
  cases t with
  | num l =>
    simp only [isInt64, Bool.and_eq_true, Bool.not_eq_true', decide_eq_true_eq, Tree.num.injEq, exists_eq_left']
    refine ⟨fun h => ⟨h.1.1.1, h.1.2, h.2⟩, ?_⟩
    rintro ⟨hf, h1, h2⟩
    refine ⟨⟨⟨hf, ?_⟩, h1⟩, h2⟩
    -- A literal of more than 4000 characters is out of the range.
    by_contra hlen
    have hbig := NumLit.le_natAbs_toInt (hv l rfl) hf (show 1 ≤ 64 by omega) (by rw [maxIntDigits] at hlen; omega)
    simp only [int64Min, int64Max] at h1 h2
    omega
  | _ => simp [isInt64]

theorem isFiniteNumber_num {l : NumLit} (hv : l.Valid) : isFiniteNumber (.num l) = l.toFloat.isFinite := by
  cases hf : l.isFloat with
  | true => simp [isFiniteNumber, hf]
  | false =>
    have hfin := Float64.ofInt_isFinite l.toInt _ rfl
    rw [NumLit.toFloat_of_int hf, Float64.ofRatio_isFinite _ (decide (l.toInt < 0)), ← hfin]
    by_cases hlen : l.text.length ≤ maxIntDigits
    · simp only [isFiniteNumber, hf, Bool.false_eq_true, if_false, if_pos hlen]
      cases Float64.ofInt l.toInt <;> rfl
    · have hbig : ∀ k, k = 1024 → 2 ^ k ≤ l.toInt.natAbs := fun k hk =>
        (Nat.pow_le_pow_left (by omega) k).trans
          (NumLit.le_natAbs_toInt hv hf (by omega) (by rw [maxIntDigits] at hlen; omega))
      simp only [isFiniteNumber, hf, Bool.false_eq_true, if_false, if_neg hlen]
      rw [hfin, Float64.ofRatio_one_not_finite (hbig _ rfl)]

theorem allItemsFinite_iff {ts : List Tree} : allItemsFinite ts = true ↔ ∀ t ∈ ts, allNumbersFinite t = true := by
  induction ts with
  | nil => simp [allItemsFinite]
  | cons t ts ih => simp [allItemsFinite, ih]

theorem allMembersFinite_iff {ms : List (Str × Tree)} :
    allMembersFinite ms = true ↔ ∀ m ∈ ms, allNumbersFinite m.2 = true := by
  induction ms with
  | nil => simp [allMembersFinite]
  | cons m ms ih => obtain ⟨k, t⟩ := m; simp [allMembersFinite, ih]

theorem allNumbersFinite_iff {t : Tree} (hv : ValidLiterals t) : allNumbersFinite t = true ↔ NumbersFinite t := by
  induction t using Tree.ind with
  | num l => simp [allNumbersFinite, isFiniteNumber_num (hv l rfl), NumbersFinite, Tree.All]
  | arr ts ih =>
    have hvs := allItems_iff.mp hv.2
    rw [allNumbersFinite, allItemsFinite_iff, NumbersFinite, Tree.All, allItems_iff]
    simp only [true_and]
    exact forall₂_congr fun t ht => ih t ht (hvs t ht)
  | obj ms ih =>
    have hvs := allMembers_iff.mp hv.2
    rw [allNumbersFinite, allMembersFinite_iff, NumbersFinite, Tree.All, allMembers_iff]
    simp only [true_and]
    exact forall₂_congr fun m hm => ih m hm (hvs m hm)
  | const c => simp [allNumbersFinite, isFiniteNumber, NumbersFinite, Tree.All]
  | _ => simp [allNumbersFinite, isFiniteNumber, NumbersFinite, Tree.All]

/-! ## Members -/

variable [Interpreter]

theorem checkMember_string {name : Str} {t : Tree} : checkMember .string name t = none ↔ StringOrNull t := by
  cases t <;> simp [checkMember, memberFailure, StringOrNull]

theorem checkMember_integer {name : Str} {t : Tree} (hv : ValidLiterals t) :
    checkMember .integer name t = none ↔ Int64OrNull t := by
  by_cases hn : t = .null
  · subst hn
    exact ⟨fun _ => .inl rfl, fun _ => rfl⟩
  · rw [← isInt64_iff hv hn]
    cases t <;> simp [checkMember, memberFailure] at hn ⊢

theorem checkMember_object {name : Str} {t : Tree} :
    checkMember .object name t = none ↔ t = .null ∨ ∃ inner, t = .obj inner := by
  cases t <;> simp [checkMember, memberFailure]

theorem checkMember_data {name : Str} {t : Tree} (hv : ValidLiterals t) :
    checkMember .data name t = none ↔ t = .null ∨ ∃ inner, t = .obj inner ∧ NumbersFinite t := by
  cases t with
  | obj ms => simp [checkMember, memberFailure, ← allNumbersFinite_iff hv]
  | _ => simp [checkMember, memberFailure]

theorem checkPairs_none_iff {kinds : Dict MemberKind} {pre : Str} {nested : Str → List (Str × Tree) → Option Str}
    {pairs : List (Str × Tree)} :
    checkPairs kinds pre nested pairs = none ↔ ∀ key kind, kinds.get? key = some kind → ∀ t, (key, t) ∈ pairs →
      checkMember kind (pre ++ key) t = none ∧ ∀ ms, kind = .object → t = .obj ms → nested key ms = none := by
  refine ⟨fun h key kind hk t hm => checkPairs_none h hm hk, fun h => ?_⟩
  induction pairs with
  | nil => rfl
  | cons p pairs ih =>
    obtain ⟨key, t⟩ := p
    have hrest := ih fun key kind hk t hm => h key kind hk t (List.mem_cons_of_mem _ hm)
    rw [checkPairs]
    split
    · exact hrest
    · next kind hk =>
      obtain ⟨hc, hn⟩ := h key kind hk t List.mem_cons_self
      rw [hc]
      dsimp only
      split
      · next ms => rw [hn ms rfl rfl]; exact hrest
      · exact hrest

/-! ## Tables -/

omit [Interpreter] in
theorem get?_metaKinds {key : Str} {kind : MemberKind} : metaKinds.get? key = some kind ↔
    kind = .string ∧ key ∈ [str "id", str "queue", str "lang"] ∨
      kind = .integer ∧ key ∈ [str "schema_version", str "created_at"] := by
  constructor
  · intro h
    have := Dict.mem_of_get? h
    simp only [metaKinds, List.mem_cons, Prod.mk.injEq, List.not_mem_nil, or_false] at this
    rcases this with ⟨rfl, rfl⟩ | ⟨rfl, rfl⟩ | ⟨rfl, rfl⟩ | ⟨rfl, rfl⟩ | ⟨rfl, rfl⟩ <;> simp
  · simp only [List.mem_cons, List.not_mem_nil, or_false]
    rintro (⟨rfl, rfl | rfl | rfl⟩ | ⟨rfl, rfl | rfl⟩) <;> simp [metaKinds, Dict.get?]

omit [Interpreter] in
theorem get?_deadLetterKinds {key : Str} {kind : MemberKind} : deadLetterKinds.get? key = some kind ↔
    kind = .string ∧ key ∈ [str "reason", str "error", str "exception", str "original_queue", str "lang"] ∨
      kind = .integer ∧ key ∈ [str "failed_at", str "attempts"] := by
  constructor
  · intro h
    have := Dict.mem_of_get? h
    simp only [deadLetterKinds, List.mem_cons, Prod.mk.injEq, List.not_mem_nil, or_false] at this
    rcases this with ⟨rfl, rfl⟩ | ⟨rfl, rfl⟩ | ⟨rfl, rfl⟩ | ⟨rfl, rfl⟩ | ⟨rfl, rfl⟩ | ⟨rfl, rfl⟩ | ⟨rfl, rfl⟩ <;> simp
  · simp only [List.mem_cons, List.not_mem_nil, or_false]
    rintro (⟨rfl, rfl | rfl | rfl | rfl | rfl⟩ | ⟨rfl, rfl | rfl⟩) <;> simp [deadLetterKinds, Dict.get?]

omit [Interpreter] in
theorem get?_topKinds {key : Str} {kind : MemberKind} : topKinds.get? key = some kind ↔
    kind = .string ∧ key = str "trace_id" ∨ kind = .integer ∧ key = str "attempts" ∨
      kind = .data ∧ key = str "data" ∨ kind = .object ∧ (key = str "meta" ∨ key = str "dead_letter") := by
  constructor
  · intro h
    have := Dict.mem_of_get? h
    simp only [topKinds, List.mem_cons, Prod.mk.injEq, List.not_mem_nil, or_false] at this
    rcases this with ⟨rfl, rfl⟩ | ⟨rfl, rfl⟩ | ⟨rfl, rfl⟩ | ⟨rfl, rfl⟩ | ⟨rfl, rfl⟩ <;> simp
  · rintro (⟨rfl, rfl⟩ | ⟨rfl, rfl⟩ | ⟨rfl, rfl⟩ | ⟨rfl, rfl | rfl⟩) <;> simp [topKinds, Dict.get?]

theorem checkBlock_meta {ms : List (Str × Tree)} (hv : ∀ m ∈ ms, ValidLiterals m.2) :
    checkBlock (str "meta") ms = none ↔ MetaGrammar ms := by
  rw [checkBlock, if_pos rfl, checkPairs_none_iff]
  constructor
  · intro h
    refine ⟨fun key hk t hm => ?_, fun key hk t hm => ?_⟩
    · exact checkMember_string.mp (h key .string (get?_metaKinds.mpr (.inl ⟨rfl, hk⟩)) t hm).1
    · exact (checkMember_integer (hv _ hm)).mp (h key .integer (get?_metaKinds.mpr (.inr ⟨rfl, hk⟩)) t hm).1
  · intro h key kind hk t hm
    rcases get?_metaKinds.mp hk with ⟨rfl, hkey⟩ | ⟨rfl, hkey⟩
    · exact ⟨checkMember_string.mpr (h.strings key hkey t hm), by simp⟩
    · exact ⟨(checkMember_integer (hv _ hm)).mpr (h.integers key hkey t hm), by simp⟩

theorem checkBlock_dead_letter {ms : List (Str × Tree)} (hv : ∀ m ∈ ms, ValidLiterals m.2) :
    checkBlock (str "dead_letter") ms = none ↔ DeadLetterGrammar ms := by
  rw [checkBlock, if_neg (by simp), checkPairs_none_iff]
  constructor
  · intro h
    refine ⟨fun key hk t hm => ?_, fun key hk t hm => ?_⟩
    · exact checkMember_string.mp (h key .string (get?_deadLetterKinds.mpr (.inl ⟨rfl, hk⟩)) t hm).1
    · exact (checkMember_integer (hv _ hm)).mp (h key .integer (get?_deadLetterKinds.mpr (.inr ⟨rfl, hk⟩)) t hm).1
  · intro h key kind hk t hm
    rcases get?_deadLetterKinds.mp hk with ⟨rfl, hkey⟩ | ⟨rfl, hkey⟩
    · exact ⟨checkMember_string.mpr (h.strings key hkey t hm), by simp⟩
    · exact ⟨(checkMember_integer (hv _ hm)).mpr (h.integers key hkey t hm), by simp⟩

/-- The object check on the trees of a text. -/
theorem checkObject_none_iff {ms : List (Str × Tree)} (hv : ∀ m ∈ ms, ValidLiterals m.2) :
    checkObject ms = none ↔ EnvelopeGrammar ms := by
  have hinner : ∀ {key inner}, (key, Tree.obj inner) ∈ ms → ∀ m ∈ inner, ValidLiterals m.2 :=
    fun hm => allMembers_iff.mp (hv _ hm).2
  rw [checkObject, checkPairs_none_iff]
  constructor
  · intro h
    refine ⟨fun t hm => ?_, fun t hm => ?_, fun t hm => ?_, fun t hm => ?_, fun t hm => ?_⟩
    · exact checkMember_string.mp (h _ .string (get?_topKinds.mpr (by simp)) t hm).1
    · exact (checkMember_integer (hv _ hm)).mp (h _ .integer (get?_topKinds.mpr (by simp)) t hm).1
    · exact (checkMember_data (hv _ hm)).mp (h _ .data (get?_topKinds.mpr (by simp)) t hm).1
    · obtain ⟨hc, hn⟩ := h _ .object (get?_topKinds.mpr (by simp)) t hm
      rcases checkMember_object.mp hc with rfl | ⟨inner, rfl⟩
      · exact .inl rfl
      · exact .inr ⟨inner, rfl, (checkBlock_meta (hinner hm)).mp (hn inner rfl rfl)⟩
    · obtain ⟨hc, hn⟩ := h _ .object (get?_topKinds.mpr (by simp)) t hm
      rcases checkMember_object.mp hc with rfl | ⟨inner, rfl⟩
      · exact .inl rfl
      · exact .inr ⟨inner, rfl, (checkBlock_dead_letter (hinner hm)).mp (hn inner rfl rfl)⟩
  · intro h key kind hk t hm
    rcases get?_topKinds.mp hk with ⟨rfl, rfl⟩ | ⟨rfl, rfl⟩ | ⟨rfl, rfl⟩ | ⟨rfl, rfl | rfl⟩
    · exact ⟨checkMember_string.mpr (h.trace_id t hm), by simp⟩
    · exact ⟨(checkMember_integer (hv _ hm)).mpr (h.attempts t hm), by simp⟩
    · exact ⟨(checkMember_data (hv _ hm)).mpr (h.data t hm), by simp⟩
    · rcases h.meta_block t hm with rfl | ⟨inner, rfl, hi⟩
      · exact ⟨checkMember_object.mpr (.inl rfl), by simp⟩
      · refine ⟨checkMember_object.mpr (.inr ⟨inner, rfl⟩), ?_⟩
        rintro _ - ⟨⟩
        exact (checkBlock_meta (hinner hm)).mpr hi
    · rcases h.dead_letter t hm with rfl | ⟨inner, rfl, hi⟩
      · exact ⟨checkMember_object.mpr (.inl rfl), by simp⟩
      · refine ⟨checkMember_object.mpr (.inr ⟨inner, rfl⟩), ?_⟩
        rintro _ - ⟨⟩
        exact (checkBlock_dead_letter (hinner hm)).mpr hi

/-! ## Texts -/

/-- A tree of RFC 8259: no `NaN`, no infinity. -/
def NoConstant (t : Tree) : Prop := t.All fun t => ∀ c, t ≠ .const c

omit [Interpreter] in
theorem fits_shapeHooks {d : Nat} {t : Tree} : Fits shapeHooks d t ↔ t.depth ≤ d ∧ NoConstant t := by
  refine and_congr_right fun _ => ⟨fun h => h.imp fun t ha c hc => ?_, fun h => h.imp fun t ha => ?_⟩
  · subst hc
    cases ha
  · cases t with
    | const c => exact absurd rfl (ha c)
    | num l => exact .inr rfl
    | _ => trivial

end BabelQueue
