import BabelQueue.Schema

/-!
# What `validate_schema` decides

* `Satisfies eq schema value`: the semantics of the keywords other than `minimum`, with `eq` for
  `const` and `enum`.
* `validateSchema_spec`: the validator decides `Satisfies` for the equality of the code.
* `Confused schema value`: a `const` or an `enum` that the value meets only because a `bool` inside it
  is taken for a number.
* `validateSchema_decides`: the validator decides `Satisfies Same` but for values that are confused
  somewhere and violate nothing else.
-/

namespace BabelQueue.Schema

open Py Py.Json

/-! ## The semantics -/

/-- `value` is of the schema's type. A type of another name is ignored. -/
@[mk_iff]
structure OfType (schema : Dict Json) (value : Json) : Prop where
  object : hasType schema "object" = true → ∃ d, value = .obj d
  array : hasType schema "array" = true → ∃ vs, value = .arr vs
  string : hasType schema "string" = true → ∃ s, value = .str s
  integer : hasType schema "integer" = true → ∃ i, value = .int i
  number : hasType schema "number" = true → ∃ i, value = .int i
  boolean : hasType schema "boolean" = true → ∃ b, value = .bool b
  null : hasType schema "null" = true → value = .null

/-- The keywords of one node that look at the value and not at its parts, for a value whose numbers are
integers. -/
structure Meets (eq : Json → Json → Prop) (schema : Dict Json) (value : Json) : Prop where
  const : ∀ c, schema.get? (str "const") = some c → eq value c
  enum : ∀ items, schema.getJ (str "enum") = .arr items → ∃ item ∈ items, eq value item
  type : OfType schema value
  required : ∀ (d : Dict Json) keys key, hasType schema "object" = true → value = .obj d →
    schema.getJ (str "required") = .arr keys → .str key ∈ keys → d.has key = true
  additional : ∀ (d : Dict Json) name item, hasType schema "object" = true → value = .obj d → (name, item) ∈ d →
    propertySchema schema name = none → additionalAllowed schema = true
  minLength : ∀ s n, hasType schema "string" = true → value = .str s → minLength schema = some (.ok n) →
    n ≤ s.length

/-- `value` satisfies the schema, with each of its parts. -/
inductive Satisfies (eq : Json → Json → Prop) : Dict Json → Json → Prop
  | intro {schema : Dict Json} {value : Json} (meets : Meets eq schema value)
      (properties : ∀ (d : Dict Json) name item prop, hasType schema "object" = true → value = .obj d → (name, item) ∈ d →
        propertySchema schema name = some prop → Satisfies eq prop item)
      (items : ∀ vs item sub, hasType schema "array" = true → value = .arr vs → schema.getJ (str "items") = .obj sub →
        item ∈ vs → Satisfies eq sub item) : Satisfies eq schema value

/-- The nodes of the schema, each with the part of the value that it is for. -/
inductive Visits : Dict Json → Json → Dict Json → Json → Prop
  | here {schema : Dict Json} {value : Json} : Visits schema value schema value
  | property {schema d prop s : Dict Json} {name : Str} {item w : Json} (ht : hasType schema "object" = true)
      (hm : (name, item) ∈ d) (hp : propertySchema schema name = some prop) (h : Visits prop item s w) :
      Visits schema (.obj d) s w
  | item {schema sub s : Dict Json} {vs : List Json} {item w : Json} (ht : hasType schema "array" = true)
      (hm : item ∈ vs) (hs : schema.getJ (str "items") = .obj sub) (h : Visits sub item s w) :
      Visits schema (.arr vs) s w

/-- A schema of the keywords of the subset other than `minimum`, whose numbers are integers. -/
inductive SchemaTree : Dict Json → Prop
  | intro {schema : Dict Json} (integral : Integral (.obj schema)) (proper : Json.Proper (.obj schema))
      (minimum : schema.get? (str "minimum") = none)
      (properties : ∀ name prop, propertySchema schema name = some prop → SchemaTree prop)
      (items : ∀ sub, schema.getJ (str "items") = .obj sub → SchemaTree sub) : SchemaTree schema

/-- The `const` or the `enum` of a node is met by the equality of the code only. -/
def Confused (schema : Dict Json) (value : Json) : Prop :=
  (∃ c, schema.get? (str "const") = some c ∧ equal value c = true ∧ ¬ Same value c) ∨
    ∃ items, schema.getJ (str "enum") = .arr items ∧ (∃ item ∈ items, equal value item = true) ∧
      ∀ item ∈ items, ¬ Same value item

/-- The validator decides the semantics, and what it reports is one violation. -/
def Decided (schema : Dict Json) (value : Json) (path : Str) : Prop :=
  (validateSchema value schema path = .ok none ↔ Satisfies Same schema value) ∧
    (¬ Satisfies Same schema value → ∃ violation, validateSchema value schema path = .ok (some violation))

/-! ## Visited nodes -/

theorem satisfies_iff {eq : Json → Json → Prop} {schema : Dict Json} {value : Json} :
    Satisfies eq schema value ↔ ∀ s w, Visits schema value s w → Meets eq s w := by
  constructor
  · intro h s w hv
    induction hv with
    | here => cases h with | intro hm _ _ => exact hm
    | property ht hm hp _ ih => cases h with | intro _ hprop _ => exact ih (hprop _ _ _ _ ht rfl hm hp)
    | item ht hm hs _ ih => cases h with | intro _ _ hitem => exact ih (hitem _ _ _ ht rfl hs hm)
  · intro h
    induction value using Json.ind generalizing schema with
    | arr vs ih =>
      refine .intro (h _ _ .here) (fun _ _ _ _ _ e => nomatch e) ?_
      rintro _ item sub ht ⟨⟩ hs hm
      exact ih item hm fun s w hv => h s w (.item ht hm hs hv)
    | obj d ih =>
      refine .intro (h _ _ .here) ?_ fun _ _ _ _ e => nomatch e
      rintro _ name item prop ht ⟨⟩ hm hp
      exact ih _ hm fun s w hv => h s w (.property ht hm hp hv)
    | _ => exact .intro (h _ _ .here) (fun _ _ _ _ _ e => nomatch e) fun _ _ _ _ e => nomatch e

theorem Visits.schemaTree {schema s : Dict Json} {value w : Json} (h : Visits schema value s w)
    (hs : SchemaTree schema) : SchemaTree s := by
  induction h with
  | here => exact hs
  | property _ _ hp _ ih => cases hs with | intro _ _ _ hprop _ => exact ih (hprop _ _ hp)
  | item _ _ hi _ ih => cases hs with | intro _ _ _ _ hitem => exact ih (hitem _ hi)

theorem Visits.value {schema s : Dict Json} {value w : Json} (h : Visits schema value s w) (hi : Integral value)
    (hp : value.Proper) : Integral w ∧ w.Proper := by
  induction h with
  | here => exact ⟨hi, hp⟩
  | property _ hm _ _ ih => exact ih (integral_obj.mp hi _ hm) ((proper_obj.mp hp).2 _ hm)
  | item _ hm _ _ ih => exact ih (integral_arr.mp hi _ hm) (proper_arr.mp hp _ hm)

/-! ## One node -/

theorem hasType_iff {schema : Dict Json} {typ : String} : hasType schema typ = true ↔ schema.getJ (str "type") = .str (str typ) := by
  unfold hasType
  split
  · next t ht => rw [ht]; simp
  · next h => simp only [Bool.false_eq_true, false_iff]; exact h _

theorem checkFixed_none_iff {schema : Dict Json} {value : Json} :
    checkFixed schema value = none ↔
      (∀ c, schema.get? (str "const") = some c → equal value c = true) ∧
        ∀ items, schema.getJ (str "enum") = .arr items → ∃ item ∈ items, equal value item = true := by
  have hconst : ((schema.get? (str "const")).any fun c => !equal value c) = true ↔
      ¬ ∀ c, schema.get? (str "const") = some c → equal value c = true := by
    cases schema.get? (str "const") <;> simp
  unfold checkFixed
  split
  · next h => simp [hconst.mp h]
  · next h =>
    rw [hconst, not_not] at h
    rw [and_iff_right h]
    split
    · next items hitems => rw [hitems]; simp
    · next hne => simp only [true_iff]; exact fun items hitems => absurd hitems (hne items)

theorem hasType_eq {schema : Dict Json} {a : String} (h : hasType schema a = true) (b : String) :
    hasType schema b = decide (str a = str b) := by
  rw [hasType_iff] at h
  rw [Bool.eq_iff_iff, hasType_iff, h, decide_eq_true_iff, Json.str.injEq]

theorem checkMinimum_absent {schema : Dict Json} {value : Json} {path : Str}
    (h : schema.get? (str "minimum") = none) : checkMinimum schema value path = .ok none := by
  unfold checkMinimum
  have hm : asNumber? (schema.getJ (str "minimum")) = none := by rw [Dict.getJ, h]; rfl
  rw [hm]
  cases asNumber? value <;> rfl

theorem minLength_ok {schema : Dict Json} {bound : Except PyExc Int} (hi : Integral (.obj schema))
    (h : minLength schema = some bound) : ∃ n, bound = .ok n := by
  have hint := hi.getJ (str "minLength")
  unfold minLength at h
  split at h
  · exact ⟨_, (Option.some.inj h).symm⟩
  · exact ⟨_, (Option.some.inj h).symm⟩
  · next x hx => rw [hx] at hint; cases hint
  · cases h

/-- The types without parts, for a node without `minimum`. -/
theorem checkScalar_spec {schema : Dict Json} {value : Json} (hs : SchemaTree schema) (hi : Integral value)
    (ho : hasType schema "object" = false) (ha : hasType schema "array" = false) (path : Str) :
    ∃ r, checkScalar schema value path = .ok r ∧
      (r = none ↔ OfType schema value ∧
        ∀ s n, hasType schema "string" = true → value = .str s → minLength schema = some (.ok n) → n ≤ s.length) := by
  obtain ⟨hints, -, hmin, -, -⟩ := hs
  have hminimum : checkMinimum schema value path = .ok none := checkMinimum_absent hmin
  unfold checkScalar
  by_cases hstr : hasType schema "string" = true
  · rw [if_pos hstr]
    simp only [ofType_iff, hasType_eq hstr]
    cases value with
    | str s =>
      cases hb : minLength schema with
      | none => exact ⟨_, rfl, by simp⟩
      | some bound =>
        obtain ⟨n, rfl⟩ := minLength_ok hints hb
        by_cases hn : (s.length : Int) < n
        · exact ⟨_, if_pos hn, by simp [hn]⟩
        · exact ⟨_, if_neg hn, by simpa using hn⟩
    | _ => exact ⟨_, rfl, by simp⟩
  rw [if_neg hstr]
  by_cases hint : hasType schema "integer" = true
  · rw [if_pos hint]
    simp only [ofType_iff, hasType_eq hint]
    cases value with
    | int i => exact ⟨_, hminimum, by simp⟩
    | float x => cases hi
    | _ => exact ⟨_, rfl, by simp⟩
  rw [if_neg hint]
  by_cases hnum : hasType schema "number" = true
  · rw [if_pos hnum]
    simp only [ofType_iff, hasType_eq hnum]
    cases value with
    | int i => exact ⟨_, hminimum, by simp⟩
    | float x => cases hi
    | _ => exact ⟨_, rfl, by simp⟩
  rw [if_neg hnum]
  by_cases hbool : hasType schema "boolean" = true
  · rw [if_pos hbool]
    simp only [ofType_iff, hasType_eq hbool]
    cases value <;> exact ⟨_, rfl, by simp⟩
  rw [if_neg hbool]
  by_cases hnull : hasType schema "null" = true
  · rw [if_pos hnull]
    simp only [ofType_iff, hasType_eq hnull]
    cases value <;> exact ⟨_, rfl, by simp⟩
  · exact ⟨_, if_neg hnull, by simp [ofType_iff, ho, ha, hstr, hint, hnum, hbool, hnull]⟩

theorem missingRequired_none_iff {schema d : Dict Json} :
    missingRequired schema d = none ↔
      ∀ keys key, schema.getJ (str "required") = .arr keys → .str key ∈ keys → d.has key = true := by
  unfold missingRequired
  split
  · next keys hkeys =>
    rw [hkeys, List.findSome?_eq_none_iff]
    constructor
    · rintro h _ key ⟨⟩ hmem
      simpa using h _ hmem
    · intro h key hmem
      cases key with
      | str key => simp [h keys key rfl hmem]
      | _ => rfl
  · next h => simp only [true_iff]; exact fun keys _ e => absurd e (h keys)

/-! ## The whole tree -/

/-- What the loop of `_check_object` asks of one member. -/
def MemberOk (schema : Dict Json) (m : Str × Json) : Prop :=
  match propertySchema schema m.1 with
  | some prop => Satisfies (fun v w => equal v w = true) prop m.2
  | none => additionalAllowed schema = true

/-- The validator decides `Satisfies` on `value`. -/
def Decides (value : Json) : Prop :=
  ∀ schema path, SchemaTree schema →
    ∃ r, validateSchema value schema path = .ok r ∧ (r = none ↔ Satisfies (fun v w => equal v w = true) schema value)

theorem checkMembers_spec {ms : List (Str × Json)} {schema : Dict Json} (hs : SchemaTree schema)
    (ih : ∀ m ∈ ms, Decides m.2) (path : Str) :
    ∃ r, checkMembers ms schema path = .ok r ∧ (r = none ↔ ∀ m ∈ ms, MemberOk schema m) := by
  induction ms with
  | nil => exact ⟨none, rfl, by simp⟩
  | cons m ms ihms =>
    obtain ⟨name, item⟩ := m
    obtain ⟨rest, hrest, hiff⟩ := ihms fun m hm => ih m (List.mem_cons_of_mem _ hm)
    rw [checkMembers]
    cases hp : propertySchema schema name with
    | some prop =>
      have hprop : SchemaTree prop := by cases hs with | intro _ _ _ hprop _ => exact hprop _ _ hp
      obtain ⟨r, hr, hsat⟩ := ih _ List.mem_cons_self prop (joinPath path name) hprop
      dsimp only at hr hsat ⊢
      have hok : MemberOk schema (name, item) ↔ r = none := by rw [hsat, MemberOk, hp]
      rw [hr]
      cases r with
      | none => exact ⟨rest, hrest, by rw [hiff, List.forall_mem_cons, hok]; simp⟩
      | some violation => exact ⟨_, rfl, by rw [List.forall_mem_cons, hok]; simp⟩
    | none =>
      have hok : MemberOk schema (name, item) ↔ additionalAllowed schema = true := by rw [MemberOk, hp]
      by_cases hadd : additionalAllowed schema = true
      · exact ⟨rest, by simp only [hadd]; exact hrest, by rw [hiff, List.forall_mem_cons, hok]; simp [hadd]⟩
      · exact ⟨_, if_neg hadd, by rw [List.forall_mem_cons, hok]; simp [hadd]⟩

theorem checkItems_spec {vs : List Json} {sub : Dict Json} (hs : SchemaTree sub) (ih : ∀ v ∈ vs, Decides v)
    (path : Str) (i : Nat) :
    ∃ r, checkItems vs sub path i = .ok r ∧
      (r = none ↔ ∀ v ∈ vs, Satisfies (fun v w => equal v w = true) sub v) := by
  induction vs generalizing i with
  | nil => exact ⟨none, rfl, by simp⟩
  | cons v vs ihvs =>
    obtain ⟨rest, hrest, hiff⟩ := ihvs (fun v hv => ih v (List.mem_cons_of_mem _ hv)) (i + 1)
    obtain ⟨r, hr, hsat⟩ := ih v List.mem_cons_self sub (itemPath path i) hs
    rw [checkItems, hr]
    cases r with
    | none => exact ⟨rest, hrest, by rw [hiff, List.forall_mem_cons, ← hsat]; simp⟩
    | some violation => exact ⟨_, rfl, by rw [List.forall_mem_cons, ← hsat]; simp⟩

theorem satisfies_parts {schema : Dict Json} {value : Json} :
    Satisfies (fun v w => equal v w = true) schema value ↔ checkFixed schema value = none ∧
      (hasType schema "object" = true → ∀ d, value = .obj d → missingRequired schema d = none ∧ ∀ m ∈ d, MemberOk schema m) ∧
      (hasType schema "array" = true → ∀ vs, value = .arr vs → ∀ sub, schema.getJ (str "items") = .obj sub →
        ∀ v ∈ vs, Satisfies (fun v w => equal v w = true) sub v) ∧
      OfType schema value ∧
      ∀ s n, hasType schema "string" = true → value = .str s → minLength schema = some (.ok n) → n ≤ s.length := by
  constructor
  · rintro ⟨hm, hprop, hitems⟩
    refine ⟨checkFixed_none_iff.mpr ⟨hm.const, hm.enum⟩, fun ht d hd => ⟨missingRequired_none_iff.mpr ?_, ?_⟩, ?_,
      hm.type, hm.minLength⟩
    · exact fun keys key => hm.required d keys key ht hd
    · intro m hmem
      rw [MemberOk]
      split
      · next prop hp => exact hprop d _ _ prop ht hd hmem hp
      · next hp => exact hm.additional d _ _ ht hd hmem hp
    · exact fun ht vs hvs sub hsub v hv => hitems vs v sub ht hvs hsub hv
  · rintro ⟨hfixed, hobj, harr, htype, hlen⟩
    obtain ⟨hconst, henum⟩ := checkFixed_none_iff.mp hfixed
    refine ⟨⟨hconst, henum, htype, ?_, ?_, hlen⟩, ?_, fun vs v sub ht hvs hsub hv => harr ht vs hvs sub hsub v hv⟩
    · exact fun d keys key ht hd => missingRequired_none_iff.mp (hobj ht d hd).1 keys key
    · intro d name item ht hd hmem hp
      simpa [MemberOk, hp] using (hobj ht d hd).2 _ hmem
    · intro d name item prop ht hd hmem hp
      simpa [MemberOk, hp] using (hobj ht d hd).2 _ hmem

/-- A value is decided when its parts are. -/
theorem decides_of_parts {value : Json} (hi : Integral value) (hd : ∀ d, value = .obj d → ∀ m ∈ d, Decides m.2)
    (hv : ∀ vs, value = .arr vs → ∀ v ∈ vs, Decides v) : Decides value := by
  intro schema path hs
  unfold validateSchema
  cases hfixed : checkFixed schema value with
  | some reason => exact ⟨_, rfl, by rw [satisfies_parts]; simp [hfixed]⟩
  | none =>
    dsimp only
    rw [satisfies_parts]
    by_cases hobj : hasType schema "object" = true
    · rw [if_pos hobj]
      simp only [ofType_iff, hasType_eq hobj]
      split
      · next d =>
        cases hmissing : missingRequired schema d with
        | some key => exact ⟨_, rfl, by simp [hmissing]⟩
        | none =>
          obtain ⟨r, hr, hiff⟩ := checkMembers_spec hs (hd d rfl) path
          exact ⟨r, hr, by rw [hiff]; simp [hmissing, hfixed]⟩
      · next hne =>
        have hnot : ∀ d, value ≠ .obj d := hne
        exact ⟨_, rfl, by simp [hnot]⟩
    rw [if_neg hobj]
    by_cases harr : hasType schema "array" = true
    · rw [if_pos harr]
      simp only [ofType_iff, hasType_eq harr]
      split
      · next vs =>
        split
        · next sub hsub =>
          have htree : SchemaTree sub := by cases hs with | intro _ _ _ _ hitem => exact hitem _ hsub
          obtain ⟨r, hr, hiff⟩ := checkItems_spec htree (hv vs rfl) path 0
          exact ⟨r, hr, by rw [hiff]; simp [hsub, hfixed]⟩
        · next hne =>
          have hnot : ∀ sub, schema.getJ (str "items") ≠ .obj sub := hne
          exact ⟨_, rfl, by simp [hnot, hfixed]⟩
      · next hne =>
        have hnot : ∀ vs, value ≠ .arr vs := hne
        exact ⟨_, rfl, by simp [hnot]⟩
    rw [if_neg harr]
    obtain ⟨r, hr, hiff⟩ := checkScalar_spec hs hi (by simpa using hobj) (by simpa using harr) path
    exact ⟨r, hr, by rw [hiff]; simp [hobj, harr, hfixed]⟩

theorem validateSchema_spec {value : Json} (hi : Integral value) : Decides value := by
  induction value using Json.ind with
  | arr vs ih =>
    refine decides_of_parts hi (fun _ e => nomatch e) ?_
    rintro _ ⟨⟩ v hv
    exact ih v hv (integral_arr.mp hi v hv)
  | obj d ih =>
    refine decides_of_parts hi ?_ fun _ e => nomatch e
    rintro _ ⟨⟩ m hm
    exact ih m hm (integral_obj.mp hi m hm)
  | _ => exact decides_of_parts hi (fun _ e => nomatch e) fun _ e => nomatch e

/-! ## The two equalities -/

/-- The equalities differ at a node exactly when it is confused. -/
theorem meets_same_iff {schema : Dict Json} {value : Json} (hs : SchemaTree schema) (hi : Integral value)
    (hp : value.Proper) :
    Meets Same schema value ↔ Meets (fun v w => equal v w = true) schema value ∧ ¬ Confused schema value := by
  obtain ⟨-, hproper, -, -, -⟩ := hs
  have hsub : ∀ k v, Dict.get? schema k = some v → v.Proper := fun k v hv =>
    (proper_obj.mp hproper).2 _ (Dict.mem_of_get? hv)
  have hequal : ∀ w : Json, w.Proper → Same value w → equal value w = true := fun w hw h => by
    rw [equal, sameType_of_same h, equal_of_same hi hp hw h]; rfl
  have hitem : ∀ items item, schema.getJ (str "enum") = .arr items → item ∈ items → item.Proper := by
    intro items item hitems hmem
    rw [Dict.getJ] at hitems
    cases he : schema.get? (str "enum") with
    | none => rw [he] at hitems; cases hitems
    | some e =>
      rw [he] at hitems
      cases hitems
      exact proper_arr.mp (hsub _ _ he) item hmem
  constructor
  · intro h
    refine ⟨⟨fun c hc => hequal c (hsub _ _ hc) (h.const c hc), fun items hitems => ?_, h.type, h.required,
      h.additional, h.minLength⟩, ?_⟩
    · obtain ⟨item, hmem, hsame⟩ := h.enum items hitems
      exact ⟨item, hmem, hequal item (hitem items item hitems hmem) hsame⟩
    · rintro (⟨c, hc, -, hne⟩ | ⟨items, hitems, -, hne⟩)
      · exact hne (h.const c hc)
      · obtain ⟨item, hmem, hsame⟩ := h.enum items hitems
        exact hne item hmem hsame
  · rintro ⟨h, hconf⟩
    refine ⟨fun c hc => ?_, fun items hitems => ?_, h.type, h.required, h.additional, h.minLength⟩
    · by_contra hne
      exact hconf (.inl ⟨c, hc, h.const c hc, hne⟩)
    · by_contra hne
      exact hconf (.inr ⟨items, hitems, h.enum items hitems, fun item hmem hsame => hne ⟨item, hmem, hsame⟩⟩)

theorem satisfies_same_iff {schema : Dict Json} {value : Json} (hs : SchemaTree schema) (hi : Integral value)
    (hp : value.Proper) :
    Satisfies Same schema value ↔ Satisfies (fun v w => equal v w = true) schema value ∧
      ¬ ∃ s w, Visits schema value s w ∧ Confused s w := by
  have hnode : ∀ s w, Visits schema value s w →
      (Meets Same s w ↔ Meets (fun v w => equal v w = true) s w ∧ ¬ Confused s w) := fun s w hv =>
    meets_same_iff (hv.schemaTree hs) (hv.value hi hp).1 (hv.value hi hp).2
  rw [satisfies_iff, satisfies_iff]
  constructor
  · intro h
    refine ⟨fun s w hv => ((hnode s w hv).mp (h s w hv)).1, ?_⟩
    rintro ⟨s, w, hv, hc⟩
    exact ((hnode s w hv).mp (h s w hv)).2 hc
  · rintro ⟨h, hc⟩ s w hv
    exact (hnode s w hv).mpr ⟨h s w hv, fun hconf => hc ⟨s, w, hv, hconf⟩⟩

theorem validateSchema_decides {schema : Dict Json} {value : Json} (path : Str) (hs : SchemaTree schema)
    (hi : Integral value) (hp : value.Proper) :
    Decided schema value path ↔
      ¬ (Satisfies (fun v w => equal v w = true) schema value ∧ ∃ s w, Visits schema value s w ∧ Confused s w) := by
  obtain ⟨r, hr, hiff⟩ := validateSchema_spec hi schema path hs
  rw [Decided, satisfies_same_iff hs hi hp, ← hiff, hr]
  cases r with
  | none => simp
  | some violation => simp

/-- A schema of one `const`. -/
theorem schemaTree_const {c : Json} (hi : Integral c) (hp : c.Proper) : SchemaTree [(str "const", c)] := by
  refine .intro (integral_obj.mpr (by simpa using hi)) (proper_obj.mpr ⟨by simp [Dict.Proper, Dict.keys], by simpa using hp⟩)
    (by simp [Dict.get?]) ?_ ?_
  · intro name prop h
    simp [propertySchema, Dict.getJ, Dict.get?, Json.asObj?] at h
  · intro sub h
    simp [Dict.getJ, Dict.get?] at h

theorem validateSchema_decides_const :
    Decided [(str "const", .arr [.bool true])] (.arr [.bool true]) [] ↔
      ¬ (Satisfies (fun v w => equal v w = true) [(str "const", .arr [.bool true])] (.arr [.bool true]) ∧
        ∃ s w, Visits [(str "const", .arr [.bool true])] (.arr [.bool true]) s w ∧ Confused s w) :=
  validateSchema_decides [] (schemaTree_const (integral_arr.mpr (by simp [Integral])) (proper_arr.mpr (by simp [Proper])))
    (integral_arr.mpr (by simp [Integral])) (proper_arr.mpr (by simp [Proper]))

/-- `{"const": [true]}` accepts `[1]`. -/
theorem const_accepts_one :
    validateSchema (.arr [.int 1]) [(str "const", .arr [.bool true])] [] = .ok none ∧
      ¬ Satisfies Same [(str "const", .arr [.bool true])] (.arr [.int 1]) := by
  refine ⟨by decide +kernel, fun h => ?_⟩
  have hsame : Same (.arr [.int 1]) (.arr [.bool true]) := (satisfies_iff.mp h _ _ .here).const _ rfl
  cases hsame with
  | marked h => cases h
  | arr _ _ hs => exact absurd (sameType_of_same (hs 0 _ _ rfl rfl)) (by decide)

end BabelQueue.Schema
