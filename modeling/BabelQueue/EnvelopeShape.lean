import BabelQueue.Py.Json.Ops

/-!
# The poison trigger set (`_envelope_shape.py`)

* `envelopeViolation text`: why a strict, typed decode refuses a body, or `none`.
* `envelopeViolation_returns`: it never raises.
* `typed_of_violation_none`: each member of a body it accepts has the kind of its table, whichever
  of its occurrences `json.loads` keeps.
-/

namespace BabelQueue

open Py Py.Json

def int64Min : Int := -2 ^ 63

def int64Max : Int := 2 ^ 63 - 1

/-- An integer literal with more characters is `_HUGE`. -/
def maxIntDigits : Nat := 4000

/-- `_STRING`, `_INTEGER`, `_OBJECT` and `_DATA`. -/
inductive MemberKind
  | string
  | integer
  | object
  | data
  deriving DecidableEq

/-- `_META`. -/
def metaKinds : Dict MemberKind :=
  [(str "id", .string), (str "queue", .string), (str "lang", .string), (str "schema_version", .integer),
    (str "created_at", .integer)]

/-- `_DEAD_LETTER`. -/
def deadLetterKinds : Dict MemberKind :=
  [(str "reason", .string), (str "error", .string), (str "exception", .string),
    (str "original_queue", .string), (str "lang", .string), (str "failed_at", .integer),
    (str "attempts", .integer)]

/-- `_TOP`. -/
def topKinds : Dict MemberKind :=
  [(str "trace_id", .string), (str "attempts", .integer), (str "data", .data), (str "meta", .object),
    (str "dead_letter", .object)]

/-- `_reject_constant`. -/
def rejectConstant (c : Constant) : Except PyExc Unit :=
  .error ⟨.valueError, str "invalid JSON constant " ++ c.text⟩

/-- The hooks of the strict decode. `_parse_int` refuses nothing: what `int` might refuse is
`_HUGE`. -/
def shapeHooks : Hooks where
  parseInt _ := .ok ()
  parseConstant := rejectConstant

/-- `_is_finite_number`. -/
def isFiniteNumber : Tree → Bool
  | .num l =>
    if l.isFloat then l.toFloat.isFinite
    else if l.text.length ≤ maxIntDigits then
      match Float64.ofInt l.toInt with
      | .ok x => x.isFinite
      | .error _ => false
    else false
  | .const _ => false
  | _ => true

mutual

/-- `_all_numbers_finite`; the order in which its stack visits the values does not show. -/
def allNumbersFinite : Tree → Bool
  | .arr ts => allItemsFinite ts
  | .obj ms => allMembersFinite ms
  | t => isFiniteNumber t

def allItemsFinite : List Tree → Bool
  | [] => true
  | t :: ts => allNumbersFinite t && allItemsFinite ts

def allMembersFinite : List (Str × Tree) → Bool
  | [] => true
  | (_, t) :: ms => allNumbersFinite t && allMembersFinite ms

end

variable [Interpreter]

/-- `"member %r <what>" % name`. -/
def memberFailure (name : Str) (what : String) : Option Str :=
  some (str "member " ++ strRepr name ++ str " " ++ str what)

/-- `type(value) is int and _INT64_MIN <= value <= _INT64_MAX`. -/
def isInt64 : Tree → Bool
  | .num l => !l.isFloat && l.text.length ≤ maxIntDigits && int64Min ≤ l.toInt && l.toInt ≤ int64Max
  | _ => false

/-- `_check_member`. -/
def checkMember (kind : MemberKind) (name : Str) (value : Tree) : Option Str :=
  match value with
  | .null => none
  | value =>
    match kind with
    | .string =>
      match value with
      | .str _ => none
      | _ => memberFailure name "is not a string"
    | .integer => if isInt64 value then none else memberFailure name "is not an int64 integer"
    | kind =>
      match value with
      | .obj ms =>
        if kind = .data ∧ allNumbersFinite (.obj ms) = false then
          memberFailure name "holds a number that is not a finite double"
        else none
      | _ => memberFailure name "is not an object"

/-- The loop of `_check_object`; `nested key members` is its call for an object member. -/
def checkPairs (kinds : Dict MemberKind) (pre : Str) (nested : Str → List (Str × Tree) → Option Str) :
    List (Str × Tree) → Option Str
  | [] => none
  | (key, value) :: pairs =>
    match kinds.get? key with
    | none => checkPairs kinds pre nested pairs
    | some kind =>
      match checkMember kind (pre ++ key) value with
      | some failure => some failure
      | none =>
        match kind, value with
        | .object, .obj ms =>
          match nested key ms with
          | some failure => some failure
          | none => checkPairs kinds pre nested pairs
        | _, _ => checkPairs kinds pre nested pairs

/-- `_check_object` of an object member of the top level. Neither table has an object member, so
the nesting ends here. -/
def checkBlock (key : Str) (pairs : List (Str × Tree)) : Option Str :=
  checkPairs (if key = str "meta" then metaKinds else deadLetterKinds) (key ++ str ".") (fun _ _ => none) pairs

/-- `_check_object(parsed, _TOP, "")`. -/
def checkObject (pairs : List (Str × Tree)) : Option Str := checkPairs topKinds [] checkBlock pairs

/-- `envelope_violation`. -/
def envelopeViolation (text : Str) : Except PyExc (Option Str) :=
  tryExceptPure
    (match parse shapeHooks text with
    | .error e => .error e
    | .ok .null => .ok none
    | .ok (.obj ms) => .ok (checkObject ms)
    | .ok _ => .ok (some (str "the JSON root is not an object")))
    [.valueError, .recursionError] fun e => .ok (some (str "invalid JSON: " ++ e.msg))

/-! ## What it accepts -/

theorem parse_shapeHooks_raises {text : Str} {e : PyExc} (h : parse shapeHooks text = .error e) :
    e.isAny [.valueError, .recursionError] = true := by
  have hv : e.cls = .jsonDecodeError ∨ e.cls = .recursionError ∨ e.cls = .valueError := by
    rcases parse_raises h with hc | hc | ⟨l, hl⟩ | ⟨c, hc⟩
    · exact .inl hc
    · exact .inr (.inl hc)
    · cases hl
    · simp only [shapeHooks, rejectConstant, Except.error.injEq] at hc
      exact .inr (.inr (by rw [← hc]))
  rcases hv with hc | hc | hc <;> simp [PyExc.isAny, PyExc.isA, hc, ExcClass.ancestors]

theorem envelopeViolation_returns (text : Str) : ∃ v, envelopeViolation text = .ok v := by
  rw [envelopeViolation, tryExceptPure.eq_def]
  cases h : parse shapeHooks text with
  | error e => exact ⟨_, if_pos (parse_shapeHooks_raises h)⟩
  | ok t => cases t <;> exact ⟨_, rfl⟩

theorem violation_none {text : Str} (h : envelopeViolation text = .ok none) :
    parse shapeHooks text = .ok .null ∨ ∃ ms, parse shapeHooks text = .ok (.obj ms) ∧ checkObject ms = none := by
  rw [envelopeViolation, tryExceptPure.eq_def] at h
  cases hp : parse shapeHooks text with
  | error e =>
    rw [hp] at h
    dsimp only at h
    rw [if_pos (parse_shapeHooks_raises hp)] at h
    cases h
  | ok t =>
    rw [hp] at h
    cases t with
    | null => exact .inl rfl
    | obj ms => exact .inr ⟨ms, rfl, by simpa using h⟩
    | _ => cases h

/-- Every occurrence of a member is checked. -/
theorem checkPairs_none {kinds : Dict MemberKind} {pre : Str} {nested : Str → List (Str × Tree) → Option Str}
    {pairs : List (Str × Tree)} (h : checkPairs kinds pre nested pairs = none) {key : Str} {value : Tree}
    (hm : (key, value) ∈ pairs) {kind : MemberKind} (hk : kinds.get? key = some kind) :
    checkMember kind (pre ++ key) value = none ∧
      ∀ ms, kind = .object → value = .obj ms → nested key ms = none := by
  induction pairs with
  | nil => simp at hm
  | cons p pairs ih =>
    obtain ⟨k, v⟩ := p
    rw [checkPairs] at h
    cases hm with
    | head =>
      rw [hk] at h
      dsimp only at h
      split at h
      · cases h
      · next hc =>
        refine ⟨hc, ?_⟩
        rintro ms rfl rfl
        dsimp only at h
        split at h
        · cases h
        · next hn => exact hn
    | tail _ hm =>
      refine ih ?_ hm
      split at h
      · exact h
      · split at h
        · cases h
        · split at h
          · split at h
            · cases h
            · exact h
          · exact h

/-! ## Kinds of values -/

/-- What a member of the given kind may hold once it is read. -/
def HasKind : MemberKind → Json → Prop
  | .string, v => v = .null ∨ ∃ s, v = .str s
  | .integer, v => v = .null ∨ ∃ i, v = .int i ∧ int64Min ≤ i ∧ i ≤ int64Max
  | _, v => v = .null ∨ ∃ d, v = .obj d

omit [Interpreter] in
theorem hasKind_null (kind : MemberKind) : HasKind kind .null := by cases kind <;> exact .inl rfl

omit [Interpreter] in
theorem isInt64_toJson {t : Tree} (h : isInt64 t = true) :
    ∃ i, t.toJson = .int i ∧ int64Min ≤ i ∧ i ≤ int64Max := by
  cases t with
  | num l =>
    simp only [isInt64, Bool.and_eq_true, Bool.not_eq_true', decide_eq_true_eq] at h
    obtain ⟨⟨⟨hf, -⟩, h1⟩, h2⟩ := h
    exact ⟨l.toInt, by rw [Tree.toJson, hf]; rfl, h1, h2⟩
  | _ => cases h

theorem hasKind_of_checkMember {kind : MemberKind} {name : Str} {value : Tree}
    (h : checkMember kind name value = none) : HasKind kind value.toJson := by
  by_cases hn : value = .null
  · rw [hn]; exact hasKind_null kind
  cases kind with
  | integer =>
    right
    rw [checkMember] at h
    split at h
    · next hi => exact isInt64_toJson hi
    · cases h
    · exact hn
  | string =>
    cases value with
    | str s => exact .inr ⟨s, rfl⟩
    | null => exact absurd rfl hn
    | _ => cases h
  | object =>
    cases value with
    | obj ms => exact .inr ⟨_, toJson_obj ms⟩
    | null => exact absurd rfl hn
    | _ => cases h
  | data =>
    cases value with
    | obj ms => exact .inr ⟨_, toJson_obj ms⟩
    | null => exact absurd rfl hn
    | _ => cases h

/-- The members of a table have their kinds in `d`. -/
def Typed (kinds : Dict MemberKind) (d : Dict Json) : Prop :=
  ∀ key kind, kinds.get? key = some kind → HasKind kind (d.getJ key)

omit [Interpreter] in
/-- The tree of a member of an object. -/
theorem exists_tree_of_get? {ms : List (Str × Tree)} {key : Str} {v : Json}
    (h : (Dict.ofPairs (membersToJson ms)).get? key = some v) : ∃ t, (key, t) ∈ ms ∧ t.toJson = v := by
  have hmem := Dict.mem_of_mem_ofPairs (Dict.mem_of_get? h)
  rw [membersToJson_eq] at hmem
  obtain ⟨⟨k, t⟩, hm, he⟩ := List.mem_map.mp hmem
  simp only [Prod.mk.injEq] at he
  obtain ⟨rfl, rfl⟩ := he
  exact ⟨t, hm, rfl⟩

theorem typed_of_checkPairs {kinds : Dict MemberKind} {pre : Str}
    {nested : Str → List (Str × Tree) → Option Str} {ms : List (Str × Tree)}
    (h : checkPairs kinds pre nested ms = none) : Typed kinds (Dict.ofPairs (membersToJson ms)) := by
  intro key kind hk
  rw [Dict.getJ]
  cases hg : (Dict.ofPairs (membersToJson ms)).get? key with
  | none => exact hasKind_null kind
  | some v =>
    obtain ⟨t, hm, rfl⟩ := exists_tree_of_get? hg
    exact hasKind_of_checkMember (checkPairs_none h hm hk).1

/-- A body that is accepted and can be read is `null`, or an object with typed members. -/
theorem typed_of_violation_none {text : Str} (h : envelopeViolation text = .ok none) {v : Json}
    (hl : loads text = .ok v) : v = .null ∨ ∃ d, v = .obj d ∧ Typed topKinds d := by
  rw [loads] at hl
  cases hp : parse defaultHooks text with
  | error e => rw [hp] at hl; cases hl
  | ok t =>
    rw [hp] at hl
    cases hl
    rcases violation_none h with hs | ⟨ms, hs, hc⟩
    · rw [parse_agree hp hs]; exact .inl rfl
    · rw [parse_agree hp hs]; exact .inr ⟨_, toJson_obj ms, typed_of_checkPairs hc⟩

/-- The `meta` block of an accepted body has typed members. -/
theorem typed_meta_of_violation_none {text : Str} (h : envelopeViolation text = .ok none) {d block : Dict Json}
    (hl : loads text = .ok (.obj d)) (hb : d.getJ (str "meta") = .obj block) : Typed metaKinds block := by
  rw [loads] at hl
  cases hp : parse defaultHooks text with
  | error e => rw [hp] at hl; cases hl
  | ok t =>
    rw [hp] at hl
    replace hl : t.toJson = .obj d := by injection hl
    rcases violation_none h with hs | ⟨ms, hs, hc⟩
    · rw [parse_agree hp hs] at hl
      cases hl
    · rw [parse_agree hp hs, toJson_obj] at hl
      injection hl with hl
      rw [← hl, Dict.getJ] at hb
      cases hg : (Dict.ofPairs (membersToJson ms)).get? (str "meta") with
      | none => rw [hg] at hb; cases hb
      | some v =>
        rw [hg] at hb
        obtain ⟨t', hm, ht⟩ := exists_tree_of_get? hg
        rw [← ht] at hb
        cases t' with
        | obj ms' =>
          rw [Option.getD_some, toJson_obj] at hb
          injection hb with hb
          rw [← hb]
          have hkind : topKinds.get? (str "meta") = some .object := by simp [topKinds, Dict.get?]
          have := (checkPairs_none hc hm hkind).2 ms' rfl rfl
          rw [checkBlock, if_pos rfl] at this
          exact typed_of_checkPairs this
        | num l => rw [Option.getD_some, Tree.toJson] at hb; split at hb <;> cases hb
        | _ => cases hb

end BabelQueue
