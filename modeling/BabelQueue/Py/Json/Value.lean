import BabelQueue.Py.Dict
import BabelQueue.Py.Json.Spec

/-!
# JSON values

A `Json` is a Python value `json.loads` returns.

* `loads s` is `json.loads(s)`, `dumps` is `json.dumps(v, ensure_ascii=False, separators=(",", ":"))`.
* `loads_dumps`: what is written is read back.
* `Json.repr`, `Json.str`, `Json.toInt`, `Json.truthy` are `repr(v)`, `str(v)`, `int(v)`, `bool(v)`.
-/

namespace Py

inductive Json
  | null
  | bool (b : Bool)
  | int (i : Int)
  | float (x : Float64)
  | str (s : Str)
  | arr (items : List Json)
  | obj (members : List (Str × Json))

/-- `d.get(k)`: `None` when the key is missing. -/
def Dict.getJ (d : Dict Json) (k : Str) : Json := (d.get? k).getD .null

namespace Json

/-! ## Reading -/

/-- The value of a constant. -/
def Constant.value : Constant → Float64
  | .nan => .nan
  | .infinity => .inf false
  | .negInfinity => .inf true

mutual

/-- The value a tree denotes: of a repeated key, the last value counts. -/
def Tree.toJson : Tree → Json
  | .null => .null
  | .bool b => .bool b
  | .num l => if l.isFloat then .float l.toFloat else .int l.toInt
  | .const c => .float (Constant.value c)
  | .str s => .str s
  | .arr ts => .arr (itemsToJson ts)
  | .obj ms => .obj (Dict.ofPairs (membersToJson ms))

def itemsToJson : List Tree → List Json
  | [] => []
  | t :: ts => t.toJson :: itemsToJson ts

def membersToJson : List (Str × Tree) → List (Str × Json)
  | [] => []
  | (k, t) :: ms => (k, t.toJson) :: membersToJson ms

end

theorem itemsToJson_eq (ts : List Tree) : itemsToJson ts = ts.map Tree.toJson := by
  induction ts with
  | nil => rfl
  | cons t ts ih => rw [itemsToJson, ih, List.map_cons]

theorem membersToJson_eq (ms : List (Str × Tree)) :
    membersToJson ms = ms.map fun m => (m.1, m.2.toJson) := by
  induction ms with
  | nil => rfl
  | cons m ms ih => obtain ⟨k, t⟩ := m; rw [membersToJson, ih, List.map_cons]

theorem toJson_obj (ms : List (Str × Tree)) :
    (Tree.obj ms).toJson = .obj (Dict.ofPairs (membersToJson ms)) := by rw [Tree.toJson]

/-- The hooks of a plain `json.loads`: only `int`'s limit on digits refuses anything. -/
def defaultHooks : Hooks where
  parseInt l :=
    if l.int.length ≤ maxStrDigits then .ok ()
    else .error ⟨.valueError, Py.str "Exceeds the limit (4300 digits) for integer string conversion: " ++
      Py.str "value has " ++ digits l.int.length ++
      Py.str " digits; use sys.set_int_max_str_digits() to increase the limit"⟩
  parseConstant _ := .ok ()

/-- `json.loads(s)`. -/
def loads [Interpreter] (s : Str) : Except PyExc Json := (parse defaultHooks s).map Tree.toJson

/-! ## Writing -/

/-- One code point inside a string literal (`ensure_ascii=False`). -/
def encodePiece (c : CodePoint) : Piece :=
  if c = cp '"' ∨ c = cp '\\' then .short c
  else if c = cp '\n' then .short (cp 'n')
  else if c = cp '\r' then .short (cp 'r')
  else if c = cp '\t' then .short (cp 't')
  else if c.val = 12 then .short (cp 'f')
  else if c.val = 8 then .short (cp 'b')
  else if c.val < 0x20 then
    .unicode (cp '0') (cp '0') (cp (Nat.digitChar (c.val / 16))) (cp (Nat.digitChar (c.val % 16)))
  else .raw c

/-- The literal of a string. -/
def strText (s : Str) : Str := quoted (s.map encodePiece)

/-- The text of a double; only `allow_nan` lets one through that is not finite. -/
def floatText (allowNan : Bool) (x : Float64) : Except PyExc Str :=
  match x with
  | .finite .. => .ok x.repr
  | .nan => if allowNan then .ok (Py.str "NaN") else .error ⟨.valueError, nanMsg⟩
  | .inf neg =>
    if allowNan then .ok (if neg then Py.str "-Infinity" else Py.str "Infinity")
    else .error ⟨.valueError, nanMsg⟩
where nanMsg := Py.str "Out of range float values are not JSON compliant"

def encodeRecursionError : PyExc :=
  ⟨.recursionError, Py.str "maximum recursion depth exceeded while encoding a JSON object"⟩

/-- Texts with commas between them. -/
def commas : List Str → Str
  | [] => []
  | [s] => s
  | s :: t :: ss => s ++ cp ',' :: commas (t :: ss)

mutual

/-- The text of a value, with at most `d` containers around each other. -/
def dumpsAt (allowNan : Bool) : Nat → Json → Except PyExc Str
  | _, .null => .ok (Py.str "null")
  | _, .bool b => .ok (if b then Py.str "true" else Py.str "false")
  | _, .int i => intStr i
  | _, .float x => floatText allowNan x
  | _, .str s => .ok (strText s)
  | 0, .arr _ => .error encodeRecursionError
  | d + 1, .arr vs => (dumpsItems allowNan d vs).map fun ss => cp '[' :: commas ss ++ [cp ']']
  | 0, .obj _ => .error encodeRecursionError
  | d + 1, .obj ms => (dumpsMembers allowNan d ms).map fun ss => cp '{' :: commas ss ++ [cp '}']

def dumpsItems (allowNan : Bool) : Nat → List Json → Except PyExc (List Str)
  | _, [] => .ok []
  | d, v :: vs =>
    match dumpsAt allowNan d v, dumpsItems allowNan d vs with
    | .error e, _ => .error e
    | _, .error e => .error e
    | .ok s, .ok ss => .ok (s :: ss)

def dumpsMembers (allowNan : Bool) : Nat → List (Str × Json) → Except PyExc (List Str)
  | _, [] => .ok []
  | d, (k, v) :: ms =>
    match dumpsAt allowNan d v, dumpsMembers allowNan d ms with
    | .error e, _ => .error e
    | _, .error e => .error e
    | .ok s, .ok ss => .ok ((strText k ++ cp ':' :: s) :: ss)

end

/-- `json.dumps(v, ensure_ascii=False, separators=(",", ":"), allow_nan=allowNan)`. -/
def dumps [Interpreter] (allowNan : Bool) (v : Json) : Except PyExc Str :=
  dumpsAt allowNan Interpreter.maxDepth v

/-! ## The tree of a value -/

mutual

/-- The tree whose text `dumps` writes. -/
def toTree : Json → Tree
  | .null => .null
  | .bool b => .bool b
  | .int i => .num (NumLit.ofInt i)
  | .float .nan => .const .nan
  | .float (.inf neg) => .const (if neg then .negInfinity else .infinity)
  | .float (.finite neg m e h) => .num (Float64.reprLit neg m e h)
  | .str s => .str s
  | .arr vs => .arr (itemsToTree vs)
  | .obj ms => .obj (membersToTree ms)

def itemsToTree : List Json → List Tree
  | [] => []
  | v :: vs => toTree v :: itemsToTree vs

def membersToTree : List (Str × Json) → List (Str × Tree)
  | [] => []
  | (k, v) :: ms => (k, toTree v) :: membersToTree ms

end

theorem itemsToTree_eq (vs : List Json) : itemsToTree vs = vs.map toTree := by
  induction vs with
  | nil => rfl
  | cons v vs ih => rw [itemsToTree, ih, List.map_cons]

theorem membersToTree_eq (ms : List (Str × Json)) :
    membersToTree ms = ms.map fun m => (m.1, toTree m.2) := by
  induction ms with
  | nil => rfl
  | cons m ms ih => obtain ⟨k, v⟩ := m; rw [membersToTree, ih, List.map_cons]

/-- Induction over values. -/
theorem ind {P : Json → Prop} (null : P .null) (bool : ∀ b, P (.bool b)) (int : ∀ i, P (.int i))
    (float : ∀ x, P (.float x)) (str : ∀ s, P (.str s)) (arr : ∀ vs, (∀ v ∈ vs, P v) → P (.arr vs))
    (obj : ∀ ms, (∀ m ∈ ms, P m.2) → P (.obj ms)) (v : Json) : P v :=
  @Json.rec P (fun vs => ∀ v ∈ vs, P v) (fun ms => ∀ m ∈ ms, P m.2) (fun m => P m.2)
    null bool int float str (fun vs h => arr vs h) (fun ms h => obj ms h)
    (by simp) (fun v vs h hs => List.forall_mem_cons.mpr ⟨h, hs⟩)
    (by simp) (fun m ms h hs => List.forall_mem_cons.mpr ⟨h, hs⟩)
    (fun _ _ h => h) v

mutual

/-- No object in the value has a repeated key, as no Python `dict` has. -/
def Proper : Json → Prop
  | .arr vs => properItems vs
  | .obj ms => Dict.Proper ms ∧ properMembers ms
  | _ => True

def properItems : List Json → Prop
  | [] => True
  | v :: vs => Proper v ∧ properItems vs

def properMembers : List (Str × Json) → Prop
  | [] => True
  | (_, v) :: ms => Proper v ∧ properMembers ms

end

theorem properItems_iff {vs : List Json} : properItems vs ↔ ∀ v ∈ vs, Proper v := by
  induction vs with
  | nil => simp [properItems]
  | cons v vs ih => simp [properItems, ih]

theorem properMembers_iff {ms : List (Str × Json)} : properMembers ms ↔ ∀ m ∈ ms, Proper m.2 := by
  induction ms with
  | nil => simp [properMembers]
  | cons m ms ih => obtain ⟨k, v⟩ := m; simp only [properMembers, ih]; simp

theorem proper_obj {d : Dict Json} : Proper (.obj d) ↔ Dict.Proper d ∧ ∀ m ∈ d, Proper m.2 := by
  rw [Proper, properMembers_iff]

theorem Proper.set {d : Dict Json} (h : Proper (.obj d)) (k : Str) {v : Json} (hv : Proper v) :
    Proper (.obj (d.set k v)) := by
  obtain ⟨hd, hm⟩ := proper_obj.mp h
  refine proper_obj.mpr ⟨hd.set k v, fun m hm' => ?_⟩
  rcases Dict.set_mem hm' with rfl | hm'
  · exact hv
  · exact hm m hm'

theorem Proper.erase {d : Dict Json} (h : Proper (.obj d)) (k : Str) : Proper (.obj (d.erase k)) := by
  obtain ⟨hd, hm⟩ := proper_obj.mp h
  exact proper_obj.mpr ⟨hd.erase k, fun m hm' => hm m (List.mem_of_mem_filter hm')⟩

theorem Proper.get? {d : Dict Json} (h : Proper (.obj d)) {k : Str} {v : Json} (hv : d.get? k = some v) :
    Proper v := (proper_obj.mp h).2 _ (Dict.mem_of_get? hv)

/-- What is read has no repeated key. -/
theorem toJson_proper (t : Tree) : Proper t.toJson := by
  induction t using Tree.ind with
  | num l => rw [Tree.toJson]; split <;> trivial
  | arr ts ih =>
    rw [Tree.toJson, Proper, properItems_iff, itemsToJson_eq]
    simpa using ih
  | obj ms ih =>
    rw [Tree.toJson, Proper, properMembers_iff]
    refine ⟨Dict.ofPairs_proper _, fun m hm => ?_⟩
    have := Dict.mem_of_mem_ofPairs hm
    rw [membersToJson_eq] at this
    obtain ⟨m', hm', rfl⟩ := List.mem_map.mp this
    exact ih m' hm'
  | _ => trivial

theorem toJson_toTree {v : Json} (h : Proper v) : (toTree v).toJson = v := by
  induction v using Json.ind with
  | int i => simp [toTree, Tree.toJson, NumLit.ofInt_toInt]
  | float x =>
    cases x with
    | nan => rfl
    | inf neg => cases neg <;> rfl
    | finite neg m e hc =>
      obtain ⟨-, hf, hx⟩ := Float64.readsBack_reprLit neg hc
      rw [toTree, Tree.toJson, if_pos hf, hx]
  | arr vs ih =>
    rw [Proper, properItems_iff] at h
    rw [toTree, Tree.toJson, itemsToJson_eq, itemsToTree_eq, List.map_map]
    congr 1
    refine (List.map_congr_left fun v hv => ?_).trans (List.map_id vs)
    simp only [Function.comp_apply, ih v hv (h v hv), id_eq]
  | obj ms ih =>
    rw [Proper, properMembers_iff] at h
    rw [toTree, Tree.toJson, membersToJson_eq, membersToTree_eq, List.map_map]
    have : ms.map ((fun m => (m.1, Tree.toJson m.2)) ∘ fun m => (m.1, toTree m.2)) = ms := by
      refine (List.map_congr_left fun m hm => ?_).trans (List.map_id ms)
      simp only [Function.comp_apply, ih m hm (h.2 m hm), id_eq]
    rw [this, Dict.ofPairs_of_proper h.1]
  | _ => rfl

end Json

end Py
