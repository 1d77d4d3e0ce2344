import BabelQueue.Py.Json.RoundTrip

/-!
# Builtins on JSON values

`type(v).__name__`, `bool(v)`, `dict(v)`, `repr(v)`, `str(v)`, `int(v)` and the attribute `get`, of the values
`json.loads` returns. `toStr_isOk`: `str` of a value that can be written never raises.
-/

namespace Py.Json

/-- `type(v).__name__`. -/
def typeName : Json → Str
  | .null => Py.str "NoneType"
  | .bool _ => Py.str "bool"
  | .int _ => Py.str "int"
  | .float _ => Py.str "float"
  | .str _ => Py.str "str"
  | .arr _ => Py.str "list"
  | .obj _ => Py.str "dict"

/-- `bool(v)`. -/
def truthy : Json → Bool
  | .null => false
  | .bool b => b
  | .int i => i ≠ 0
  | .float x => x.truthy
  | .str s => s ≠ []
  | .arr vs => ¬ vs.isEmpty
  | .obj ms => ¬ ms.isEmpty

/-- `v or w`. -/
def orElse (v w : Json) : Json := if v.truthy then v else w

/-- `v is None`. -/
def isNone : Json → Bool
  | .null => true
  | _ => false

/-- `isinstance(v, str)`, with the string. -/
def asStr? : Json → Option Str
  | .str s => some s
  | _ => none

/-- `isinstance(v, dict)`, with the items. -/
def asObj? : Json → Option (Dict Json)
  | .obj d => some d
  | _ => none

/-- `isinstance(v, int) and not isinstance(v, bool)`, with the integer. -/
def asInt? : Json → Option Int
  | .int i => some i
  | _ => none

/-- The object whose `.get` a program calls: only a `dict` has one. -/
def getter (v : Json) : Except PyExc (Dict Json) :=
  match v with
  | .obj d => .ok d
  | v => .error ⟨.attributeError, Py.str "'" ++ typeName v ++ Py.str "' object has no attribute 'get'"⟩

theorem getter_eq_ok_iff {v : Json} {d : Dict Json} : getter v = .ok d ↔ v = .obj d := by
  cases v <;> simp [getter]

/-- `int(v)`. -/
def toInt [Interpreter] : Json → Except PyExc Int
  | .int i => .ok i
  | .bool b => .ok (if b then 1 else 0)
  | .float x => x.toInt
  | .str s => intOfStr s
  | v => .error ⟨.typeError, Py.str "int() argument must be a string, a bytes-like object or a real number, not '"
      ++ typeName v ++ Py.str "'"⟩

/-! ## `dict` -/

/-- The two items of an element of `dict(iterable)`, the `n`-th. -/
def pairOf (n : Nat) : Json → Except PyExc (Json × Json)
  | .arr [k, v] => .ok (k, v)
  | .arr vs => .error (lengthError vs.length)
  | .str [a, b] => .ok (.str [a], .str [b])
  | .str s => .error (lengthError s.length)
  | .obj [(k, _), (k', _)] => .ok (.str k, .str k')
  | .obj d => .error (lengthError d.length)
  | _ => .error ⟨.typeError, Py.str "cannot convert dictionary update sequence element #" ++ digits n ++
      Py.str " to a sequence"⟩
where
  lengthError (l : Nat) : PyExc :=
    ⟨.valueError, Py.str "dictionary update sequence element #" ++ digits n ++ Py.str " has length " ++
      digits l ++ Py.str "; 2 is required"⟩

/-- Whether `dict` takes the elements from the `n`-th on. -/
def dictItems (n : Nat) : List Json → Except PyExc Unit
  | [] => .ok ()
  | v :: vs =>
    match pairOf n v with
    | .error e => .error e
    | .ok (.arr _, _) => .error ⟨.typeError, Py.str "unhashable type: 'list'"⟩
    | .ok (.obj _, _) => .error ⟨.typeError, Py.str "unhashable type: 'dict'"⟩
    | .ok _ => dictItems (n + 1) vs

/-- `dict(v)`. The `dict` of a list of pairs is left as the list that determines it. -/
def dictOf : Json → Except PyExc Json
  | .obj d => .ok (.obj d)
  | .arr vs => (dictItems 0 vs).map fun _ => .arr vs
  | .str [] => .ok (.obj [])
  | .str _ => .error ⟨.valueError, Py.str "dictionary update sequence element #0 has length 1; 2 is required"⟩
  | v => .error ⟨.typeError, Py.str "'" ++ typeName v ++ Py.str "' object is not iterable"⟩

/-! ## `repr` and `str` -/

def reprRecursionError : PyExc :=
  ⟨.recursionError, Py.str "maximum recursion depth exceeded while getting the repr of an object"⟩

/-- Texts with a comma and a space between them. -/
def commaSpaces : List Str → Str
  | [] => []
  | [s] => s
  | s :: t :: ss => s ++ Py.str ", " ++ commaSpaces (t :: ss)

mutual

/-- `repr(v)`, with at most `d` containers around each other. -/
def reprAt [Interpreter] : Nat → Json → Except PyExc Str
  | _, .null => .ok (Py.str "None")
  | _, .bool b => .ok (if b then Py.str "True" else Py.str "False")
  | _, .int i => intStr i
  | _, .float x => .ok x.repr
  | _, .str s => .ok (strRepr s)
  | 0, .arr _ => .error reprRecursionError
  | d + 1, .arr vs => (reprItems d vs).map fun ss => cp '[' :: commaSpaces ss ++ [cp ']']
  | 0, .obj _ => .error reprRecursionError
  | d + 1, .obj ms => (reprMembers d ms).map fun ss => cp '{' :: commaSpaces ss ++ [cp '}']

def reprItems [Interpreter] : Nat → List Json → Except PyExc (List Str)
  | _, [] => .ok []
  | d, v :: vs =>
    match reprAt d v, reprItems d vs with
    | .error e, _ => .error e
    | _, .error e => .error e
    | .ok s, .ok ss => .ok (s :: ss)

def reprMembers [Interpreter] : Nat → List (Str × Json) → Except PyExc (List Str)
  | _, [] => .ok []
  | d, (k, v) :: ms =>
    match reprAt d v, reprMembers d ms with
    | .error e, _ => .error e
    | _, .error e => .error e
    | .ok s, .ok ss => .ok ((strRepr k ++ Py.str ": " ++ s) :: ss)

end

/-- `str(v)`. -/
def toStr [Interpreter] (v : Json) : Except PyExc Str :=
  match v with
  | .str s => .ok s
  | v => reprAt Interpreter.maxDepth v

theorem reprAt_isOk [Interpreter] {d : Nat} {v : Json} (h : Writable d v) : ∃ s, reprAt d v = .ok s := by
  induction v using Json.ind generalizing d with
  | int i => exact ⟨intText i, by rw [reprAt, intStr_eq_ok_iff]; exact ⟨writable_int.mp h, rfl⟩⟩
  | arr vs ih =>
    obtain ⟨d, rfl, hvs⟩ := writable_arr.mp h
    obtain ⟨ss, hss⟩ : ∃ ss, reprItems d vs = .ok ss := by
      clear h
      induction vs with
      | nil => exact ⟨[], rfl⟩
      | cons v vs ihs =>
        obtain ⟨s, hs⟩ := ih v (by simp) (hvs v (by simp))
        obtain ⟨ss, hss⟩ := ihs (fun v hv => ih v (by simp [hv])) fun v hv => hvs v (by simp [hv])
        exact ⟨s :: ss, by rw [reprItems, hs, hss]⟩
    exact ⟨_, by rw [reprAt, hss]; rfl⟩
  | obj ms ih =>
    obtain ⟨d, rfl, hms⟩ := writable_obj.mp h
    obtain ⟨ss, hss⟩ : ∃ ss, reprMembers d ms = .ok ss := by
      clear h
      induction ms with
      | nil => exact ⟨[], rfl⟩
      | cons m ms ihs =>
        obtain ⟨s, hs⟩ := ih m (by simp) (hms m (by simp))
        obtain ⟨ss, hss⟩ := ihs (fun v hv => ih v (by simp [hv])) fun v hv => hms v (by simp [hv])
        obtain ⟨k, v⟩ := m
        exact ⟨_ :: ss, by rw [reprMembers, hs, hss]⟩
    exact ⟨_, by rw [reprAt, hss]; rfl⟩
  | _ => exact ⟨_, by rw [reprAt]⟩

/-- `str` of a value that can be written returns. -/
theorem toStr_isOk [Interpreter] {d : Nat} {v : Json} (h : Writable d v) (hd : d ≤ Interpreter.maxDepth) :
    ∃ s, v.toStr = .ok s := by
  cases v with
  | str s => exact ⟨s, rfl⟩
  | _ => exact reprAt_isOk (h.mono hd)

/-- `int` takes integers, booleans, finite floats and the texts of integers. -/
def Numeric [Interpreter] : Json → Prop
  | .int _ => True
  | .bool _ => True
  | .float x => x.isFinite
  | .str s => ∃ n, intOfStr s = .ok n
  | _ => False

theorem toInt_isOk_iff [Interpreter] {v : Json} : (∃ n, v.toInt = .ok n) ↔ v.Numeric := by
  cases v with
  | int i => exact iff_of_true ⟨i, rfl⟩ trivial
  | bool b => exact iff_of_true ⟨_, rfl⟩ trivial
  | float x => exact Float64.toInt_isOk_iff
  | str s => exact Iff.rfl
  | _ => exact iff_of_false (fun h => by obtain ⟨_, h⟩ := h; cases h) id

theorem two_pow_le_ten_pow {k n : Nat} (h : k ≤ n) : 2 ^ k ≤ 10 ^ n :=
  (Nat.pow_le_pow_left (by decide) k).trans (Nat.pow_le_pow_right (by decide) h)

/-- `int` of a value that can be written is a number that can be written. -/
theorem toInt_lt [Interpreter] {d : Nat} {v : Json} (hv : Writable d v) {n : Int} (h : v.toInt = .ok n) :
    n.natAbs < 10 ^ maxStrDigits := by
  cases v with
  | int i =>
    obtain rfl : i = n := Except.ok.inj h
    exact writable_int.mp hv
  | bool b =>
    obtain rfl := Except.ok.inj h
    cases b with
    | true => exact Nat.one_lt_pow (show maxStrDigits ≠ 0 by decide) (by decide)
    | false => exact Nat.pow_pos (by decide)
  | float x => exact (Float64.toInt_lt h).trans_le (two_pow_le_ten_pow (by decide))
  | str s => exact natAbs_intOfStr_lt h
  | _ => cases h

end Py.Json
