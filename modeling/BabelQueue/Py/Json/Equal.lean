import BabelQueue.Py.Float.Order
import BabelQueue.Py.Json.Path.Undo

/-!
# `==` of JSON values

`equal v w` is `v == w`. A `bool` is a number, also inside arrays and objects, so `[True] == [1]`;
`Same v w` is the equality of JSON. A `nan` equals nothing here; that Python's containers take an
object for equal to itself is left out.
-/

namespace Py.Json

/-- The number that a value is, with `True` and `False` as `1` and `0`. -/
def number? : Json → Option Number
  | .bool b => some (.int (if b then 1 else 0))
  | .int i => some (.int i)
  | .float x => some (.float x)
  | _ => none

/-- `==` of two values of which one is no container and no string. -/
def equalNumbers (v w : Json) : Bool :=
  match v.number?, w.number? with
  | some x, some y => x.eq y
  | _, _ => false

mutual

/-- `v == w` -/
def equal : Json → Json → Bool
  | .null, w => match w with
    | .null => true
    | _ => false
  | .str s, w => match w with
    | .str t => s = t
    | _ => false
  | .arr vs, w => match w with
    | .arr ws => equalItems vs ws
    | _ => false
  | .obj d, w => match w with
    | .obj e => d.length = e.length && equalMembers d e
    | _ => false
  | .bool b, w => equalNumbers (.bool b) w
  | .int i, w => equalNumbers (.int i) w
  | .float x, w => equalNumbers (.float x) w

def equalItems : List Json → List Json → Bool
  | [], ws => ws.isEmpty
  | v :: vs, ws => match ws with
    | [] => false
    | w :: ws => equal v w && equalItems vs ws

/-- Every member is in `e`, with an equal value. -/
def equalMembers : List (Str × Json) → Dict Json → Bool
  | [], _ => true
  | (k, v) :: d, e => match e.get? k with
    | some w => equal v w && equalMembers d e
    | none => false

end

/-- `type(v) is type(w)` -/
def sameType : Json → Json → Bool
  | .null, .null => true
  | .bool _, .bool _ => true
  | .int _, .int _ => true
  | .float _, .float _ => true
  | .str _, .str _ => true
  | .arr _, .arr _ => true
  | .obj _, .obj _ => true
  | _, _ => false

mutual

/-- Every number in the value is an integer. -/
def Integral : Json → Prop
  | .float _ => False
  | .arr vs => integralItems vs
  | .obj ms => integralMembers ms
  | _ => True

def integralItems : List Json → Prop
  | [] => True
  | v :: vs => Integral v ∧ integralItems vs

def integralMembers : List (Str × Json) → Prop
  | [] => True
  | (_, v) :: ms => Integral v ∧ integralMembers ms

end

theorem integral_arr {vs : List Json} : Integral (.arr vs) ↔ ∀ v ∈ vs, Integral v := by
  rw [Integral]
  induction vs with
  | nil => simp [integralItems]
  | cons v vs ih => simp [integralItems, ih]

theorem integral_obj {ms : List (Str × Json)} : Integral (.obj ms) ↔ ∀ m ∈ ms, Integral m.2 := by
  rw [Integral]
  induction ms with
  | nil => simp [integralMembers]
  | cons m ms ih => simp [integralMembers, ih]

theorem Integral.getJ {d : Dict Json} (h : Integral (.obj d)) (k : Str) : Integral (d.getJ k) := by
  rw [Dict.getJ]
  cases hk : d.get? k with
  | none => exact trivial
  | some v => exact integral_obj.mp h _ (Dict.mem_of_get? hk)

theorem equalItems_iff {vs ws : List Json} : equalItems vs ws = true ↔ List.Forall₂ (fun v w => equal v w = true) vs ws := by
  induction vs generalizing ws with
  | nil => cases ws <;> simp [equalItems]
  | cons v vs ih => cases ws <;> simp [equalItems, ih]

theorem equalMembers_iff {ms : List (Str × Json)} {e : Dict Json} :
    equalMembers ms e = true ↔ ∀ m ∈ ms, ∃ w, e.get? m.1 = some w ∧ equal m.2 w = true := by
  induction ms with
  | nil => simp [equalMembers]
  | cons m ms ih =>
    obtain ⟨k, v⟩ := m
    rw [equalMembers]
    cases hk : e.get? k with
    | none => simp [hk]
    | some w => simp [hk, ih]

theorem proper_arr {vs : List Json} : Proper (.arr vs) ↔ ∀ v ∈ vs, Proper v := by rw [Proper, properItems_iff]

/-- Two dicts with the same keys have the same size. -/
theorem length_eq_of_has {d e : Dict Json} (hd : Dict.Proper d) (he : Dict.Proper e) (h : ∀ k, e.has k = d.has k) :
    d.length = e.length := by
  have hmem : ∀ (d : Dict Json) k, k ∈ d.keys ↔ d.has k = true := fun d k => by
    rw [← not_iff_not, ← Dict.get?_eq_none_iff, Dict.has, Bool.not_eq_true, Option.isSome_eq_false_iff, Option.isNone_iff_eq_none]
  have hkeys : d.keys.Perm e.keys := (List.perm_ext_iff_of_nodup hd he).mpr fun k => by rw [hmem, hmem, h]
  simpa [Dict.keys] using hkeys.length_eq

/-- The equality of JSON implies `==`. -/
theorem equal_of_same {v w : Json} (hi : Integral v) (hv : Proper v) (hw : Proper w) (h : Same v w) :
    equal v w = true := by
  induction v using Json.ind generalizing w with
  | arr vs ih =>
    cases h with
    | marked h => cases h
    | scalar _ hs => cases hs
    | @arr _ _ ws _ hl hs =>
      rw [equal, equalItems_iff, List.forall₂_iff_get]
      refine ⟨hl, fun i h1 h2 => ?_⟩
      have hmem : vs[i] ∈ vs := List.getElem_mem h1
      exact ih _ hmem (integral_arr.mp hi _ hmem) (proper_arr.mp hv _ hmem) (proper_arr.mp hw _ (List.getElem_mem h2))
        (hs i _ _ (List.getElem?_eq_getElem h1) (List.getElem?_eq_getElem h2))
  | obj d ih =>
    cases h with
    | marked h => cases h
    | scalar _ hs => cases hs
    | @obj _ _ e _ hk hs =>
      obtain ⟨hpd, hpv⟩ := proper_obj.mp hv
      obtain ⟨hpe, hpw⟩ := proper_obj.mp hw
      rw [equal, Bool.and_eq_true, decide_eq_true_iff, equalMembers_iff]
      refine ⟨length_eq_of_has hpd hpe hk, fun m hm => ?_⟩
      have hget : Dict.get? d m.1 = some m.2 := Dict.get?_of_mem hpd hm
      have hhas : e.has m.1 = true := by rw [hk, Dict.has, hget]; rfl
      obtain ⟨w, hw⟩ := Option.isSome_iff_exists.mp hhas
      exact ⟨w, hw, ih m hm (integral_obj.mp hi m hm) (hpv m hm) (hpw _ (Dict.mem_of_get? hw)) (hs m.1 _ _ hget hw)⟩
  | float x => cases hi
  | _ =>
    cases h with
    | marked h => cases h
    | scalar _ _ => simp [equal, equalNumbers, number?, Number.eq]

theorem sameType_of_same {v w : Json} (h : Same v w) : sameType v w = true := by
  cases h with
  | marked h => cases h
  | scalar _ _ => cases v <;> rfl
  | arr => rfl
  | obj => rfl

end Py.Json
