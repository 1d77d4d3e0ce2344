import BabelQueue.Schema

/-!
# What `minimum` decides

`_check_minimum` compares the doubles of its two numbers.

* `validateSchema_minimum`: the run of the validator on an integer and an integer `minimum`.
* `decidesMinimum_iff`: it decides `<` exactly when `float` takes both and keeps them apart.
-/

namespace BabelQueue.Schema

open Py Py.Json

/-- `{"type": typ, "minimum": m}` -/
def minimumSchema (typ : Str) (m : Int) : Dict Json := [(str "type", .str typ), (str "minimum", .int m)]

/-- The validator does not raise, and reports the violation of `minimum` when there is one. -/
def DecidesMinimum (typ : Str) (m v : Int) (path : Str) : Prop :=
  validateSchema (.int v) (minimumSchema typ m) path =
    .ok (if v < m then some (violation path (str "below_minimum")) else none)

/-- `float` takes both integers, and if `v` is below `m` it gives them different doubles. -/
def Apart (v m : Int) : Prop :=
  Float64.InRange v ∧ Float64.InRange m ∧ (v < m → Float64.ofInt v ≠ Float64.ofInt m)

theorem validateSchema_minimum {typ : Str} (ht : typ = str "integer" ∨ typ = str "number") (m v : Int) (path : Str) :
    validateSchema (.int v) (minimumSchema typ m) path = (do
      let x ← Float64.ofInt v
      let minimum ← Float64.ofInt m
      pure (if x.lt minimum then some (violation path (str "below_minimum")) else none)) := by
  have hfixed : checkFixed (minimumSchema typ m) (.int v) = none := by
    simp [checkFixed, minimumSchema, Dict.get?, Dict.getJ]
  have hmin : checkMinimum (minimumSchema typ m) (.int v) path = (do
      let x ← Float64.ofInt v
      let minimum ← Float64.ofInt m
      pure (if x.lt minimum then some (violation path (str "below_minimum")) else none)) := by
    simp [checkMinimum, minimumSchema, Dict.get?, Dict.getJ, asNumber?, Number.toFloat]
  have htype : ∀ name, hasType (minimumSchema typ m) name = decide (typ = str name) := fun name => by
    simp [hasType, minimumSchema, Dict.get?, Dict.getJ]
  unfold validateSchema
  rw [hfixed]
  unfold checkScalar
  rcases ht with rfl | rfl
  · simp [htype, isInteger, hmin]
  · simp [htype, isNumber, asNumber?, hmin]

/-- `minimum` is decided exactly for the integers that `float` takes and keeps apart. -/
theorem decidesMinimum_iff {typ : Str} (ht : typ = str "integer" ∨ typ = str "number") (m v : Int) (path : Str) :
    DecidesMinimum typ m v path ↔ Apart v m := by
  rw [DecidesMinimum, validateSchema_minimum ht, Apart, ← Float64.ofInt_ok_iff, ← Float64.ofInt_ok_iff]
  cases hx : Float64.ofInt v with
  | error e => simp [bind, Except.bind]
  | ok x =>
    cases hy : Float64.ofInt m with
    | error e => simp [bind, Except.bind]
    | ok y =>
      have hlt := Float64.ofInt_lt_iff hx hy
      by_cases hvm : v < m
      · by_cases hxy : x = y
        · subst hxy
          simp [Float64.lt_self, hvm, bind, Except.bind, pure, Except.pure]
        · simp [hlt.mpr ⟨hvm, hxy⟩, hvm, hxy, bind, Except.bind, pure, Except.pure]
      · have hno : x.lt y = false := by rw [← Bool.not_eq_true, hlt]; exact fun h => hvm h.1
        simp [hno, hvm, bind, Except.bind, pure, Except.pure]

theorem decidesMinimum_iff_small :
    DecidesMinimum (str "integer") 5 3 [] ↔ Apart 3 5 := decidesMinimum_iff (.inl rfl) 5 3 []

/-- `2 ^ 53` passes a `minimum` of `2 ^ 53 + 1`. -/
theorem minimum_rounded_away :
    validateSchema (.int (2 ^ 53)) (minimumSchema (str "integer") (2 ^ 53 + 1)) [] = .ok none ∧
      ¬ DecidesMinimum (str "integer") (2 ^ 53 + 1) (2 ^ 53) [] := by
  have hrun : validateSchema (.int (2 ^ 53)) (minimumSchema (str "integer") (2 ^ 53 + 1)) [] = .ok none := by
    decide +kernel
  refine ⟨hrun, fun h => ?_⟩
  rw [DecidesMinimum, hrun, if_pos (by decide)] at h
  cases h

end BabelQueue.Schema
