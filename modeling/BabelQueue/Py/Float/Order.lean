import BabelQueue.Py.Float

/-!
# Comparing numbers

* `Number`: an `int` or a `float`, with `==` on the exact values.
* `roundNat_mono`: rounding to 53 bits is monotone.
* `ofInt_ok_iff`: the integers that `float` takes.
* `ofInt_lt_iff`: what `float` keeps of the order of two integers.
-/

namespace Py

namespace Float64

/-- The exact value of a finite double, in units of `1 / scale`. -/
def units : Float64 → Option Int
  | finite neg m e _ => some (if neg then -(m * 2 ^ e : Int) else m * 2 ^ e)
  | _ => none

/-- `x < y` -/
def lt : Float64 → Float64 → Bool
  | nan, _ => false
  | _, nan => false
  | inf neg, inf neg' => neg && !neg'
  | inf neg, finite .. => neg
  | finite .., inf neg => !neg
  | finite neg m e _, finite neg' m' e' _ =>
    (if neg then -(m * 2 ^ e : Int) else m * 2 ^ e) < (if neg' then -(m' * 2 ^ e' : Int) else m' * 2 ^ e')

/-- `math.ceil(x)` -/
def ceil : Float64 → Except PyExc Int
  | nan => .error ⟨.valueError, str "cannot convert float NaN to integer"⟩
  | inf _ => .error ⟨.overflowError, str "cannot convert float infinity to integer"⟩
  | finite neg m e _ =>
    let n : Nat := m * 2 ^ e
    .ok (if neg then -(n / scale : Nat) else ((n + scale - 1) / scale : Nat))

/-! ## Rounding -/

/-- `n` in units of `2 ^ e`, to the nearest, a tie to even. -/
def significand (n e : Nat) : Nat :=
  if 2 * (n % 2 ^ e) > 2 ^ e ∨ (2 * (n % 2 ^ e) = 2 ^ e ∧ n / 2 ^ e % 2 = 1) then n / 2 ^ e + 1 else n / 2 ^ e

/-- `n` to 53 bits. -/
def roundNat (n : Nat) : Nat := significand n (Nat.log2 n - 52) * 2 ^ (Nat.log2 n - 52)

theorem significand_mono {n n' : Nat} (h : n ≤ n') (e : Nat) : significand n e ≤ significand n' e := by
  have hdiv : n / 2 ^ e ≤ n' / 2 ^ e := Nat.div_le_div_right h
  have hn := Nat.div_add_mod n (2 ^ e)
  have hn' := Nat.div_add_mod n' (2 ^ e)
  unfold significand
  rcases Nat.lt_or_eq_of_le hdiv with hlt | heq
  · split <;> split <;> omega
  · rw [← heq] at hn' ⊢
    have hmod : n % 2 ^ e ≤ n' % 2 ^ e := by omega
    split <;> split <;> omega

theorem significand_le {n e : Nat} (h : n < 2 ^ (53 + e)) : significand n e ≤ 2 ^ 53 := by
  have hdiv : n / 2 ^ e < 2 ^ 53 := by rwa [Nat.div_lt_iff_lt_mul (Nat.two_pow_pos e), ← pow_add]
  unfold significand
  split <;> omega

theorem le_significand {n e : Nat} (h : 2 ^ (52 + e) ≤ n) : 2 ^ 52 ≤ significand n e := by
  have hdiv : 2 ^ 52 ≤ n / 2 ^ e := by rwa [Nat.le_div_iff_mul_le (Nat.two_pow_pos e), ← pow_add]
  unfold significand
  split <;> omega

theorem significand_log2_le (n : Nat) : significand n (Nat.log2 n - 52) ≤ 2 ^ 53 := by
  refine significand_le (lt_of_lt_of_le Nat.lt_log2_self ?_)
  exact Nat.pow_le_pow_right (by decide) (by omega)

theorem le_significand_log2 {n : Nat} (h : 0 < Nat.log2 n - 52) : 2 ^ 52 ≤ significand n (Nat.log2 n - 52) := by
  have hn : n ≠ 0 := by rintro rfl; simp at h
  refine le_significand (le_trans ?_ (Nat.log2_self_le hn))
  exact Nat.pow_le_pow_right (by decide) (by omega)

theorem log2_mono {n n' : Nat} (h : n ≤ n') : Nat.log2 n ≤ Nat.log2 n' := by
  by_cases hn : n = 0
  · simp [hn]
  · exact (Nat.le_log2 (by omega)).mpr (le_trans (Nat.log2_self_le hn) h)

theorem roundNat_mono {n n' : Nat} (h : n ≤ n') : roundNat n ≤ roundNat n' := by
  have hlog := log2_mono h
  unfold roundNat
  rcases Nat.lt_or_ge (Nat.log2 n - 52) (Nat.log2 n' - 52) with hlt | hge
  · -- A significand of `2 ^ 53` units is still no more than the least one of the next exponent.
    calc significand n (Nat.log2 n - 52) * 2 ^ (Nat.log2 n - 52)
        ≤ 2 ^ 53 * 2 ^ (Nat.log2 n - 52) := Nat.mul_le_mul_right _ (significand_log2_le n)
      _ = 2 ^ 52 * 2 ^ (Nat.log2 n - 52 + 1) := by ring
      _ ≤ 2 ^ 52 * 2 ^ (Nat.log2 n' - 52) := Nat.mul_le_mul_left _ (Nat.pow_le_pow_right (by decide) hlt)
      _ ≤ significand n' (Nat.log2 n' - 52) * 2 ^ (Nat.log2 n' - 52) :=
        Nat.mul_le_mul_right _ (le_significand_log2 (by omega))
  · rw [show Nat.log2 n - 52 = Nat.log2 n' - 52 by omega]
    exact Nat.mul_le_mul_right _ (significand_mono h _)

/-! ## `float` of an integer -/

/-- The rounded magnitude, with the significand below `2 ^ 53`. -/
theorem roundRatio_one (n : Nat) :
    (roundRatio n 1).1 * 2 ^ (roundRatio n 1).2 = roundNat (n * scale) ∧ (roundRatio n 1).1 < 2 ^ 53 ∧
      (2 ^ 52 ≤ (roundRatio n 1).1 ∨ (roundRatio n 1).2 = 0) := by
  have hround : roundRatio n 1 =
      if significand (n * scale) (Nat.log2 (n * scale) - 52) = 2 ^ 53 then (2 ^ 52, Nat.log2 (n * scale) - 52 + 1)
      else (significand (n * scale) (Nat.log2 (n * scale) - 52), Nat.log2 (n * scale) - 52) := by
    unfold roundRatio significand
    simp only [Nat.div_one, Nat.one_mul]
  rw [hround]
  have hle := significand_log2_le (n * scale)
  have hge := le_significand_log2 (n := n * scale)
  unfold roundNat
  generalize significand (n * scale) (Nat.log2 (n * scale) - 52) = q at *
  generalize Nat.log2 (n * scale) - 52 = e at *
  split
  · next hq => exact ⟨by rw [hq]; ring, show 2 ^ 52 < 2 ^ 53 by decide, .inl le_rfl⟩
  · next hq => exact ⟨rfl, by dsimp only; omega, by dsimp only; omega⟩

/-- The exponent is in range when the rounded magnitude is. -/
theorem roundRatio_exp_le_iff (n top : Nat) : (roundRatio n 1).2 ≤ top ↔ roundNat (n * scale) < 2 ^ (53 + top) := by
  obtain ⟨hmag, hlt, hge⟩ := roundRatio_one n
  generalize roundRatio n 1 = p at *
  rw [← hmag]
  constructor
  · intro he
    calc p.1 * 2 ^ p.2 < 2 ^ 53 * 2 ^ p.2 := Nat.mul_lt_mul_of_pos_right hlt (Nat.two_pow_pos _)
      _ ≤ 2 ^ 53 * 2 ^ top := Nat.mul_le_mul_left _ (Nat.pow_le_pow_right (by decide) he)
      _ = 2 ^ (53 + top) := (pow_add _ _ _).symm
  · intro h
    by_contra he
    have hp : 2 ^ (53 + top) ≤ p.1 * 2 ^ p.2 :=
      calc 2 ^ (53 + top) = 2 ^ 52 * 2 ^ (top + 1) := by ring
        _ ≤ p.1 * 2 ^ p.2 := Nat.mul_le_mul (by omega) (Nat.pow_le_pow_right (by decide) (by omega))
    omega

theorem significand_add {q r e : Nat} (hr : r < 2 ^ e) :
    significand (q * 2 ^ e + r) e = if 2 * r > 2 ^ e ∨ (2 * r = 2 ^ e ∧ q % 2 = 1) then q + 1 else q := by
  have hdiv : (q * 2 ^ e + r) / 2 ^ e = q := by
    rw [Nat.mul_comm, Nat.mul_add_div (Nat.two_pow_pos e), Nat.div_eq_of_lt hr, Nat.add_zero]
  have hmod : (q * 2 ^ e + r) % 2 ^ e = r := by
    rw [Nat.mul_comm, Nat.mul_add_mod, Nat.mod_eq_of_lt hr]
  rw [significand, hdiv, hmod]

/-- The last 53 bits before `2 ^ (54 + k)`, and a remainder: the tie is rounded up. -/
theorem roundNat_last {r k : Nat} (hr : r < 2 ^ (k + 1)) :
    roundNat ((2 ^ 53 - 1) * 2 ^ (k + 1) + r) = (if 2 ^ k ≤ r then 2 ^ 53 else 2 ^ 53 - 1) * 2 ^ (k + 1) := by
  have hk : 2 ^ (k + 1) = 2 * 2 ^ k := by ring
  have hlog : Nat.log2 ((2 ^ 53 - 1) * 2 ^ (k + 1) + r) = 53 + k := by
    have hlow : 2 ^ (53 + k) = 2 ^ 52 * 2 ^ (k + 1) := by ring
    have hhigh : 2 ^ (53 + k + 1) = 2 ^ 53 * 2 ^ (k + 1) := by ring
    rw [Nat.log2_eq_iff (by have := Nat.two_pow_pos k; omega), hlow, hhigh]
    omega
  rw [roundNat, hlog, show 53 + k - 52 = k + 1 by omega, significand_add hr]
  congr 1
  split <;> split <;> omega

/-- Up to half a unit below `2 ^ (54 + k)`, a number is rounded to less. -/
theorem roundNat_lt_iff (n k : Nat) : roundNat n < 2 ^ (54 + k) ↔ n < 2 ^ (54 + k) - 2 ^ k := by
  have hk : 2 ^ (k + 1) = 2 * 2 ^ k := by ring
  have htop : 2 ^ (54 + k) = 2 ^ 53 * 2 ^ (k + 1) := by ring
  have hpos := Nat.two_pow_pos k
  constructor
  · intro h
    by_contra hn
    have hmono := roundNat_mono (show (2 ^ 53 - 1) * 2 ^ (k + 1) + 2 ^ k ≤ n by omega)
    rw [roundNat_last (by omega), if_pos le_rfl, ← htop] at hmono
    omega
  · intro h
    have hmono := roundNat_mono (show n ≤ (2 ^ 53 - 1) * 2 ^ (k + 1) + (2 ^ k - 1) by omega)
    rw [roundNat_last (by omega), if_neg (by omega)] at hmono
    omega

/-- The least magnitude that is rounded to `2 ^ 1024`. -/
def rangeEnd : Nat := 2 ^ 1024 - 2 ^ 970

/-- The integers that are rounded to a finite double. -/
def InRange (i : Int) : Prop := i.natAbs < rangeEnd

theorem roundNat_scaled_lt_iff (n j k : Nat) :
    roundNat (n * 2 ^ j) < 2 ^ (54 + (k + j)) ↔ n < 2 ^ (54 + k) - 2 ^ k := by
  have hsub : 2 ^ (54 + (k + j)) - 2 ^ (k + j) = (2 ^ (54 + k) - 2 ^ k) * 2 ^ j := by
    rw [Nat.sub_mul, ← pow_add, ← pow_add, Nat.add_assoc]
  rw [roundNat_lt_iff, hsub, Nat.mul_lt_mul_right (Nat.two_pow_pos j)]

theorem canonical_iff_lt_rangeEnd (n : Nat) :
    Canonical (roundRatio n 1).1 (roundRatio n 1).2 ↔ n < rangeEnd := by
  obtain ⟨-, hlt, hge⟩ := roundRatio_one n
  have hexp := roundRatio_exp_le_iff n 2045
  rw [scale, show 53 + 2045 = 54 + (970 + 1074) from rfl, roundNat_scaled_lt_iff n 1074 970] at hexp
  have hend : rangeEnd = 2 ^ (54 + 970) - 2 ^ 970 := by rw [rangeEnd]
  rw [← hend] at hexp
  exact ⟨fun h => hexp.mp h.2.1, fun h => ⟨hlt, hexp.mpr h, hge⟩⟩

theorem ofRatio_one_eq (neg : Bool) (n : Nat) :
    (∃ m e h, ofRatio neg n 1 = .finite neg m e h ∧ m * 2 ^ e = roundNat (n * scale) ∧ n < rangeEnd) ∨
      ofRatio neg n 1 = .inf neg ∧ ¬ n < rangeEnd := by
  have hmag := (roundRatio_one n).1
  have hrange := canonical_iff_lt_rangeEnd n
  unfold ofRatio ofParts
  generalize roundRatio n 1 = p at *
  by_cases hc : Canonical p.1 p.2
  · rw [dif_pos hc]
    exact .inl ⟨p.1, p.2, hc, rfl, hmag, hrange.mp hc⟩
  · rw [dif_neg hc]
    exact .inr ⟨rfl, fun h => hc (hrange.mpr h)⟩

/-- `float(i)`, by the range. -/
theorem ofInt_eq (i : Int) :
    (∃ m e h, ofInt i = .ok (.finite (i < 0) m e h) ∧ m * 2 ^ e = roundNat (i.natAbs * scale) ∧ InRange i) ∨
      (∃ err, ofInt i = .error err) ∧ ¬ InRange i := by
  obtain ⟨f, hf⟩ : ∃ f, f = ofInt := ⟨_, rfl⟩
  have hratio := ofRatio_one_eq (i < 0) i.natAbs
  rw [← hf]
  delta ofInt at hf
  rw [hf]
  beta_reduce
  generalize ofRatio (decide (i < 0)) i.natAbs 1 = x at *
  rcases hratio with ⟨m, e, h, rfl, hmag, hr⟩ | ⟨rfl, hr⟩
  · exact .inl ⟨m, e, h, rfl, hmag, hr⟩
  · exact .inr ⟨⟨_, rfl⟩, hr⟩

/-- `float` takes the integers in range. -/
theorem ofInt_ok_iff (i : Int) : (∃ x, ofInt i = .ok x) ↔ InRange i := by
  rcases ofInt_eq i with ⟨m, e, h, hx, -, hr⟩ | ⟨⟨err, he⟩, hr⟩
  · exact ⟨fun _ => hr, fun _ => ⟨_, hx⟩⟩
  · exact ⟨fun ⟨x, hx⟩ => by rw [he] at hx; (cases hx), fun h => absurd h hr⟩

/-- The value of `float(i)`, in units of `1 / scale`. -/
def rounded (i : Int) : Int := if i < 0 then -(roundNat (i.natAbs * scale) : Int) else roundNat (i.natAbs * scale)

theorem rounded_mono {i j : Int} (h : i ≤ j) : rounded i ≤ rounded j := by
  have hle : ∀ {m n : Nat}, m ≤ n → roundNat (m * scale) ≤ roundNat (n * scale) := fun h =>
    roundNat_mono (Nat.mul_le_mul_right _ h)
  unfold rounded
  split <;> split
  · have := hle (show j.natAbs ≤ i.natAbs by omega)
    omega
  · omega
  · omega
  · have := hle (show i.natAbs ≤ j.natAbs by omega)
    omega

theorem roundNat_pos {n : Nat} (h : 0 < n) : 0 < roundNat n :=
  lt_of_lt_of_le (by decide : 0 < roundNat 1) (roundNat_mono h)

/-- A double is determined by its magnitude. -/
theorem canonical_unique {m e m' e' : Nat} (h : Canonical m e) (h' : Canonical m' e')
    (heq : m * 2 ^ e = m' * 2 ^ e') : m = m' ∧ e = e' := by
  have he : e = e' := by rw [← log2_canonical h, heq, log2_canonical h']
  subst he
  exact ⟨Nat.eq_of_mul_eq_mul_right (Nat.two_pow_pos e) heq, rfl⟩

theorem rounded_eq {i : Int} {m e : Nat} (h : m * 2 ^ e = roundNat (i.natAbs * scale)) :
    (if decide (i < 0) then -(m * 2 ^ e : Int) else m * 2 ^ e) = rounded i := by
  have hcast : (m * 2 ^ e : Int) = (roundNat (i.natAbs * scale) : Nat) := by rw [← h]; push_cast; rfl
  simp only [rounded, hcast, decide_eq_true_eq]

/-- `float` takes no two integers out of order. -/
theorem lt_of_ofInt_lt {i j : Int} {x y : Float64} (hx : ofInt i = .ok x) (hy : ofInt j = .ok y)
    (h : x.lt y = true) : i < j := by
  rcases ofInt_eq i with ⟨m, e, _, hx', hm, -⟩ | ⟨⟨_, hx'⟩, -⟩
  swap
  · rw [hx] at hx'; cases hx'
  rcases ofInt_eq j with ⟨m', e', _, hy', hm', -⟩ | ⟨⟨_, hy'⟩, -⟩
  swap
  · rw [hy] at hy'; cases hy'
  rw [hx] at hx'
  rw [hy] at hy'
  cases hx'
  cases hy'
  rw [lt, rounded_eq hm, rounded_eq hm', decide_eq_true_iff] at h
  by_contra hij
  exact absurd (rounded_mono (not_lt.mp hij)) (not_le.mpr h)

/-- Two integers that `float` keeps apart stay in order. -/
theorem ofInt_lt_of_ne {i j : Int} {x y : Float64} (hx : ofInt i = .ok x) (hy : ofInt j = .ok y) (hij : i < j)
    (hne : x ≠ y) : x.lt y = true := by
  rcases ofInt_eq i with ⟨m, e, hc, hx', hm, -⟩ | ⟨⟨_, hx'⟩, -⟩
  swap
  · rw [hx] at hx'; cases hx'
  rcases ofInt_eq j with ⟨m', e', hc', hy', hm', -⟩ | ⟨⟨_, hy'⟩, -⟩
  swap
  · rw [hy] at hy'; cases hy'
  rw [hx] at hx'
  rw [hy] at hy'
  cases hx'
  cases hy'
  rw [lt, rounded_eq hm, rounded_eq hm', decide_eq_true_iff]
  refine lt_of_le_of_ne (rounded_mono hij.le) fun heq => hne ?_
  have hscale : 0 < scale := Nat.two_pow_pos _
  have hpos : ∀ k : Int, k < 0 → 0 < roundNat (k.natAbs * scale) := fun k hk =>
    roundNat_pos (Nat.mul_pos (by omega) hscale)
  have hsign : (i < 0 ↔ j < 0) ∧ roundNat (i.natAbs * scale) = roundNat (j.natAbs * scale) := by
    have hi := hpos i
    unfold rounded at heq
    generalize roundNat (i.natAbs * scale) = a at *
    generalize roundNat (j.natAbs * scale) = b at *
    split at heq <;> split at heq <;> omega
  obtain ⟨rfl, rfl⟩ := canonical_unique hc hc' (by rw [hm, hm', hsign.2])
  simp only [hsign.1]

theorem lt_self (x : Float64) : x.lt x = false := by
  cases x with
  | nan => rfl
  | inf neg => cases neg <;> rfl
  | finite => simp [lt]

/-- `float(i) < float(j)` is `i < j`, but for integers that `float` does not keep apart. -/
theorem ofInt_lt_iff {i j : Int} {x y : Float64} (hx : ofInt i = .ok x) (hy : ofInt j = .ok y) :
    x.lt y = true ↔ i < j ∧ x ≠ y := by
  refine ⟨fun h => ⟨lt_of_ofInt_lt hx hy h, ?_⟩, fun ⟨hij, hne⟩ => ofInt_lt_of_ne hx hy hij hne⟩
  rintro rfl
  rw [lt_self] at h
  cases h

end Float64

/-- An `int` or a `float`. -/
inductive Number
  | int (i : Int)
  | float (x : Float64)

namespace Number

/-- `x == y`, exactly. -/
def eq : Number → Number → Bool
  | int i, int j => i = j
  | int i, float x => x.units = some (i * Float64.scale)
  | float x, int i => x.units = some (i * Float64.scale)
  | float (.inf neg), float (.inf neg') => neg = neg'
  | float x, float y => x.units.isSome && x.units = y.units

/-- `float(x)` -/
def toFloat : Number → Except PyExc Float64
  | int i => Float64.ofInt i
  | float x => .ok x

end Number

end Py
