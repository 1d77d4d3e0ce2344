import BabelQueue.Py.Int

/-!
# Number literals and doubles

A `float` is an IEEE 754 double: `nan`, an infinity, or a sign, a significand `m` and a shifted
exponent `e` with the magnitude `m * 2 ^ e / 2 ^ 1074` (`scale` is `2 ^ 1074`).

* `Float64.ofRatio` rounds a quotient of naturals to the nearest double, ties to even.
* `NumLit` is a JSON number literal in its parts; `NumLit.toFloat` is `float(literal)`.
* `Float64.reprLit` is the literal `repr` writes: the first, in order of length, of the decimals
  next to the value that reads back as the value. `toFloat_reprLit`: it always reads back.
* `Float64.toInt` is `int(x)`, `Float64.ofInt` is `float(i)`, `Float64.addOne` is `x + 1`.
-/

namespace Py

/-- The significand has 53 bits, all of them in use unless the exponent is the lowest one. -/
def Canonical (m e : Nat) : Prop := m < 2 ^ 53 ∧ e ≤ 2045 ∧ (2 ^ 52 ≤ m ∨ e = 0)

instance (m e : Nat) : Decidable (Canonical m e) := inferInstanceAs (Decidable (_ ∧ _ ∧ _))

inductive Float64
  | nan
  | inf (neg : Bool)
  | finite (neg : Bool) (m e : Nat) (h : Canonical m e)
  deriving DecidableEq

namespace Float64

/-- Magnitudes count in units of `1 / scale`, the least positive double. -/
def scale : Nat := 2 ^ 1074

/-- The significand and the exponent nearest to `n / d`, a tie going to the even significand. -/
def roundRatio (n d : Nat) : Nat × Nat :=
  let e := Nat.log2 (n * scale / d) - 52
  let q := n * scale / (d * 2 ^ e)
  let r := n * scale % (d * 2 ^ e)
  let q' := if 2 * r > d * 2 ^ e ∨ (2 * r = d * 2 ^ e ∧ q % 2 = 1) then q + 1 else q
  if q' = 2 ^ 53 then (2 ^ 52, e + 1) else (q', e)

/-- The double `± m * 2 ^ e / scale`, an infinity when that is out of range. -/
def ofParts (neg : Bool) (p : Nat × Nat) : Float64 :=
  if h : Canonical p.1 p.2 then .finite neg p.1 p.2 h else .inf neg

/-- The double nearest to `± n / d`. -/
def ofRatio (neg : Bool) (n d : Nat) : Float64 := ofParts neg (roundRatio n d)

theorem log2_canonical {m e : Nat} (h : Canonical m e) : Nat.log2 (m * 2 ^ e) - 52 = e := by
  obtain ⟨h1, -, h2⟩ := h
  rcases h2 with h2 | rfl
  · have hpos : m * 2 ^ e ≠ 0 := Nat.mul_ne_zero (by omega) (Nat.two_pow_pos e).ne'
    have e1 : Nat.log2 (m * 2 ^ e) = 52 + e := by
      rw [Nat.log2_eq_iff hpos]
      constructor
      · rw [pow_add]; exact Nat.mul_le_mul_right _ h2
      · rw [show 52 + e + 1 = 53 + e by omega, pow_add]
        exact Nat.mul_lt_mul_of_pos_right h1 (Nat.two_pow_pos e)
    omega
  · have : Nat.log2 (m * 2 ^ 0) < 53 := by
      by_cases hm : m = 0
      · subst hm; decide
      · rw [Nat.log2_lt (by simpa using hm)]; simpa using h1
    omega

/-- A quotient that is a double exactly rounds to that double. -/
theorem ofRatio_exact {neg : Bool} {n d m e : Nat} (hd : 0 < d) (hc : Canonical m e)
    (h : n * scale = m * 2 ^ e * d) : ofRatio neg n d = .finite neg m e hc := by
  have hq0 : n * scale / d = m * 2 ^ e := by rw [h, Nat.mul_div_cancel _ hd]
  have hpos : 0 < d * 2 ^ e := Nat.mul_pos hd (Nat.two_pow_pos e)
  have h' : n * scale = m * (d * 2 ^ e) := by rw [h]; ring
  have hq : n * scale / (d * 2 ^ e) = m := by rw [h', Nat.mul_div_cancel _ hpos]
  have hr : n * scale % (d * 2 ^ e) = 0 := by rw [h', Nat.mul_mod_left]
  have hr' : ¬ (2 * 0 > d * 2 ^ e ∨ 2 * 0 = d * 2 ^ e ∧ m % 2 = 1) := by omega
  have hround : roundRatio n d = (m, e) := by
    simp only [roundRatio, hq0, log2_canonical hc, hq, hr, if_neg hr', if_neg (Nat.ne_of_lt hc.1)]
  rw [ofRatio, hround, ofParts, dif_pos hc]

/-- `float(i)`; `OverflowError` beyond the range of a double. -/
def ofInt (i : Int) : Except PyExc Float64 :=
  match ofRatio (i < 0) i.natAbs 1 with
  | .inf _ => .error ⟨.overflowError, str "int too large to convert to float"⟩
  | x => .ok x

/-- `0.0` -/
def zero : Float64 := .finite false 0 0 (by decide)

theorem ofInt_zero : ofInt 0 = .ok zero := by
  have h : ofRatio false 0 1 = zero := ofRatio_exact (by decide) _ (by simp)
  unfold ofInt
  rw [show decide ((0 : Int) < 0) = false from rfl, Int.natAbs_zero, h]
  rfl

theorem ofInt_raises {i : Int} {e : PyExc} (h : ofInt i = .error e) : e.isException = true := by
  -- `ofInt` is unfolded as a function: the kernel would evaluate `ofRatio` to unfold `ofInt i`.
  obtain ⟨f, hf⟩ : ∃ f, f = ofInt := ⟨_, rfl⟩
  rw [← hf] at h
  delta ofInt at hf
  rw [hf] at h
  beta_reduce at h
  generalize ofRatio (decide (i < 0)) i.natAbs 1 = x at h
  cases x with
  | inf neg => cases h; rfl
  | nan => cases h
  | finite => cases h

/-- `int(x)`: the fraction is cut off. -/
def toInt : Float64 → Except PyExc Int
  | nan => .error ⟨.valueError, str "cannot convert float NaN to integer"⟩
  | inf _ => .error ⟨.overflowError, str "cannot convert float infinity to integer"⟩
  | finite neg m e _ =>
    let n : Nat := m * 2 ^ e / scale
    .ok (if neg then -(n : Int) else n)

/-- `math.isfinite(x)`. -/
def isFinite : Float64 → Bool
  | finite .. => true
  | _ => false

theorem div_two_pow_lt {m e a b c : Nat} (hm : m < 2 ^ a) (he : e ≤ b + c) : m * 2 ^ e / 2 ^ b < 2 ^ (a + c) := by
  apply Nat.div_lt_of_lt_mul
  calc m * 2 ^ e < 2 ^ a * 2 ^ e := Nat.mul_lt_mul_of_pos_right hm (Nat.two_pow_pos e)
    _ ≤ 2 ^ a * 2 ^ (b + c) := Nat.mul_le_mul_left _ (Nat.pow_le_pow_right Nat.two_pos he)
    _ = 2 ^ b * 2 ^ (a + c) := by rw [pow_add, pow_add, Nat.mul_left_comm]

theorem toInt_lt {x : Float64} {n : Int} (h : x.toInt = .ok n) : n.natAbs < 2 ^ (53 + 971) := by
  cases x with
  | nan => cases h
  | inf neg => cases h
  | finite neg m e hc =>
    have hlt : m * 2 ^ e / scale < 2 ^ (53 + 971) := div_two_pow_lt hc.1 hc.2.1
    obtain rfl := Except.ok.inj h
    split
    · rwa [Int.natAbs_neg]
    · exact hlt

theorem toInt_isOk_iff {x : Float64} : (∃ n, x.toInt = .ok n) ↔ x.isFinite = true := by
  cases x with
  | finite => exact iff_of_true ⟨_, rfl⟩ rfl
  | _ => exact iff_of_false (fun h => by obtain ⟨_, h⟩ := h; cases h) Bool.false_ne_true

/-- `x + 1` -/
def addOne : Float64 → Float64
  | finite neg m e _ =>
    let n : Int := (if neg then -(m * 2 ^ e : Int) else m * 2 ^ e) + scale
    ofRatio (n < 0) n.natAbs scale
  | x => x

theorem roundRatio_exp (n d : Nat) : Nat.log2 (n * scale / d) - 52 ≤ (roundRatio n d).2 := by
  -- With `scale` a number, the kernel would evaluate the quotients.
  have key : ∀ (c : Prop) [Decidable c] (q e : Nat), e ≤ (if c then ((2 ^ 52 : Nat), e + 1) else (q, e)).2 := by
    intro c _ q e
    split
    · exact Nat.le_succ e
    · exact le_rfl
  unfold roundRatio
  generalize scale = s
  exact key _ _ _

/-- From `2 ^ 1024` on, a number is no finite double. -/
theorem ofRatio_one_not_finite {neg : Bool} {n : Nat} (h : 2 ^ 1024 ≤ n) : (ofRatio neg n 1).isFinite = false := by
  obtain ⟨k, hk⟩ : ∃ k, k = 1024 + 1074 := ⟨_, rfl⟩
  have hle : 2 ^ k ≤ n * scale / 1 := by
    rw [Nat.div_one, hk, pow_add, scale]
    exact Nat.mul_le_mul_right _ h
  have hlog : k ≤ Nat.log2 (n * scale / 1) :=
    (Nat.le_log2 (Nat.pos_iff_ne_zero.mp (lt_of_lt_of_le (Nat.two_pow_pos _) hle))).mpr hle
  have hexp := roundRatio_exp n 1
  rw [ofRatio, ofParts, dif_neg fun hc : Canonical _ _ => absurd hc.2.1 (by omega)]
  rfl

theorem ofRatio_isFinite (neg neg' : Bool) (n d : Nat) : (ofRatio neg n d).isFinite = (ofRatio neg' n d).isFinite := by
  rw [ofRatio, ofRatio, ofParts, ofParts]
  split <;> rfl

/-- `math.isfinite(float(i))`. -/
theorem ofInt_isFinite (i : Int) (r : Except PyExc Float64) (h : ofInt i = r) :
    (r.toOption.any isFinite) = (ofRatio (i < 0) i.natAbs 1).isFinite := by
  obtain ⟨f, hf⟩ : ∃ f, f = ofInt := ⟨_, rfl⟩
  rw [← hf] at h
  delta ofInt at hf
  rw [hf] at h
  beta_reduce at h
  generalize ofRatio (decide (i < 0)) i.natAbs 1 = x at h ⊢
  cases x <;> cases h <;> rfl

/-- `bool(x)`. -/
def truthy : Float64 → Bool
  | finite _ m _ _ => m ≠ 0
  | _ => true

end Float64

/-! ## Number literals -/

/-- The exponent part of a literal: `e` or `E`, a sign, digits. -/
structure ExpPart where
  mark : CodePoint
  sign : Option CodePoint
  digits : Str
  deriving DecidableEq

/-- A JSON number literal in its parts. -/
structure NumLit where
  neg : Bool
  int : Str
  frac : Option Str
  exp : Option ExpPart
  deriving DecidableEq

/-- A non-empty run of digits. -/
def IsDigits (s : Str) : Prop := s ≠ [] ∧ ∀ c ∈ s, isDigit c

instance (s : Str) : Decidable (IsDigits s) := inferInstanceAs (Decidable (_ ∧ _))

theorem isDigits_digits (n : Nat) : IsDigits (digits n) :=
  ⟨digits_ne_nil n, fun _ => isDigit_of_mem_digits⟩

namespace ExpPart

def text (x : ExpPart) : Str := x.mark :: x.sign.toList ++ x.digits

def Valid (x : ExpPart) : Prop :=
  (x.mark = cp 'e' ∨ x.mark = cp 'E') ∧ (∀ c ∈ x.sign, c = cp '+' ∨ c = cp '-') ∧ IsDigits x.digits

instance (x : ExpPart) : Decidable x.Valid := inferInstanceAs (Decidable (_ ∧ _ ∧ _))

def value (x : ExpPart) : Int :=
  if x.sign = some (cp '-') then -(natOfDigits x.digits : Int) else natOfDigits x.digits

end ExpPart

namespace NumLit

/-- The literal as written. -/
def text (l : NumLit) : Str :=
  (if l.neg then [cp '-'] else []) ++ l.int ++
    ((l.frac.elim [] (cp '.' :: ·)) ++ (l.exp.elim [] ExpPart.text))

/-- The grammar of numbers: no leading zero, no empty run of digits. -/
def Valid (l : NumLit) : Prop :=
  IsDigits l.int ∧ (l.int.head? = some (cp '0') → l.int = [cp '0']) ∧ (∀ f ∈ l.frac, IsDigits f) ∧
    ∀ x ∈ l.exp, x.Valid

instance (l : NumLit) : Decidable l.Valid :=
  inferInstanceAs (Decidable (_ ∧ (_ → _) ∧ (∀ f ∈ l.frac, IsDigits f) ∧ ∀ x ∈ l.exp, ExpPart.Valid x))

/-- Whether `json` reads the literal as a `float` (a fraction or an exponent), not as an `int`. -/
def isFloat (l : NumLit) : Bool := l.frac.isSome || l.exp.isSome

/-- The integer an integer literal denotes. -/
def toInt (l : NumLit) : Int := if l.neg then -(natOfDigits l.int : Int) else natOfDigits l.int

/-- `float(literal)`. -/
def toFloat (l : NumLit) : Float64 :=
  let f := l.frac.getD []
  let n := natOfDigits (l.int ++ f)
  let x : Int := l.exp.elim 0 ExpPart.value - f.length
  Float64.ofRatio l.neg (n * 10 ^ x.toNat) (10 ^ (-x).toNat)

/-- The literal of an integer. -/
def ofInt (i : Int) : NumLit := ⟨i < 0, digits i.natAbs, none, none⟩

theorem ofInt_text (i : Int) : (ofInt i).text = intText i := by
  cases i with
  | ofNat n => simp [ofInt, text, intText]
  | negSucc n => simp [ofInt, text, intText, Int.negSucc_lt_zero]

theorem ofInt_valid (i : Int) : (ofInt i).Valid := by
  refine ⟨isDigits_digits _, fun h => ?_, by simp [ofInt], by simp [ofInt]⟩
  obtain ⟨c, s, hs⟩ := List.exists_cons_of_ne_nil (digits_ne_nil i.natAbs)
  have hc : c = cp '0' := by
    have h' : (digits i.natAbs).head? = some (cp '0') := h
    simpa [hs] using h'
  show digits i.natAbs = _
  rw [digits_head hs hc]; rfl

theorem ofInt_toInt (i : Int) : (ofInt i).toInt = i := by
  simp only [ofInt, toInt, natOfDigits_digits, decide_eq_true_eq]
  split <;> omega

@[simp] theorem ofInt_isFloat (i : Int) : (ofInt i).isFloat = false := rfl

theorem toFloat_of_int {l : NumLit} (h : l.isFloat = false) :
    l.toFloat = Float64.ofRatio l.neg l.toInt.natAbs 1 := by
  simp only [NumLit.isFloat, Bool.or_eq_false_iff, Option.isSome_eq_false_iff, Option.isNone_iff_eq_none] at h
  have hn : l.toInt.natAbs = natOfDigits l.int := by
    rw [NumLit.toInt]
    split <;> simp
  unfold NumLit.toFloat
  simp [h.1, h.2, hn]

/-- An integer literal of more than `k + 1` characters has more than `k` digits. -/
theorem le_natAbs_toInt {l : NumLit} (hv : l.Valid) (hf : l.isFloat = false) {k : Nat} (hk : 1 ≤ k)
    (h : k + 1 < l.text.length) : 10 ^ k ≤ l.toInt.natAbs := by
  simp only [isFloat, Bool.or_eq_false_iff, Option.isSome_eq_false_iff, Option.isNone_iff_eq_none] at hf
  have hlen : k + 1 ≤ l.int.length := by
    simp only [text, hf.1, hf.2, Option.elim_none, List.append_nil, List.length_append] at h
    have : (if l.neg then [cp '-'] else []).length ≤ 1 := by split <;> simp
    omega
  have h0 : l.int.head? ≠ some (cp '0') := fun h0 => by
    have := congrArg List.length (hv.2.1 h0)
    simp only [List.length_cons, List.length_nil] at this
    omega
  have hn : l.toInt.natAbs = natOfDigits l.int := by
    rw [toInt]
    split <;> simp
  rw [hn]
  exact (Nat.pow_le_pow_right (by omega) (by omega)).trans (le_natOfDigits hv.1.2 h0 hv.1.1)

end NumLit

/-! ## `repr` of a double -/

namespace Float64

/-- The literal of `0.ds * 10 ^ p` as `repr` lays it out: fixed notation for `-4 < p ≤ 16`. -/
def layout (neg : Bool) (ds : Str) (p : Int) : NumLit :=
  if -4 < p ∧ p ≤ 16 then
    if p ≤ 0 then ⟨neg, [cp '0'], some (List.replicate (-p).toNat (cp '0') ++ ds), none⟩
    else if ds.length ≤ p.toNat then
      ⟨neg, ds ++ List.replicate (p.toNat - ds.length) (cp '0'), some [cp '0'], none⟩
    else ⟨neg, ds.take p.toNat, some (ds.drop p.toNat), none⟩
  else
    let x := digits (p - 1).natAbs
    ⟨neg, ds.take 1, if ds.length = 1 then none else some (ds.drop 1),
      some ⟨cp 'e', some (if p - 1 < 0 then cp '-' else cp '+'),
        if x.length < 2 then cp '0' :: x else x⟩⟩

/-- The two `k`-digit decimals around `n / d`, the nearer one first. -/
def neighbours (neg : Bool) (n d k : Nat) : List NumLit :=
  let a : Int := (digits n).length - (digits d).length
  -- `10 ^ (p - 1) ≤ n / d < 10 ^ p`
  let p := if n * 10 ^ (-a).toNat ≥ d * 10 ^ a.toNat then a + 1 else a
  let num := n * 10 ^ (k - p).toNat
  let den := d * 10 ^ (p - k).toNat
  let lo := num / den
  let r := num % den
  let lit := fun v : Nat =>
    layout neg ((digits v).rdropWhile (· = cp '0')) (p + (digits v).length - k)
  if 2 * r ≤ den then [lit lo, lit (lo + 1)] else [lit (lo + 1), lit lo]

/-- A literal that denotes the double exactly. -/
def exactLit (neg : Bool) (m e : Nat) : NumLit :=
  ⟨neg, digits (m * 2 ^ (e - 1074) * 5 ^ (1074 - e)), none,
    some ⟨cp 'e', some (cp '-'), digits (1074 - e)⟩⟩

/-- Whether a literal is a float literal that reads back as `x`. -/
def ReadsBack (x : Float64) (l : NumLit) : Prop := l.Valid ∧ l.isFloat = true ∧ l.toFloat = x

instance (x : Float64) (l : NumLit) : Decidable (ReadsBack x l) :=
  inferInstanceAs (Decidable (_ ∧ _ ∧ _))

/-- The literal `repr` writes for a finite double. -/
def reprLit (neg : Bool) (m e : Nat) (h : Canonical m e) : NumLit :=
  if m = 0 then ⟨neg, [cp '0'], some [cp '0'], none⟩
  else
    (((List.range 17).flatMap fun k => neighbours neg (m * 2 ^ e) scale (k + 1)).find?
      (fun l => ReadsBack (.finite neg m e h) l)).getD (exactLit neg m e)

/-- `repr(x)`, which is `str(x)`. -/
def repr : Float64 → Str
  | nan => str "nan"
  | inf neg => if neg then str "-inf" else str "inf"
  | finite neg m e h => (reprLit neg m e h).text

private theorem two_pow_shift (e k : Nat) : 2 ^ (e - k) * 2 ^ k = 2 ^ e * 2 ^ (k - e) := by
  rw [← pow_add, ← pow_add]; congr 1; omega

theorem readsBack_exactLit {neg : Bool} {m e : Nat} (h : Canonical m e) :
    ReadsBack (.finite neg m e h) (exactLit neg m e) := by
  refine ⟨⟨isDigits_digits _, fun h0 => ?_, by simp [exactLit], ?_⟩, rfl, ?_⟩
  · obtain ⟨c, s, hs⟩ := List.exists_cons_of_ne_nil (digits_ne_nil (m * 2 ^ (e - 1074) * 5 ^ (1074 - e)))
    have hc : c = cp '0' := by
      have h' : (digits (m * 2 ^ (e - 1074) * 5 ^ (1074 - e))).head? = some (cp '0') := h0
      simpa [hs] using h'
    show digits _ = _
    rw [digits_head hs hc]; rfl
  · simp [exactLit, ExpPart.Valid, isDigits_digits]
  · have hv : (exactLit neg m e).toFloat =
        ofRatio neg (m * 2 ^ (e - 1074) * 5 ^ (1074 - e)) (10 ^ (1074 - e)) := by
      simp [NumLit.toFloat, exactLit, ExpPart.value]
    rw [hv]
    apply ofRatio_exact (Nat.pow_pos (by omega))
    have h10 : 10 ^ (1074 - e) = 5 ^ (1074 - e) * 2 ^ (1074 - e) := (Nat.mul_pow 5 2 _)
    have h2 : 2 ^ (e - 1074) * scale = 2 ^ e * 2 ^ (1074 - e) := two_pow_shift e 1074
    calc m * 2 ^ (e - 1074) * 5 ^ (1074 - e) * scale
        = m * (2 ^ (e - 1074) * scale) * 5 ^ (1074 - e) := by ring
      _ = m * (2 ^ e * 2 ^ (1074 - e)) * 5 ^ (1074 - e) := by rw [h2]
      _ = m * 2 ^ e * 10 ^ (1074 - e) := by rw [h10]; ring

/-- What `repr` writes for a finite double is a float literal that denotes the double. -/
theorem readsBack_reprLit (neg : Bool) {m e : Nat} (h : Canonical m e) :
    ReadsBack (.finite neg m e h) (reprLit neg m e h) := by
  rw [reprLit]
  split
  · next h0 =>
    subst h0
    obtain rfl : e = 0 := by rcases h.2.2 with h | h <;> omega
    refine ⟨by simp [NumLit.Valid, IsDigits]; decide, rfl, ?_⟩
    have hn : natOfDigits [cp '0', cp '0'] = 0 := by decide
    have : NumLit.toFloat ⟨neg, [cp '0'], some [cp '0'], none⟩ = ofRatio neg 0 10 := by
      simp [NumLit.toFloat, hn]
    rw [this]
    exact ofRatio_exact (by omega) h (by omega)
  · cases hf : (((List.range 17).flatMap fun k => neighbours neg (m * 2 ^ e) scale (k + 1)).find?
        (fun l => ReadsBack (.finite neg m e h) l)) with
    | none => exact readsBack_exactLit h
    | some l => simpa using List.find?_some hf

end Float64

end Py
