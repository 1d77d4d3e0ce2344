import Mathlib.Tactic.Ring
import BabelQueue.Py.Act

/-!
# The interpreter, and integers as text

`Interpreter` holds what differs between builds and is not fixed by the language: how deep nested
containers may be before a `RecursionError`, and which code points `str.isprintable` accepts.

* `strRepr` is `repr` of a `str`.
* `digits`, `natOfDigits`: a natural number and its decimal digits.
* `intStr`, `intOfStr`: `str(i)` and `int(s)`, both with the limit of 4300 digits.
-/

namespace Py

/-- What a program may observe of the interpreter it runs on. -/
class Interpreter where
  /-- Containers nested deeper than this raise `RecursionError` in `json` (the frames of the
  callers are not counted). -/
  maxDepth : Nat
  /-- `chr(c).isprintable()`, from the Unicode tables of the build. -/
  isPrintable : CodePoint → Bool
  /-- The limit leaves room for the small fixed containers a program builds itself. -/
  maxDepth_ge : 8 ≤ maxDepth

/-- CPython with the default recursion limit; only ASCII counts as printable here. -/
@[reducible] def cpython : Interpreter where
  maxDepth := 990
  isPrintable c := 0x20 ≤ c.val && c.val < 0x7F
  maxDepth_ge := by decide

/-! ## `repr` of a string -/

/-- `width` lower-case hexadecimal digits of `n`. -/
def hexText (width n : Nat) : Str :=
  (List.range width).reverse.map fun i => cp (Nat.digitChar (n / 16 ^ i % 16))

/-- One code point inside a `repr` with the given quote. -/
def reprCodePoint [Interpreter] (quote c : CodePoint) : Str :=
  if c = quote ∨ c = cp '\\' then [cp '\\', c]
  else if c = cp '\t' then str "\\t"
  else if c = cp '\n' then str "\\n"
  else if c = cp '\r' then str "\\r"
  else if c.val < 0x20 ∨ c.val = 0x7F then str "\\x" ++ hexText 2 c.val
  else if c.val < 0x7F ∨ Interpreter.isPrintable c then [c]
  else if c.val ≤ 0xFF then str "\\x" ++ hexText 2 c.val
  else if c.val ≤ 0xFFFF then str "\\u" ++ hexText 4 c.val
  else str "\\U" ++ hexText 8 c.val

/-- `repr(s)`: in single quotes, unless `s` has one and has no double quote. -/
def strRepr [Interpreter] (s : Str) : Str :=
  let quote := if cp '\'' ∈ s ∧ cp '"' ∉ s then cp '"' else cp '\''
  quote :: s.flatMap (reprCodePoint quote) ++ [quote]

/-! ## Decimal digits -/

/-- An ASCII digit. -/
def isDigit (c : CodePoint) : Bool := 48 ≤ c.val && c.val ≤ 57

/-- The decimal digits of `n`. -/
def digits (n : Nat) : Str := (Nat.toDigits 10 n).map cp

/-- The number a run of decimal digits denotes. -/
def natOfDigits (s : Str) : Nat := s.foldl (fun n c => 10 * n + (c.val - 48)) 0

theorem digits_ne_nil (n : Nat) : digits n ≠ [] := by simp [digits, Nat.toDigits_ne_nil]

theorem isDigit_of_mem_digits {n : Nat} {c : CodePoint} (h : c ∈ digits n) : isDigit c := by
  obtain ⟨d, hd, rfl⟩ := List.mem_map.mp h
  have := Nat.isDigit_of_mem_toDigits (by omega) (by omega) hd
  simp only [Char.isDigit, Bool.and_eq_true, decide_eq_true_eq, UInt32.le_iff_toNat_le] at this
  simp only [isDigit, cp, Bool.and_eq_true]
  exact ⟨decide_eq_true this.1, decide_eq_true this.2⟩

@[simp] theorem natOfDigits_digits (n : Nat) : natOfDigits (digits n) = n := by
  have h := Nat.ofDigitChars_ten_toDigits (n := n)
  rw [Nat.ofDigitChars_eq_foldl] at h
  rw [natOfDigits, digits, List.foldl_map]
  exact h

theorem digits_zero : digits 0 = [cp '0'] := rfl

/-- Only `0` is written with a leading zero. -/
theorem digits_head {n : Nat} {c : CodePoint} {s : Str} (h : digits n = c :: s)
    (hc : c = cp '0') : n = 0 := by
  induction n using Nat.strongRecOn generalizing s with
  | _ n ih =>
    by_cases hn : n < 10
    · rw [digits, Nat.toDigits_of_lt_base hn] at h
      simp only [List.map_cons, List.map_nil, List.cons.injEq] at h
      have := cp_inj (h.1.trans hc)
      simpa using this
    · rw [digits, Nat.toDigits_of_base_le (by omega) (by omega), List.map_append] at h
      obtain ⟨c', s', h'⟩ := List.exists_cons_of_ne_nil (digits_ne_nil (n / 10))
      have hd : (Nat.toDigits 10 (n / 10)).map cp = c' :: s' := h'
      rw [hd, List.cons_append, List.cons.injEq] at h
      have := ih (n / 10) (by omega) (by rw [h', h.1])
      omega

/-- A number of `k` digits or fewer is below `10 ^ k`. -/
theorem length_digits_le_iff {n k : Nat} (h : 0 < k) : (digits n).length ≤ k ↔ n < 10 ^ k := by
  rw [digits, List.length_map, Nat.length_toDigits_le_iff (by omega) h]

theorem natOfDigits_foldl (s : Str) (a : Nat) :
    s.foldl (fun n c => 10 * n + (c.val - 48)) a = a * 10 ^ s.length + natOfDigits s := by
  induction s generalizing a with
  | nil => simp [natOfDigits]
  | cons c s ih =>
    rw [natOfDigits, List.foldl_cons, List.foldl_cons, ih, ih (10 * 0 + _), List.length_cons, pow_succ]
    ring

theorem natOfDigits_lt {s : Str} (h : ∀ c ∈ s, isDigit c) : natOfDigits s < 10 ^ s.length := by
  induction s using List.reverseRecOn with
  | nil => simp [natOfDigits]
  | append_singleton s c ih =>
    have hc : isDigit c := h c (by simp)
    simp only [isDigit, Bool.and_eq_true, decide_eq_true_eq] at hc
    have := ih fun d hd => h d (by simp [hd])
    have e : natOfDigits (s ++ [c]) = 10 * natOfDigits s + (c.val - 48) := by
      simp [natOfDigits, List.foldl_append]
    rw [e, List.length_append, List.length_singleton, pow_succ]
    omega

/-- Digits without a leading zero. -/
theorem le_natOfDigits {s : Str} (h : ∀ c ∈ s, isDigit c) (h0 : s.head? ≠ some (cp '0')) (hs : s ≠ []) :
    10 ^ (s.length - 1) ≤ natOfDigits s := by
  obtain ⟨c, s, rfl⟩ := List.exists_cons_of_ne_nil hs
  have hc : 1 ≤ c.val - 48 := by
    have h1 := h c (by simp)
    have h2 : c.val ≠ 48 := fun he => h0 (by simpa using Fin.ext he)
    simp only [isDigit, Bool.and_eq_true, decide_eq_true_eq] at h1
    omega
  have : natOfDigits (c :: s) = (c.val - 48) * 10 ^ s.length + natOfDigits s := by
    rw [natOfDigits, List.foldl_cons, natOfDigits_foldl]
    simp
  rw [this, List.length_cons, Nat.add_sub_cancel]
  calc 10 ^ s.length = 1 * 10 ^ s.length := (Nat.one_mul _).symm
    _ ≤ (c.val - 48) * 10 ^ s.length := Nat.mul_le_mul_right _ hc
    _ ≤ _ := Nat.le_add_right _ _

/-! ## `str(i)` and `int(s)` -/

/-- `sys.get_int_max_str_digits()`, counted without the sign. -/
def maxStrDigits : Nat := 4300

/-- The decimal text of `i`. -/
def intText : Int → Str
  | .ofNat n => digits n
  | .negSucc n => cp '-' :: digits (n + 1)

/-- `str(i)`. -/
def intStr (i : Int) : Except PyExc Str :=
  if (digits i.natAbs).length ≤ maxStrDigits then .ok (intText i)
  else .error ⟨.valueError, str "Exceeds the limit (4300 digits) for integer string conversion; " ++
    str "use sys.set_int_max_str_digits() to increase the limit"⟩

theorem intStr_eq_ok_iff {i : Int} {s : Str} :
    intStr i = .ok s ↔ i.natAbs < 10 ^ maxStrDigits ∧ s = intText i := by
  rw [intStr, ← length_digits_le_iff (by decide)]
  split
  · next h => simp [h, eq_comm]
  · next h => simp [h]

/-- The white space `int(s)` ignores around the number. -/
def intWhitespace : Str :=
  [9, 10, 11, 12, 13, 32, 0x85, 0xA0, 0x1680, 0x2000, 0x2001, 0x2002, 0x2003, 0x2004, 0x2005, 0x2006,
    0x2007, 0x2008, 0x2009, 0x200A, 0x2028, 0x2029, 0x202F, 0x205F, 0x3000]

/-- The zeros of the decimal digits of Unicode 14 (general category `Nd`). -/
def decimalZeros : List Nat :=
  [0x30, 0x660, 0x6F0, 0x7C0, 0x966, 0x9E6, 0xA66, 0xAE6, 0xB66, 0xBE6, 0xC66, 0xCE6, 0xD66, 0xDE6,
    0xE50, 0xED0, 0xF20, 0x1040, 0x1090, 0x17E0, 0x1810, 0x1946, 0x19D0, 0x1A80, 0x1A90, 0x1B50,
    0x1BB0, 0x1C40, 0x1C50, 0xA620, 0xA8D0, 0xA900, 0xA9D0, 0xA9F0, 0xAA50, 0xABF0, 0xFF10, 0x104A0,
    0x10D30, 0x11066, 0x110F0, 0x11136, 0x111D0, 0x112F0, 0x11450, 0x114D0, 0x11650, 0x116C0,
    0x11730, 0x118E0, 0x11950, 0x11C50, 0x11D50, 0x11DA0, 0x16A60, 0x16AC0, 0x16B50, 0x1D7CE,
    0x1D7D8, 0x1D7E2, 0x1D7EC, 0x1D7F6, 0x1E140, 0x1E2F0, 0x1E950, 0x1FBF0]

/-- The value of a decimal digit of any script. -/
def decimalValue? (c : CodePoint) : Option Nat :=
  (decimalZeros.find? fun z => z ≤ c.val && c.val < z + 10).map (c.val - ·)

/-- Digits, with single underscores between them. -/
def decimalDigits? : Str → Option (List Nat)
  | [] => none
  | [c] => (decimalValue? c).map ([·])
  | c :: u :: s =>
    (decimalValue? c).bind fun d =>
      if u = cp '_' then (decimalDigits? s).map (d :: ·) else (decimalDigits? (u :: s)).map (d :: ·)

/-- `int(s)` of a string. -/
def intOfStr [Interpreter] (s : Str) : Except PyExc Int :=
  let t := strip intWhitespace s
  let (neg, u) := match t with
    | c :: u => if c = cp '-' then (true, u) else if c = cp '+' then (false, u) else (false, t)
    | [] => (false, t)
  match decimalDigits? u with
  | none => .error ⟨.valueError, str "invalid literal for int() with base 10: " ++ strRepr s⟩
  | some ds =>
    if ds.length ≤ maxStrDigits then
      let n : Nat := ds.foldl (fun n d => 10 * n + d) 0
      .ok (if neg then -(n : Int) else n)
    else .error ⟨.valueError, str "Exceeds the limit (4300 digits) for integer string conversion: " ++
        str "value has " ++ digits ds.length ++
        str " digits; use sys.set_int_max_str_digits() to increase the limit"⟩

theorem decimalValue?_lt {c : CodePoint} {d : Nat} (h : decimalValue? c = some d) : d < 10 := by
  obtain ⟨z, hz, rfl⟩ := Option.map_eq_some_iff.mp h
  have := List.find?_some hz
  simp only [Bool.and_eq_true, decide_eq_true_eq] at this
  omega

theorem decimalDigits?_lt {s : Str} {ds : List Nat} (h : decimalDigits? s = some ds) : ∀ d ∈ ds, d < 10 := by
  induction s using decimalDigits?.induct generalizing ds with
  | case1 => cases h
  | case2 c =>
    obtain ⟨d, hd, rfl⟩ := Option.map_eq_some_iff.mp h
    simpa using decimalValue?_lt hd
  | case3 c u s ih₁ ih₂ =>
    obtain ⟨d, hd, h⟩ := Option.bind_eq_some_iff.mp h
    split at h
    · obtain ⟨ds, hds, rfl⟩ := Option.map_eq_some_iff.mp h
      simpa using ⟨decimalValue?_lt hd, ih₁ hds⟩
    · obtain ⟨ds, hds, rfl⟩ := Option.map_eq_some_iff.mp h
      simpa using ⟨decimalValue?_lt hd, ih₂ hds⟩

theorem foldl_digits_lt {ds : List Nat} (h : ∀ d ∈ ds, d < 10) :
    ds.foldl (fun n d => 10 * n + d) 0 < 10 ^ ds.length := by
  induction ds using List.reverseRecOn with
  | nil => simp
  | append_singleton ds d ih =>
    have hd := h d (by simp)
    have := ih fun d hd => h d (by simp [hd])
    rw [List.foldl_append, List.foldl_cons, List.foldl_nil, List.length_append, List.length_singleton, pow_succ]
    omega

/-- What `int` reads, `str` writes. -/
theorem natAbs_intOfStr_lt [Interpreter] {s : Str} {i : Int} (h : intOfStr s = .ok i) :
    i.natAbs < 10 ^ maxStrDigits := by
  unfold intOfStr at h
  extract_lets t at h
  generalize (match t with
    | c :: u => if c = cp '-' then (true, u) else if c = cp '+' then (false, u) else (false, t)
    | [] => (false, t)) = signed at h
  obtain ⟨neg, u⟩ := signed
  dsimp only at h
  split at h
  · cases h
  · next ds hds =>
    split at h
    · next hl =>
      have := foldl_digits_lt (decimalDigits?_lt hds)
      have hle := Nat.pow_le_pow_right (show 0 < 10 by decide) hl
      obtain rfl := Except.ok.inj h
      split <;> omega
    · cases h

/-! `int` reads what `str` wrote. -/

theorem decimalValue?_digit {c : CodePoint} (h : isDigit c = true) : decimalValue? c = some (c.val - 48) := by
  simp only [isDigit, Bool.and_eq_true, decide_eq_true_eq] at h
  have hzeros : decimalZeros = 0x30 :: decimalZeros.tail := rfl
  have hzero : (decide (0x30 ≤ c.val) && decide (c.val < 0x30 + 10)) = true := by
    rw [Bool.and_eq_true, decide_eq_true_eq, decide_eq_true_eq]
    omega
  rw [decimalValue?, hzeros, List.find?_cons, hzero]
  rfl

theorem decimalDigits?_digits {s : Str} (h : ∀ c ∈ s, isDigit c = true) (hne : s ≠ []) :
    decimalDigits? s = some (s.map fun c => c.val - 48) := by
  induction s using decimalDigits?.induct with
  | case1 => exact absurd rfl hne
  | case2 c =>
    rw [decimalDigits?, decimalValue?_digit (h c List.mem_cons_self)]
    rfl
  | case3 c u s ih₁ ih₂ =>
    have hu : u ≠ cp '_' := by
      rintro rfl
      exact absurd (h _ (List.mem_cons_of_mem _ List.mem_cons_self)) (by decide)
    rw [decimalDigits?, decimalValue?_digit (h c List.mem_cons_self), Option.bind_some, if_neg hu,
      ih₂ (fun x hx => h x (List.mem_cons_of_mem _ hx)) (by simp)]
    rfl

theorem digit_not_space {c : CodePoint} (h : isDigit c = true) : c ∉ intWhitespace := by
  intro hc
  have hall : (intWhitespace.all fun x => !isDigit x) = true := by decide +kernel
  rw [List.all_eq_true] at hall
  have hnot := hall c hc
  rw [h] at hnot
  cases hnot

theorem intOfStr_intText [Interpreter] {i : Int} (h : i.natAbs < 10 ^ maxStrDigits) : intOfStr (intText i) = .ok i := by
  have hread : ∀ n : Nat, n < 10 ^ maxStrDigits → decimalDigits? (digits n) = some ((digits n).map fun c => c.val - 48) ∧
      ((digits n).map fun c => c.val - 48).length ≤ maxStrDigits ∧
      ((digits n).map fun c => c.val - 48).foldl (fun n d => 10 * n + d) 0 = n := by
    intro n hn
    refine ⟨decimalDigits?_digits (fun c hc => isDigit_of_mem_digits hc) (digits_ne_nil n), ?_, ?_⟩
    · rw [List.length_map]
      exact (length_digits_le_iff (by decide)).mpr hn
    · rw [List.foldl_map]
      exact natOfDigits_digits n
  unfold intOfStr
  cases i with
  | ofNat n =>
    obtain ⟨c, s, hcs⟩ := List.exists_cons_of_ne_nil (digits_ne_nil n)
    have hc : isDigit c = true := isDigit_of_mem_digits (hcs ▸ List.mem_cons_self)
    have hminus : c ≠ cp '-' := by
      rintro rfl
      exact absurd hc (by decide)
    have hplus : c ≠ cp '+' := by
      rintro rfl
      exact absurd hc (by decide)
    obtain ⟨hdigits, hlength, hvalue⟩ := hread n h
    have hstrip : strip intWhitespace (intText (.ofNat n)) = c :: s :=
      (strip_of_not_mem fun c hc => digit_not_space (isDigit_of_mem_digits hc)).trans hcs
    rw [hcs] at hdigits hlength hvalue
    simp only [hstrip, if_neg hminus, if_neg hplus, hdigits, if_pos hlength, hvalue]
    rfl
  | negSucc n =>
    obtain ⟨hdigits, hlength, hvalue⟩ := hread (n + 1) h
    have hstrip : strip intWhitespace (intText (.negSucc n)) = cp '-' :: digits (n + 1) := by
      refine strip_of_not_mem fun c hc => ?_
      rcases List.mem_cons.mp hc with rfl | hc
      · decide
      · exact digit_not_space (isDigit_of_mem_digits hc)
    simp only [hstrip, if_pos, hdigits, if_pos hlength, hvalue]
    rfl

end Py
