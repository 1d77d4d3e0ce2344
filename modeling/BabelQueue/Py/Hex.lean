import BabelQueue.Py.Json.Grammar
import BabelQueue.Py.Utf8

/-!
# Hexadecimal text

* `hexNat` is the number that a text of digits denotes, `hexText` (in `Int`) writes one.
* `hexNat_hexText`, `hexText_hexNat`: they are inverse, up to the case of the digits.
* `fromHex` is `bytes.fromhex`, which skips whitespace between bytes; `fromHex_of_isHex`,
  `fromHex_chars`: what it reads.
-/

namespace Py

open Json (hexValue?)

/-- Whitespace of ASCII, as C has it. -/
def isAsciiSpace (c : CodePoint) : Bool := c = cp ' ' || (9 ≤ c.val && c.val ≤ 13)

/-- `bytes.fromhex(s)`; `none` is its `ValueError`. -/
def fromHex : Str → Option Bytes
  | [] => some []
  | [c] => if isAsciiSpace c then some [] else none
  | c :: d :: s =>
    if isAsciiSpace c then fromHex (d :: s)
    else match hexValue? c, hexValue? d with
      | some high, some low => (fromHex s).map (Fin.ofNat 256 (16 * high + low) :: ·)
      | _, _ => none

/-- `int.from_bytes(b, "big")` -/
def fromBytes (b : Bytes) : Nat := b.foldl (fun n x => 256 * n + x.val) 0

/-- The number of a text of hexadecimal digits. -/
def hexNat (s : Str) : Nat := s.foldl (fun n c => 16 * n + (hexValue? c).getD 0) 0

def IsHex (s : Str) : Prop := ∀ c ∈ s, (hexValue? c).isSome = true

/-- `c.lower()` for ASCII. -/
def asciiLower (c : CodePoint) : CodePoint := if 65 ≤ c.val ∧ c.val ≤ 90 then Fin.ofNat _ (c.val + 32) else c

/-! ## Digits -/

theorem hexValue?_lt {c : CodePoint} {v : Nat} (h : hexValue? c = some v) : v < 16 := by
  unfold hexValue? at h
  split at h
  · cases h; omega
  split at h
  · cases h; omega
  split at h
  · cases h; omega
  · cases h

/-- A digit, in lower case. -/
theorem digitChar_hexValue? {c : CodePoint} {v : Nat} (h : hexValue? c = some v) :
    cp (Nat.digitChar v) = asciiLower c := by
  have hdigit : ∀ v < 16, (cp (Nat.digitChar v)).val = if v < 10 then v + 48 else v + 87 := by decide
  apply Fin.ext
  rw [hdigit v (hexValue?_lt h)]
  have hlower : (asciiLower c).val = if 65 ≤ c.val ∧ c.val ≤ 90 then c.val + 32 else c.val := by
    unfold asciiLower
    split
    · rw [Fin.val_ofNat, Nat.mod_eq_of_lt (by omega)]
    · rfl
  rw [hlower]
  unfold hexValue? at h
  split at h
  · cases h
    rw [if_pos (by omega), if_neg (by omega)]
    omega
  split at h
  · cases h
    rw [if_neg (by omega), if_neg (by omega)]
    omega
  split at h
  · cases h
    rw [if_neg (by omega), if_pos (by omega)]
    omega
  · cases h

theorem hexText_succ (w n : Nat) : hexText (w + 1) n = hexText w (n / 16) ++ [cp (Nat.digitChar (n % 16))] := by
  unfold hexText
  rw [List.range_succ_eq_map]
  simp only [List.reverse_cons, List.map_append, List.map_cons, List.map_nil, pow_zero, Nat.div_one, ← List.map_reverse,
    List.map_map]
  congr 1
  refine List.map_congr_left fun i _ => ?_
  simp only [Function.comp_apply, pow_succ', Nat.div_div_eq_div_mul, Nat.succ_eq_add_one]

@[simp] theorem hexText_length (w n : Nat) : (hexText w n).length = w := by simp [hexText]

@[simp] theorem hexNat_append_single (s : Str) (c : CodePoint) : hexNat (s ++ [c]) = 16 * hexNat s + (hexValue? c).getD 0 := by
  simp [hexNat]

theorem hexNat_hexText (w n : Nat) : hexNat (hexText w n) = n % 16 ^ w := by
  induction w generalizing n with
  | zero => rw [pow_zero, Nat.mod_one]; rfl
  | succ w ih =>
    rw [hexText_succ, hexNat_append_single, ih, Json.hexValue?_digitChar (Nat.mod_lt _ (by decide)), Option.getD_some,
      pow_succ', Nat.mod_mul]
    omega

theorem hexNat_lt (s : Str) : hexNat s < 16 ^ s.length := by
  induction s using List.reverseRecOn with
  | nil => decide
  | append_singleton s c ih =>
    have hv : (hexValue? c).getD 0 < 16 := by
      cases hc : hexValue? c with
      | none => decide
      | some v => exact hexValue?_lt hc
    rw [hexNat_append_single, List.length_append, List.length_singleton, pow_succ]
    omega

theorem isHex_hexText (w n : Nat) : IsHex (hexText w n) := by
  intro c hc
  obtain ⟨i, -, rfl⟩ := List.mem_map.mp hc
  rw [Json.hexValue?_digitChar (Nat.mod_lt _ (by decide))]
  rfl

theorem hexText_hexNat {s : Str} (h : IsHex s) : hexText s.length (hexNat s) = s.map asciiLower := by
  induction s using List.reverseRecOn with
  | nil => rfl
  | append_singleton s c ih =>
    obtain ⟨v, hv⟩ := Option.isSome_iff_exists.mp (h c (by simp))
    have hlt := hexValue?_lt hv
    have hdiv : (16 * hexNat s + v) / 16 = hexNat s := by omega
    have hmod : (16 * hexNat s + v) % 16 = v := by omega
    rw [List.length_append, List.length_singleton, hexText_succ, hexNat_append_single, hv, Option.getD_some, hdiv, hmod,
      ih fun c hc => h c (by simp [hc]), digitChar_hexValue? hv, List.map_append, List.map_singleton]

/-! ## Bytes -/

theorem le_of_hex {c : CodePoint} (h : (hexValue? c).isSome = true) : c.val ≤ 102 := by
  unfold hexValue? at h
  split at h
  · omega
  split at h
  · omega
  split at h
  · omega
  · cases h

theorem not_space_of_hex {c : CodePoint} (h : (hexValue? c).isSome = true) : isAsciiSpace c = false := by
  have hval : c = cp ' ' → c.val = 32 := by rintro rfl; rfl
  rw [isAsciiSpace, Bool.or_eq_false_iff]
  unfold hexValue? at h
  refine ⟨decide_eq_false fun e => ?_, ?_⟩
  · simp [hval e] at h
  · split at h
    · simp; omega
    split at h
    · simp; omega
    split at h
    · simp; omega
    · cases h

theorem fromBytes_cons (x : Byte) (b : Bytes) (n : Nat) :
    (x :: b).foldl (fun n x => 256 * n + x.val) n = b.foldl (fun n x => 256 * n + x.val) (256 * n + x.val) := rfl

/-- A text of pairs of digits is read as the number that it denotes. -/
theorem fromHex_of_isHex {s : Str} (h : IsHex s) (heven : s.length % 2 = 0) :
    ∃ b, fromHex s = some b ∧ fromBytes b = hexNat s := by
  have general : ∀ (k : Nat) (s : Str), s.length = 2 * k → IsHex s → ∃ b, fromHex s = some b ∧
      ∀ n, b.foldl (fun n x => 256 * n + x.val) n = s.foldl (fun n c => 16 * n + (hexValue? c).getD 0) n := by
    intro k
    induction k with
    | zero =>
      intro s hs _
      rw [List.length_eq_zero_iff.mp hs]
      exact ⟨[], rfl, fun _ => rfl⟩
    | succ k ih =>
      intro s hs hhex
      match s, hs, hhex with
      | c :: d :: s, hs, hhex =>
        obtain ⟨high, hhigh⟩ := Option.isSome_iff_exists.mp (hhex c (by simp))
        obtain ⟨low, hlow⟩ := Option.isSome_iff_exists.mp (hhex d (by simp))
        obtain ⟨b, hb, hval⟩ := ih s (by simp at hs; omega) fun c hc => hhex c (by simp [hc])
        have hbyte : (Fin.ofNat 256 (16 * high + low) : Byte).val = 16 * high + low := by
          have h1 := hexValue?_lt hhigh
          have h2 := hexValue?_lt hlow
          rw [Fin.val_ofNat, Nat.mod_eq_of_lt (by omega)]
        refine ⟨Fin.ofNat 256 (16 * high + low) :: b, ?_, fun n => ?_⟩
        · rw [fromHex, if_neg (by rw [not_space_of_hex (hhex c (by simp))]; simp), hhigh, hlow, hb]
          rfl
        · rw [fromBytes_cons, hval, hbyte, List.foldl_cons, List.foldl_cons, hhigh, hlow, Option.getD_some, Option.getD_some]
          congr 1
          ring
  obtain ⟨b, hb, hval⟩ := general (s.length / 2) s (by omega) h
  exact ⟨b, hb, hval 0⟩

/-- What is read consists of digits and whitespace. -/
theorem fromHex_chars {s : Str} {b : Bytes} (h : fromHex s = some b) :
    ∀ c ∈ s, isAsciiSpace c = true ∨ (hexValue? c).isSome = true := by
  fun_induction fromHex s generalizing b with
  | case1 => simp
  | case2 c hc => simp [hc]
  | case3 c hc => cases h
  | case4 c d s hc ih =>
    rintro c' (_ | ⟨_, hmem⟩)
    · exact .inl hc
    · exact ih h c' hmem
  | case5 c d s hc high low hlow hhigh ih =>
    obtain ⟨b', hb', -⟩ := Option.map_eq_some_iff.mp h
    intro c' hmem
    simp only [List.mem_cons] at hmem
    rcases hmem with rfl | rfl | hmem
    · exact .inr (by rw [hhigh]; rfl)
    · exact .inr (by rw [hlow]; rfl)
    · exact ih hb' c' hmem
  | case6 => cases h

end Py
