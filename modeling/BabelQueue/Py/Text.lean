import Mathlib.Data.List.Basic
import Mathlib.Data.List.DropRight

/-!
# Text

A Python `str` is a list of code points, lone surrogates included, so it is not a Lean `String`
(a list of Unicode scalar values). `str "abc"` is the literal `"abc"`.

* `strip chars s` is `s.strip(chars)`.
* `isHighSurrogate`, `isLowSurrogate`, `joinSurrogates`: UTF-16 pairs, as the JSON escapes use them.
-/

namespace Py

/-- A code point, `0 .. 0x10FFFF`; surrogates are code points. -/
abbrev CodePoint := Fin 0x110000

abbrev Str := List CodePoint

instance codePoints_neZero : @NeZero Nat Zero.ofOfNat0 0x110000 := Nat.instNeZeroSucc

instance (priority := high) : LawfulBEq CodePoint := instLawfulBEq

instance (priority := high) : LawfulBEq Str := List.instLawfulBEq

/-- The code point of a character. -/
def cp (c : Char) : CodePoint :=
  ⟨c.toNat, by
    have h := c.valid
    simp only [UInt32.isValidChar, Nat.isValidChar] at h
    show c.val.toNat < _
    omega⟩

/-- A string literal of the source. -/
def str (s : String) : Str := s.toList.map cp

theorem cp_inj {a b : Char} (h : cp a = cp b) : a = b := by
  have : a.val.toNat = b.val.toNat := Fin.mk.inj h
  exact Char.ext (UInt32.toNat_inj.mp this)

@[simp] theorem cp_eq_iff {a b : Char} : cp a = cp b ↔ a = b := ⟨cp_inj, congrArg cp⟩

theorem cp_injective : Function.Injective cp := fun _ _ => cp_inj

@[simp] theorem str_eq_iff {a b : String} : str a = str b ↔ a = b := by
  constructor
  · intro h; exact String.toList_inj.mp (List.map_injective_iff.mpr cp_injective h)
  · rintro rfl; rfl

/-- `s.startswith(prefix)`. -/
def startsWith (s p : Str) : Bool := p.isPrefixOf s

theorem startsWith_append (p s : Str) : startsWith (p ++ s) p = true := by simp [startsWith]

theorem startsWith_iff {s p : Str} : startsWith s p = true ↔ ∃ t, s = p ++ t := by
  simp only [startsWith, List.isPrefixOf_iff_prefix, List.IsPrefix]
  exact ⟨fun ⟨t, h⟩ => ⟨t, h.symm⟩, fun ⟨t, h⟩ => ⟨t, h.symm⟩⟩

/-! ## Strip -/

/-- `s.lstrip(chars)`. -/
def lstrip (chars s : Str) : Str := s.dropWhile (· ∈ chars)

/-- `s.rstrip(chars)`. -/
def rstrip (chars s : Str) : Str := s.rdropWhile (· ∈ chars)

/-- `s.strip(chars)`. -/
def strip (chars s : Str) : Str := rstrip chars (lstrip chars s)

/-- Whether every code point of `s` is one of `chars`. -/
def Within (chars s : Str) : Prop := ∀ c ∈ s, c ∈ chars

theorem lstrip_split (chars s : Str) :
    ∃ w, Within chars w ∧ s = w ++ lstrip chars s := by
  refine ⟨s.takeWhile (· ∈ chars), fun c hc => ?_, (List.takeWhile_append_dropWhile).symm⟩
  simpa using List.mem_takeWhile_imp hc

theorem rstrip_split (chars s : Str) :
    ∃ w, Within chars w ∧ s = rstrip chars s ++ w := by
  refine ⟨s.rtakeWhile (· ∈ chars), fun c hc => ?_, ?_⟩
  · simpa using List.mem_rtakeWhile_imp hc
  · simp only [rstrip, List.rdropWhile, List.rtakeWhile]
    rw [← List.reverse_append, List.takeWhile_append_dropWhile, List.reverse_reverse]

/-- `s` is `strip chars s` between two runs of `chars`. -/
theorem strip_split (chars s : Str) :
    ∃ w w', Within chars w ∧ Within chars w' ∧ s = w ++ strip chars s ++ w' := by
  obtain ⟨w, hw, h⟩ := lstrip_split chars s
  obtain ⟨w', hw', h'⟩ := rstrip_split chars (lstrip chars s)
  refine ⟨w, w', hw, hw', ?_⟩
  rw [strip, List.append_assoc, ← h', ← h]

/-- What `strip` leaves has nothing more to strip. -/
theorem strip_strip (chars s : Str) : strip chars (strip chars s) = strip chars s := by
  have hl : lstrip chars (strip chars s) = strip chars s := by
    unfold lstrip
    rw [List.dropWhile_eq_self_iff]
    intro hlen
    have hpre : strip chars s <+: lstrip chars s := List.rdropWhile_prefix _ _
    rw [hpre.getElem hlen]
    have hhead := List.head?_dropWhile_not (fun c => decide (c ∈ chars)) s
    rw [← lstrip] at hhead
    have hlen' : 0 < (lstrip chars s).length := lt_of_lt_of_le hlen hpre.length_le
    have hget : (lstrip chars s).head? = some (lstrip chars s)[0] :=
      List.head?_eq_getElem?.trans (List.getElem?_eq_getElem hlen')
    rw [hget] at hhead
    simpa using hhead
  show rstrip chars (lstrip chars (strip chars s)) = strip chars s
  rw [hl]
  exact List.rdropWhile_idempotent _ _

/-- A text that neither starts nor ends with one of `chars` is what `strip` leaves. -/
theorem strip_between {chars w w' : Str} {a b : CodePoint} {m : Str} (hw : Within chars w)
    (hw' : Within chars w') (ha : a ∉ chars) (hb : b ∉ chars) :
    strip chars (w ++ (a :: m ++ [b]) ++ w') = a :: m ++ [b] := by
  have hl : lstrip chars (w ++ (a :: m ++ [b]) ++ w') = a :: m ++ [b] ++ w' := by
    rw [lstrip, List.append_assoc, List.dropWhile_append_of_pos (by simpa [Within] using hw)]
    simp [ha]
  have hr : (a :: m ++ [b] ++ w').reverse.dropWhile (fun c => decide (c ∈ chars)) =
      (a :: m ++ [b]).reverse := by
    rw [List.reverse_append, List.dropWhile_append_of_pos (by simpa [Within] using hw')]
    simp [hb]
  rw [strip, hl, rstrip, List.rdropWhile, hr, List.reverse_reverse]

/-- A text without any of `chars` has nothing to strip. -/
theorem strip_of_not_mem {chars s : Str} (h : ∀ c ∈ s, c ∉ chars) : strip chars s = s := by
  have hl : lstrip chars s = s := by
    unfold lstrip
    rw [List.dropWhile_eq_self_iff]
    exact fun hlen => by simpa using h _ (List.getElem_mem hlen)
  unfold strip rstrip
  rw [hl, List.rdropWhile_eq_self_iff]
  exact fun hne => by simpa using h _ (List.getLast_mem hne)

/-! ## Surrogates -/

def isHighSurrogate (c : CodePoint) : Bool := 0xD800 ≤ c.val && c.val ≤ 0xDBFF

def isLowSurrogate (c : CodePoint) : Bool := 0xDC00 ≤ c.val && c.val ≤ 0xDFFF

def isSurrogate (c : CodePoint) : Bool := 0xD800 ≤ c.val && c.val ≤ 0xDFFF

/-- The code point of a high and a low surrogate (`Py_UNICODE_JOIN_SURROGATES`). -/
def joinPair (hi lo : CodePoint) : CodePoint :=
  Fin.ofNat _ (0x10000 + (hi.val - 0xD800) * 0x400 + (lo.val - 0xDC00))

end Py
