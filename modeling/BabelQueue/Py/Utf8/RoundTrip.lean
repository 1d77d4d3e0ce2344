import BabelQueue.Py.Utf8

/-!
# What decoding keeps

* `decodePoint?_eq_some`: a code point that is read is a scalar value, and its form is what was read.
* `encodeStrict_decodeStrict`, `encodeEscape_decodeEscape`: encoding gives the bytes back.
* `decodeStrict_eq_none_iff`: bytes that are not UTF-8 show in the text as escaped bytes.
-/

namespace Py.Utf8

/-! ## One code point -/

theorem val_ofNat {n : Nat} (h : n < 0x110000) : (Fin.ofNat 0x110000 n).val = n := Nat.mod_eq_of_lt h

theorem isCont_iff {b : Byte} : isCont b = true ↔ 0x80 ≤ b.val ∧ b.val ≤ 0xBF := by simp [isCont]

theorem isSurrogate_iff {c : CodePoint} : isSurrogate c = true ↔ 0xD800 ≤ c.val ∧ c.val ≤ 0xDFFF := by simp [isSurrogate]

/-- `c` is a scalar value, and `bs` its UTF-8 form. -/
def Encodes (c : CodePoint) (bs : Bytes) : Prop := isSurrogate c = false ∧ encodePoint c = bs

theorem encodes_one {b₀ : Byte} (h : b₀.val < 0x80) : Encodes (Fin.ofNat _ b₀.val) [b₀] := by
  have hv := val_ofNat (n := b₀.val) (by omega)
  refine ⟨by rw [← Bool.not_eq_true, isSurrogate_iff, hv]; omega, ?_⟩
  simp only [encodePoint, hv, if_pos h, List.cons.injEq, and_true]
  exact byte_ext rfl

theorem encodes_two {b₀ b₁ : Byte} (h₀ : 0xC2 ≤ b₀.val) (h₀' : b₀.val ≤ 0xDF) (h₁ : isCont b₁ = true) :
    Encodes (Fin.ofNat _ ((b₀.val - 0xC0) * 0x40 + (b₁.val - 0x80))) [b₀, b₁] := by
  obtain ⟨h₁, h₁'⟩ := isCont_iff.mp h₁
  have hv := val_ofNat (n := (b₀.val - 0xC0) * 0x40 + (b₁.val - 0x80)) (by omega)
  refine ⟨by rw [← Bool.not_eq_true, isSurrogate_iff, hv]; omega, ?_⟩
  simp only [encodePoint, hv]
  rw [if_neg (by omega), if_pos (by omega)]
  simp only [List.cons.injEq, and_true]
  exact ⟨byte_ext (by omega), byte_ext (by omega)⟩

theorem encodes_three {b₀ b₁ b₂ : Byte} (h₀ : 0xE0 ≤ b₀.val) (h₀' : b₀.val ≤ 0xEF) (h₁ : isCont b₁ = true)
    (h₂ : isCont b₂ = true) (hlow : b₀.val = 0xE0 → 0xA0 ≤ b₁.val) (hsur : b₀.val = 0xED → b₁.val ≤ 0x9F) :
    Encodes (Fin.ofNat _ ((b₀.val - 0xE0) * 0x1000 + (b₁.val - 0x80) * 0x40 + (b₂.val - 0x80))) [b₀, b₁, b₂] := by
  obtain ⟨h₁, h₁'⟩ := isCont_iff.mp h₁
  obtain ⟨h₂, h₂'⟩ := isCont_iff.mp h₂
  have hv := val_ofNat (n := (b₀.val - 0xE0) * 0x1000 + (b₁.val - 0x80) * 0x40 + (b₂.val - 0x80)) (by omega)
  refine ⟨by rw [← Bool.not_eq_true, isSurrogate_iff, hv]; omega, ?_⟩
  simp only [encodePoint, hv]
  rw [if_neg (by omega), if_neg (by omega), if_pos (by omega)]
  simp only [List.cons.injEq, and_true]
  exact ⟨byte_ext (by omega), byte_ext (by omega), byte_ext (by omega)⟩

theorem encodes_four {b₀ b₁ b₂ b₃ : Byte} (h₀ : 0xF0 ≤ b₀.val) (h₀' : b₀.val ≤ 0xF4) (h₁ : isCont b₁ = true)
    (h₂ : isCont b₂ = true) (h₃ : isCont b₃ = true) (hlow : b₀.val = 0xF0 → 0x90 ≤ b₁.val)
    (hhigh : b₀.val = 0xF4 → b₁.val ≤ 0x8F) :
    Encodes (Fin.ofNat _ ((b₀.val - 0xF0) * 0x40000 + (b₁.val - 0x80) * 0x1000 + (b₂.val - 0x80) * 0x40 +
      (b₃.val - 0x80))) [b₀, b₁, b₂, b₃] := by
  obtain ⟨h₁, h₁'⟩ := isCont_iff.mp h₁
  obtain ⟨h₂, h₂'⟩ := isCont_iff.mp h₂
  obtain ⟨h₃, h₃'⟩ := isCont_iff.mp h₃
  have hv := val_ofNat (n := (b₀.val - 0xF0) * 0x40000 + (b₁.val - 0x80) * 0x1000 + (b₂.val - 0x80) * 0x40 +
      (b₃.val - 0x80)) (by omega)
  refine ⟨by rw [← Bool.not_eq_true, isSurrogate_iff, hv]; omega, ?_⟩
  simp only [encodePoint, hv]
  rw [if_neg (by omega), if_neg (by omega), if_neg (by omega)]
  simp only [List.cons.injEq, and_true]
  exact ⟨byte_ext (by omega), byte_ext (by omega), byte_ext (by omega), byte_ext (by omega)⟩

/-- What is decoded is a scalar value, and its form is the bytes that were read. -/
theorem decodePoint?_eq_some {bs rest : Bytes} {c : CodePoint} (h : decodePoint? bs = some (c, rest)) :
    ∃ form, Encodes c form ∧ form ≠ [] ∧ bs = form ++ rest := by
  rw [decodePoint?.eq_def] at h
  split at h
  · cases h
  · next b₀ bs =>
    split at h
    · next h₀ =>
      obtain ⟨rfl, rfl⟩ := Prod.mk.inj (Option.some.inj h)
      exact ⟨_, encodes_one h₀, by simp, rfl⟩
    · split at h
      · cases h
      · next b₁ bs =>
        split at h
        · next h₁ =>
          obtain ⟨rfl, rfl⟩ := Prod.mk.inj (Option.some.inj h)
          exact ⟨_, encodes_two h₁.1 h₁.2.1 h₁.2.2, by simp, rfl⟩
        · split at h
          · cases h
          · next b₂ bs =>
            split at h
            · next h₂ =>
              obtain ⟨rfl, rfl⟩ := Prod.mk.inj (Option.some.inj h)
              obtain ⟨h, h', hc₁, hc₂, hlow, hsur⟩ := h₂
              exact ⟨_, encodes_three h h' hc₁ hc₂ hlow hsur, by simp, rfl⟩
            · split at h
              · cases h
              · next b₃ bs =>
                split at h
                · next h₃ =>
                  obtain ⟨rfl, rfl⟩ := Prod.mk.inj (Option.some.inj h)
                  obtain ⟨h, h', hc₁, hc₂, hc₃, hlow, hhigh⟩ := h₃
                  exact ⟨_, encodes_four h h' hc₁ hc₂ hc₃ hlow hhigh, by simp, rfl⟩
                · cases h

/-- An ASCII byte is always read. -/
theorem decodePoint?_eq_none {b : Byte} {bs : Bytes} (h : decodePoint? (b :: bs) = none) : 0x80 ≤ b.val := by
  rw [decodePoint?.eq_def] at h
  dsimp only at h
  split at h
  · cases h
  · omega

/-! ## A text -/

section DecodeWith

variable {bad : Byte → Option CodePoint}

theorem decodeWith_zero {bs : Bytes} {s : Str} (h : decodeWith bad 0 bs = some s) : bs = [] ∧ s = [] := by
  cases bs with
  | nil => cases h; exact ⟨rfl, rfl⟩
  | cons b bs => cases h

/-- A function that undoes the code points read, and those of the bad bytes, gives the bytes back. -/
theorem decodeWith_inverse {enc : CodePoint → Bytes} (henc : ∀ c, isSurrogate c = false → enc c = encodePoint c)
    (hbad : ∀ b c, 0x80 ≤ b.val → bad b = some c → enc c = [b]) {fuel : Nat} {bs : Bytes} {s : Str}
    (h : decodeWith bad fuel bs = some s) : s.flatMap enc = bs := by
  induction fuel generalizing bs s with
  | zero =>
    obtain ⟨rfl, rfl⟩ := decodeWith_zero h
    rfl
  | succ fuel ih =>
    cases bs with
    | nil => cases h; rfl
    | cons b bs =>
      rw [decodeWith] at h
      split at h
      · next c rest hp =>
        obtain ⟨s', hs', rfl⟩ := Option.map_eq_some_iff.mp h
        obtain ⟨form, ⟨hc, hform⟩, -, e⟩ := decodePoint?_eq_some hp
        rw [List.flatMap_cons, ih hs', henc c hc, hform, e]
      · next hp =>
        obtain ⟨c, hc, h⟩ := Option.bind_eq_some_iff.mp h
        obtain ⟨s', hs', rfl⟩ := Option.map_eq_some_iff.mp h
        rw [List.flatMap_cons, ih hs', hbad b c (decodePoint?_eq_none hp) hc]
        rfl

/-- The code points of a text that is read. -/
theorem decodeWith_mem {fuel : Nat} {bs : Bytes} {s : Str} (h : decodeWith bad fuel bs = some s) {c : CodePoint}
    (hc : c ∈ s) : isSurrogate c = false ∨ ∃ b, 0x80 ≤ b.val ∧ bad b = some c := by
  induction fuel generalizing bs s with
  | zero =>
    obtain ⟨rfl, rfl⟩ := decodeWith_zero h
    cases hc
  | succ fuel ih =>
    cases bs with
    | nil => cases h; cases hc
    | cons b bs =>
      rw [decodeWith] at h
      split at h
      · next c' rest hp =>
        obtain ⟨s', hs', rfl⟩ := Option.map_eq_some_iff.mp h
        obtain ⟨form, ⟨hc', -⟩, -⟩ := decodePoint?_eq_some hp
        rcases List.mem_cons.mp hc with rfl | hc
        · exact .inl hc'
        · exact ih hs' hc
      · next hp =>
        obtain ⟨c', hc', h⟩ := Option.bind_eq_some_iff.mp h
        obtain ⟨s', hs', rfl⟩ := Option.map_eq_some_iff.mp h
        rcases List.mem_cons.mp hc with rfl | hc
        · exact .inr ⟨b, decodePoint?_eq_none hp, hc'⟩
        · exact ih hs' hc

/-- With a code point for every bad byte, any bytes are read. -/
theorem decodeWith_total (hbad : ∀ b, ∃ c, bad b = some c) {fuel : Nat} {bs : Bytes} (hf : bs.length ≤ fuel) :
    ∃ s, decodeWith bad fuel bs = some s := by
  induction fuel generalizing bs with
  | zero => rw [List.eq_nil_of_length_eq_zero (Nat.le_zero.mp hf)]; exact ⟨[], rfl⟩
  | succ fuel ih =>
    cases bs with
    | nil => exact ⟨[], rfl⟩
    | cons b bs =>
      rw [decodeWith]
      split
      · next c rest hp =>
        obtain ⟨form, -, hne, e⟩ := decodePoint?_eq_some hp
        have hlen := congrArg List.length e
        have hpos : 0 < form.length := List.length_pos_iff.mpr hne
        simp only [List.length_cons, List.length_append] at hf hlen
        have hrest : rest.length ≤ fuel := by omega
        obtain ⟨s, hs⟩ := ih hrest
        exact ⟨c :: s, by rw [hs]; rfl⟩
      · obtain ⟨c, hc⟩ := hbad b
        have hrest : bs.length ≤ fuel := by simpa using hf
        obtain ⟨s, hs⟩ := ih hrest
        exact ⟨c :: s, by rw [hc, hs]; rfl⟩

/-- Without a code point for the bad bytes, the text is that of any other reading without one. -/
theorem decodeWith_strict {fuel : Nat} {bs : Bytes} {s : Str} (h : decodeWith bad fuel bs = some s)
    (hs : ∀ c ∈ s, ¬ ∃ b, 0x80 ≤ b.val ∧ bad b = some c) : decodeWith (fun _ => none) fuel bs = some s := by
  induction fuel generalizing bs s with
  | zero =>
    obtain ⟨rfl, rfl⟩ := decodeWith_zero h
    rfl
  | succ fuel ih =>
    cases bs with
    | nil => simpa [decodeWith] using h
    | cons b bs =>
      rw [decodeWith] at h ⊢
      split at h
      · next c rest hp =>
        obtain ⟨s', hs', rfl⟩ := Option.map_eq_some_iff.mp h
        rw [ih hs' fun c hc => hs c (List.mem_cons_of_mem _ hc)]
        rfl
      · next hp =>
        obtain ⟨c, hc, h⟩ := Option.bind_eq_some_iff.mp h
        obtain ⟨s', hs', rfl⟩ := Option.map_eq_some_iff.mp h
        exact absurd ⟨b, decodePoint?_eq_none hp, hc⟩ (hs c List.mem_cons_self)

theorem decodeWith_of_strict {fuel : Nat} {bs : Bytes} {s : Str} (h : decodeWith (fun _ => none) fuel bs = some s) :
    decodeWith bad fuel bs = some s := by
  induction fuel generalizing bs s with
  | zero =>
    obtain ⟨rfl, rfl⟩ := decodeWith_zero h
    rfl
  | succ fuel ih =>
    cases bs with
    | nil => simpa [decodeWith] using h
    | cons b bs =>
      rw [decodeWith] at h ⊢
      split at h
      · next c rest hp =>
        obtain ⟨s', hs', rfl⟩ := Option.map_eq_some_iff.mp h
        rw [ih hs']
        rfl
      · cases h

end DecodeWith

/-! ## Round trips -/

theorem decodeEscape_eq (b : Bytes) :
    decodeWith (fun x => some (Fin.ofNat _ (0xDC00 + x.val))) b.length b = some (decodeEscape b) := by
  have hbad : ∀ x : Byte, ∃ c, some (Fin.ofNat 0x110000 (0xDC00 + x.val)) = some c := fun x => ⟨_, rfl⟩
  obtain ⟨s, hs⟩ := decodeWith_total hbad (le_refl b.length)
  rw [decodeEscape, hs]
  rfl

theorem escaped_byte {x : Byte} (hx : 0x80 ≤ x.val) :
    isEscapedByte (Fin.ofNat 0x110000 (0xDC00 + x.val)) = true ∧
      Fin.ofNat 256 ((Fin.ofNat 0x110000 (0xDC00 + x.val)).val - 0xDC00) = x := by
  have hx' := x.isLt
  rw [isEscapedByte, val_ofNat (by omega)]
  exact ⟨by simp; omega, byte_ext (by omega)⟩

/-- `surrogateescape` keeps the bytes. -/
theorem encodeEscape_decodeEscape (b : Bytes) : encodeEscape (decodeEscape b) = .ok b := by
  have hmem : ∀ c ∈ decodeEscape b, (isSurrogate c && !isEscapedByte c) = false := by
    intro c hc
    rcases decodeWith_mem (decodeEscape_eq b) hc with h | ⟨x, hx, h⟩
    · simp [h]
    · rw [← Option.some.inj h, (escaped_byte hx).1, Bool.not_true, Bool.and_false]
  unfold encodeEscape
  rw [if_neg (by simpa using fun c hc => by simpa using hmem c hc)]
  refine congrArg _ (decodeWith_inverse ?_ ?_ (decodeEscape_eq b))
  · intro c hc
    rw [if_neg]
    simp only [isSurrogate, isEscapedByte, Bool.and_eq_false_iff, Bool.and_eq_true, decide_eq_true_eq,
      decide_eq_false_iff_not] at hc ⊢
    omega
  · rintro x c hx h
    cases h
    rw [if_pos (escaped_byte hx).1, (escaped_byte hx).2]

theorem not_isSurrogate_of_decodeStrict {b : Bytes} {s : Str} (h : decodeStrict b = some s) {c : CodePoint}
    (hc : c ∈ s) : isSurrogate c = false := by
  rcases decodeWith_mem h hc with h | ⟨_, _, h⟩
  · exact h
  · cases h

/-- What is decoded with replacement has no surrogates. -/
theorem not_isSurrogate_of_decodeReplace {b : Bytes} {c : CodePoint} (hc : c ∈ decodeReplace b) : isSurrogate c = false := by
  have hat : ∀ fuel bs, ∀ c ∈ decodeReplaceAt fuel bs, isSurrogate c = false := by
    intro fuel bs
    induction fuel, bs using decodeReplaceAt.induct with
    | case1 => rw [decodeReplaceAt]; exact fun _ h => nomatch h
    | case2 => rw [decodeReplaceAt]; exact fun _ h => nomatch h
    | case3 fuel b bs c rest h ih =>
      rw [decodeReplaceAt, h]
      obtain ⟨form, hform, -⟩ := decodePoint?_eq_some h
      exact List.forall_mem_cons.mpr ⟨hform.1, ih⟩
    | case4 fuel b bs h ih =>
      rw [decodeReplaceAt, h]
      exact List.forall_mem_cons.mpr ⟨by decide, ih⟩
  exact hat _ _ c hc

theorem encodeStrict_decodeStrict {b : Bytes} {s : Str} (h : decodeStrict b = some s) : encodeStrict s = .ok b := by
  unfold encodeStrict
  rw [if_neg (by simpa using fun c => not_isSurrogate_of_decodeStrict h)]
  exact congrArg _ (decodeWith_inverse (fun _ _ => rfl) (by simp) h)

/-- Bytes that are UTF-8 are read the same with `surrogateescape`. -/
theorem decodeEscape_of_decodeStrict {b : Bytes} {s : Str} (h : decodeStrict b = some s) : decodeEscape b = s := by
  have := decodeEscape_eq b
  rw [decodeWith_of_strict h] at this
  exact (Option.some.inj this).symm

/-- A byte that is not UTF-8 shows in the text. -/
theorem decodeStrict_eq_none_iff {b : Bytes} : decodeStrict b = none ↔ (decodeEscape b).any isEscapedByte = true := by
  constructor
  · intro h
    by_contra hn
    have hs : decodeStrict b = some (decodeEscape b) := by
      refine decodeWith_strict (decodeEscape_eq b) fun c hc hx => hn (List.any_eq_true.mpr ⟨c, hc, ?_⟩)
      obtain ⟨x, hx, h⟩ := hx
      rw [← Option.some.inj h]
      exact (escaped_byte hx).1
    rw [h] at hs
    cases hs
  · intro h
    obtain ⟨c, hc, he⟩ := List.any_eq_true.mp h
    cases hd : decodeStrict b with
    | none => rfl
    | some s =>
      rw [decodeEscape_of_decodeStrict hd] at hc
      have := not_isSurrogate_of_decodeStrict hd hc
      simp only [isSurrogate, isEscapedByte, Bool.and_eq_false_iff, Bool.and_eq_true, decide_eq_true_eq,
        decide_eq_false_iff_not] at this he
      omega

end Py.Utf8
