import BabelQueue.Py.Utf8.RoundTrip

/-!
# Texts that are read

`decode("utf-8", "surrogateescape")` reads one character at a time, and an ASCII byte always starts one.

* `Reads b s`: the reading, without fuel; `reads_iff`: it is `decodeEscape`.
* `Readable s`: some bytes are read as `s`, so `encode` and `decode` give `s` back (`Readable.stored`).
* `Readable.append`, `Readable.ascii`, `Readable.map_ascii`: what is built of readable texts.
-/

namespace Py.Utf8

/-- A byte of a character beyond ASCII. -/
def isHigh (b : Byte) : Bool := 0x80 ≤ b.val

theorem val_byte {n : Nat} (h : n < 256) : (Fin.ofNat 256 n).val = n := Nat.mod_eq_of_lt h

theorem point_ext {n : Nat} {c : CodePoint} (h : n = c.val) : Fin.ofNat 0x110000 n = c := by
  subst h
  exact Fin.ext (Nat.mod_eq_of_lt c.isLt)

/-- The form of a character is read as the character, whatever follows. -/
theorem decodePoint?_encodePoint {c : CodePoint} (h : isSurrogate c = false) (rest : Bytes) :
    decodePoint? (encodePoint c ++ rest) = some (c, rest) := by
  have hc := c.isLt
  have hs : ¬ (0xD800 ≤ c.val ∧ c.val ≤ 0xDFFF) := fun hs => by rw [isSurrogate_iff.mpr hs] at h; cases h
  unfold encodePoint
  dsimp only
  split
  · next h₁ =>
    rw [List.cons_append, List.nil_append, decodePoint?.eq_def]
    dsimp only
    rw [val_byte (by omega), if_pos h₁, point_ext rfl]
  split
  · rw [List.cons_append, List.cons_append, List.nil_append, decodePoint?.eq_def]
    dsimp only
    rw [isCont, val_byte (by omega), val_byte (by omega), if_neg (by omega), if_pos (by simp; omega),
      point_ext (c := c) (by omega)]
  split
  · rw [List.cons_append, List.cons_append, List.cons_append, List.nil_append, decodePoint?.eq_def]
    dsimp only
    rw [isCont, isCont, val_byte (by omega), val_byte (by omega), val_byte (by omega), if_neg (by omega),
      if_neg (by omega), if_pos (by simp; omega), point_ext (c := c) (by omega)]
  · rw [List.cons_append, List.cons_append, List.cons_append, List.cons_append, List.nil_append, decodePoint?.eq_def]
    dsimp only
    rw [isCont, isCont, isCont, val_byte (by omega), val_byte (by omega), val_byte (by omega), val_byte (by omega),
      if_neg (by omega), if_neg (by omega), if_neg (by omega), if_pos (by simp; omega), point_ext (c := c) (by omega)]

/-- The bytes of a character are all ASCII, or none of them is. -/
theorem encodePoint_isHigh {c : CodePoint} {b : Byte} {bs : Bytes} (h : encodePoint c = b :: bs) :
    (isHigh b = false ∧ bs = [] ∧ c.val < 0x80) ∨ isHigh b = true ∧ ∀ x ∈ bs, isHigh x = true := by
  have hc := c.isLt
  unfold encodePoint at h
  dsimp only at h
  split at h
  · next h₁ =>
    obtain ⟨rfl, rfl⟩ := List.cons.inj h
    refine .inl ⟨?_, rfl, h₁⟩
    rw [isHigh, val_byte (by omega)]
    simpa using h₁
  split at h
  · obtain ⟨rfl, rfl⟩ := List.cons.inj h
    simp only [isHigh, List.mem_singleton, forall_eq, val_byte (show 0xC0 + c.val / 0x40 < 256 by omega),
      val_byte (show 0x80 + c.val % 0x40 < 256 by omega), decide_eq_true_eq]
    omega
  split at h
  · obtain ⟨rfl, rfl⟩ := List.cons.inj h
    simp only [isHigh, List.mem_cons, List.not_mem_nil, or_false, forall_eq_or_imp, forall_eq,
      val_byte (show 0xE0 + c.val / 0x1000 < 256 by omega), val_byte (show 0x80 + c.val / 0x40 % 0x40 < 256 by omega),
      val_byte (show 0x80 + c.val % 0x40 < 256 by omega), decide_eq_true_eq]
    omega
  · obtain ⟨rfl, rfl⟩ := List.cons.inj h
    simp only [isHigh, List.mem_cons, List.not_mem_nil, or_false, forall_eq_or_imp, forall_eq,
      val_byte (show 0xF0 + c.val / 0x40000 < 256 by omega), val_byte (show 0x80 + c.val / 0x1000 % 0x40 < 256 by omega),
      val_byte (show 0x80 + c.val / 0x40 % 0x40 < 256 by omega), val_byte (show 0x80 + c.val % 0x40 < 256 by omega),
      decide_eq_true_eq]
    omega

/-- Whether a byte is bad depends on the high bytes after it only. -/
theorem decodePoint?_none_congr {x : Byte} {b b' : Bytes} (h : decodePoint? (x :: b) = none)
    (hb : b.takeWhile isHigh = b'.takeWhile isHigh) : decodePoint? (x :: b') = none := by
  cases hp : decodePoint? (x :: b') with
  | none => rfl
  | some p =>
    obtain ⟨c, rest⟩ := p
    obtain ⟨form, ⟨hc, rfl⟩, hne, e⟩ := decodePoint?_eq_some hp
    obtain ⟨y, ys, hform⟩ := List.exists_cons_of_ne_nil hne
    rw [hform, List.cons_append] at e
    obtain ⟨rfl, rfl⟩ := List.cons.inj e
    have hx := decodePoint?_eq_none h
    rcases encodePoint_isHigh hform with ⟨hlow, -, -⟩ | ⟨-, hys⟩
    · simp only [isHigh, decide_eq_false_iff_not] at hlow
      exact absurd hx hlow
    · -- The rest of the character stands in `b` as well.
      have hpre : ys <+: b := by
        have : ys <+: (ys ++ rest).takeWhile isHigh := by
          rw [List.takeWhile_append_of_pos hys]
          exact List.prefix_append _ _
        rw [← hb] at this
        exact this.trans (List.takeWhile_prefix _)
      obtain ⟨t, rfl⟩ := hpre
      have hread := decodePoint?_encodePoint hc t
      rw [hform, List.cons_append, h] at hread
      cases hread

/-- The code point of a bad byte. -/
def escaped (x : Byte) : CodePoint := Fin.ofNat _ (0xDC00 + x.val)

/-- `b` is read as `s`. -/
inductive Reads : Bytes → Str → Prop
  | nil : Reads [] []
  | point {b rest : Bytes} {c : CodePoint} {s : Str} (h : decodePoint? b = some (c, rest)) (hs : Reads rest s) :
      Reads b (c :: s)
  | bad {b : Bytes} {x : Byte} {s : Str} (h : decodePoint? (x :: b) = none) (hs : Reads b s) :
      Reads (x :: b) (escaped x :: s)

theorem reads_of_decodeWith {fuel : Nat} {b : Bytes} {s : Str}
    (h : decodeWith (fun x => some (escaped x)) fuel b = some s) : Reads b s := by
  induction fuel generalizing b s with
  | zero =>
    obtain ⟨rfl, rfl⟩ := decodeWith_zero h
    exact .nil
  | succ fuel ih =>
    cases b with
    | nil => cases h; exact .nil
    | cons x b =>
      rw [decodeWith] at h
      split at h
      · next c rest hp =>
        obtain ⟨s', hs', rfl⟩ := Option.map_eq_some_iff.mp h
        exact .point hp (ih hs')
      · next hp =>
        obtain ⟨s', hs', rfl⟩ := Option.map_eq_some_iff.mp h
        exact .bad hp (ih hs')

theorem Reads.unique {b : Bytes} {s s' : Str} (h : Reads b s) (h' : Reads b s') : s = s' := by
  induction h generalizing s' with
  | nil =>
    cases h' with
    | nil => rfl
    | point hp => cases hp
  | point hp _ ih =>
    cases h' with
    | nil => cases hp
    | point hp' hs' =>
      rw [hp] at hp'
      cases hp'
      rw [ih hs']
    | bad hp' => rw [hp] at hp'; cases hp'
  | bad hp _ ih =>
    cases h' with
    | point hp' => rw [hp] at hp'; cases hp'
    | bad _ hs' => rw [ih hs']

theorem reads_iff {b : Bytes} {s : Str} : Reads b s ↔ decodeEscape b = s := by
  have h : Reads b (decodeEscape b) := reads_of_decodeWith (decodeEscape_eq b)
  exact ⟨fun hs => h.unique hs, fun e => e ▸ h⟩

/-- Bytes that end before an ASCII byte, and what comes after them, are read one after the other. -/
theorem Reads.append {b b' : Bytes} {s s' : Str} (h : Reads b s) (h' : Reads b' s')
    (hlow : ∀ x ∈ b'.head?, isHigh x = false) : Reads (b ++ b') (s ++ s') := by
  have htake : ∀ b : Bytes, (b ++ b').takeWhile isHigh = b.takeWhile isHigh := by
    intro b
    have hnil : b'.takeWhile isHigh = [] := by
      cases b' with
      | nil => rfl
      | cons x b' => exact List.takeWhile_cons_of_neg (by simpa using hlow x rfl)
    rw [List.takeWhile_append, hnil, List.append_nil]
    split
    · next h => exact ((List.takeWhile_prefix isHigh).eq_of_length h).symm
    · rfl
  induction h with
  | nil => exact h'
  | @point b rest c s hp _ ih =>
    obtain ⟨form, ⟨hc, rfl⟩, -, rfl⟩ := decodePoint?_eq_some hp
    rw [List.append_assoc]
    exact .point (decodePoint?_encodePoint hc _) ih
  | bad hp _ ih => exact .bad (decodePoint?_none_congr hp (htake _).symm) ih

/-- Some bytes are read as `s`. -/
def Readable (s : Str) : Prop := ∃ b, decodeEscape b = s

/-- A readable text is written as bytes that are read as the text. -/
theorem Readable.stored {s : Str} (h : Readable s) : ∃ b, encodeEscape s = .ok b ∧ decodeEscape b = s := by
  obtain ⟨b, rfl⟩ := h
  exact ⟨b, encodeEscape_decodeEscape b, rfl⟩

theorem readable_nil : Readable [] := ⟨[], rfl⟩

theorem reads_encodePoint {s : Str} (hs : ∀ c ∈ s, isSurrogate c = false) : Reads (s.flatMap encodePoint) s := by
  induction s with
  | nil => exact .nil
  | cons c s ih =>
    rw [List.flatMap_cons]
    exact .point (decodePoint?_encodePoint (hs c List.mem_cons_self) _) (ih fun d hd => hs d (List.mem_cons_of_mem c hd))

/-- A text with a UTF-8 form is what that form is read as. -/
theorem decodeEscape_encodeStrict {s : Str} {b : Bytes} (h : encodeStrict s = .ok b) : decodeEscape b = s := by
  unfold encodeStrict at h
  split at h
  · cases h
  · next hs =>
    cases h
    exact reads_iff.mp (reads_encodePoint (by simpa using hs))

/-- The byte of an ASCII character. -/
theorem reads_ascii {c : CodePoint} (hc : c.val < 0x80) {b : Bytes} {s : Str} (h : Reads b s) :
    Reads (Fin.ofNat _ c.val :: b) (c :: s) ∧ isHigh (Fin.ofNat _ c.val) = false := by
  have hform : encodePoint c = [Fin.ofNat _ c.val] := by rw [encodePoint, if_pos hc]
  refine ⟨.point (?_ : decodePoint? _ = some (c, b)) h, ?_⟩
  · have hs : isSurrogate c = false := by rw [← Bool.not_eq_true, isSurrogate_iff]; omega
    have := decodePoint?_encodePoint hs b
    rwa [hform] at this
  · rw [isHigh, val_byte (by omega)]
    simpa using hc

theorem Readable.cons {s : Str} (h : Readable s) {c : CodePoint} (hc : c.val < 0x80) : Readable (c :: s) := by
  obtain ⟨b, hb⟩ := h
  exact ⟨_, reads_iff.mp (reads_ascii hc (reads_iff.mpr hb)).1⟩

theorem readable_ascii {s : Str} (hs : ∀ c ∈ s, c.val < 0x80) : Readable s := by
  induction s with
  | nil => exact readable_nil
  | cons c s ih => exact (ih fun x hx => hs x (List.mem_cons_of_mem c hx)).cons (hs c List.mem_cons_self)

theorem encodeEscape_length {s : Str} (hs : ∀ c ∈ s, c.val < 0x80) {b : Bytes} (h : encodeEscape s = .ok b) :
    b.length = s.length := by
  unfold encodeEscape at h
  split at h
  · cases h
  · next h' =>
    cases h
    induction s with
    | nil => rfl
    | cons c s ih =>
      have hc : c.val < 0x80 := hs c List.mem_cons_self
      have hescaped : isEscapedByte c = false := by
        unfold isEscapedByte
        rw [Bool.and_eq_false_iff, decide_eq_false_iff_not]
        exact .inl (by omega)
      have hrest : ¬ (s.any fun c => isSurrogate c && !isEscapedByte c) = true := fun hany =>
        h' ((List.any_cons).trans ((congrArg _ hany).trans (Bool.or_true _)))
      rw [List.flatMap_cons, List.length_append, ih (fun x hx => hs x (List.mem_cons_of_mem c hx)) hrest, hescaped,
        if_neg Bool.false_ne_true]
      unfold encodePoint
      rw [if_pos hc, List.length_singleton, List.length_cons, Nat.add_comm]

/-- A readable text before one that starts with an ASCII character. -/
theorem Readable.append {s s' : Str} (h : Readable s) (h' : Readable s') {c : CodePoint} (hc : c.val < 0x80) :
    Readable (s ++ c :: s') := by
  obtain ⟨b, hb⟩ := h
  obtain ⟨b', hb'⟩ := h'
  obtain ⟨hr, hlow⟩ := reads_ascii hc (reads_iff.mpr hb')
  refine ⟨_, reads_iff.mp ((reads_iff.mpr hb).append hr ?_)⟩
  rintro x ⟨⟩
  exact hlow

/-- Texts in place of the ASCII characters do not change how the others are read. -/
theorem Readable.flatMap {f : CodePoint → Str} (hhigh : ∀ c : CodePoint, 0x80 ≤ c.val → f c = [c])
    (hlow : ∀ c : CodePoint, c.val < 0x80 → f c ≠ [] ∧ ∀ x ∈ f c, x.val < 0x80) {s : Str} (h : Readable s) :
    Readable (s.flatMap f) := by
  obtain ⟨b, hb⟩ := h
  suffices ∃ b', Reads b' (s.flatMap f) ∧ b'.takeWhile isHigh = b.takeWhile isHigh from
    this.imp fun _ h => reads_iff.mp h.1
  have hr := reads_iff.mpr hb
  clear hb
  induction hr with
  | nil => exact ⟨[], .nil, rfl⟩
  | @point b rest c s hp _ ih =>
    obtain ⟨b', hb', htake⟩ := ih
    obtain ⟨form, ⟨hc, rfl⟩, hne, rfl⟩ := decodePoint?_eq_some hp
    obtain ⟨x, xs, hform⟩ := List.exists_cons_of_ne_nil hne
    rw [List.flatMap_cons]
    rcases encodePoint_isHigh hform with ⟨hx, rfl, hcl⟩ | ⟨hx, hxs⟩
    · -- An ASCII character: what stands for it starts with an ASCII byte, too.
      obtain ⟨hne', hascii⟩ := hlow c hcl
      obtain ⟨y, ys, hy⟩ := List.exists_cons_of_ne_nil hne'
      have hys : ∀ {t : Str}, (∀ x ∈ t, x.val < 0x80) → ∃ b'', Reads b'' (t ++ s.flatMap f) := by
        intro t ht
        induction t with
        | nil => exact ⟨b', hb'⟩
        | cons z t iht =>
          obtain ⟨b'', h''⟩ := iht fun x hx => ht x (List.mem_cons_of_mem z hx)
          exact ⟨_, (reads_ascii (ht z List.mem_cons_self) h'').1⟩
      rw [hy] at hascii ⊢
      obtain ⟨b'', h''⟩ := hys fun x hx => hascii x (List.mem_cons_of_mem y hx)
      obtain ⟨hread, hlow'⟩ := reads_ascii (hascii y List.mem_cons_self) h''
      refine ⟨_, hread, ?_⟩
      rw [hform, List.cons_append, List.takeWhile_cons_of_neg (by rw [hlow']; exact Bool.false_ne_true), List.takeWhile_cons_of_neg (by simp [hx])]
    · have hch : 0x80 ≤ c.val := by
        by_contra hlt
        have : encodePoint c = [Fin.ofNat _ c.val] := by rw [encodePoint, if_pos (by omega)]
        rw [this] at hform
        obtain ⟨rfl, -⟩ := List.cons.inj hform
        rw [isHigh, val_byte (by omega)] at hx
        simp at hx
        omega
      rw [hhigh c hch]
      refine ⟨encodePoint c ++ b', .point (decodePoint?_encodePoint hc b') hb', ?_⟩
      have hall : ∀ y ∈ encodePoint c, isHigh y = true := by
        rw [hform]
        exact List.forall_mem_cons.mpr ⟨hx, hxs⟩
      rw [List.takeWhile_append_of_pos hall, List.takeWhile_append_of_pos hall, htake]
  | @bad b x s hp _ ih =>
    obtain ⟨b', hb', htake⟩ := ih
    have hx : isHigh x = true := by simpa [isHigh] using decodePoint?_eq_none hp
    have hesc : 0x80 ≤ (escaped x).val := by
      have := x.isLt
      rw [escaped, val_ofNat (by omega)]
      omega
    rw [List.flatMap_cons, hhigh _ hesc]
    refine ⟨x :: b', .bad (decodePoint?_none_congr hp htake.symm) hb', ?_⟩
    rw [List.takeWhile_cons_of_pos hx, List.takeWhile_cons_of_pos hx, htake]

end Py.Utf8
