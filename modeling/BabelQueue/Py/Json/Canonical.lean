import Mathlib.Data.List.Chain
import Mathlib.Data.List.Sort
import BabelQueue.Py.Json.Bytes
import BabelQueue.Py.Json.Path

/-!
# The canonical text of a value

* `dumpsCanonical v` is `json.dumps(v, sort_keys=True, separators=(",", ":"))`: members in the order
  of their keys, and every character that is not printable ASCII as an escape.
* `Joined v`: no string of `v` has the two halves of a surrogate pair next to each other, as no text
  without raw surrogates denotes one (`joined_of_loads`).
* `loadsBytes_canonical`: a joined value is read back from its canonical text, with sorted members.
-/

namespace Py.Json

/-! ## ASCII -/

/-- The halves of a code point beyond `0xFFFF`. -/
def highHalf (c : CodePoint) : Nat := 0xD800 + (c.val - 0x10000) / 0x400

def lowHalf (c : CodePoint) : Nat := 0xDC00 + (c.val - 0x10000) % 0x400

/-- One code point with `ensure_ascii`, in a text without it. -/
def asciiPoint (c : CodePoint) : Str :=
  if c.val ≤ 0x7E then [c]
  else if c.val < 0x10000 then Py.str "\\u" ++ hexText 4 c.val
  else Py.str "\\u" ++ hexText 4 (highHalf c) ++ (Py.str "\\u" ++ hexText 4 (lowHalf c))

/-- A text with `ensure_ascii`, from the one without it. -/
def asciiText (s : Str) : Str := s.flatMap asciiPoint

/-- An escape of four digits. -/
def unicodePiece (n : Nat) : Piece :=
  .unicode (cp (Nat.digitChar (n / 16 ^ 3 % 16))) (cp (Nat.digitChar (n / 16 ^ 2 % 16)))
    (cp (Nat.digitChar (n / 16 ^ 1 % 16))) (cp (Nat.digitChar (n / 16 ^ 0 % 16)))

/-- The pieces of one code point with `ensure_ascii`. -/
def asciiPieces (c : CodePoint) : List Piece :=
  if c.val ≤ 0x7E then [encodePiece c]
  else if c.val < 0x10000 then [unicodePiece c.val]
  else [unicodePiece (highHalf c), unicodePiece (lowHalf c)]

theorem unicodePiece_text (n : Nat) : (unicodePiece n).text = Py.str "\\u" ++ hexText 4 n := rfl

theorem unicodePiece_valid (n : Nat) : (unicodePiece n).Valid := by
  intro c hc
  simp only [List.mem_cons, List.not_mem_nil, or_false] at hc
  rcases hc with rfl | rfl | rfl | rfl <;> rw [hexValue?_digitChar (Nat.mod_lt _ (by decide))] <;> rfl

theorem unicodePiece_value {n : Nat} (h : n < 0x10000) : (unicodePiece n).value = Fin.ofNat _ n := by
  have hd : ∀ i, hexValue? (cp (Nat.digitChar (n / 16 ^ i % 16))) = some (n / 16 ^ i % 16) := fun i =>
    hexValue?_digitChar (Nat.mod_lt _ (by decide))
  rw [unicodePiece, Piece.value, hd, hd, hd, hd]
  refine congrArg _ ?_
  simp only [Option.getD_some]
  omega

theorem asciiText_append (s t : Str) : asciiText (s ++ t) = asciiText s ++ asciiText t := List.flatMap_append

theorem asciiText_cons (c : CodePoint) (s : Str) : asciiText (c :: s) = asciiPoint c ++ asciiText s := rfl

/-- Printable ASCII stays. -/
theorem asciiText_of_le {s : Str} (h : ∀ c ∈ s, c.val ≤ 0x7E) : asciiText s = s := by
  induction s with
  | nil => rfl
  | cons c s ih =>
    rw [asciiText_cons, asciiPoint, if_pos (h c List.mem_cons_self), ih fun c hc => h c (List.mem_cons_of_mem _ hc)]
    rfl

theorem asciiText_commas (ss : List Str) : asciiText (commas ss) = commas (ss.map asciiText) := by
  induction ss with
  | nil => rfl
  | cons s ss ih =>
    cases ss with
    | nil => rfl
    | cons t ss =>
      rw [commas, asciiText_append, asciiText_cons, ih]
      rfl

theorem digitChar_range {n : Nat} (h : n < 16) :
    0x20 ≤ (cp (Nat.digitChar n)).val ∧ (cp (Nat.digitChar n)).val ≤ 0x7E := by
  have : ∀ n < 16, 0x20 ≤ (cp (Nat.digitChar n)).val ∧ (cp (Nat.digitChar n)).val ≤ 0x7E := by decide
  exact this n h

/-- A piece is printable but for a character that stands for itself. -/
theorem encodePiece_text_range {c x : CodePoint} (h : x ∈ (encodePiece c).text) :
    0x20 ≤ x.val ∧ (c.val ≤ 0x7E → x.val ≤ 0x7E) := by
  have hshort : ∀ d : Char, 0x20 ≤ d.toNat ∧ d.toNat ≤ 0x7E → x ∈ (Piece.short (cp d)).text → 0x20 ≤ x.val ∧ x.val ≤ 0x7E := by
    intro d hd hx
    simp only [Piece.text, List.mem_cons, List.not_mem_nil, or_false] at hx
    rcases hx with rfl | rfl
    · decide
    · exact hd
  have hkeep : 0x20 ≤ x.val ∧ x.val ≤ 0x7E → 0x20 ≤ x.val ∧ (c.val ≤ 0x7E → x.val ≤ 0x7E) := fun h => ⟨h.1, fun _ => h.2⟩
  rw [encodePiece] at h
  split at h
  · next hc => rcases hc with rfl | rfl <;> exact hkeep (hshort _ (by decide) h)
  split at h
  · exact hkeep (hshort _ (by decide) h)
  split at h
  · exact hkeep (hshort _ (by decide) h)
  split at h
  · exact hkeep (hshort _ (by decide) h)
  split at h
  · exact hkeep (hshort _ (by decide) h)
  split at h
  · exact hkeep (hshort _ (by decide) h)
  split at h
  · simp only [Piece.text, List.mem_cons, List.not_mem_nil, or_false] at h
    rcases h with rfl | rfl | rfl | rfl | rfl | rfl
    · exact hkeep (by decide)
    · exact hkeep (by decide)
    · exact hkeep (by decide)
    · exact hkeep (by decide)
    · exact hkeep (digitChar_range (by omega))
    · exact hkeep (digitChar_range (by omega))
  · obtain rfl : x = c := by simpa [Piece.text] using h
    exact ⟨by omega, id⟩

/-- Beyond printable ASCII a character stands for itself. -/
theorem encodePiece_of_not_le {c : CodePoint} (h : ¬ c.val ≤ 0x7E) : encodePiece c = .raw c := by
  have hne : ∀ d : Char, d.toNat ≤ 0x7E → c ≠ cp d := by
    rintro d hd rfl
    exact h hd
  rw [encodePiece, if_neg (by simp [hne]), if_neg (hne _ (by decide)), if_neg (hne _ (by decide)),
    if_neg (hne _ (by decide)), if_neg (by omega), if_neg (by omega), if_neg (by omega)]

theorem asciiText_encodePiece (c : CodePoint) :
    asciiText (encodePiece c).text = (asciiPieces c).flatMap Piece.text := by
  by_cases h : c.val ≤ 0x7E
  · rw [asciiText_of_le fun x hx => (encodePiece_text_range hx).2 h, asciiPieces, if_pos h]
    simp
  · rw [encodePiece_of_not_le h, asciiPieces, if_neg h]
    simp only [Piece.text, asciiText, List.flatMap_cons, List.flatMap_nil, List.append_nil]
    rw [asciiPoint, if_neg h]
    split
    · simp [unicodePiece_text]
    · simp [unicodePiece_text]

theorem asciiText_strText (s : Str) : asciiText (strText s) = quoted (s.flatMap asciiPieces) := by
  have hbody : asciiText ((s.map encodePiece).flatMap Piece.text) = (s.flatMap asciiPieces).flatMap Piece.text := by
    induction s with
    | nil => rfl
    | cons c s ih =>
      rw [List.map_cons, List.flatMap_cons, asciiText_append, ih, asciiText_encodePiece, List.flatMap_cons,
        List.flatMap_append]
  rw [strText, quoted, asciiText_append, asciiText_cons, hbody]
  rfl

/-! ## Surrogate pairs -/

/-- No high surrogate stands before a low one. -/
def JoinedStr (s : Str) : Prop := s.IsChain fun c d => ¬ (isHighSurrogate c = true ∧ isLowSurrogate d = true)

theorem decode_cons {p : Piece} {ps : List Piece}
    (h : ∀ q, ps.head? = some q → q.isUnicode = true → isHighSurrogate p.value = true → isLowSurrogate q.value = false) :
    decode (p :: ps) = p.value :: decode ps := by
  cases ps with
  | nil => rfl
  | cons q ps =>
    rw [decode, if_neg]
    simp only [Bool.and_eq_true, not_and, Bool.not_eq_true]
    exact fun hp => h q rfl hp.1.2 hp.2

theorem halves_of_le {c : CodePoint} (h : 0x10000 ≤ c.val) :
    isHighSurrogate (unicodePiece (highHalf c)).value = true ∧ isLowSurrogate (unicodePiece (lowHalf c)).value = true ∧
      joinPair (unicodePiece (highHalf c)).value (unicodePiece (lowHalf c)).value = c := by
  have hc := c.isLt
  have hhi : highHalf c < 0x10000 := by rw [highHalf]; omega
  have hlo : lowHalf c < 0x10000 := by rw [lowHalf]; omega
  have hv : (Fin.ofNat 0x110000 (highHalf c)).val = highHalf c := Nat.mod_eq_of_lt (by omega)
  have hv' : (Fin.ofNat 0x110000 (lowHalf c)).val = lowHalf c := Nat.mod_eq_of_lt (by omega)
  rw [unicodePiece_value hhi, unicodePiece_value hlo]
  refine ⟨?_, ?_, ?_⟩
  · rw [isHighSurrogate, hv, highHalf, Bool.and_eq_true, decide_eq_true_eq, decide_eq_true_eq]
    omega
  · rw [isLowSurrogate, hv', lowHalf, Bool.and_eq_true, decide_eq_true_eq, decide_eq_true_eq]
    omega
  · rw [joinPair, hv, hv', highHalf, lowHalf]
    refine Fin.ext ?_
    rw [Fin.val_ofNat, Nat.mod_eq_of_lt] <;> omega

theorem point_of_val (c : CodePoint) : Fin.ofNat 0x110000 c.val = c := Fin.ext (Nat.mod_eq_of_lt c.isLt)

/-- A code point starts with the escape of a low surrogate only if it is one. -/
theorem asciiPieces_head {c : CodePoint} {q : Piece} {ps : List Piece} (h : (asciiPieces c ++ ps).head? = some q)
    (hq : isLowSurrogate q.value = true) : isLowSurrogate c = true := by
  unfold asciiPieces at h
  split at h
  · obtain rfl : encodePiece c = q := by simpa using h
    rwa [encodePiece_value] at hq
  split at h
  · next hc =>
    obtain rfl : unicodePiece c.val = q := by simpa using h
    rwa [unicodePiece_value hc, point_of_val] at hq
  · next hc =>
    obtain rfl : unicodePiece (highHalf c) = q := by simpa using h
    have hhi := (halves_of_le (not_lt.mp hc)).1
    simp only [isHighSurrogate, isLowSurrogate, Bool.and_eq_true, decide_eq_true_eq] at hhi hq
    omega

/-- The pieces of a string without split pairs denote it. -/
theorem decode_asciiPieces {s : Str} (h : JoinedStr s) : decode (s.flatMap asciiPieces) = s := by
  induction s with
  | nil => rfl
  | cons c s ih =>
    have hs : JoinedStr s := List.IsChain.tail h
    have hnext : ∀ q, (s.flatMap asciiPieces).head? = some q → isHighSurrogate c = true → isLowSurrogate q.value = false := by
      intro q hq hc
      cases s with
      | nil => cases hq
      | cons d s =>
        have hd := (List.isChain_cons_cons.mp h).1
        by_contra hn
        exact hd ⟨hc, asciiPieces_head hq (by simpa using hn)⟩
    rw [List.flatMap_cons, asciiPieces]
    split
    · rw [List.singleton_append, decode_cons, ih hs, encodePiece_value]
      intro q hq _ hp
      exact hnext q hq (encodePiece_value c ▸ hp)
    split
    · next hc =>
      have hv : (unicodePiece c.val).value = c := by rw [unicodePiece_value hc, point_of_val]
      rw [List.singleton_append, decode_cons, ih hs, hv]
      intro q hq _ hp
      exact hnext q hq (hv ▸ hp)
    · next hc =>
      obtain ⟨hhi, hlo, hjoin⟩ := halves_of_le (not_lt.mp hc)
      rw [List.cons_append, List.singleton_append, decode, if_pos (by rw [hhi, hlo]; rfl), hjoin,
        ih hs]

theorem spellsStr_asciiText {s : Str} (h : JoinedStr s) : SpellsStr s (asciiText (strText s)) := by
  refine ⟨s.flatMap asciiPieces, fun p hp => ?_, (decode_asciiPieces h).symm, asciiText_strText s⟩
  obtain ⟨c, -, hc⟩ := List.mem_flatMap.mp hp
  unfold asciiPieces at hc
  split at hc
  · rw [List.mem_singleton.mp hc]
    exact encodePiece_valid c
  split at hc
  · rw [List.mem_singleton.mp hc]
    exact unicodePiece_valid _
  · simp only [List.mem_cons, List.not_mem_nil, or_false] at hc
    rcases hc with rfl | rfl <;> exact unicodePiece_valid _

theorem isSurrogate_of_isHighSurrogate {c : CodePoint} (h : isHighSurrogate c = true) : isSurrogate c = true := by
  simp only [isHighSurrogate, isSurrogate, Bool.and_eq_true, decide_eq_true_eq] at h ⊢
  omega

theorem isSurrogate_of_isLowSurrogate {c : CodePoint} (h : isLowSurrogate c = true) : isSurrogate c = true := by
  simp only [isLowSurrogate, isSurrogate, Bool.and_eq_true, decide_eq_true_eq] at h ⊢
  omega

theorem not_isSurrogate_joinPair {c d : CodePoint} (hc : isHighSurrogate c = true) (hd : isLowSurrogate d = true) :
    isSurrogate (joinPair c d) = false := by
  simp only [isHighSurrogate, isLowSurrogate, Bool.and_eq_true, decide_eq_true_eq] at hc hd
  rw [isSurrogate, joinPair, Fin.val_ofNat, Nat.mod_eq_of_lt (by omega)]
  simp only [Bool.and_eq_false_iff, decide_eq_false_iff_not]
  omega

theorem not_isSurrogate_shortEscape {c x : CodePoint} (h : shortEscape? c = some x) : isSurrogate x = false := by
  unfold shortEscape? at h
  split at h
  · next hc => cases h; rcases hc with rfl | rfl | rfl <;> decide
  split at h
  · cases h; decide
  split at h
  · cases h; decide
  split at h
  · cases h; decide
  split at h
  · cases h; decide
  split at h
  · cases h; decide
  · cases h

/-- Only an escape is read as a surrogate. -/
theorem isUnicode_of_isSurrogate {p : Piece} (hv : p.Valid) (hs : ∀ c, p = .raw c → isSurrogate c = false)
    (h : isSurrogate p.value = true) : p.isUnicode = true := by
  cases p with
  | raw c =>
    rw [Piece.value, hs c rfl] at h
    cases h
  | short c =>
    obtain ⟨x, hx⟩ := Option.isSome_iff_exists.mp hv
    rw [Piece.value, hx, Option.getD_some, not_isSurrogate_shortEscape hx] at h
    cases h
  | unicode => rfl

/-- What a literal without raw surrogates denotes. -/
theorem joinedStr_decode {ps : List Piece} (hv : ∀ p ∈ ps, p.Valid)
    (hs : ∀ p ∈ ps, ∀ c, p = .raw c → isSurrogate c = false) : JoinedStr (decode ps) := by
  -- the first code point of what follows is that of the next piece, or no surrogate
  have hhead : ∀ q ps, ∀ d ∈ (decode (q :: ps)).head?, isLowSurrogate d = true → d = q.value := by
    intro q ps d hd hl
    cases ps with
    | nil => simpa [decode] using hd.symm
    | cons r ps =>
      rw [decode] at hd
      split at hd
      · next hc =>
        simp only [Bool.and_eq_true] at hc
        obtain rfl : joinPair q.value r.value = d := by simpa using hd
        have := not_isSurrogate_joinPair hc.1.2 hc.2
        rw [isSurrogate_of_isLowSurrogate hl] at this
        cases this
      · simpa using hd.symm
  induction ps using decode.induct with
  | case1 => exact .nil
  | case2 p => exact .singleton _
  | case3 p q ps hc ih =>
    rw [decode, if_pos hc]
    simp only [Bool.and_eq_true] at hc
    refine List.IsChain.cons (ih (fun p hp => hv p (by simp [hp])) fun p hp => hs p (by simp [hp])) fun d _ h => ?_
    have := not_isSurrogate_joinPair hc.1.2 hc.2
    rw [isSurrogate_of_isHighSurrogate h.1] at this
    cases this
  | case4 p q ps hc ih =>
    rw [decode, if_neg hc]
    refine List.IsChain.cons (ih (fun p hp => hv p (by simp [hp])) fun p hp => hs p (by simp [hp])) fun d hd h => ?_
    obtain rfl := hhead q ps d hd h.2
    refine hc ?_
    simp only [Bool.and_eq_true]
    exact ⟨⟨⟨isUnicode_of_isSurrogate (hv p (by simp)) (hs p (by simp)) (isSurrogate_of_isHighSurrogate h.1),
      isUnicode_of_isSurrogate (hv q (by simp)) (hs q (by simp)) (isSurrogate_of_isLowSurrogate h.2)⟩, h.1⟩, h.2⟩

mutual

/-- No string or key of the value has a split pair. -/
def Joined : Json → Prop
  | .str s => JoinedStr s
  | .arr vs => joinedItems vs
  | .obj ms => joinedMembers ms
  | _ => True

def joinedItems : List Json → Prop
  | [] => True
  | v :: vs => Joined v ∧ joinedItems vs

def joinedMembers : List (Str × Json) → Prop
  | [] => True
  | (k, v) :: ms => (JoinedStr k ∧ Joined v) ∧ joinedMembers ms

end

theorem joinedItems_iff {vs : List Json} : joinedItems vs ↔ ∀ v ∈ vs, Joined v := by
  induction vs with
  | nil => simp [joinedItems]
  | cons v vs ih => simp [joinedItems, ih]

theorem joinedMembers_iff {ms : List (Str × Json)} : joinedMembers ms ↔ ∀ m ∈ ms, JoinedStr m.1 ∧ Joined m.2 := by
  induction ms with
  | nil => simp [joinedMembers]
  | cons m ms ih => obtain ⟨k, v⟩ := m; simp only [joinedMembers, ih, List.forall_mem_cons]

theorem joined_arr {vs : List Json} : Joined (.arr vs) ↔ ∀ v ∈ vs, Joined v := by rw [Joined, joinedItems_iff]

theorem joined_obj {ms : List (Str × Json)} : Joined (.obj ms) ↔ ∀ m ∈ ms, JoinedStr m.1 ∧ Joined m.2 := by
  rw [Joined, joinedMembers_iff]

/-- A text without raw surrogates. -/
def NoSurrogate (s : Str) : Prop := ∀ c ∈ s, isSurrogate c = false

theorem NoSurrogate.left {s t : Str} (h : NoSurrogate (s ++ t)) : NoSurrogate s := fun c hc => h c (List.mem_append_left _ hc)

theorem NoSurrogate.right {s t : Str} (h : NoSurrogate (s ++ t)) : NoSurrogate t := fun c hc => h c (List.mem_append_right _ hc)

theorem joinedStr_of_noSurrogate {s : Str} (h : NoSurrogate s) : JoinedStr s := by
  refine List.Pairwise.isChain (List.pairwise_of_forall_mem_list fun c hc d _ => ?_)
  rintro ⟨hhigh, -⟩
  have := h c hc
  simp only [isHighSurrogate, isSurrogate, Bool.and_eq_true, decide_eq_true_eq, Bool.and_eq_false_iff,
    decide_eq_false_iff_not] at hhigh this
  omega

theorem joinedStr_of_all {s : Str} (h : (s.all fun c => !isSurrogate c) = true) : JoinedStr s :=
  joinedStr_of_noSurrogate (by simpa [NoSurrogate] using h)

theorem joinedStr_of_spells {v s : Str} (h : SpellsStr v s) (hs : NoSurrogate s) : JoinedStr v := by
  obtain ⟨ps, hv, rfl, rfl⟩ := h
  refine joinedStr_decode hv fun p hp c e => hs c ?_
  subst e
  have : c ∈ ps.flatMap Piece.text := List.mem_flatMap.mpr ⟨_, hp, by simp [Piece.text]⟩
  simp [quoted, this]

theorem Padded.noSurrogate {P : Str → Prop} {s : Str} (h : Padded P s) (hs : NoSurrogate s) : ∃ t, P t ∧ NoSurrogate t := by
  obtain ⟨w, t, w', -, -, ht, rfl⟩ := h
  exact ⟨t, ht, hs.left.right⟩

theorem Sep.noSurrogate {α : Type} {P : α → Str → Prop} {as : List α} {s : Str} (h : Sep P as s) (hs : NoSurrogate s) :
    ∀ a ∈ as, ∃ t, P a t ∧ NoSurrogate t := by
  induction as generalizing s with
  | nil => simp
  | cons a as ih =>
    cases as with
    | nil => simpa using ⟨s, h, hs⟩
    | cons b bs =>
      obtain ⟨s₁, s₂, rfl, ha, hb⟩ := h
      exact List.forall_mem_cons.mpr ⟨⟨s₁, ha, hs.left⟩, ih hb fun c hc => hs.right c (List.mem_cons_of_mem _ hc)⟩

theorem Bracketed.noSurrogate {α : Type} {P : α → Str → Prop} {o c : CodePoint} {as : List α} {s : Str}
    (h : Bracketed o c as (Sep P as) s) (hs : NoSurrogate s) : ∀ a ∈ as, ∃ t, P a t ∧ NoSurrogate t := by
  obtain ⟨body, rfl, ⟨rfl, -⟩ | hbody⟩ := h
  · simp
  · exact hbody.noSurrogate fun c hc => hs c (by simp [hc])

/-- A value read from a text without raw surrogates has no split pairs. -/
theorem joined_of_spells {t : Tree} {s : Str} (h : Spells t s) (hs : NoSurrogate s) : Joined t.toJson := by
  induction t using Tree.ind generalizing s with
  | str v => exact joinedStr_of_spells (by rwa [Spells] at h) hs
  | num l => rw [Tree.toJson]; split <;> trivial
  | arr ts ih =>
    rw [Spells, funext fun s => propext (spellsItems_iff ts s)] at h
    rw [Tree.toJson, joined_arr, itemsToJson_eq]
    refine List.forall_mem_map.mpr fun t ht => ?_
    obtain ⟨s₁, h₁, hs₁⟩ := h.noSurrogate hs t ht
    obtain ⟨s₂, h₂, hs₂⟩ := h₁.noSurrogate hs₁
    exact ih t ht h₂ hs₂
  | obj ms ih =>
    rw [Spells, funext fun s => propext (spellsMembers_iff ms s)] at h
    rw [toJson_obj, joined_obj]
    intro m hm
    have hm := Dict.mem_of_mem_ofPairs hm
    rw [membersToJson_eq] at hm
    obtain ⟨m, hmem, rfl⟩ := List.mem_map.mp hm
    obtain ⟨s₁, ⟨sk, sv, hk, hv, rfl⟩, hs₁⟩ := h.noSurrogate hs m hmem
    obtain ⟨k, hk, hsk⟩ := hk.noSurrogate hs₁.left
    obtain ⟨v, hv, hsv⟩ := hv.noSurrogate fun c hc => hs₁.right c (List.mem_cons_of_mem _ hc)
    exact ⟨joinedStr_of_spells hk hsk, ih m hmem hv hsv⟩
  | _ => trivial

theorem joined_of_loads [Interpreter] {s : Str} {v : Json} (h : loads s = .ok v) (hs : NoSurrogate s) : Joined v := by
  rw [loads] at h
  cases hp : parse defaultHooks s with
  | error e => rw [hp] at h; cases h
  | ok t =>
    rw [hp] at h
    cases h
    obtain ⟨s', hspell, hs'⟩ := (parse_sound hp).1.noSurrogate hs
    exact joined_of_spells hspell hs'

/-! ## Sorted members -/

mutual

/-- The value with the members of its objects in the order of their keys. -/
def sortKeys : Json → Json
  | .arr vs => .arr (sortItems vs)
  | .obj ms => .obj ((sortMembers ms).insertionSort fun m m' => m.1 ≤ m'.1)
  | v => v

def sortItems : List Json → List Json
  | [] => []
  | v :: vs => sortKeys v :: sortItems vs

def sortMembers : List (Str × Json) → List (Str × Json)
  | [] => []
  | (k, v) :: ms => (k, sortKeys v) :: sortMembers ms

end

theorem sortItems_eq (vs : List Json) : sortItems vs = vs.map sortKeys := by
  induction vs with
  | nil => rfl
  | cons v vs ih => rw [sortItems, ih, List.map_cons]

theorem sortMembers_eq (ms : List (Str × Json)) : sortMembers ms = ms.map fun m => (m.1, sortKeys m.2) := by
  induction ms with
  | nil => rfl
  | cons m ms ih => obtain ⟨k, v⟩ := m; rw [sortMembers, ih, List.map_cons]

/-- The members of a sorted object are those of the object, sorted themselves. -/
theorem sortKeys_obj (ms : List (Str × Json)) :
    ∃ ms', sortKeys (.obj ms) = .obj ms' ∧ ms'.Perm (ms.map fun m => (m.1, sortKeys m.2)) := by
  refine ⟨_, by rw [sortKeys], ?_⟩
  rw [sortMembers_eq]
  exact List.perm_insertionSort _ _

theorem sortKeys_proper {v : Json} (h : v.Proper) : (sortKeys v).Proper := by
  induction v using Json.ind with
  | arr vs ih =>
    rw [sortKeys, sortItems_eq, Proper, properItems_iff]
    exact List.forall_mem_map.mpr fun v hv => ih v hv (properItems_iff.mp h v hv)
  | obj ms ih =>
    obtain ⟨ms', e, hperm⟩ := sortKeys_obj ms
    obtain ⟨hd, hm⟩ := proper_obj.mp h
    rw [e]
    refine proper_obj.mpr ⟨?_, fun m hm' => ?_⟩
    · rw [Dict.Proper, Dict.keys, (hperm.map Prod.fst).nodup_iff, List.map_map]
      exact hd
    · obtain ⟨m, hmem, rfl⟩ := List.mem_map.mp (hperm.mem_iff.mp hm')
      exact ih m hmem (hm m hmem)
  | _ => trivial

theorem sortKeys_writable {d : Nat} {v : Json} (h : Writable d v) : Writable d (sortKeys v) := by
  induction v using Json.ind generalizing d with
  | arr vs ih =>
    obtain ⟨d, rfl, hvs⟩ := writable_arr.mp h
    rw [sortKeys, sortItems_eq]
    exact writable_arr.mpr ⟨d, rfl, List.forall_mem_map.mpr fun v hv => ih v hv (hvs v hv)⟩
  | obj ms ih =>
    obtain ⟨ms', e, hperm⟩ := sortKeys_obj ms
    obtain ⟨d, rfl, hms⟩ := writable_obj.mp h
    rw [e]
    refine writable_obj.mpr ⟨d, rfl, fun m hm => ?_⟩
    obtain ⟨m, hmem, rfl⟩ := List.mem_map.mp (hperm.mem_iff.mp hm)
    exact ih m hmem (hms m hmem)
  | _ => exact h

theorem sortKeys_joined {v : Json} (h : Joined v) : Joined (sortKeys v) := by
  induction v using Json.ind with
  | arr vs ih =>
    rw [sortKeys, sortItems_eq, joined_arr]
    exact List.forall_mem_map.mpr fun v hv => ih v hv (joined_arr.mp h v hv)
  | obj ms ih =>
    obtain ⟨ms', e, hperm⟩ := sortKeys_obj ms
    rw [e, joined_obj]
    intro m hm
    obtain ⟨m, hmem, rfl⟩ := List.mem_map.mp (hperm.mem_iff.mp hm)
    exact ⟨(joined_obj.mp h m hmem).1, ih m hmem (joined_obj.mp h m hmem).2⟩
  | _ => exact h

/-- Sorting changes no value. -/
theorem same_sortKeys {v : Json} (h : v.Proper) : Same v (sortKeys v) := by
  induction v using Json.ind with
  | arr vs ih =>
    rw [sortKeys, sortItems_eq]
    refine .arr (by simp) (by simp) fun i v w hv hw => ?_
    rw [List.getElem?_map, hv] at hw
    cases hw
    have hmem := List.mem_of_getElem? hv
    exact ih v hmem (properItems_iff.mp h v hmem)
  | obj ms ih =>
    have hsorted := sortKeys_proper h
    obtain ⟨ms', e, hperm⟩ := sortKeys_obj ms
    rw [e] at hsorted ⊢
    obtain ⟨hd, hm⟩ := proper_obj.mp h
    have hget : ∀ k, Dict.get? ms' k = (Dict.get? ms k).map sortKeys := by
      intro k
      rw [← Dict.get?_mapValues]
      exact Dict.get?_perm (proper_obj.mp hsorted).1 hperm k
    refine .obj (by simp) (fun k => ?_) fun k v w hv hw => ?_
    · rw [Dict.has, Dict.has, hget, Option.isSome_map]
    · rw [hget, hv] at hw
      cases hw
      exact ih (k, v) (Dict.mem_of_get? hv) (hm _ (Dict.mem_of_get? hv))
  | _ => exact .scalar (by simp) rfl

/-! ## The text -/

/-- `json.dumps(v, sort_keys=True, separators=(",", ":"))`. -/
def dumpsCanonical [Interpreter] (v : Json) : Except PyExc Str := (dumps true (sortKeys v)).map asciiText

/-- Induction over what `json.dumps` writes. -/
theorem dumpsAt_ind {P : Json → Str → Prop} (null : P .null (Py.str "null"))
    (bool : ∀ b, P (.bool b) (if b then Py.str "true" else Py.str "false")) (int : ∀ i, P (.int i) (intText i))
    (float : ∀ x s, floatText true x = .ok s → P (.float x) s) (str : ∀ s, P (.str s) (strText s))
    (arr : ∀ vs ss, List.Forall₂ P vs ss → P (.arr vs) (cp '[' :: commas ss ++ [cp ']']))
    (obj : ∀ ms ss, List.Forall₂ (fun m s => ∃ t, P m.2 t ∧ s = strText m.1 ++ cp ':' :: t) ms ss →
      P (.obj ms) (cp '{' :: commas ss ++ [cp '}'])) {d : Nat} {v : Json} {s : Str} (h : dumpsAt true d v = .ok s) :
    P v s := by
  induction v using Json.ind generalizing d s with
  | null => rw [dumpsAt] at h; cases h; exact null
  | bool b => rw [dumpsAt] at h; cases h; exact bool b
  | int i => rw [dumpsAt, intStr_eq_ok_iff] at h; rw [h.2]; exact int i
  | float x => rw [dumpsAt] at h; exact float x s h
  | str v => rw [dumpsAt] at h; cases h; exact str v
  | arr vs ih =>
    cases d with
    | zero => rw [dumpsAt] at h; cases h
    | succ d =>
      rw [dumpsAt] at h
      obtain ⟨ss, hss, rfl⟩ := map_eq_ok.mp h
      refine arr vs ss ?_
      refine ((List.forall₂_and_left _ _).mpr ⟨fun v hv s => ih v hv (d := d) (s := s), dumpsItems_ok.mp hss⟩).imp ?_
      rintro v s ⟨hv, hs⟩
      exact hv s hs
  | obj ms ih =>
    cases d with
    | zero => rw [dumpsAt] at h; cases h
    | succ d =>
      rw [dumpsAt] at h
      obtain ⟨ss, hss, rfl⟩ := map_eq_ok.mp h
      refine obj ms ss ?_
      refine ((List.forall₂_and_left _ _).mpr ⟨fun m hm s => ih m hm (d := d) (s := s), dumpsMembers_ok.mp hss⟩).imp ?_
      rintro m s ⟨hm, t, ht, e⟩
      exact ⟨t, hm t ht, e⟩

theorem forall₂_right {α β : Type} {P : α → β → Prop} {as : List α} {bs : List β} (h : List.Forall₂ P as bs) :
    ∀ b ∈ bs, ∃ a, P a b := by
  induction h with
  | nil => simp
  | cons h _ ih => exact List.forall_mem_cons.mpr ⟨⟨_, h⟩, ih⟩

theorem printable_of_all {s : Str} (h : (s.all fun c => 0x20 ≤ c.val && c.val ≤ 0x7E) = true) :
    ∀ c ∈ s, 0x20 ≤ c.val ∧ c.val ≤ 0x7E := by
  simpa using h

/-- A number is written with digits, a point, signs and the mark of an exponent. -/
theorem mem_numLit_text {l : NumLit} (h : l.Valid) {c : CodePoint} (hc : c ∈ l.text) :
    isDigit c = true ∨ c ∈ Py.str "-+.eE" := by
  obtain ⟨⟨-, hint⟩, -, hfrac, hexp⟩ := h
  simp only [NumLit.text, List.mem_append] at hc
  rcases hc with (hc | hc) | hc | hc
  · split at hc
    · rw [List.mem_singleton.mp hc]; exact .inr (by decide)
    · cases hc
  · exact .inl (hint c hc)
  · cases hf : l.frac with
    | none => rw [hf] at hc; cases hc
    | some f =>
      rw [hf, Option.elim_some, List.mem_cons] at hc
      rcases hc with rfl | hc
      · exact .inr (by decide)
      · exact .inl ((hfrac f hf).2 c hc)
  · cases hx : l.exp with
    | none => rw [hx] at hc; cases hc
    | some x =>
      obtain ⟨hmark, hsign, -, hdigits⟩ := hexp x hx
      rw [hx, Option.elim_some, ExpPart.text, List.mem_append, List.mem_cons, Option.mem_toList] at hc
      rcases hc with (rfl | hc) | hc
      · rcases hmark with e | e <;> rw [e] <;> exact .inr (by decide)
      · rcases hsign c hc with rfl | rfl <;> exact .inr (by decide)
      · exact .inl (hdigits c hc)

theorem spells_numLit_le {l : NumLit} (h : l.Valid) : ∀ c ∈ l.text, 0x20 ≤ c.val ∧ c.val ≤ 0x7E := by
  intro c hc
  rcases mem_numLit_text h hc with hd | hc
  · simp only [isDigit, Bool.and_eq_true, decide_eq_true_eq] at hd
    omega
  · exact printable_of_all (s := Py.str "-+.eE") (by decide) c hc

theorem mem_commas {ss : List Str} {c : CodePoint} (h : c ∈ commas ss) : c = cp ',' ∨ ∃ s ∈ ss, c ∈ s := by
  induction ss with
  | nil => cases h
  | cons s ss ih =>
    cases ss with
    | nil => exact .inr ⟨s, by simp, h⟩
    | cons t ss =>
      rw [commas, List.mem_append, List.mem_cons] at h
      rcases h with h | rfl | h
      · exact .inr ⟨s, by simp, h⟩
      · exact .inl rfl
      · exact (ih h).imp_right fun ⟨s, hs, hc⟩ => ⟨s, List.mem_cons_of_mem _ hs, hc⟩

theorem le_of_mem_strText {s : Str} {c : CodePoint} (h : c ∈ strText s) : 0x20 ≤ c.val := by
  simp only [strText, quoted, List.cons_append, List.mem_cons, List.mem_append, List.not_mem_nil, or_false] at h
  rcases h with rfl | h | rfl
  · decide
  · obtain ⟨p, hp, hc⟩ := List.mem_flatMap.mp h
    obtain ⟨x, -, rfl⟩ := List.mem_map.mp hp
    exact (encodePiece_text_range hc).1
  · decide

/-- The canonical text is a text of the value, and printable. -/
theorem asciiText_dumpsAt {d : Nat} {v : Json} {s : Str} (h : dumpsAt true d v = .ok s) (hj : Joined v) :
    Spells (toTree v) (asciiText s) ∧ ∀ c ∈ s, 0x20 ≤ c.val := by
  have hword : ∀ {w : Str}, (∀ c ∈ w, 0x20 ≤ c.val ∧ c.val ≤ 0x7E) → asciiText w = w ∧ ∀ c ∈ w, 0x20 ≤ c.val :=
    fun hw => ⟨asciiText_of_le fun c hc => (hw c hc).2, fun c hc => (hw c hc).1⟩
  have hseq : ∀ {o c : CodePoint} {ss : List Str}, 0x20 ≤ o.val ∧ o.val ≤ 0x7E → 0x20 ≤ c.val ∧ c.val ≤ 0x7E →
      (∀ s ∈ ss, ∀ c ∈ s, 0x20 ≤ c.val) →
      asciiText (o :: commas ss ++ [c]) = o :: commas (ss.map asciiText) ++ [c] ∧
        ∀ x ∈ o :: commas ss ++ [c], 0x20 ≤ x.val := by
    intro o c ss ho hc hss
    refine ⟨?_, fun x hx => ?_⟩
    · rw [asciiText_append, asciiText_cons, asciiText_commas, asciiPoint, if_pos ho.2, asciiText_cons, asciiPoint,
        if_pos hc.2]
      rfl
    · simp only [List.cons_append, List.mem_cons, List.mem_append, List.not_mem_nil, or_false] at hx
      rcases hx with rfl | hx | rfl
      · exact ho.1
      · rcases mem_commas hx with rfl | ⟨s, hs, hx⟩
        · decide
        · exact hss s hs x hx
      · exact hc.1
  refine dumpsAt_ind (P := fun v s => Joined v → Spells (toTree v) (asciiText s) ∧ ∀ c ∈ s, 0x20 ≤ c.val)
    ?_ ?_ ?_ ?_ ?_ ?_ ?_ h hj
  · intro _
    have hw := hword (printable_of_all (s := Py.str "null") (by decide))
    exact ⟨hw.1, hw.2⟩
  · intro b _
    have hb : ∀ c ∈ if b then Py.str "true" else Py.str "false", 0x20 ≤ c.val ∧ c.val ≤ 0x7E := by
      cases b <;> exact printable_of_all (by decide)
    have hw := hword hb
    exact ⟨by rw [hw.1]; cases b <;> rfl, hw.2⟩
  · intro i _
    have hv := NumLit.ofInt_valid i
    have hw := hword (spells_numLit_le hv)
    rw [NumLit.ofInt_text] at hw
    exact ⟨by rw [hw.1]; exact ⟨hv, (NumLit.ofInt_text i).symm⟩, hw.2⟩
  · intro x s hs _
    have hspell : Spells (toTree (.float x)) s ∧ ∀ c ∈ s, 0x20 ≤ c.val ∧ c.val ≤ 0x7E := by
      cases x with
      | nan => cases hs; exact ⟨rfl, printable_of_all (by decide)⟩
      | inf neg => cases hs; cases neg <;> exact ⟨rfl, printable_of_all (by decide)⟩
      | finite neg m e hc =>
        cases hs
        have hv := (Float64.readsBack_reprLit neg hc).1
        exact ⟨⟨hv, rfl⟩, spells_numLit_le hv⟩
    have hw := hword hspell.2
    exact ⟨by rw [hw.1]; exact hspell.1, hw.2⟩
  · intro s hj
    exact ⟨spellsStr_asciiText hj, fun c hc => le_of_mem_strText hc⟩
  · intro vs ss hall hj
    have hall : List.Forall₂ (fun v s => Padded (Spells (toTree v)) (asciiText s) ∧ ∀ c ∈ s, 0x20 ≤ c.val) vs ss :=
      ((List.forall₂_and_left _ _).mpr ⟨fun v hv => joined_arr.mp hj v hv, hall⟩).imp
        fun v s ⟨hv, hs⟩ => ⟨Padded.of (hs hv).1, (hs hv).2⟩
    obtain ⟨htext, hle⟩ := hseq (o := cp '[') (c := cp ']') (by decide) (by decide)
      fun s hs => (forall₂_right hall s hs).elim fun v h => h.2
    refine ⟨?_, hle⟩
    rw [htext, toTree, Spells, itemsToTree_eq]
    refine ⟨commas (ss.map asciiText), rfl, ?_⟩
    rcases commas_sep (List.forall₂_map_right_iff.mpr (hall.imp fun _ _ h => h.1)) with ⟨rfl, hc⟩ | hc
    · exact Or.inl ⟨rfl, hc ▸ ws_nil⟩
    · exact Or.inr ((spellsItems_iff _ _).mpr (Sep.map hc))
  · intro ms ss hall hj
    have hall : List.Forall₂ (fun m s => Member m.1 (Spells (toTree m.2)) (asciiText s) ∧ ∀ c ∈ s, 0x20 ≤ c.val) ms ss := by
      refine ((List.forall₂_and_left _ _).mpr ⟨fun m hm => joined_obj.mp hj m hm, hall⟩).imp ?_
      rintro ⟨k, v⟩ _ ⟨⟨hk, hv⟩, t, ht, rfl⟩
      refine ⟨?_, fun c hc => ?_⟩
      · rw [asciiText_append, asciiText_cons, asciiPoint, if_pos (by decide)]
        exact Member.of (spellsStr_asciiText hk) (ht hv).1
      · rw [List.mem_append, List.mem_cons] at hc
        rcases hc with hc | rfl | hc
        · exact le_of_mem_strText hc
        · decide
        · exact (ht hv).2 c hc
    obtain ⟨htext, hle⟩ := hseq (o := cp '{') (c := cp '}') (by decide) (by decide)
      fun s hs => (forall₂_right hall s hs).elim fun m h => h.2
    refine ⟨?_, hle⟩
    rw [htext, toTree, Spells, membersToTree_eq]
    refine ⟨commas (ss.map asciiText), rfl, ?_⟩
    rcases commas_sep (List.forall₂_map_right_iff.mpr (hall.imp fun _ _ h => h.1)) with ⟨rfl, hc⟩ | hc
    · exact Or.inl ⟨rfl, hc ▸ ws_nil⟩
    · exact Or.inr ((spellsMembers_iff _ _).mpr (Sep.map hc))

theorem asciiPoint_range {c x : CodePoint} (h : x ∈ asciiPoint c) : (0x20 ≤ c.val → 0x20 ≤ x.val) ∧ x.val ≤ 0x7E := by
  have hescape : ∀ n, x ∈ Py.str "\\u" ++ hexText 4 n → 0x20 ≤ x.val ∧ x.val ≤ 0x7E := by
    intro n hx
    rcases List.mem_append.mp hx with hx | hx
    · exact printable_of_all (by decide) x hx
    · obtain ⟨i, -, rfl⟩ := List.mem_map.mp hx
      exact digitChar_range (Nat.mod_lt _ (by decide))
  unfold asciiPoint at h
  split at h
  · next hle =>
    rw [List.mem_singleton.mp h]
    exact ⟨id, hle⟩
  split at h
  · exact (hescape _ h).imp_left fun h _ => h
  · exact ((List.mem_append.mp h).elim (hescape _) (hescape _)).imp_left fun h _ => h

theorem asciiText_le {s : Str} : ∀ c ∈ asciiText s, c.val ≤ 0x7E := by
  intro c hc
  obtain ⟨d, -, hc⟩ := List.mem_flatMap.mp hc
  exact (asciiPoint_range hc).2

theorem asciiText_range {s : Str} (h : ∀ c ∈ s, 0x20 ≤ c.val) : ∀ c ∈ asciiText s, 0x20 ≤ c.val ∧ c.val ≤ 0x7E := by
  intro c hc
  obtain ⟨d, hd, hc⟩ := List.mem_flatMap.mp hc
  exact (asciiPoint_range hc).imp_left fun hle => hle (h d hd)

/-! ## Values that a document denotes -/

/-- A value that is read back from its canonical text, no deeper than `d`. -/
structure Clear (d : Nat) (v : Json) : Prop where
  writable : Writable d v
  proper : v.Proper
  joined : Joined v

theorem clear_str {d : Nat} {s : Str} (h : JoinedStr s) : Clear d (.str s) := ⟨writable_str d s, trivial, h⟩

theorem clear_arr {d : Nat} {vs : List Json} : Clear d (.arr vs) ↔ ∃ d', d = d' + 1 ∧ ∀ v ∈ vs, Clear d' v := by
  constructor
  · rintro ⟨hw, hp, hj⟩
    obtain ⟨d', rfl, hvs⟩ := writable_arr.mp hw
    exact ⟨d', rfl, fun v hv => ⟨hvs v hv, properItems_iff.mp hp v hv, joined_arr.mp hj v hv⟩⟩
  · rintro ⟨d', rfl, hvs⟩
    exact ⟨writable_arr.mpr ⟨d', rfl, fun v hv => (hvs v hv).writable⟩, properItems_iff.mpr fun v hv => (hvs v hv).proper,
      joined_arr.mpr fun v hv => (hvs v hv).joined⟩

theorem clear_obj_singleton {d : Nat} {k : Str} {v : Json} (hk : JoinedStr k) (hv : Clear d v) :
    Clear (d + 1) (.obj [(k, v)]) :=
  ⟨writable_obj.mpr ⟨d, rfl, by simpa using hv.writable⟩, proper_obj.mpr ⟨List.nodup_singleton k, by simpa using hv.proper⟩,
    joined_obj.mpr (by simpa using ⟨hk, hv.joined⟩)⟩

theorem Clear.mono {d d' : Nat} {v : Json} (h : Clear d v) (hd : d ≤ d') : Clear d' v := ⟨h.writable.mono hd, h.proper, h.joined⟩

theorem Clear.get? {d : Nat} {ms : Dict Json} (h : Clear (d + 1) (.obj ms)) {k : Str} {v : Json}
    (hv : ms.get? k = some v) : Clear d v :=
  ⟨h.writable.get? hv, (proper_obj.mp h.proper).2 _ (Dict.mem_of_get? hv), (joined_obj.mp h.joined _ (Dict.mem_of_get? hv)).2⟩

/-- A member is replaced. -/
theorem Clear.set {d : Nat} {ms : Dict Json} (h : Clear (d + 1) (.obj ms)) {k : Str} {v w : Json}
    (hk : ms.get? k = some v) (hw : Clear d w) : Clear (d + 1) (.obj (ms.set k w)) := by
  have hkey := (joined_obj.mp h.joined _ (Dict.mem_of_get? hk)).1
  refine ⟨h.writable.set k hw.writable, h.proper.set k hw.proper, joined_obj.mpr fun m hm => ?_⟩
  rcases Dict.set_mem hm with rfl | hm
  · exact ⟨hkey, hw.joined⟩
  · exact joined_obj.mp h.joined m hm

section Loads

variable [Interpreter]

/-- A document denotes `v`. -/
def IsJson (v : Json) : Prop := ∃ text, NoSurrogate text ∧ loads text = .ok v

theorem isJson_iff {v : Json} : IsJson v ↔ Clear Interpreter.maxDepth v := by
  constructor
  · rintro ⟨text, hs, h⟩
    exact ⟨(writable_of_loads h).1, (writable_of_loads h).2, joined_of_loads h hs⟩
  · rintro ⟨hw, hp, hj⟩
    obtain ⟨s, hs⟩ := dumps_isOk hw
    refine ⟨asciiText s, fun c hc => ?_, ?_⟩
    · have := asciiText_le c hc
      simp only [isSurrogate, Bool.and_eq_false_iff, decide_eq_false_iff_not]
      omega
    · rw [loads_of_spells (Padded.of (asciiText_dumpsAt hs hj).1) hw, toJson_toTree hp]

/-- The canonical text of a value that can be written has bytes. -/
theorem dumpsCanonical_bytes {v : Json} (hw : Writable Interpreter.maxDepth v) :
    ∃ s bytes, dumpsCanonical v = .ok s ∧ Utf8.encodeStrict s = .ok bytes := by
  obtain ⟨s, hs⟩ := dumps_isOk (sortKeys_writable hw)
  exact ⟨asciiText s, _, by rw [dumpsCanonical, hs]; rfl, encodeStrict_ascii asciiText_le⟩

/-- A value that can be written is read back from the bytes of its canonical text, with sorted members. -/
theorem loadsBytes_canonical {v : Json} (hw : Writable Interpreter.maxDepth v) (hp : v.Proper) (hj : Joined v) :
    ∃ s bytes, dumpsCanonical v = .ok s ∧ Utf8.encodeStrict s = .ok bytes ∧ loadsBytes bytes = .ok (sortKeys v) := by
  obtain ⟨s, hs⟩ := dumps_isOk (sortKeys_writable hw)
  obtain ⟨hspell, hle⟩ := asciiText_dumpsAt hs (sortKeys_joined hj)
  have hrange := asciiText_range hle
  refine ⟨asciiText s, asciiBytes (asciiText s), by rw [dumpsCanonical, hs]; rfl,
    encodeStrict_ascii asciiText_le, ?_⟩
  rw [loadsBytes_ascii hrange, loads_of_spells (Padded.of hspell) (sortKeys_writable hw), toJson_toTree (sortKeys_proper hp)]

end Loads

end Py.Json
