import BabelQueue.PoisonRecord.Lossless
import BabelQueue.Py.Json.Literals

/-!
# Unpaired surrogate escapes

`_has_unpaired_surrogate_escape` finds the string literals of a text with one regular expression and
the escapes of each with another.

* `stringLiterals_eq`, `escapeCodes_eq`: what the two find in a JSON text.
* `hasUnpairedSurrogateEscape_iff`: the answer is about the escapes alone, without the characters between them.
* `Splits ps`: the two halves of a pair stand in `ps` with characters between them.
* `unpaired_iff_escapes`: only such a literal is unpaired with its characters and paired without.
* `hasUnpairedSurrogateEscape_exact_iff`: when the answer is the right one.
-/

namespace BabelQueue

open Py Py.Json

/-! ## The literals -/

theorem hexValue?_lt {c : CodePoint} {n : Nat} (h : hexValue? c = some n) : n < 16 := by
  unfold hexValue? at h
  split at h
  · cases h; omega
  split at h
  · cases h; omega
  split at h
  · cases h; omega
  · cases h

/-- A hexadecimal digit neither ends a literal nor starts an escape. -/
theorem hex_ne {c : CodePoint} (h : (hexValue? c).isSome = true) : c ≠ cp '"' ∧ c ≠ cp '\\' := by
  constructor
  · rintro rfl; revert h; decide
  · rintro rfl; revert h; decide

theorem literalTail_pieces {ps : List Piece} (hps : ∀ p ∈ ps, p.Valid) (s : Str) :
    literalTail (ps.flatMap Piece.text ++ cp '"' :: s) = some (ps.flatMap Piece.text ++ [cp '"'], s) := by
  have hraw : ∀ {c : CodePoint} {t u : Str}, c ≠ cp '"' ∧ c ≠ cp '\\' → literalTail t = some (u, s) →
      literalTail (c :: t) = some (c :: u, s) := by
    intro c t u hc ht
    rw [literalTail.eq_def]
    simp only [if_neg hc.1, if_neg hc.2, ht, Option.map_some]
  have hescaped : ∀ {c : CodePoint} {t u : Str}, literalTail t = some (u, s) →
      literalTail (cp '\\' :: c :: t) = some (cp '\\' :: c :: u, s) := by
    intro c t u ht
    rw [literalTail.eq_def]
    simp only [if_neg (show cp '\\' ≠ cp '"' by decide), if_true, ht, Option.map_some]
  induction ps with
  | nil => rw [List.flatMap_nil, List.nil_append, literalTail.eq_def]; exact if_pos rfl
  | cons p ps ih =>
    obtain ⟨hp, hrest⟩ := List.forall_mem_cons.mp hps
    have ih := ih hrest
    rw [List.flatMap_cons, List.append_assoc, List.append_assoc]
    cases p with
    | raw c => exact hraw ⟨hp.1, hp.2.1⟩ ih
    | short c => exact hescaped ih
    | unicode h₃ h₂ h₁ h₀ =>
      refine hescaped (hraw (hex_ne (hp h₃ (by simp))) (hraw (hex_ne (hp h₂ (by simp))) ?_))
      exact hraw (hex_ne (hp h₁ (by simp))) (hraw (hex_ne (hp h₀ (by simp))) ih)

theorem stringLiterals_gap {fuel : Nat} {g : Str} (hg : cp '"' ∉ g) (hf : g.length ≤ fuel) (s : Str) :
    stringLiterals fuel (g ++ s) = stringLiterals (fuel - g.length) s := by
  induction g generalizing fuel with
  | nil => rfl
  | cons c g ih =>
    obtain ⟨hc, hg⟩ := not_or.mp (List.mem_cons.not.mp hg)
    obtain ⟨fuel, rfl⟩ := Nat.exists_eq_add_of_lt hf
    have hfuel : g.length ≤ g.length + fuel := Nat.le_add_right _ _
    have hstep : stringLiterals (g.length + fuel + 1) (c :: (g ++ s)) = stringLiterals (g.length + fuel) (g ++ s) := by
      rw [stringLiterals, if_neg (Ne.symm hc)]
    show stringLiterals (g.length + fuel + 1) (c :: (g ++ s)) = _
    rw [hstep, ih hg hfuel]
    congr 1
    simp only [List.length_cons]
    omega

theorem stringLiterals_nil (fuel : Nat) : stringLiterals fuel [] = [] := by cases fuel <;> rfl

/-- `_STRING_LITERAL` finds the literals of a text. -/
theorem stringLiterals_eq {s : Str} {lss : List (List Piece)} (h : Literals s lss) {fuel : Nat} (hf : s.length ≤ fuel) :
    stringLiterals fuel s = lss.map quoted := by
  induction h generalizing fuel with
  | @gap g hg =>
    have := stringLiterals_gap hg hf []
    rwa [List.append_nil, stringLiterals_nil] at this
  | @literal g s ps lss hg hps _ ih =>
    rw [List.length_append, List.length_append] at hf
    rw [stringLiterals_gap hg (by omega)]
    have hquoted : quoted ps ++ s = cp '"' :: (ps.flatMap Piece.text ++ cp '"' :: s) := by simp [quoted]
    have hlength : 0 < (quoted ps).length := by simp [quoted]
    obtain ⟨n, hn⟩ : ∃ n, fuel - g.length = n + 1 := ⟨fuel - g.length - 1, by omega⟩
    rw [hn, hquoted, stringLiterals, if_pos rfl, literalTail_pieces hps]
    show (cp '"' :: (ps.flatMap Piece.text ++ [cp '"'])) :: stringLiterals n s = _
    rw [ih (by omega)]
    rfl

/-! ## The escapes -/

/-- The code that `_ESCAPE` gives for an escape. -/
def pieceCode (p : Piece) : Int := if p.isUnicode then p.value.val else -1

def isEscape : Piece → Bool
  | .raw _ => false
  | _ => true

/-- The escapes of a literal. -/
def escapes (ps : List Piece) : List Piece := ps.filter isEscape

theorem escapeCodes_pieces {ps : List Piece} (hps : ∀ p ∈ ps, p.Valid) :
    escapeCodes (ps.flatMap Piece.text ++ [cp '"']) = (escapes ps).map pieceCode := by
  induction ps with
  | nil => rfl
  | cons p ps ih =>
    obtain ⟨hp, hps⟩ := List.forall_mem_cons.mp hps
    have ih := ih hps
    rw [List.flatMap_cons, List.append_assoc]
    cases p with
    | raw c =>
      show escapeCodes (c :: (ps.flatMap Piece.text ++ [cp '"'])) = _
      rw [escapeCodes.eq_def]
      simp only [if_neg hp.2.1, ih]
      rfl
    | short c =>
      have hu : c ≠ cp 'u' := by rintro rfl; revert hp; decide
      show escapeCodes (cp '\\' :: c :: (ps.flatMap Piece.text ++ [cp '"'])) = _
      rw [escapeCodes.eq_def]
      simp only [if_true, if_neg hu, ih]
      rfl
    | unicode h₃ h₂ h₁ h₀ =>
      obtain ⟨a, ha⟩ := Option.isSome_iff_exists.mp (hp h₃ (by simp))
      obtain ⟨b, hb⟩ := Option.isSome_iff_exists.mp (hp h₂ (by simp))
      obtain ⟨c, hc⟩ := Option.isSome_iff_exists.mp (hp h₁ (by simp))
      obtain ⟨d, hd⟩ := Option.isSome_iff_exists.mp (hp h₀ (by simp))
      have hcode : (((a * 16 + b) * 16 + c) * 16 + d : Nat) = pieceCode (.unicode h₃ h₂ h₁ h₀) := by
        have := hexValue?_lt ha
        have := hexValue?_lt hb
        have := hexValue?_lt hc
        have := hexValue?_lt hd
        rw [pieceCode, if_pos (show (Piece.unicode h₃ h₂ h₁ h₀).isUnicode = true from rfl), Piece.value, ha, hb, hc, hd]
        simp only [Option.getD_some, Fin.val_ofNat]
        rw [Nat.mod_eq_of_lt (by omega)]
      show escapeCodes (cp '\\' :: cp 'u' :: h₃ :: h₂ :: h₁ :: h₀ :: (ps.flatMap Piece.text ++ [cp '"'])) = _
      rw [escapeCodes.eq_def]
      simp only [if_true, ha, hb, hc, hd, ih, hcode]
      rfl

/-- `_ESCAPE` finds the escapes of a literal, and skips the other characters. -/
theorem escapeCodes_eq {ps : List Piece} (hps : ∀ p ∈ ps, p.Valid) :
    escapeCodes (quoted ps) = (escapes ps).map pieceCode := by
  rw [← escapeCodes_pieces hps]
  show escapeCodes (cp '"' :: (ps.flatMap Piece.text ++ [cp '"'])) = _
  rw [escapeCodes.eq_def]
  exact if_neg (by decide)

theorem code_isHigh (p : Piece) : (decide (0xD800 ≤ pieceCode p) && decide (pieceCode p ≤ 0xDBFF)) = p.isHigh := by
  unfold pieceCode Piece.isHigh isHighSurrogate
  cases p.isUnicode with
  | false => rfl
  | true =>
    rw [if_pos rfl, Bool.true_and]
    congr 1 <;> exact decide_eq_decide.mpr (by omega)

theorem code_isLow (p : Piece) : (decide (0xDC00 ≤ pieceCode p) && decide (pieceCode p ≤ 0xDFFF)) = p.isLow := by
  unfold pieceCode Piece.isLow isLowSurrogate
  cases p.isUnicode with
  | false => rfl
  | true =>
    rw [if_pos rfl, Bool.true_and]
    congr 1 <;> exact decide_eq_decide.mpr (by omega)

theorem unpaired_cons_code (pendingHigh : Bool) (p : Piece) (ps : List Piece) :
    unpaired pendingHigh ((p :: ps).map pieceCode) =
      if pendingHigh && !p.isLow then true else if p.isLow && !pendingHigh then true else unpaired p.isHigh (ps.map pieceCode) := by
  rw [List.map_cons, unpaired, code_isHigh, code_isLow]

/-- The inner loop over the codes of `ps`, one for each piece. -/
theorem unpaired_codes (ps : List Piece) : unpaired false (ps.map pieceCode) = true ↔ Unpaired ps := by
  have hlone : ∀ {p : Piece} {ps : List Piece}, ¬ (p.isHigh = true ∧ ∃ q, ps.head? = some q ∧ q.isLow = true) →
      (unpaired false (ps.map pieceCode) = true ↔ Unpaired ps) →
      (unpaired false ((p :: ps).map pieceCode) = true ↔ Unpaired (p :: ps)) := by
    intro p ps hpair ih
    rw [unpaired_cons_code, if_neg (by simp)]
    cases hl : p.isLow with
    | true => exact iff_of_true rfl (unpaired_of_low hl ps)
    | false =>
      rw [if_neg (by simp)]
      cases hh : p.isHigh with
      | false => rw [ih, unpaired_cons hh hl]
      | true =>
        have hnext : ∀ q, ps.head? = some q → q.isLow = false := fun q hq => by
          by_contra hn
          exact hpair ⟨hh, q, hq, by simpa using hn⟩
        refine iff_of_true ?_ (unpaired_of_high hh hnext)
        cases ps with
        | nil => rfl
        | cons q ps => rw [unpaired_cons_code, hnext q rfl]; rfl
  induction ps using decode.induct with
  | case1 => exact iff_of_false (by decide) not_unpaired_nil
  | case2 p => exact hlone (by simp) (iff_of_false (by decide) not_unpaired_nil)
  | case3 p q ps hc ih =>
    simp only [Bool.and_eq_true] at hc
    obtain ⟨⟨⟨hpu, hqu⟩, hph⟩, hql⟩ := hc
    have hp : p.isHigh = true := by rw [Piece.isHigh, hpu, hph]; rfl
    have hq : q.isLow = true := by rw [Piece.isLow, hqu, hql]; rfl
    have hqh : q.isHigh = false := by
      by_contra h
      rw [isLow_of_isHigh (by simpa using h)] at hq
      cases hq
    have hrest : unpaired false (ps.map pieceCode) = true ↔ Unpaired ps := ih
    rw [unpaired_pair hp hq, ← hrest, unpaired_cons_code, unpaired_cons_code, isLow_of_isHigh hp, hp, hq, hqh]
    simp
  | case4 p q ps hc ih =>
    refine hlone ?_ ih
    rintro ⟨hp, r, hr, hq⟩
    obtain rfl : q = r := Option.some.inj hr
    simp only [Piece.isHigh, Piece.isLow, Bool.and_eq_true] at hp hq
    exact hc (by rw [hp.1, hq.1, hp.2, hq.2]; rfl)

/-- The answer is about the escapes of a literal alone. -/
theorem hasUnpairedSurrogateEscape_iff {text : Str} {lss : List (List Piece)} (h : Literals text lss) :
    hasUnpairedSurrogateEscape text = true ↔ ∃ ps ∈ lss, Unpaired (escapes ps) := by
  unfold hasUnpairedSurrogateEscape
  rw [stringLiterals_eq h (Nat.le_refl _), List.any_map, List.any_eq_true]
  refine exists_congr fun ps => and_congr_right fun hps => ?_
  rw [Function.comp_apply, escapeCodes_eq (h.valid ps hps), unpaired_codes]

/-! ## Split pairs -/

/-- The two halves of a pair, with characters between them. -/
def Splits (ps : List Piece) : Prop :=
  ∃ before p gap q after, ps = before ++ p :: (gap ++ q :: after) ∧ p.isHigh = true ∧ q.isLow = true ∧ gap ≠ [] ∧
    ∀ r ∈ gap, isEscape r = false

theorem isEscape_of_isHigh {p : Piece} (h : p.isHigh = true) : isEscape p = true := by
  cases p with
  | raw c => cases h
  | _ => rfl

theorem isEscape_of_isLow {p : Piece} (h : p.isLow = true) : isEscape p = true := by
  cases p with
  | raw c => cases h
  | _ => rfl

theorem escapes_append (ps qs : List Piece) : escapes (ps ++ qs) = escapes ps ++ escapes qs := List.filter_append ..

theorem escapes_cons {p : Piece} (h : isEscape p = true) (ps : List Piece) : escapes (p :: ps) = p :: escapes ps :=
  List.filter_cons_of_pos h

theorem escapes_gap {gap : List Piece} (h : ∀ r ∈ gap, isEscape r = false) : escapes gap = [] := by
  unfold escapes
  rw [List.filter_eq_nil_iff]
  simpa using h

/-- What stands before the next escape. -/
theorem next_escape (ps : List Piece) :
    (∀ r ∈ ps, isEscape r = false) ∨
      ∃ gap q after, ps = gap ++ q :: after ∧ (∀ r ∈ gap, isEscape r = false) ∧ isEscape q = true := by
  induction ps with
  | nil => exact .inl (by simp)
  | cons p ps ih =>
    cases hp : isEscape p with
    | true => exact .inr ⟨[], p, ps, rfl, by simp, hp⟩
    | false =>
      rcases ih with h | ⟨gap, q, after, rfl, hgap, hq⟩
      · exact .inl (List.forall_mem_cons.mpr ⟨hp, h⟩)
      · exact .inr ⟨p :: gap, q, after, rfl, List.forall_mem_cons.mpr ⟨hp, hgap⟩, hq⟩

/-- What stands after the escape before. -/
theorem last_escape (ps : List Piece) :
    (∀ r ∈ ps, isEscape r = false) ∨
      ∃ before q gap, ps = before ++ q :: gap ∧ (∀ r ∈ gap, isEscape r = false) ∧ isEscape q = true := by
  rcases next_escape ps.reverse with h | ⟨gap, q, after, h, hgap, hq⟩
  · exact .inl fun r hr => h r (List.mem_reverse.mpr hr)
  · refine .inr ⟨after.reverse, q, gap.reverse, ?_, fun r hr => hgap r (List.mem_reverse.mp hr), hq⟩
    rw [← List.reverse_reverse ps, h]
    simp

/-- A half that has no other half among the escapes. -/
theorem lone_of_escapes {ps : List Piece} (h : Unpaired (escapes ps)) : Unpaired ps := by
  obtain ⟨before, p, after, he, hp⟩ := h
  obtain ⟨before', rest, rfl, hbefore, hrest⟩ := List.filter_eq_append_iff.mp he
  obtain ⟨gap, after', rfl, hgap, hesc, hafter⟩ := List.filter_eq_cons_iff.mp hrest
  have hgap : ∀ r ∈ gap, isEscape r = false := fun r hr => by simpa using hgap r hr
  refine ⟨before' ++ gap, p, after', by simp, hp.imp ?_ ?_⟩
  · rintro ⟨hh, hnext⟩
    refine ⟨hh, fun q hq => ?_⟩
    by_contra hlow
    have hlow : q.isLow = true := by simpa using hlow
    cases after' with
    | nil => cases hq
    | cons r after' =>
      obtain rfl : r = q := Option.some.inj hq
      have hafter : r :: escapes after' = after := by rw [← escapes_cons (isEscape_of_isLow hlow)]; exact hafter
      rw [hnext r (by rw [← hafter]; rfl)] at hlow
      cases hlow
  · rintro ⟨hl, hlast⟩
    refine ⟨hl, fun q hq => ?_⟩
    by_contra hhigh
    have hhigh : q.isHigh = true := by simpa using hhigh
    obtain ⟨init, hinit⟩ := List.getLast?_eq_some_iff.mp hq
    have hb : escapes init ++ [q] = before := by
      have : escapes (before' ++ gap) = escapes init ++ [q] := by
        rw [hinit, escapes_append, escapes_cons (isEscape_of_isHigh hhigh)]
        rfl
      rw [← this, escapes_append, escapes_gap hgap, List.append_nil]
      exact hbefore
    rw [hlast q (by rw [← hb]; simp)] at hhigh
    cases hhigh

/-- The characters between the halves of a pair are what the answer leaves out. -/
theorem unpaired_iff_escapes {ps : List Piece} : Unpaired ps ↔ Unpaired (escapes ps) ∨ Splits ps := by
  constructor
  · rintro ⟨before, p, after, rfl, ⟨hp, hnext⟩ | ⟨hp, hlast⟩⟩
    · have hlone : (∀ q, (escapes after).head? = some q → q.isLow = false) → Unpaired (escapes (before ++ p :: after)) := by
        intro h
        refine ⟨escapes before, p, escapes after, ?_, .inl ⟨hp, h⟩⟩
        rw [escapes_append, escapes_cons (isEscape_of_isHigh hp)]
      rcases next_escape after with hnone | ⟨gap, q, after, rfl, hgap, hq⟩
      · exact .inl (hlone fun q hq => by rw [escapes_gap hnone] at hq; cases hq)
      · cases hlow : q.isLow with
        | true =>
          refine .inr ⟨before, p, gap, q, after, rfl, hp, hlow, ?_, hgap⟩
          rintro rfl
          rw [hnext q rfl] at hlow
          cases hlow
        | false =>
          refine .inl (hlone fun r hr => ?_)
          rw [escapes_append, escapes_gap hgap, escapes_cons hq] at hr
          obtain rfl : q = r := Option.some.inj hr
          exact hlow
    · have hlone : (∀ q, (escapes before).getLast? = some q → q.isHigh = false) →
          Unpaired (escapes (before ++ p :: after)) := by
        intro h
        refine ⟨escapes before, p, escapes after, ?_, .inr ⟨hp, h⟩⟩
        rw [escapes_append, escapes_cons (isEscape_of_isLow hp)]
      rcases last_escape before with hnone | ⟨before, q, gap, rfl, hgap, hq⟩
      · exact .inl (hlone fun q hq => by rw [escapes_gap hnone] at hq; cases hq)
      · cases hhigh : q.isHigh with
        | true =>
          refine .inr ⟨before, q, gap, p, after, by simp, hhigh, hp, ?_, hgap⟩
          rintro rfl
          rw [hlast q (by simp)] at hhigh
          cases hhigh
        | false =>
          refine .inl (hlone fun r hr => ?_)
          rw [escapes_append, escapes_cons hq, escapes_gap hgap] at hr
          obtain rfl : q = r := by simpa using hr
          exact hhigh
  · rintro (h | ⟨before, p, gap, q, after, rfl, hp, -, hne, hgap⟩)
    · exact lone_of_escapes h
    · refine ⟨before, p, gap ++ q :: after, rfl, .inl ⟨hp, fun r hr => ?_⟩⟩
      obtain ⟨g, gap, rfl⟩ := List.exists_cons_of_ne_nil hne
      obtain rfl : g = r := Option.some.inj hr
      by_contra hlow
      have := isEscape_of_isLow (by simpa using hlow)
      rw [hgap g (by simp)] at this
      cases this

/-! ## The answer -/

/-- Some string literal of the text has an unpaired escape. -/
def HasUnpaired (text : Str) : Prop := ∃ lss, Literals text lss ∧ ∃ ps ∈ lss, Unpaired ps

/-- In some literal, an escape of a half is not next to one of the other half among the escapes. -/
def HasUnpairedEscape (text : Str) : Prop := ∃ lss, Literals text lss ∧ ∃ ps ∈ lss, Unpaired (escapes ps)

/-- In some literal, characters stand between the halves of a pair. -/
def HasSplit (text : Str) : Prop := ∃ lss, Literals text lss ∧ ∃ ps ∈ lss, Splits ps

/-- What an unpaired literal is, and when `_has_unpaired_surrogate_escape` tells whether there is one. -/
theorem hasUnpairedSurrogateEscape_exact_iff {t : Tree} {text : Str} (h : Padded (Spells t) text) (hu : Encodable text) :
    (HasUnpaired text ↔ ∃ v ∈ t.strings, ∃ c ∈ v, isSurrogate c = true) ∧
      ((hasUnpairedSurrogateEscape text = true ↔ HasUnpaired text) ↔ HasUnpairedEscape text ∨ ¬ HasSplit text) := by
  obtain ⟨lss, hl, hstrings⟩ := literals_of_spells h
  have hthe : ∀ {P : List Piece → Prop}, (∃ lss, Literals text lss ∧ ∃ ps ∈ lss, P ps) ↔ ∃ ps ∈ lss, P ps := by
    intro P
    constructor
    · rintro ⟨lss', hl', h⟩
      rwa [hl.unique hl']
    · exact fun h => ⟨lss, hl, h⟩
  have hraw : ∀ ps ∈ lss, ∀ p ∈ ps, ∀ c, p = .raw c → isSurrogate c = false := by
    rintro ps hps _ hp c rfl
    refine hu c ((hl.infix_of_mem ps hps).subset ?_)
    simp only [quoted, List.cons_append, List.mem_cons, List.mem_append, List.mem_flatMap]
    exact .inr (.inl ⟨_, hp, List.mem_singleton.mpr rfl⟩)
  constructor
  · rw [HasUnpaired, hthe, ← hstrings]
    simp only [List.mem_map, exists_exists_and_eq_and]
    exact exists_congr fun ps => and_congr_right fun hps => unpaired_iff_decode (hl.valid ps hps) (hraw ps hps)
  · rw [hasUnpairedSurrogateEscape_iff hl, HasUnpaired, HasUnpairedEscape, HasSplit, hthe, hthe, hthe]
    have hsplit : (∃ ps ∈ lss, Unpaired ps) ↔ (∃ ps ∈ lss, Unpaired (escapes ps)) ∨ ∃ ps ∈ lss, Splits ps := by
      rw [← exists_or]
      refine exists_congr fun ps => ?_
      rw [unpaired_iff_escapes, and_or_left]
    rw [hsplit]
    by_cases hescapes : ∃ ps ∈ lss, Unpaired (escapes ps)
    · simp only [hescapes, true_or]
    · simp only [hescapes, false_or, false_iff]

/-- A text with one half of a pair. -/
def loneHigh : Str := str "\"\\ud800\""

theorem loneHigh_exact :
    (hasUnpairedSurrogateEscape loneHigh = true ↔ HasUnpaired loneHigh) ↔ HasUnpairedEscape loneHigh ∨ ¬ HasSplit loneHigh := by
  have hs : Padded (Spells (.str [0xD800])) loneHigh := by
    refine Padded.of ?_
    rw [Spells]
    exact ⟨[unicodePiece 0xD800], by simpa using unicodePiece_valid _, by decide +kernel, by decide +kernel⟩
  have hu : Encodable loneHigh := encodable_str _
  exact (hasUnpairedSurrogateEscape_exact_iff hs hu).2

/-- The two halves of a pair, with a character between them: the answer is that nothing is unpaired. -/
theorem split_pair_missed :
    Padded (Spells (.str [0xD800, cp 'x', 0xDC00])) (str "\"\\ud800x\\udc00\"") ∧ Encodable (str "\"\\ud800x\\udc00\"") ∧
      hasUnpairedSurrogateEscape (str "\"\\ud800x\\udc00\"") = false ∧ HasUnpaired (str "\"\\ud800x\\udc00\"") := by
  have hvalid : ∀ p ∈ [unicodePiece 0xD800, .raw (cp 'x'), unicodePiece 0xDC00], p.Valid := by
    simp only [List.mem_cons, List.not_mem_nil, or_false, forall_eq_or_imp, forall_eq]
    exact ⟨unicodePiece_valid _, by decide, unicodePiece_valid _⟩
  have hquoted : quoted [unicodePiece 0xD800, .raw (cp 'x'), unicodePiece 0xDC00] = str "\"\\ud800x\\udc00\"" := by
    decide +kernel
  refine ⟨Padded.of ?_, encodable_str _, by decide +kernel, ?_⟩
  · rw [Spells]
    exact ⟨_, hvalid, by decide +kernel, hquoted.symm⟩
  · have hl := Literals.literal (g := []) (s := []) (by simp) hvalid (.gap (by simp))
    rw [List.nil_append, List.append_nil, hquoted] at hl
    refine ⟨_, hl, _, List.mem_singleton.mpr rfl, ?_⟩
    refine unpaired_of_high (by decide) fun q hq => ?_
    obtain rfl := Option.some.inj hq
    rfl

end BabelQueue
