import BabelQueue.Py.Json.Scanner

/-!
# The scanner accepts the grammar

`parse_eq_ok_iff`: `json.loads` returns a tree exactly when the text is one of the tree's, between
white space, when the tree is no deeper than the recursion limit, and when no hook refuses a
literal of it. So a text has at most one tree (`Spells.unique`), and hooks only decide whether
there is a result, not which one.

Each scanner function has two lemmas. `…_sound`: what it takes off the text is spelled by what it
returns. `…_complete`: on a spelling followed by something that cannot continue it, it returns what
is spelled.
-/

namespace Py.Json

/-! ## White space -/

theorem skipWs_split (s : Str) : ∃ w, Ws w ∧ s = w ++ skipWs s := lstrip_split whitespace s

theorem skipWs_append {w : Str} (hw : Ws w) (s : Str) : skipWs (w ++ s) = skipWs s := by
  rw [skipWs, lstrip, List.dropWhile_append_of_pos (by simpa [Within] using hw)]
  rfl

theorem skipWs_cons {c : CodePoint} (hc : c ∉ whitespace) (s : Str) : skipWs (c :: s) = c :: s := by
  simp [skipWs, lstrip, hc]

theorem skipWs_nil : skipWs [] = [] := rfl

/-- What is left after white space does not start with white space. -/
theorem skipWs_head {s r : Str} {c : CodePoint} (h : skipWs s = c :: r) : c ∉ whitespace := by
  have := List.head?_dropWhile_not (fun c => decide (c ∈ whitespace)) s
  have e : s.dropWhile (fun c => decide (c ∈ whitespace)) = c :: r := h
  rw [e] at this
  simpa using this

theorem skipWs_skipWs (s : Str) : skipWs (skipWs s) = skipWs s := by
  cases h : skipWs s with
  | nil => rfl
  | cons c r => exact skipWs_cons (skipWs_head h) r

theorem ws_nil : Ws [] := fun _ h => absurd h (by simp)

theorem Ws.append {w w' : Str} (h : Ws w) (h' : Ws w') : Ws (w ++ w') := by
  intro c hc
  rcases List.mem_append.mp hc with hc | hc
  · exact h c hc
  · exact h' c hc

/-! ## Strings -/

theorem scanPieces_sound {start : Nat} {s : Str} {ps : List Piece} {r : Str}
    (h : scanPieces start s = .ok (ps, r)) :
    (∀ p ∈ ps, p.Valid) ∧ s = ps.flatMap Piece.text ++ cp '"' :: r := by
  fun_induction scanPieces start s generalizing ps r with
  | case2 => cases h; simp
  | case4 h₃ h₂ h₁ h₀ x s hv _ ih =>
    obtain ⟨ps', hr, rfl⟩ := onValue_eq_ok h
    obtain ⟨hps, hs⟩ := ih hr
    exact ⟨List.forall_mem_cons.mpr ⟨hv, hps⟩, by rw [hs]; rfl⟩
  | case7 e s he hv _ ih =>
    obtain ⟨ps', hr, rfl⟩ := onValue_eq_ok h
    obtain ⟨hps, hs⟩ := ih hr
    exact ⟨List.forall_mem_cons.mpr ⟨hv, hps⟩, by rw [hs]; rfl⟩
  | case10 c s hq hb hc ih =>
    obtain ⟨ps', hr, rfl⟩ := onValue_eq_ok h
    obtain ⟨hps, hs⟩ := ih hr
    exact ⟨List.forall_mem_cons.mpr ⟨⟨hq, hb, by omega⟩, hps⟩, by rw [hs]; rfl⟩
  | _ => cases h

theorem scanPieces_complete {start : Nat} {ps : List Piece} (hps : ∀ p ∈ ps, p.Valid) (r : Str) :
    scanPieces start (ps.flatMap Piece.text ++ cp '"' :: r) = .ok (ps, r) := by
  induction ps with
  | nil => rw [List.flatMap_nil, List.nil_append, scanPieces.eq_def]; exact if_pos rfl
  | cons p ps ih =>
    obtain ⟨hp, hps⟩ := List.forall_mem_cons.mp hps
    have ih := ih hps
    rw [List.flatMap_cons, List.append_assoc]
    cases p with
    | raw c =>
      obtain ⟨hq, hb, hc⟩ := hp
      rw [Piece.text, List.singleton_append, scanPieces.eq_def]
      simp only [if_neg hq, if_neg hb]
      rw [if_neg (by omega), ih]; rfl
    | short c =>
      have hu : c ≠ cp 'u' := by rintro rfl; revert hp; decide
      simp only [Piece.text, List.cons_append, List.nil_append]
      rw [scanPieces.eq_def]
      simp only [cp_eq_iff, Char.reduceEq, if_false, if_true, if_neg hu]
      have hp' : (shortEscape? c).isSome = true := hp
      rw [if_pos hp', ih]; rfl
    | unicode h₃ h₂ h₁ h₀ =>
      obtain ⟨x, s, hx⟩ := List.exists_cons_of_ne_nil
        (show ps.flatMap Piece.text ++ cp '"' :: r ≠ [] by simp)
      simp only [Piece.text, List.cons_append, List.nil_append]
      rw [hx] at ih ⊢
      rw [scanPieces.eq_def]
      simp only [cp_eq_iff, Char.reduceEq, if_false, if_true]
      rw [if_pos hp, ih]; rfl

/-! ## Numbers -/

/-- `r` cannot continue a run of digits. -/
def NoDigit (r : Str) : Prop := ∀ c ∈ r.head?, isDigit c = false

/-- `r` cannot continue a number. -/
def NumStop (r : Str) : Prop :=
  ∀ c ∈ r.head?, isDigit c = false ∧ c ≠ cp '.' ∧ c ≠ cp 'e' ∧ c ≠ cp 'E'

theorem NumStop.noDigit {r : Str} (h : NumStop r) : NoDigit r := fun c hc => (h c hc).1

theorem numStop_nil : NumStop [] := by simp [NumStop]

theorem spanDigits_sound (s : Str) :
    (∀ c ∈ (spanDigits s).1, isDigit c) ∧ s = (spanDigits s).1 ++ (spanDigits s).2 :=
  ⟨fun _ hc => List.mem_takeWhile_imp hc, List.takeWhile_append_dropWhile.symm⟩

theorem spanDigits_complete {ds r : Str} (hd : ∀ c ∈ ds, isDigit c) (hr : NoDigit r) :
    spanDigits (ds ++ r) = (ds, r) := by
  have hr₁ : r.takeWhile isDigit = [] := by
    cases r with
    | nil => rfl
    | cons c r => simp [hr c (by simp)]
  have hr₂ : r.dropWhile isDigit = r := by
    cases r with
    | nil => rfl
    | cons c r => simp [hr c (by simp)]
  rw [spanDigits, List.takeWhile_append_of_pos hd, List.dropWhile_append_of_pos hd, hr₁, hr₂,
    List.append_nil]

theorem scanIntPart_sound {s i r : Str} (h : scanIntPart s = some (i, r)) :
    IsDigits i ∧ (i.head? = some (cp '0') → i = [cp '0']) ∧ s = i ++ r := by
  cases s with
  | nil => cases h
  | cons c s =>
    rw [scanIntPart] at h
    by_cases h0 : c = cp '0'
    · rw [if_pos h0] at h; cases h
      subst h0
      have h0 : isDigit (cp '0') = true := by decide
      exact ⟨⟨by simp, by simpa using h0⟩, fun _ => rfl, rfl⟩
    · rw [if_neg h0] at h
      by_cases hd : isDigit c
      · rw [if_pos hd, Option.some.injEq] at h
        obtain ⟨h₁, h₂⟩ := spanDigits_sound (c :: s)
        rw [h] at h₁ h₂
        have hi : i = c :: s.takeWhile isDigit := by
          have := congrArg Prod.fst h
          simpa [spanDigits, hd] using this.symm
        exact ⟨⟨by simp [hi], h₁⟩, fun hh => by simp [hi, h0] at hh, h₂⟩
      · rw [if_neg hd] at h; cases h

theorem scanIntPart_complete {i r : Str} (hi : IsDigits i) (h0 : i.head? = some (cp '0') → i = [cp '0'])
    (hr : NoDigit r) : scanIntPart (i ++ r) = some (i, r) := by
  obtain ⟨c, i', rfl⟩ := List.exists_cons_of_ne_nil hi.1
  rw [List.cons_append, scanIntPart]
  by_cases hc : c = cp '0'
  · have := h0 (by simp [hc])
    obtain ⟨-, rfl⟩ := List.cons.inj this
    rw [if_pos hc, List.nil_append]
  · have hd : isDigit c = true := hi.2 c (by simp)
    rw [if_neg hc, if_pos hd, ← List.cons_append, spanDigits_complete hi.2 hr]

theorem scanFrac_sound {s r : Str} {f : Option Str} (h : scanFrac s = (f, r)) :
    (∀ d ∈ f, IsDigits d) ∧ s = f.elim [] (cp '.' :: ·) ++ r := by
  cases s with
  | nil => cases h; simp
  | cons c s =>
    rw [scanFrac] at h
    split at h
    · next hc =>
      obtain ⟨rfl, hne⟩ := hc
      cases h
      obtain ⟨h₁, h₂⟩ := spanDigits_sound s
      exact ⟨by simpa using ⟨hne, h₁⟩, by simpa using h₂⟩
    · cases h; simp

theorem scanFrac_complete {f : Option Str} {r : Str} (hf : ∀ d ∈ f, IsDigits d) (hr : NoDigit r)
    (hdot : f = none → r.head? ≠ some (cp '.')) :
    scanFrac (f.elim [] (cp '.' :: ·) ++ r) = (f, r) := by
  cases f with
  | none =>
    cases r with
    | nil => rfl
    | cons c r =>
      have hc : c ≠ cp '.' := by simpa using hdot rfl
      simp [scanFrac, hc]
  | some d =>
    obtain ⟨hne, hd⟩ := hf d rfl
    simp [scanFrac, spanDigits_complete hd hr, hne]

theorem scanSign_sound {s r : Str} {c : Option CodePoint} (h : scanSign s = (c, r)) :
    (∀ d ∈ c, d = cp '+' ∨ d = cp '-') ∧ s = c.toList ++ r := by
  cases s with
  | nil => cases h; simp
  | cons d s =>
    rw [scanSign] at h
    split at h
    · next hd => cases h; simpa using hd
    · cases h; simp

theorem scanExp_sound {s r : Str} {x : Option ExpPart} (h : scanExp s = (x, r)) :
    (∀ e ∈ x, e.Valid) ∧ s = x.elim [] ExpPart.text ++ r := by
  cases s with
  | nil => cases h; simp
  | cons c s =>
    rw [scanExp] at h
    have hss : scanSign s = ((scanSign s).1, (scanSign s).2) := rfl
    obtain ⟨hsign, hs⟩ := scanSign_sound hss
    dsimp only at h
    split at h
    · next hc =>
      cases h
      obtain ⟨h₁, h₂⟩ := spanDigits_sound (scanSign s).2
      refine ⟨fun e he => ?_, ?_⟩
      · cases he; exact ⟨hc.1, hsign, hc.2, h₁⟩
      · rw [Option.elim_some, ExpPart.text, List.append_assoc, ← h₂, List.cons_append, ← hs]
    · cases h; simp

theorem scanExp_complete {x : Option ExpPart} {r : Str} (hx : ∀ e ∈ x, e.Valid) (hr : NoDigit r)
    (he : x = none → ∀ c ∈ r.head?, c ≠ cp 'e' ∧ c ≠ cp 'E') :
    scanExp (x.elim [] ExpPart.text ++ r) = (x, r) := by
  cases x with
  | none =>
    cases r with
    | nil => rfl
    | cons c r =>
      have hc := he rfl c (by simp)
      simp [scanExp, hc.1, hc.2]
  | some e =>
    obtain ⟨hm, hsign, hne, hd⟩ := hx e rfl
    obtain ⟨mark, sign, ds⟩ := e
    have hs : scanSign (sign.toList ++ (ds ++ r)) = (sign, ds ++ r) := by
      cases sign with
      | none =>
        obtain ⟨c, ds', rfl⟩ := List.exists_cons_of_ne_nil hne
        have hc : isDigit c = true := hd c (by simp)
        have : ¬ (c = cp '+' ∨ c = cp '-') := by rintro (rfl | rfl) <;> revert hc <;> decide
        simp only [Option.toList_none, List.nil_append, List.cons_append, scanSign, if_neg this]
      | some c =>
        simp only [Option.toList_some, List.singleton_append, scanSign, if_pos (hsign c rfl)]
    simp only [Option.elim_some, ExpPart.text, List.cons_append, List.append_assoc, scanExp, hs,
      spanDigits_complete hd hr]
    rw [if_pos ⟨hm, hne⟩]

theorem scanMinus_sound (s : Str) :
    s = (if (scanMinus s).1 then [cp '-'] else []) ++ (scanMinus s).2 := by
  cases s with
  | nil => rfl
  | cons c s =>
    rw [scanMinus]
    split
    · next hc => simp [hc]
    · simp

theorem scanMinus_complete {neg : Bool} {i : Str} (hi : IsDigits i) (r : Str) :
    scanMinus ((if neg then [cp '-'] else []) ++ (i ++ r)) = (neg, i ++ r) := by
  cases neg with
  | true => simp [scanMinus]
  | false =>
    obtain ⟨c, i', rfl⟩ := List.exists_cons_of_ne_nil hi.1
    have hd : isDigit c = true := hi.2 c (by simp)
    have : c ≠ cp '-' := by rintro rfl; revert hd; decide
    simp [scanMinus, this]

theorem scanNumber_sound {s r : Str} {l : NumLit} (h : scanNumber s = some (l, r)) :
    l.Valid ∧ s = l.text ++ r := by
  rw [scanNumber] at h
  obtain ⟨⟨i, s₁⟩, hi, h⟩ := Option.map_eq_some_iff.mp h
  obtain ⟨hi₁, hi₂, hi₃⟩ := scanIntPart_sound hi
  have hf : scanFrac s₁ = ((scanFrac s₁).1, (scanFrac s₁).2) := rfl
  obtain ⟨hf₁, hf₂⟩ := scanFrac_sound hf
  have hx : scanExp (scanFrac s₁).2 = ((scanExp (scanFrac s₁).2).1, (scanExp (scanFrac s₁).2).2) := rfl
  obtain ⟨hx₁, hx₂⟩ := scanExp_sound hx
  simp only [Prod.mk.injEq] at h
  obtain ⟨rfl, rfl⟩ := h
  refine ⟨⟨hi₁, hi₂, hf₁, hx₁⟩, ?_⟩
  rw [NumLit.text, List.append_assoc, List.append_assoc, List.append_assoc, ← hx₂, ← hf₂, ← hi₃,
    ← scanMinus_sound]

private theorem noDigit_of_cons {c : CodePoint} (hc : isDigit c = false) (s : Str) : NoDigit (c :: s) := by
  simpa [NoDigit] using hc

theorem scanNumber_complete {l : NumLit} (hl : l.Valid) {r : Str} (hr : NumStop r) :
    scanNumber (l.text ++ r) = some (l, r) := by
  obtain ⟨neg, i, f, x⟩ := l
  obtain ⟨hi, hi0, hf, hx⟩ := hl
  have hexp : scanExp (x.elim [] ExpPart.text ++ r) = (x, r) :=
    scanExp_complete hx hr.noDigit fun _ c hc => (hr c hc).2.2
  -- what follows the fraction starts with the mark of the exponent or with `r`
  have hafter : NoDigit (x.elim [] ExpPart.text ++ r) ∧
      (x.elim [] ExpPart.text ++ r).head? ≠ some (cp '.') := by
    cases x with
    | none => exact ⟨hr.noDigit, fun h => (hr _ h).2.1 rfl⟩
    | some e =>
      have hm := (hx e rfl).1
      refine ⟨noDigit_of_cons ?_ _, ?_⟩
      · rcases hm with hm | hm <;> rw [hm] <;> decide
      · rcases hm with hm | hm <;> simp [ExpPart.text, hm]
  have hfrac := scanFrac_complete (f := f) hf hafter.1 fun _ => hafter.2
  have hint : NoDigit (f.elim [] (cp '.' :: ·) ++ (x.elim [] ExpPart.text ++ r)) := by
    cases f with
    | none => exact hafter.1
    | some d => exact noDigit_of_cons (by decide) _
  have hip := scanIntPart_complete hi hi0 hint
  simp only [NumLit.text, List.append_assoc, scanNumber, scanMinus_complete hi, hip, Option.map_some,
    hfrac, hexp]

/-! ## Words -/

theorem scanWord_sound {s r : Str} {t : Tree} (h : scanWord s = some (t, r)) :
    ∃ w, (w, t) ∈ words ∧ s = w ++ r := by
  obtain ⟨⟨w, t'⟩, hw, h⟩ := List.exists_of_findSome?_eq_some h
  obtain ⟨r', hr, h⟩ := Option.map_eq_some_iff.mp h
  cases h
  exact ⟨w, hw, dropPrefix?_eq_some_iff.mp hr⟩

theorem scanWord_complete {w : Str} {t : Tree} (h : (w, t) ∈ words) (r : Str) :
    scanWord (w ++ r) = some (t, r) := by
  simp only [words, List.mem_cons, Prod.mk.injEq, List.not_mem_nil, or_false] at h
  rcases h with ⟨rfl, rfl⟩ | ⟨rfl, rfl⟩ | ⟨rfl, rfl⟩ | ⟨rfl, rfl⟩ | ⟨rfl, rfl⟩ | ⟨rfl, rfl⟩ <;>
    simp [scanWord, words, dropPrefix?, startsWith, str]

/-- A word is the text of its tree. -/
theorem spells_of_mem_words {w : Str} {t : Tree} (h : (w, t) ∈ words) : Spells t w := by
  simp only [words, List.mem_cons, Prod.mk.injEq, List.not_mem_nil, or_false] at h
  rcases h with ⟨rfl, rfl⟩ | ⟨rfl, rfl⟩ | ⟨rfl, rfl⟩ | ⟨rfl, rfl⟩ | ⟨rfl, rfl⟩ | ⟨rfl, rfl⟩ <;>
    simp [Spells, Constant.text]

/-- The first code point of a number: a digit, or a minus sign with a digit after it. -/
theorem NumLit.text_head {l : NumLit} (h : l.Valid) :
    ∃ c s, isDigit c = true ∧ (l.text = c :: s ∨ l.text = cp '-' :: c :: s) := by
  obtain ⟨c, i, hi⟩ := List.exists_cons_of_ne_nil h.1.1
  have hd : isDigit c = true := h.1.2 c (by simp [hi])
  refine ⟨c, i ++ ((l.frac.elim [] (cp '.' :: ·)) ++ l.exp.elim [] ExpPart.text), hd, ?_⟩
  cases hn : l.neg
  · left; simp [NumLit.text, hn, hi]
  · right; simp [NumLit.text, hn, hi]

theorem scanWord_number {l : NumLit} (h : l.Valid) (r : Str) : scanWord (l.text ++ r) = none := by
  obtain ⟨c, s, hd, e⟩ := NumLit.text_head h
  have hc : ∀ d : Char, isDigit (cp d) = false → cp d ≠ c := by rintro d hd' rfl; simp [hd] at hd'
  have h₁ := hc 'n' (by decide)
  have h₂ := hc 't' (by decide)
  have h₃ := hc 'f' (by decide)
  have h₄ := hc 'N' (by decide)
  have h₅ := hc 'I' (by decide)
  have h₆ := hc '-' (by decide)
  rcases e with e | e <;>
    simp [scanWord, words, dropPrefix?, startsWith, str, e, h₁, h₂, h₃, h₄, h₅, h₆]

/-! ## Elements and containers -/

section Containers

variable {α : Type} {P : α → Str → Prop} {elem : Str → Scan α} {close : CodePoint}

theorem scanSeq_sound (helem : ∀ s a r, elem s = .ok (a, r) → ∃ t, s = t ++ r ∧ P a t)
    {fuel : Nat} {s : Str} {as : List α} {r : Str} (h : scanSeq elem close fuel s = .ok (as, r)) :
    ∃ body, s = body ++ close :: r ∧ Sep P as body := by
  induction fuel generalizing s as r with
  | zero => cases h
  | succ fuel ih =>
    rw [scanSeq] at h
    split at h
    · cases h
    · next a r₁ ha =>
      obtain ⟨t, rfl, ht⟩ := helem _ _ _ ha
      split at h
      · cases h
      · next c r' =>
        split at h
        · next hc => cases h; exact ⟨t, by rw [hc], ht⟩
        · split at h
          · next hc =>
            obtain ⟨as', has, rfl⟩ := onValue_eq_ok h
            obtain ⟨body, rfl, hb⟩ := ih has
            cases as' with
            | nil => exact hb.elim
            | cons b bs => exact ⟨t ++ cp ',' :: body, by simp [hc], Sep.cons ht hb⟩
          · cases h

/-- What may follow an element: a comma or the closing bracket. -/
def Follows (close : CodePoint) (r : Str) : Prop := ∃ c s, r = c :: s ∧ (c = cp ',' ∨ c = close)

theorem scanSeq_complete (hclose : close ≠ cp ',') {as : List α}
    (helem : ∀ a ∈ as, ∀ t r, P a t → Follows close r → elem (t ++ r) = .ok (a, r))
    {fuel : Nat} {body : Str} (hb : Sep P as body) (hf : as.length ≤ fuel) (r : Str) :
    scanSeq elem close fuel (body ++ close :: r) = .ok (as, r) := by
  induction as generalizing fuel body with
  | nil => exact hb.elim
  | cons a as ih =>
    obtain ⟨fuel, rfl⟩ : ∃ n, fuel = n + 1 := ⟨fuel - 1, by simp at hf; omega⟩
    cases as with
    | nil =>
      rw [scanSeq, helem a (by simp) _ _ hb ⟨close, r, rfl, Or.inr rfl⟩]
      dsimp only
      rw [if_pos rfl]
    | cons b bs =>
      obtain ⟨s₁, s₂, rfl, ha, hs⟩ := hb
      rw [List.append_assoc, List.cons_append, scanSeq,
        helem a (by simp) _ _ ha ⟨cp ',', _, rfl, Or.inl rfl⟩]
      dsimp only
      rw [if_neg hclose.symm, if_pos rfl,
        ih (fun a h => helem a (List.mem_cons_of_mem _ h)) hs (by simpa using hf)]
      rfl

theorem scanBracketed_sound (helem : ∀ s a r, elem s = .ok (a, r) → ∃ t, s = t ++ r ∧ P a t)
    (hlead : ∀ a as s w, Ws w → Sep P (a :: as) s → Sep P (a :: as) (w ++ s))
    {s : Str} {as : List α} {r : Str} (h : scanBracketed elem close s = .ok (as, r)) :
    ∃ body, s = body ++ close :: r ∧ (as = [] ∧ Ws body ∨ Sep P as body) := by
  obtain ⟨w, hw, hs⟩ := skipWs_split s
  have hseq : ∀ {as}, scanSeq elem close (s.length + 1) (skipWs s) = .ok (as, r) →
      ∃ body, s = body ++ close :: r ∧ (as = [] ∧ Ws body ∨ Sep P as body) := by
    intro as h
    obtain ⟨body, hb, hsep⟩ := scanSeq_sound helem h
    refine ⟨w ++ body, by rw [hs, hb, List.append_assoc], Or.inr ?_⟩
    cases as with
    | nil => exact hsep.elim
    | cons a as => exact hlead a as body w hw hsep
  rw [scanBracketed] at h
  split at h
  · exact hseq h
  · next c r' e =>
    split at h
    · next hc => cases h; exact ⟨w, by rw [← hc, ← e, ← hs], Or.inl ⟨rfl, hw⟩⟩
    · exact hseq h

theorem scanBracketed_complete (hclose : close ≠ cp ',') (hws : close ∉ whitespace) {as : List α}
    (helem : ∀ a ∈ as, ∀ t r, P a t → Follows close r → elem (t ++ r) = .ok (a, r))
    (hskip : ∀ s, elem (skipWs s) = elem s)
    (hhead : ∀ a ∈ as, ∀ t r, P a t → ∃ c s, skipWs (t ++ r) = c :: s ∧ c ≠ close)
    {body : Str} (hb : as = [] ∧ Ws body ∨ Sep P as body) (r : Str) :
    scanBracketed elem close (body ++ close :: r) = .ok (as, r) := by
  rcases hb with ⟨rfl, hb⟩ | hb
  · rw [scanBracketed, skipWs_append hb, skipWs_cons hws]
    exact if_pos rfl
  · have hlen := hb.length_le
    have hfuel : as.length ≤ (body ++ close :: r).length + 1 := by simp; omega
    have hseq := scanSeq_complete hclose helem hb hfuel r
    have hstart : scanSeq elem close ((body ++ close :: r).length + 1) (skipWs (body ++ close :: r)) =
        .ok (as, r) := by
      rw [scanSeq, hskip, ← scanSeq]; exact hseq
    cases as with
    | nil => exact hb.elim
    | cons a as =>
      obtain ⟨c, s, hc, hne⟩ : ∃ c s, skipWs (body ++ close :: r) = c :: s ∧ c ≠ close := by
        cases as with
        | nil => exact hhead a (by simp) _ _ hb
        | cons b bs =>
          obtain ⟨s₁, s₂, rfl, ha, -⟩ := hb
          rw [List.append_assoc]
          exact hhead a (by simp) _ _ ha
      rw [scanBracketed]
      rw [hc] at hstart ⊢
      dsimp only
      rw [if_neg hne, hstart]

end Containers

/-! ## Values -/

/-- What the hooks say about one node. -/
def Hooks.Accepts (H : Hooks) : Tree → Prop
  | .num l => l.isFloat = true ∨ H.parseInt l = .ok ()
  | .const c => H.parseConstant c = .ok ()
  | _ => True

/-- The scanner with hooks `H` and recursion limit `d` does not refuse `t`. -/
def Fits (H : Hooks) (d : Nat) (t : Tree) : Prop := t.depth ≤ d ∧ t.All H.Accepts

theorem fits_arr {H : Hooks} {d : Nat} {ts : List Tree} :
    Fits H d (.arr ts) ↔ ∃ d', d = d' + 1 ∧ ∀ t ∈ ts, Fits H d' t := by
  simp only [Fits, Tree.depth, Tree.All, Hooks.Accepts, true_and, allItems_iff]
  constructor
  · rintro ⟨hd, ha⟩
    exact ⟨d - 1, by omega, fun t ht => ⟨depthItems_le_iff.mp (by omega) t ht, ha t ht⟩⟩
  · rintro ⟨d', rfl, h⟩
    exact ⟨Nat.succ_le_succ (depthItems_le_iff.mpr fun t ht => (h t ht).1), fun t ht => (h t ht).2⟩

theorem fits_obj {H : Hooks} {d : Nat} {ms : List (Str × Tree)} :
    Fits H d (.obj ms) ↔ ∃ d', d = d' + 1 ∧ ∀ m ∈ ms, Fits H d' m.2 := by
  simp only [Fits, Tree.depth, Tree.All, Hooks.Accepts, true_and, allMembers_iff]
  constructor
  · rintro ⟨hd, ha⟩
    exact ⟨d - 1, by omega, fun t ht => ⟨depthMembers_le_iff.mp (by omega) t ht, ha t ht⟩⟩
  · rintro ⟨d', rfl, h⟩
    exact ⟨Nat.succ_le_succ (depthMembers_le_iff.mpr fun t ht => (h t ht).1), fun t ht => (h t ht).2⟩

/-- A text starts with an ASCII code point that is neither white space nor a closing bracket. -/
theorem Spells.head {t : Tree} {s : Str} (h : Spells t s) :
    ∃ c r, s = c :: r ∧ c ∉ whitespace ∧ c ≠ cp ']' ∧ c.val < 0x80 := by
  cases t with
  | null => rw [Spells] at h; exact ⟨_, _, h, by decide, by decide, by decide⟩
  | bool b => rw [Spells] at h; cases b <;> exact ⟨_, _, h, by decide, by decide, by decide⟩
  | num l =>
    obtain ⟨hl, rfl⟩ : l.Valid ∧ s = l.text := by rwa [Spells] at h
    obtain ⟨c, r, hd, e | e⟩ := NumLit.text_head hl
    · refine ⟨c, r, e, fun hc => ?_, by rintro rfl; revert hd; decide, ?_⟩
      · simp only [whitespace, List.mem_cons, List.not_mem_nil, or_false] at hc
        rcases hc with rfl | rfl | rfl | rfl <;> revert hd <;> decide
      · simp only [isDigit, Bool.and_eq_true, decide_eq_true_eq] at hd
        omega
    · exact ⟨_, _, e, by decide, by decide, by decide⟩
  | const k => rw [Spells] at h; cases k <;> exact ⟨_, _, h, by decide, by decide, by decide⟩
  | str v =>
    rw [Spells] at h; obtain ⟨ps, -, -, rfl⟩ := h; exact ⟨_, _, rfl, by decide, by decide, by decide⟩
  | arr ts =>
    rw [Spells] at h; obtain ⟨b, rfl, -⟩ := h; exact ⟨_, _, rfl, by decide, by decide, by decide⟩
  | obj ms =>
    rw [Spells] at h; obtain ⟨b, rfl, -⟩ := h; exact ⟨_, _, rfl, by decide, by decide, by decide⟩

/-- `r` starts with something that is neither white space nor part of a number. -/
def Stops (r : Str) : Prop := ∃ c s, r = c :: s ∧ c ∉ whitespace ∧ NumStop r

theorem numStop_of_mem {c : CodePoint} (hc : c ∈ whitespace ∨ c ∈ [cp ',', cp ']', cp '}']) (s : Str) :
    NumStop (c :: s) := by
  intro d hd
  obtain rfl : c = d := by simpa using hd
  simp only [whitespace, List.mem_cons, List.not_mem_nil, or_false] at hc
  rcases hc with (rfl | rfl | rfl | rfl) | rfl | rfl | rfl <;> decide

theorem Follows.stops {close : CodePoint} (hc : close = cp ']' ∨ close = cp '}') {r : Str}
    (h : Follows close r) : Stops r := by
  obtain ⟨c, s, rfl, h⟩ := h
  have hm : c ∈ [cp ',', cp ']', cp '}'] := by
    rcases h with rfl | rfl
    · simp
    · rcases hc with rfl | rfl <;> simp
  refine ⟨c, s, rfl, ?_, numStop_of_mem (Or.inr hm) s⟩
  simp only [List.mem_cons, List.not_mem_nil, or_false] at hm
  rcases hm with rfl | rfl | rfl <;> decide

theorem NumStop.ws_append {w r : Str} (hw : Ws w) (hr : NumStop r) : NumStop (w ++ r) := by
  cases w with
  | nil => exact hr
  | cons c w => exact numStop_of_mem (Or.inl (hw c (by simp))) _

section Elements

variable {P : Tree → Str → Prop} {scan : Str → Scan Tree}

theorem scanItem_sound (hscan : ∀ s t r, scan s = .ok (t, r) → ∃ c, s = c ++ r ∧ P t c)
    {s : Str} {t : Tree} {r : Str} (h : scanItem scan s = .ok (t, r)) :
    ∃ c, s = c ++ r ∧ Padded (P t) c := by
  obtain ⟨w, hw, hs⟩ := skipWs_split s
  rw [scanItem] at h
  split at h
  · cases h
  · next t' r' e =>
    obtain ⟨c, hc, hp⟩ := hscan _ _ _ e
    obtain ⟨w', hw', hr'⟩ := skipWs_split r'
    cases h
    exact ⟨w ++ c ++ w', by rw [List.append_assoc, List.append_assoc, ← hr', ← hc, ← hs],
      w, c, w', hw, hw', hp, rfl⟩

theorem scanItem_complete {t : Tree}
    (hscan : ∀ c r, Spells t c → NumStop r → scan (c ++ r) = .ok (t, r)) {s r : Str}
    (hs : Padded (Spells t) s) (hr : Stops r) : scanItem scan (s ++ r) = .ok (t, r) := by
  obtain ⟨w, c, w', hw, hw', hc, rfl⟩ := hs
  obtain ⟨d, r', rfl, hd, hn⟩ := hr
  obtain ⟨x, c', hx, hxw, -⟩ := hc.head
  have e : skipWs (w ++ c ++ w' ++ d :: r') = c ++ (w' ++ d :: r') := by
    rw [List.append_assoc, List.append_assoc, skipWs_append hw, hx, List.cons_append, skipWs_cons hxw]
  rw [scanItem, e, hscan c _ hc (hn.ws_append hw')]
  dsimp only
  rw [skipWs_append hw', skipWs_cons hd]

theorem scanMember_sound (hscan : ∀ s t r, scan s = .ok (t, r) → ∃ c, s = c ++ r ∧ P t c)
    {s : Str} {m : Str × Tree} {r : Str} (h : scanMember scan s = .ok (m, r)) :
    ∃ c, s = c ++ r ∧ Member m.1 (P m.2) c := by
  obtain ⟨w, hw, hs⟩ := skipWs_split s
  rw [scanMember] at h
  split at h
  · cases h
  · next c s' e =>
    split at h
    · next hq =>
      split at h
      · cases h
      · next ps r₁ hp =>
        obtain ⟨hps, hs'⟩ := scanPieces_sound hp
        obtain ⟨w', hw', hr₁⟩ := skipWs_split r₁
        split at h
        · cases h
        · next c' r₂ e' =>
          split at h
          · next hcol =>
            obtain ⟨t, ht, rfl⟩ := onValue_eq_ok h
            obtain ⟨v, rfl, hv⟩ := scanItem_sound hscan ht
            refine ⟨(w ++ quoted ps ++ w') ++ cp ':' :: v, ?_, w ++ quoted ps ++ w', v,
              ⟨w, _, w', hw, hw', ⟨ps, hps, rfl, rfl⟩, rfl⟩, hv, rfl⟩
            rw [hs, e, hq, hs', hr₁, e', hcol]
            simp [quoted]
          · cases h
    · cases h

theorem scanMember_complete {k : Str} {t : Tree}
    (hscan : ∀ c r, Spells t c → NumStop r → scan (c ++ r) = .ok (t, r)) {s r : Str}
    (hs : Member k (Spells t) s) (hr : Stops r) : scanMember scan (s ++ r) = .ok ((k, t), r) := by
  obtain ⟨s₁, s₂, ⟨w, _, w', hw, hw', ⟨ps, hps, rfl, rfl⟩, rfl⟩, hv, rfl⟩ := hs
  have e : skipWs (w ++ quoted ps ++ w' ++ cp ':' :: s₂ ++ r) =
      cp '"' :: (ps.flatMap Piece.text ++ cp '"' :: (w' ++ cp ':' :: (s₂ ++ r))) := by
    rw [List.append_assoc, List.append_assoc, List.append_assoc, skipWs_append hw, quoted,
      List.cons_append, List.cons_append, skipWs_cons (by decide)]
    simp
  rw [scanMember, e]
  simp only [if_true, scanPieces_complete hps]
  rw [skipWs_append hw', skipWs_cons (by decide)]
  dsimp only
  rw [if_pos rfl, scanItem_complete hscan hv hr, onValue_ok]

end Elements

section Sep

variable {α : Type} {P Q : α → Str → Prop}

theorem Sep.imp (h : ∀ a s, P a s → Q a s) {as : List α} {s : Str} (hs : Sep P as s) : Sep Q as s := by
  induction as generalizing s with
  | nil => exact hs
  | cons a as ih =>
    cases as with
    | nil => exact h _ _ hs
    | cons b bs =>
      obtain ⟨s₁, s₂, rfl, ha, hb⟩ := hs
      exact ⟨s₁, s₂, rfl, h _ _ ha, ih hb⟩

theorem Sep.forall {R : α → Prop} {as : List α} (h : ∀ a ∈ as, ∀ s, P a s → R a) {s : Str}
    (hs : Sep P as s) : ∀ a ∈ as, R a := by
  induction as generalizing s with
  | nil => simp
  | cons a as ih =>
    obtain ⟨ha, has⟩ := List.forall_mem_cons.mp h
    cases as with
    | nil => simpa using ha _ hs
    | cons b bs =>
      obtain ⟨s₁, s₂, rfl, h₁, h₂⟩ := hs
      exact List.forall_mem_cons.mpr ⟨ha _ h₁, ih has h₂⟩

end Sep

theorem Padded.imp {P Q : Str → Prop} (h : ∀ s, P s → Q s) {s : Str} : Padded P s → Padded Q s := by
  rintro ⟨w, t, w', hw, hw', ht, rfl⟩
  exact ⟨w, t, w', hw, hw', h t ht, rfl⟩

theorem Member.imp {k : Str} {P Q : Str → Prop} (h : ∀ s, P s → Q s) {s : Str} :
    Member k P s → Member k Q s := by
  rintro ⟨s₁, s₂, h₁, h₂, rfl⟩
  exact ⟨s₁, s₂, h₁, h₂.imp h, rfl⟩

/-- White space before the first element belongs to it. -/
theorem Padded.ws_append {P : Str → Prop} {w s : Str} (hw : Ws w) : Padded P s → Padded P (w ++ s) := by
  rintro ⟨w₁, t, w₂, h₁, h₂, ht, rfl⟩
  exact ⟨w ++ w₁, t, w₂, hw.append h₁, h₂, ht, by simp⟩

theorem Member.ws_append {k : Str} {P : Str → Prop} {w s : Str} (hw : Ws w) :
    Member k P s → Member k P (w ++ s) := by
  rintro ⟨s₁, s₂, h₁, h₂, rfl⟩
  exact ⟨w ++ s₁, s₂, h₁.ws_append hw, h₂, by simp⟩

theorem Sep.ws_append {α : Type} {P : α → Str → Prop} (hP : ∀ a s w, Ws w → P a s → P a (w ++ s))
    (a : α) (as : List α) (s w : Str) (hw : Ws w) (h : Sep P (a :: as) s) : Sep P (a :: as) (w ++ s) := by
  cases as with
  | nil => exact hP a s w hw h
  | cons b bs =>
    obtain ⟨s₁, s₂, rfl, ha, hb⟩ := h
    exact ⟨w ++ s₁, s₂, by simp, hP a s₁ w hw ha, hb⟩

theorem hooked_eq_ok {α : Type} {c : Except PyExc Unit} {v w : α × Str} (h : hooked c v = .ok w) :
    c = .ok () ∧ w = v := by
  cases c with
  | ok u => cases h; exact ⟨rfl, rfl⟩
  | error e => cases h

/-- What the scanner returns is spelled by what it took off the text, and fits. -/
theorem scanOnce_sound {H : Hooks} {d : Nat} {s : Str} {t : Tree} {r : Str}
    (h : scanOnce H d s = .ok (t, r)) : ∃ c, s = c ++ r ∧ Spells t c ∧ Fits H d t := by
  induction d using Nat.strongRecOn generalizing s t r with
  | _ d ih =>
  cases s with
  | nil => rw [scanOnce] at h; cases h
  | cons c s =>
    rw [scanOnce.eq_def] at h
    dsimp only at h
    split at h
    · next hq =>
      obtain ⟨ps, hp, rfl⟩ := onValue_eq_ok h
      obtain ⟨hv, rfl⟩ := scanPieces_sound hp
      exact ⟨quoted ps, by simp [quoted, hq], by rw [Spells]; exact ⟨ps, hv, rfl, rfl⟩,
        by simp [Fits, Tree.depth, Tree.All, Hooks.Accepts]⟩
    split at h
    · next hb =>
      cases d with
      | zero => cases h
      | succ d =>
        obtain ⟨ms, hm, rfl⟩ := onValue_eq_ok h
        obtain ⟨body, rfl, hbody⟩ := scanBracketed_sound
          (P := fun m => Member m.1 fun s => Spells m.2 s ∧ Fits H d m.2)
          (fun s m r e => scanMember_sound (P := fun t s => Spells t s ∧ Fits H d t)
            (fun s t r e => ih d (by omega) e) e)
          (Sep.ws_append fun m s w hw => Member.ws_append hw) hm
        refine ⟨cp '{' :: body ++ [cp '}'], by simp [hb], ?_, fits_obj.mpr ⟨d, rfl, ?_⟩⟩
        · rw [Spells]
          refine ⟨body, rfl, hbody.imp id fun h => (spellsMembers_iff _ _).mpr ?_⟩
          exact h.imp fun m s => Member.imp fun s => And.left
        · rcases hbody with ⟨rfl, -⟩ | hbody
          · simp
          · refine hbody.forall ?_
            rintro m _ s ⟨_, _, _, ⟨_, _, _, _, _, hf, _⟩, _⟩
            exact hf.2
    split at h
    · next hb =>
      cases d with
      | zero => cases h
      | succ d =>
        obtain ⟨ts, hm, rfl⟩ := onValue_eq_ok h
        obtain ⟨body, rfl, hbody⟩ := scanBracketed_sound
          (P := fun t => Padded fun s => Spells t s ∧ Fits H d t)
          (fun s t r e => scanItem_sound (P := fun t s => Spells t s ∧ Fits H d t)
            (fun s t r e => ih d (by omega) e) e)
          (Sep.ws_append fun t s w hw => Padded.ws_append hw) hm
        refine ⟨cp '[' :: body ++ [cp ']'], by simp [hb], ?_, fits_arr.mpr ⟨d, rfl, ?_⟩⟩
        · rw [Spells]
          refine ⟨body, rfl, hbody.imp id fun h => (spellsItems_iff _ _).mpr ?_⟩
          exact h.imp fun t s => Padded.imp fun s => And.left
        · rcases hbody with ⟨rfl, -⟩ | hbody
          · simp
          · refine hbody.forall ?_
            rintro t _ s ⟨_, _, _, _, _, hf, _⟩
            exact hf.2
    have hword : ∀ t r, scanWord (c :: s) = some (t, r) →
        ∃ w, c :: s = w ++ r ∧ Spells t w ∧ ((∃ k, t = .const k) ∨ Fits H d t) := by
      intro t r e
      obtain ⟨w, hw, hs⟩ := scanWord_sound e
      refine ⟨w, hs, spells_of_mem_words hw, ?_⟩
      simp only [words, List.mem_cons, Prod.mk.injEq, List.not_mem_nil, or_false] at hw
      rcases hw with ⟨-, rfl⟩ | ⟨-, rfl⟩ | ⟨-, rfl⟩ | ⟨-, rfl⟩ | ⟨-, rfl⟩ | ⟨-, rfl⟩
      all_goals first | exact Or.inl ⟨_, rfl⟩ | exact Or.inr ⟨Nat.zero_le _, trivial⟩
    split at h
    · next k r' e =>
      obtain ⟨hk, rfl, rfl⟩ : _ ∧ t = Tree.const k ∧ r = r' := by simpa using hooked_eq_ok h
      obtain ⟨w, hs, hw, -⟩ := hword _ _ e
      exact ⟨w, hs, hw, Nat.zero_le _, hk⟩
    · next v hne e =>
      cases h
      obtain ⟨w, hs, hw, hf⟩ := hword _ _ e
      refine ⟨w, hs, hw, hf.resolve_left ?_⟩
      rintro ⟨k, rfl⟩
      exact hne k r rfl
    · split at h
      · next l r' e =>
        obtain ⟨hl, hs⟩ := scanNumber_sound e
        have hsp : Spells (.num l) l.text := by rw [Spells]; exact ⟨hl, rfl⟩
        split at h
        · next hf => cases h; exact ⟨l.text, hs, hsp, Nat.zero_le _, Or.inl hf⟩
        · obtain ⟨hk, rfl, rfl⟩ : _ ∧ t = Tree.num l ∧ r = r' := by simpa using hooked_eq_ok h
          exact ⟨l.text, hs, hsp, Nat.zero_le _, Or.inr hk⟩
      · cases h

/-- A text that fits, with something after it that cannot continue it, is read. -/
theorem scanOnce_complete {H : Hooks} {t : Tree} {d : Nat} (hf : Fits H d t) {c r : Str}
    (hc : Spells t c) (hr : NumStop r) : scanOnce H d (c ++ r) = .ok (t, r) := by
  have hword : ∀ {w t}, (w, t) ∈ words → (∀ k, t ≠ .const k) → ∀ r, ∀ d,
      scanOnce H d (w ++ r) = .ok (t, r) := by
    intro w t hw hk r d
    have e := scanWord_complete hw r
    have hhead : ∃ x w', w = x :: w' ∧ x ≠ cp '"' ∧ x ≠ cp '{' ∧ x ≠ cp '[' := by
      simp only [words, List.mem_cons, Prod.mk.injEq, List.not_mem_nil, or_false] at hw
      rcases hw with ⟨rfl, -⟩ | ⟨rfl, -⟩ | ⟨rfl, -⟩ | ⟨rfl, -⟩ | ⟨rfl, -⟩ | ⟨rfl, -⟩ <;>
        exact ⟨_, _, rfl, by decide, by decide, by decide⟩
    obtain ⟨x, w', rfl, h₁, h₂, h₃⟩ := hhead
    rw [List.cons_append] at e ⊢
    rw [scanOnce.eq_def]
    simp only [if_neg h₁, if_neg h₂, if_neg h₃, e]
    cases t with
    | const k => exact absurd rfl (hk k)
    | _ => rfl
  induction t using Tree.ind generalizing d c r with
  | null => rw [Spells] at hc; subst hc; exact hword (by simp [words]) (by simp) r d
  | bool b =>
    rw [Spells] at hc; subst hc
    cases b <;> exact hword (by simp [words]) (by simp) r d
  | num l =>
    obtain ⟨hl, rfl⟩ : l.Valid ∧ c = l.text := by rwa [Spells] at hc
    obtain ⟨x, s, hd, hx⟩ := NumLit.text_head hl
    have hnum := scanNumber_complete hl hr
    have hnw := scanWord_number hl r
    obtain ⟨y, s', hy, h₁, h₂, h₃⟩ : ∃ y s', l.text ++ r = y :: s' ∧ y ≠ cp '"' ∧ y ≠ cp '{' ∧ y ≠ cp '[' := by
      rcases hx with e | e
      · exact ⟨x, s ++ r, by rw [e, List.cons_append], by rintro rfl; revert hd; decide,
          by rintro rfl; revert hd; decide, by rintro rfl; revert hd; decide⟩
      · exact ⟨cp '-', x :: s ++ r, by rw [e, List.cons_append], by decide, by decide, by decide⟩
    rw [hy] at hnum hnw ⊢
    rw [scanOnce.eq_def]
    simp only [if_neg h₁, if_neg h₂, if_neg h₃, hnw, hnum]
    by_cases hfl : l.isFloat = true
    · rw [if_pos hfl]
    · rw [if_neg hfl, hf.2.resolve_left hfl, hooked]
  | const k =>
    have hk : H.parseConstant k = .ok () := hf.2
    obtain rfl : c = k.text := by rwa [Spells] at hc
    have e : scanWord (k.text ++ r) = some (.const k, r) := by
      cases k <;> exact scanWord_complete (by simp [words, Constant.text]) r
    obtain ⟨x, w', hw, h₁, h₂, h₃⟩ : ∃ x w', k.text = x :: w' ∧ x ≠ cp '"' ∧ x ≠ cp '{' ∧ x ≠ cp '[' := by
      cases k <;> exact ⟨_, _, rfl, by decide, by decide, by decide⟩
    rw [hw, List.cons_append] at e ⊢
    rw [scanOnce.eq_def]
    simp only [if_neg h₁, if_neg h₂, if_neg h₃, e, hk, hooked]
  | str v =>
    rw [Spells] at hc
    obtain ⟨ps, hv, rfl, rfl⟩ := hc
    rw [quoted, List.cons_append, List.cons_append, List.append_assoc, List.singleton_append, scanOnce.eq_def]
    simp only [if_true, scanPieces_complete hv, onValue_ok]
  | arr ts ih =>
    obtain ⟨d, rfl, hts⟩ := fits_arr.mp hf
    rw [Spells] at hc
    obtain ⟨body, rfl, hb⟩ := hc
    have hstep : ∀ t ∈ ts, ∀ s r, Padded (Spells t) s → Follows (cp ']') r →
        scanItem (scanOnce H d) (s ++ r) = .ok (t, r) := fun t ht s r hs hr =>
      scanItem_complete (fun c r hc hr => ih t ht (hts t ht) hc hr) hs (hr.stops (Or.inl rfl))
    have hread := scanBracketed_complete (P := fun t => Padded (Spells t)) (by decide) (by decide) hstep
      (fun s => by rw [scanItem, scanItem, skipWs_skipWs])
      (by
        rintro t ht s r ⟨w, c, w', hw, hw', hc, e⟩
        obtain ⟨x, c', rfl, hx, hx', -⟩ := hc.head
        exact ⟨x, _, by rw [e, List.append_assoc, List.append_assoc, skipWs_append hw,
          List.cons_append, skipWs_cons hx], hx'⟩)
      (hb.imp id (spellsItems_iff ts body).mp) r
    rw [List.cons_append, List.cons_append, List.append_assoc, List.singleton_append, scanOnce.eq_def]
    simp only [cp_eq_iff, Char.reduceEq, if_false, if_true, hread, onValue_ok]
  | obj ms ih =>
    obtain ⟨d, rfl, hms⟩ := fits_obj.mp hf
    rw [Spells] at hc
    obtain ⟨body, rfl, hb⟩ := hc
    have hstep : ∀ m ∈ ms, ∀ s r, Member m.1 (Spells m.2) s → Follows (cp '}') r →
        scanMember (scanOnce H d) (s ++ r) = .ok (m, r) := fun m hm s r hs hr =>
      scanMember_complete (fun c r hc hr => ih m hm (hms m hm) hc hr) hs (hr.stops (Or.inr rfl))
    have hread := scanBracketed_complete (P := fun m => Member m.1 (Spells m.2)) (by decide) (by decide)
      hstep (fun s => by rw [scanMember, scanMember, skipWs_skipWs])
      (by
        rintro m hm s r ⟨_, v, ⟨w, _, w', hw, hw', ⟨ps, -, -, rfl⟩, rfl⟩, -, e⟩
        refine ⟨cp '"', ps.flatMap Piece.text ++ [cp '"'] ++ (w' ++ (cp ':' :: v ++ r)), ?_, by decide⟩
        rw [e, List.append_assoc, List.append_assoc, List.append_assoc, skipWs_append hw, quoted,
          List.cons_append, List.cons_append, skipWs_cons (by decide)])
      (hb.imp id (spellsMembers_iff ms body).mp) r
    rw [List.cons_append, List.cons_append, List.append_assoc, List.singleton_append, scanOnce.eq_def]
    simp only [cp_eq_iff, Char.reduceEq, if_false, if_true, hread, onValue_ok]

/-! ## `json.loads` -/

theorem parse_sound [Interpreter] {H : Hooks} {s : Str} {t : Tree} (h : parse H s = .ok t) :
    Padded (Spells t) s ∧ Fits H Interpreter.maxDepth t := by
  obtain ⟨w, hw, hs⟩ := skipWs_split s
  rw [parse] at h
  split at h
  · cases h
  split at h
  · cases h
  · cases h
  · cases h
  · next t' r e =>
    obtain ⟨c, hc, hsp, hf⟩ := scanOnce_sound e
    obtain ⟨w', hw', hr⟩ := skipWs_split r
    split at h
    · next hnil =>
      cases h
      rw [hnil, List.append_nil] at hr
      subst hr
      exact ⟨⟨w, c, r, hw, hw', hsp, by rw [List.append_assoc, ← hc, ← hs]⟩, hf⟩
    · cases h

theorem parse_complete [Interpreter] {H : Hooks} {s : Str} {t : Tree} (h : Padded (Spells t) s)
    (hf : Fits H Interpreter.maxDepth t) : parse H s = .ok t := by
  obtain ⟨w, c, w', hw, hw', hc, rfl⟩ := h
  obtain ⟨x, c', hx, hxw, -, hxa⟩ := hc.head
  have hbom : startsWith (w ++ c ++ w') [0xFEFF] = false := by
    have hne : ∀ y : CodePoint, y.val < 0x80 → ∀ l, startsWith (y :: l) [0xFEFF] = false := by
      intro y hy l
      have : (0xFEFF : CodePoint) ≠ y := by rintro rfl; revert hy; decide
      simp [startsWith, List.isPrefixOf, this]
    cases w with
    | nil => rw [hx]; exact hne x hxa _
    | cons y w =>
      refine hne y ?_ _
      have := hw y (by simp)
      simp only [whitespace, List.mem_cons, List.not_mem_nil, or_false] at this
      rcases this with rfl | rfl | rfl | rfl <;> decide
  have e : skipWs (w ++ c ++ w') = c ++ w' := by
    rw [List.append_assoc, skipWs_append hw, hx, List.cons_append, skipWs_cons hxw]
  have hscan := scanOnce_complete hf hc (by simpa using (numStop_nil.ws_append hw') : NumStop w')
  have hend : skipWs w' = [] := by simpa [skipWs_nil] using skipWs_append hw' []
  rw [parse, hbom, e, hscan]
  simp only [hend, Bool.false_eq_true, if_false]

/-- `json.loads` returns the trees its text spells, as far as they fit. -/
theorem parse_eq_ok_iff [Interpreter] {H : Hooks} {s : Str} {t : Tree} :
    parse H s = .ok t ↔ Padded (Spells t) s ∧ Fits H Interpreter.maxDepth t :=
  ⟨parse_sound, fun h => parse_complete h.1 h.2⟩

/-- Hooks that refuse nothing. -/
def Hooks.permissive : Hooks := ⟨fun _ => .ok (), fun _ => .ok ()⟩

theorem fits_permissive (t : Tree) : Fits .permissive t.depth t := by
  refine ⟨le_rfl, ?_⟩
  induction t using Tree.ind with
  | num l => exact Or.inr rfl
  | const c => exact rfl
  | arr ts ih => exact ⟨trivial, allItems_iff.mpr ih⟩
  | obj ms ih => exact ⟨trivial, allMembers_iff.mpr ih⟩
  | _ => trivial

theorem Fits.mono {H : Hooks} {d d' : Nat} {t : Tree} (h : Fits H d t) (hd : d ≤ d') : Fits H d' t :=
  ⟨h.1.trans hd, h.2⟩

/-- A text has one tree. -/
theorem Spells.unique {t t' : Tree} {s : Str} (h : Spells t s) (h' : Spells t' s) : t = t' := by
  have e := scanOnce_complete ((fits_permissive t).mono (le_max_left _ t'.depth)) h numStop_nil
  have e' := scanOnce_complete ((fits_permissive t').mono (le_max_right t.depth _)) h' numStop_nil
  rw [e] at e'
  simpa using e'

theorem Padded.unique {t t' : Tree} {s : Str} (h : Padded (Spells t) s) (h' : Padded (Spells t') s) : t = t' := by
  -- an interpreter that reads as deep as the two trees go
  letI : Interpreter := ⟨max 8 (max t.depth t'.depth), fun _ => true, le_max_left _ _⟩
  have e := parse_complete h ((fits_permissive t).mono ((le_max_left _ _).trans (le_max_right 8 _)))
  have e' := parse_complete h' ((fits_permissive t').mono ((le_max_right _ _).trans (le_max_right 8 _)))
  exact Except.ok.inj (e.symm.trans e')

/-- Whatever the hooks refuse, a text is read as the same tree. -/
theorem parse_agree [Interpreter] {H H' : Hooks} {s : Str} {t t' : Tree} (h : parse H s = .ok t)
    (h' : parse H' s = .ok t') : t = t' :=
  (parse_sound h).1.unique (parse_sound h').1

/-- The number literals of a tree that has a text are valid. -/
theorem Spells.valid {t : Tree} {s : Str} (h : Spells t s) :
    t.All fun t => ∀ l, t = .num l → l.Valid := by
  induction t using Tree.ind generalizing s with
  | num l => rw [Spells] at h; rintro l' ⟨⟩; exact h.1
  | arr ts ih =>
    rw [Spells] at h
    obtain ⟨b, -, ⟨rfl, -⟩ | hb⟩ := h
    · exact ⟨by simp, allItems_iff.mpr (by simp)⟩
    · exact ⟨by simp, allItems_iff.mpr (((spellsItems_iff _ _).mp hb).forall
        fun t ht s ⟨_, _, _, _, _, hs, _⟩ => ih t ht hs)⟩
  | obj ms ih =>
    rw [Spells] at h
    obtain ⟨b, -, ⟨rfl, -⟩ | hb⟩ := h
    · exact ⟨by simp, allMembers_iff.mpr (by simp)⟩
    · exact ⟨by simp, allMembers_iff.mpr (((spellsMembers_iff _ _).mp hb).forall
        fun m hm s ⟨_, _, _, ⟨_, _, _, _, _, hs, _⟩, _⟩ => ih m hm hs)⟩
  | _ => rintro l ⟨⟩

/-! ## What a failed scan raises -/

/-- An error the scanner may end with: a `JSONDecodeError`, the recursion check, or a hook's own. -/
def Hooks.Raises (H : Hooks) : ScanError → Prop
  | .decode _ _ => True
  | .raised e => e.cls = .recursionError ∨ (∃ l, H.parseInt l = .error e) ∨ ∃ c, H.parseConstant c = .error e
  | .exhausted => False

theorem onValue_eq_error {α β : Type} {f : α → β} {c : Scan α} {e : ScanError}
    (h : onValue f c = .error e) : c = .error e := by
  rcases c with e' | ⟨a, r⟩
  · cases h; rfl
  · cases h

section Raises

variable {H : Hooks}

theorem scanPieces_raises {start : Nat} {s : Str} {e : ScanError} (h : scanPieces start s = .error e) :
    H.Raises e := by
  fun_induction scanPieces start s with
  | case2 => cases h
  | case4 _ _ _ _ _ _ _ _ ih => exact ih (onValue_eq_error h)
  | case7 _ _ _ _ _ ih => exact ih (onValue_eq_error h)
  | case10 _ _ _ _ _ ih => exact ih (onValue_eq_error h)
  | _ => cases h; trivial

variable {α : Type} {elem : Str → Scan α} {close : CodePoint}

/-- Every element is followed by a comma, so the text runs out before the fuel does. -/
theorem scanSeq_raises (hraise : ∀ s e, elem s = .error e → H.Raises e)
    (hlen : ∀ s a r, elem s = .ok (a, r) → r.length ≤ s.length) {fuel : Nat} {s : Str} {e : ScanError}
    (hf : s.length < fuel) (h : scanSeq elem close fuel s = .error e) : H.Raises e := by
  induction fuel generalizing s with
  | zero => omega
  | succ fuel ih =>
    rw [scanSeq] at h
    split at h
    · next e' he => cases h; exact hraise _ _ he
    · next a r ha =>
      have hl := hlen _ _ _ ha
      split at h
      · cases h; trivial
      · next c r' =>
        split at h
        · cases h
        · split at h
          · exact ih (by simp only [List.length_cons] at hl; omega) (onValue_eq_error h)
          · cases h; trivial

theorem scanBracketed_raises (hraise : ∀ s e, elem s = .error e → H.Raises e)
    (hlen : ∀ s a r, elem s = .ok (a, r) → r.length ≤ s.length) {s : Str} {e : ScanError}
    (h : scanBracketed elem close s = .error e) : H.Raises e := by
  have hs : (skipWs s).length < s.length + 1 := by
    obtain ⟨w, -, hs⟩ := skipWs_split s
    have := congrArg List.length hs
    simp only [List.length_append] at this
    omega
  rw [scanBracketed] at h
  split at h
  · exact scanSeq_raises hraise hlen hs h
  · split at h
    · cases h
    · exact scanSeq_raises hraise hlen hs h

theorem scanItem_raises {scan : Str → Scan Tree} (hraise : ∀ s e, scan s = .error e → H.Raises e) {s : Str}
    {e : ScanError} (h : scanItem scan s = .error e) : H.Raises e := by
  rw [scanItem] at h
  split at h
  · next e' he => cases h; exact hraise _ _ he
  · cases h

theorem scanMember_raises {scan : Str → Scan Tree} (hraise : ∀ s e, scan s = .error e → H.Raises e)
    {s : Str} {e : ScanError} (h : scanMember scan s = .error e) : H.Raises e := by
  rw [scanMember] at h
  split at h
  · cases h; trivial
  · split at h
    · split at h
      · next e' he => cases h; exact scanPieces_raises he
      · split at h
        · cases h; trivial
        · split at h
          · exact scanItem_raises hraise (onValue_eq_error h)
          · cases h; trivial
    · cases h; trivial

theorem scanOnce_raises {d : Nat} {s : Str} {e : ScanError} (h : scanOnce H d s = .error e) :
    H.Raises e := by
  induction d using Nat.strongRecOn generalizing s e with
  | _ d ih =>
  have hlen : ∀ d s t r, scanOnce H d s = .ok (t, r) → ∃ c, s = c ++ r ∧ True := fun d s t r h =>
    let ⟨c, hc, _⟩ := scanOnce_sound h
    ⟨c, hc, trivial⟩
  cases s with
  | nil => rw [scanOnce] at h; cases h; trivial
  | cons c s =>
    rw [scanOnce.eq_def] at h
    dsimp only at h
    split at h
    · exact scanPieces_raises (onValue_eq_error h)
    split at h
    · cases d with
      | zero => cases h; exact Or.inl rfl
      | succ d =>
        refine scanBracketed_raises (fun s e => scanMember_raises fun s e => ih d (by omega)) ?_
          (onValue_eq_error h)
        intro s m r hm
        obtain ⟨t, rfl, -⟩ := scanMember_sound (hlen d) hm
        simp
    split at h
    · cases d with
      | zero => cases h; exact Or.inl rfl
      | succ d =>
        refine scanBracketed_raises (fun s e => scanItem_raises fun s e => ih d (by omega)) ?_
          (onValue_eq_error h)
        intro s m r hm
        obtain ⟨t, rfl, -⟩ := scanItem_sound (hlen d) hm
        simp
    have hhook : ∀ {c : Except PyExc Unit} {v : Tree × Str}, hooked c v = .error e →
        (∀ x, c = .error x → H.Raises (.raised x)) → H.Raises e := by
      intro c v hc hx
      cases c with
      | ok u => cases hc
      | error x => cases hc; exact hx x rfl
    split at h
    · exact hhook h fun x hx => Or.inr (Or.inr ⟨_, hx⟩)
    · cases h
    · split at h
      · split at h
        · cases h
        · exact hhook h fun x hx => Or.inr (Or.inl ⟨_, hx⟩)
      · cases h; trivial

/-- The fuel of the scanner never runs out. -/
theorem scanOnce_ne_exhausted {d : Nat} {s : Str} : scanOnce H d s ≠ .error .exhausted :=
  fun h => scanOnce_raises h

/-- What `json.loads` may raise. -/
theorem parse_raises [Interpreter] {s : Str} {e : PyExc} (h : parse H s = .error e) :
    e.cls = .jsonDecodeError ∨ e.cls = .recursionError ∨ (∃ l, H.parseInt l = .error e) ∨
      ∃ c, H.parseConstant c = .error e := by
  rw [parse] at h
  split at h
  · cases h; exact Or.inl rfl
  split at h
  · cases h; exact Or.inl rfl
  · next e' he => cases h; exact Or.inr (scanOnce_raises he)
  · next he => exact absurd he scanOnce_ne_exhausted
  · split at h
    · cases h
    · cases h; exact Or.inl rfl

end Raises

end Py.Json
