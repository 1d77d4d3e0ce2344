import BabelQueue.Py.Json.Canonical

/-!
# The string literals of a JSON text

* `Literals s lss`: the literals of the text `s`, in order, each as its pieces.
* `literals_of_spells`: a text of a tree has literals, and they denote the keys and strings of the tree.
* `Unpaired ps`: a literal with a `\u` escape of half of a surrogate pair.
* `unpaired_iff_decode`: such a literal is one that denotes a lone surrogate.
-/

namespace Py.Json

/-! ## Literals -/

mutual

/-- The keys and the strings of a tree, in the order of the text. -/
def Tree.strings : Tree → List Str
  | .str v => [v]
  | .arr ts => stringsItems ts
  | .obj ms => stringsMembers ms
  | _ => []

def stringsItems : List Tree → List Str
  | [] => []
  | t :: ts => t.strings ++ stringsItems ts

def stringsMembers : List (Str × Tree) → List Str
  | [] => []
  | (k, t) :: ms => (k :: t.strings) ++ stringsMembers ms

end

theorem stringsItems_eq (ts : List Tree) : stringsItems ts = ts.flatMap Tree.strings := by
  induction ts with
  | nil => rfl
  | cons t ts ih => rw [stringsItems, ih, List.flatMap_cons]

theorem stringsMembers_eq (ms : List (Str × Tree)) : stringsMembers ms = ms.flatMap fun m => m.1 :: m.2.strings := by
  induction ms with
  | nil => rfl
  | cons m ms ih => obtain ⟨k, t⟩ := m; rw [stringsMembers, ih, List.flatMap_cons]

/-- The string literals of a text, each as its pieces. -/
inductive Literals : Str → List (List Piece) → Prop
  | gap {g : Str} (hg : cp '"' ∉ g) : Literals g []
  | literal {g s : Str} {ps : List Piece} {lss : List (List Piece)} (hg : cp '"' ∉ g) (hps : ∀ p ∈ ps, p.Valid)
      (h : Literals s lss) : Literals (g ++ (quoted ps ++ s)) (ps :: lss)

namespace Literals

theorem gap_append {g s : Str} {lss : List (List Piece)} (hg : cp '"' ∉ g) (h : Literals s lss) : Literals (g ++ s) lss := by
  cases h with
  | gap hs => exact .gap fun hm => (List.mem_append.mp hm).elim hg hs
  | literal hs hps h =>
    rw [← List.append_assoc]
    exact .literal (fun hm => (List.mem_append.mp hm).elim hg hs) hps h

protected theorem append {s s' : Str} {lss lss' : List (List Piece)} (h : Literals s lss) (h' : Literals s' lss') :
    Literals (s ++ s') (lss ++ lss') := by
  induction h with
  | gap hg => exact gap_append hg h'
  | literal hg hps _ ih =>
    rw [List.append_assoc, List.append_assoc]
    exact .literal hg hps ih

theorem valid {s : Str} {lss : List (List Piece)} (h : Literals s lss) : ∀ ps ∈ lss, ∀ p ∈ ps, p.Valid := by
  induction h with
  | gap _ => simp
  | literal _ hps _ ih => exact List.forall_mem_cons.mpr ⟨hps, ih⟩

/-- A literal stands in the text. -/
theorem infix_of_mem {s : Str} {lss : List (List Piece)} (h : Literals s lss) : ∀ ps ∈ lss, quoted ps <:+: s := by
  induction h with
  | gap _ => simp
  | @literal g s ps lss _ _ _ ih =>
    refine List.forall_mem_cons.mpr ⟨⟨g, s, by rw [List.append_assoc]⟩, fun ps' hm => ?_⟩
    obtain ⟨u, v, rfl⟩ := ih ps' hm
    exact ⟨g ++ (quoted ps ++ u), v, by simp only [List.append_assoc]⟩

/-- Up to its first quote, a text is read in one way. -/
theorem gap_unique {g g' s s' : Str} (hg : cp '"' ∉ g) (hg' : cp '"' ∉ g') (h : g ++ cp '"' :: s = g' ++ cp '"' :: s') :
    g = g' ∧ s = s' := by
  have htake : ∀ {g : Str} (s : Str), cp '"' ∉ g → (g ++ cp '"' :: s).takeWhile (· ≠ cp '"') = g := by
    intro g s hg
    rw [List.takeWhile_append_of_pos fun c hc => by simpa using fun he : c = cp '"' => hg (he ▸ hc)]
    simp
  obtain rfl : g = g' := by rw [← htake s hg, h, htake s' hg']
  exact ⟨rfl, (List.cons.inj (List.append_cancel_left h)).2⟩

/-- A text has its literals in one way. -/
theorem unique {s : Str} {lss lss' : List (List Piece)} (h : Literals s lss) (h' : Literals s lss') : lss = lss' := by
  induction h generalizing lss' with
  | gap hg =>
    cases h' with
    | gap _ => rfl
    | literal _ _ _ => exact absurd (by simp [quoted]) hg
  | @literal g s ps lss hg hps _ ih =>
    generalize he : g ++ (quoted ps ++ s) = text at h'
    cases h' with
    | gap hg' => exact absurd (by rw [← he]; simp [quoted]) hg'
    | @literal g' s' ps' lss' hg' hps' h' =>
      have hquoted : ∀ (ps : List Piece) (s : Str), quoted ps ++ s = cp '"' :: (ps.flatMap Piece.text ++ cp '"' :: s) :=
        fun ps s => by simp [quoted]
      rw [hquoted, hquoted] at he
      obtain ⟨-, he⟩ := gap_unique hg hg' he
      have hscan : scanPieces 0 _ = _ := scanPieces_complete hps s
      rw [he, scanPieces_complete hps'] at hscan
      obtain ⟨rfl, rfl⟩ := Prod.mk.inj (Except.ok.inj hscan)
      rw [ih h']

end Literals

/-! ## The literals of a tree -/

/-- The text has literals, and they denote `strings`. -/
def Denotes (s : Str) (strings : List Str) : Prop := ∃ lss, Literals s lss ∧ lss.map decode = strings

theorem Denotes.append {s s' : Str} {strings strings' : List Str} (h : Denotes s strings) (h' : Denotes s' strings') :
    Denotes (s ++ s') (strings ++ strings') := by
  obtain ⟨lss, hl, rfl⟩ := h
  obtain ⟨lss', hl', rfl⟩ := h'
  exact ⟨lss ++ lss', hl.append hl', List.map_append⟩

theorem denotes_nil {s : Str} (h : cp '"' ∉ s) : Denotes s [] := ⟨[], .gap h, rfl⟩

theorem denotes_ws {w : Str} (h : Ws w) : Denotes w [] := denotes_nil fun hq => absurd (h _ hq) (by decide)

/-- A code point other than the quote, before a text. -/
theorem Denotes.cons {c : CodePoint} (hc : c ≠ cp '"') {s : Str} {strings : List Str} (h : Denotes s strings) :
    Denotes (c :: s) strings := by
  simpa using (denotes_nil (s := [c]) (by simpa using Ne.symm hc)).append h

theorem denotes_of_spellsStr {v s : Str} (h : SpellsStr v s) : Denotes s [v] := by
  obtain ⟨ps, hps, rfl, rfl⟩ := h
  have hl : Literals ([] ++ (quoted ps ++ [])) [ps] := .literal (by simp) hps (.gap (by simp))
  rw [List.nil_append, List.append_nil] at hl
  exact ⟨[ps], hl, rfl⟩

theorem Denotes.padded {P : Str → Prop} {s : Str} {strings : List Str} (hP : ∀ t, P t → Denotes t strings)
    (h : Padded P s) : Denotes s strings := by
  obtain ⟨w, t, w', hw, hw', ht, rfl⟩ := h
  simpa using ((denotes_ws hw).append (hP t ht)).append (denotes_ws hw')

theorem Denotes.sep {α : Type} {P : α → Str → Prop} {f : α → List Str} {as : List α}
    (hP : ∀ a ∈ as, ∀ t, P a t → Denotes t (f a)) {s : Str} (h : Sep P as s) : Denotes s (as.flatMap f) := by
  induction as generalizing s with
  | nil => exact h.elim
  | cons a as ih =>
    obtain ⟨ha, has⟩ := List.forall_mem_cons.mp hP
    cases as with
    | nil =>
      rw [List.flatMap_singleton]
      exact ha s h
    | cons b as =>
      obtain ⟨s₁, s₂, rfl, h₁, h₂⟩ := h
      rw [List.flatMap_cons]
      exact (ha s₁ h₁).append ((ih has h₂).cons (by decide))

theorem Denotes.bracketed {α : Type} {o c : CodePoint} (ho : o ≠ cp '"') (hc : c ≠ cp '"') {as : List α} {P : Str → Prop}
    {f : α → List Str} (hP : ∀ t, P t → Denotes t (as.flatMap f)) {s : Str} (h : Bracketed o c as P s) :
    Denotes s (as.flatMap f) := by
  obtain ⟨body, rfl, hbody⟩ := h
  have hb : Denotes body (as.flatMap f) := by
    rcases hbody with ⟨rfl, hw⟩ | hbody
    · exact denotes_ws hw
    · exact hP body hbody
  simpa using (hb.append (denotes_nil (s := [c]) (by simpa using Ne.symm hc))).cons ho

/-- The literals of a text of a tree denote its keys and strings. -/
theorem denotes_of_spells {t : Tree} {s : Str} (h : Spells t s) : Denotes s t.strings := by
  induction t using Tree.ind generalizing s with
  | null => rw [Spells] at h; subst h; exact denotes_nil (by decide)
  | bool b => rw [Spells] at h; subst h; exact denotes_nil (by cases b <;> decide)
  | num l =>
    rw [Spells] at h
    obtain ⟨hl, rfl⟩ := h
    refine denotes_nil fun hq => ?_
    rcases mem_numLit_text hl hq with hd | hm
    · exact absurd hd (by decide)
    · exact absurd hm (by decide)
  | const c => rw [Spells] at h; subst h; exact denotes_nil (by cases c <;> decide)
  | str v => rw [Spells] at h; exact denotes_of_spellsStr h
  | arr ts ih =>
    rw [Spells] at h
    rw [Tree.strings, stringsItems_eq]
    refine Denotes.bracketed (by decide) (by decide) (fun body hb => ?_) h
    rw [spellsItems_iff] at hb
    exact Denotes.sep (fun t ht _ hp => Denotes.padded (fun _ => ih t ht) hp) hb
  | obj ms ih =>
    rw [Spells] at h
    rw [Tree.strings, stringsMembers_eq]
    refine Denotes.bracketed (by decide) (by decide) (fun body hb => ?_) h
    rw [spellsMembers_iff] at hb
    refine Denotes.sep (fun m hm text hmember => ?_) hb
    obtain ⟨s₁, s₂, hk, hv, rfl⟩ := hmember
    exact (Denotes.padded (fun _ => denotes_of_spellsStr) hk).append
      ((Denotes.padded (fun _ => ih m hm) hv).cons (by decide))

theorem literals_of_spells {t : Tree} {s : Str} (h : Padded (Spells t) s) :
    ∃ lss, Literals s lss ∧ lss.map decode = t.strings := Denotes.padded (fun _ => denotes_of_spells) h

/-! ## Unpaired escapes -/

/-- The escape of a high surrogate. -/
def Piece.isHigh (p : Piece) : Bool := p.isUnicode && isHighSurrogate p.value

/-- The escape of a low surrogate. -/
def Piece.isLow (p : Piece) : Bool := p.isUnicode && isLowSurrogate p.value

/-- The escape `p` of a high surrogate is not followed by one of a low surrogate, or the other way round. -/
def LoneAt (before : List Piece) (p : Piece) (after : List Piece) : Prop :=
  (p.isHigh = true ∧ ∀ q, after.head? = some q → q.isLow = false) ∨
    (p.isLow = true ∧ ∀ q, before.getLast? = some q → q.isHigh = false)

/-- A literal with the escape of a surrogate that has no other half next to it. -/
def Unpaired (ps : List Piece) : Prop := ∃ before p after, ps = before ++ p :: after ∧ LoneAt before p after

theorem isLow_of_isHigh {p : Piece} (h : p.isHigh = true) : p.isLow = false := by
  simp only [Piece.isHigh, Piece.isLow, isHighSurrogate, isLowSurrogate, Bool.and_eq_true, decide_eq_true_eq,
    Bool.and_eq_false_iff, decide_eq_false_iff_not] at h ⊢
  omega

theorem not_unpaired_nil : ¬ Unpaired [] := by
  rintro ⟨before, p, after, h, -⟩
  simp at h

/-- The first piece is a half without the other. -/
theorem unpaired_of_low {p : Piece} (h : p.isLow = true) (ps : List Piece) : Unpaired (p :: ps) :=
  ⟨[], p, ps, rfl, .inr ⟨h, fun _ hq => by cases hq⟩⟩

theorem unpaired_of_high {p : Piece} (h : p.isHigh = true) {ps : List Piece}
    (hnext : ∀ q, ps.head? = some q → q.isLow = false) : Unpaired (p :: ps) := ⟨[], p, ps, rfl, .inl ⟨h, hnext⟩⟩

/-- A piece that is no half may be left out. -/
theorem unpaired_cons {p : Piece} (hh : p.isHigh = false) (hl : p.isLow = false) {ps : List Piece} :
    Unpaired (p :: ps) ↔ Unpaired ps := by
  constructor
  · rintro ⟨before, q, after, h, hq⟩
    cases before with
    | nil =>
      obtain ⟨rfl, rfl⟩ := List.cons.inj h
      rcases hq with ⟨hq, -⟩ | ⟨hq, -⟩
      · rw [hh] at hq; cases hq
      · rw [hl] at hq; cases hq
    | cons b before =>
      obtain ⟨rfl, rfl⟩ := List.cons.inj h
      refine ⟨before, q, after, rfl, hq.imp_right (And.imp_right fun hlast r hr => hlast r ?_)⟩
      rw [List.getLast?_cons, hr]
      rfl
  · rintro ⟨before, q, after, rfl, hq⟩
    refine ⟨p :: before, q, after, rfl, hq.imp_right (And.imp_right fun hlast r hr => ?_)⟩
    rw [List.getLast?_cons] at hr
    cases hb : before.getLast? with
    | none => rw [hb] at hr; cases hr; exact hh
    | some r' => rw [hb] at hr; cases hr; exact hlast r' hb

/-- So may a pair. -/
theorem unpaired_pair {p q : Piece} (hp : p.isHigh = true) (hq : q.isLow = true) {ps : List Piece} :
    Unpaired (p :: q :: ps) ↔ Unpaired ps := by
  have hqh : q.isHigh = false := by
    by_contra h
    rw [isLow_of_isHigh (by simpa using h)] at hq
    cases hq
  constructor
  · rintro ⟨before, r, after, h, hr⟩
    match before with
    | [] =>
      obtain ⟨rfl, rfl⟩ := List.cons.inj h
      rcases hr with ⟨-, hnext⟩ | ⟨hr, -⟩
      · rw [hnext q rfl] at hq; cases hq
      · rw [isLow_of_isHigh hp] at hr; cases hr
    | [b] =>
      obtain ⟨rfl, htail⟩ := List.cons.inj h
      obtain ⟨rfl, rfl⟩ := List.cons.inj htail
      rcases hr with ⟨hr, -⟩ | ⟨-, hlast⟩
      · rw [hqh] at hr; cases hr
      · rw [hlast p rfl] at hp; cases hp
    | b :: c :: before =>
      obtain ⟨rfl, htail⟩ := List.cons.inj h
      obtain ⟨rfl, rfl⟩ := List.cons.inj htail
      refine ⟨before, r, after, rfl, hr.imp_right (And.imp_right fun hlast x hx => hlast x ?_)⟩
      rw [List.getLast?_cons, List.getLast?_cons, hx]
      rfl
  · rintro ⟨before, r, after, rfl, hr⟩
    refine ⟨p :: q :: before, r, after, rfl, hr.imp_right (And.imp_right fun hlast x hx => ?_)⟩
    rw [List.getLast?_cons, List.getLast?_cons] at hx
    cases hb : before.getLast? with
    | none => rw [hb] at hx; cases hx; exact hqh
    | some x' => rw [hb] at hx; cases hx; exact hlast x' hb

/-- A literal without raw surrogates is unpaired when the string it denotes has a surrogate. -/
theorem unpaired_iff_decode {ps : List Piece} (hv : ∀ p ∈ ps, p.Valid)
    (hs : ∀ p ∈ ps, ∀ c, p = .raw c → isSurrogate c = false) : Unpaired ps ↔ ∃ c ∈ decode ps, isSurrogate c = true := by
  have hhalf : ∀ p : Piece, p.Valid → (∀ c, p = .raw c → isSurrogate c = false) →
      (isSurrogate p.value = true ↔ p.isHigh = true ∨ p.isLow = true) := by
    intro p hv hs
    constructor
    · intro h
      rw [Piece.isHigh, Piece.isLow, isUnicode_of_isSurrogate hv hs h]
      simp only [isSurrogate, isHighSurrogate, isLowSurrogate, Bool.true_and, Bool.and_eq_true, decide_eq_true_eq] at h ⊢
      omega
    · rintro (h | h)
      · exact isSurrogate_of_isHighSurrogate (Bool.and_eq_true_iff.mp h).2
      · exact isSurrogate_of_isLowSurrogate (Bool.and_eq_true_iff.mp h).2
  induction ps using decode.induct with
  | case1 => simp [not_unpaired_nil, decode]
  | case2 p =>
    obtain ⟨hvp, -⟩ := List.forall_mem_cons.mp hv
    obtain ⟨hsp, -⟩ := List.forall_mem_cons.mp hs
    rw [decode, List.exists_mem_cons_iff, hhalf p hvp hsp]
    simp only [List.not_mem_nil, false_and, exists_false, or_false]
    constructor
    · intro hu
      by_contra hn
      simp only [not_or, Bool.not_eq_true] at hn
      exact not_unpaired_nil ((unpaired_cons hn.1 hn.2).mp hu)
    · rintro (h | h)
      · exact unpaired_of_high h fun _ hq => by cases hq
      · exact unpaired_of_low h []
  | case3 p q ps hc ih =>
    simp only [Bool.and_eq_true] at hc
    obtain ⟨⟨⟨hpu, hqu⟩, hph⟩, hql⟩ := hc
    have hp : p.isHigh = true := by rw [Piece.isHigh, hpu, hph]; rfl
    have hq : q.isLow = true := by rw [Piece.isLow, hqu, hql]; rfl
    have hrest : Unpaired ps ↔ ∃ c ∈ decode ps, isSurrogate c = true :=
      ih (fun p hp => hv p (by simp [hp])) fun p hp => hs p (by simp [hp])
    rw [decode, if_pos (by rw [hpu, hqu, hph, hql]; rfl), List.exists_mem_cons_iff, not_isSurrogate_joinPair hph hql,
      unpaired_pair hp hq, hrest]
    simp
  | case4 p q ps hc ih =>
    obtain ⟨hvp, hvq⟩ := List.forall_mem_cons.mp hv
    obtain ⟨hsp, hsq⟩ := List.forall_mem_cons.mp hs
    have hrest : Unpaired (q :: ps) ↔ ∃ c ∈ decode (q :: ps), isSurrogate c = true := ih hvq hsq
    rw [decode, if_neg hc, List.exists_mem_cons_iff, hhalf p hvp hsp, ← hrest]
    cases hl : p.isLow with
    | true => exact iff_of_true (unpaired_of_low hl _) (by simp)
    | false =>
      cases hh : p.isHigh with
      | false => simp [unpaired_cons hh hl]
      | true =>
        refine iff_of_true (unpaired_of_high hh ?_) (by simp)
        rintro r hr
        obtain rfl : q = r := Option.some.inj hr
        by_contra hlow
        simp only [Piece.isLow, Piece.isHigh, Bool.not_eq_false, Bool.and_eq_true] at hlow hh
        exact hc (by rw [hh.1, hlow.1, hh.2, hlow.2]; rfl)

end Py.Json
