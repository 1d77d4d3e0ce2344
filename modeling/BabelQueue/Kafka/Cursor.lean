import Mathlib.Data.Set.Insert
import BabelQueue.Kafka.Log

/-!
# Cursors

A reader of an ordered log that commits cumulatively: a commit covers every entry before it. Entries
are settled in any order, so one that is settled before an earlier one is deferred.

* `Cursor.take`, `Cursor.rewind`, `Cursor.restart`, `Cursor.Settles`: what a reader does.
* `Cursor.Sound`: the invariant. Every entry before the position is accounted for or in flight.
* `Cursor.Exact`: what is between the commit and the position is in flight or deferred.
* `Sound.settle`, `Exact.settle`: a settle keeps them, whether its commit lands or not.
-/

namespace Log

variable {α : Type}

structure Cursor (α : Type) where
  position : Int
  committed : Int
  flying : Set α
  /-- Settled before an earlier entry. -/
  deferred : Set α

namespace Cursor

variable (key : α → Int) (c : Cursor α)

/-- The entry is read. -/
def take (x : α) : Cursor α := { c with position := key x + 1, flying := insert x c.flying }

/-- The position is set back, and what is read again is forgotten. -/
def rewind (offset : Int) : Cursor α :=
  ⟨offset, c.committed, {x ∈ c.flying | key x < offset}, {x ∈ c.deferred | key x < offset}⟩

/-- A new reader starts from the commit. -/
def restart : Cursor α := ⟨c.committed, c.committed, ∅, ∅⟩

/-- What may be committed once `x` is settled: the settled entries before every one in flight. -/
def committable (x : α) : Set α := {y ∈ insert x c.deferred | ∀ z ∈ c.flying \ {x}, key y < key z}

/-- `c'` is what a settle of `x` makes of `c`; a commit may fail. -/
structure Settles (x : α) (c' : Cursor α) : Prop where
  position : c'.position = c.position
  flying : c'.flying = c.flying \ {x}
  deferred : c'.deferred = insert x c.deferred \ c.committable key x
  committed : c'.committed = c.committed ∨
    ∃ top ∈ c.committable key x, (∀ y ∈ c.committable key x, key y ≤ key top) ∧ c'.committed = key top + 1

/-- The entries of `l` from `start` on are accounted for by `A` or in flight. -/
structure Sound (l : List α) (start : Int) (A : α → Prop) : Prop where
  begins : start ≤ c.committed
  reach : c.committed ≤ c.position
  flying : ∀ x ∈ c.flying, x ∈ l ∧ c.committed ≤ key x ∧ key x < c.position
  deferred : ∀ x ∈ c.deferred, x ∈ l ∧ c.committed ≤ key x ∧ key x < c.position ∧ A x
  disjoint : ∀ x ∈ c.deferred, x ∉ c.flying
  behind : ∀ x ∈ c.deferred, ∃ y ∈ c.flying, key y < key x
  passed : ∀ x ∈ l, start ≤ key x → key x < c.position → A x ∨ x ∈ c.flying

/-- Between the commit and the position there are only entries in flight and deferred ones. -/
def Exact (l : List α) : Prop :=
  ∀ x ∈ l, c.committed ≤ key x → key x < c.position → x ∈ c.flying ∨ x ∈ c.deferred

variable {key c} {l : List α} {start : Int} {A : α → Prop} {x : α} {c' : Cursor α}

namespace Sound

/-- What is committed is accounted for. -/
theorem accounted (h : c.Sound key l start A) (hx : x ∈ l) (hs : start ≤ key x) (hc : key x < c.committed) : A x := by
  refine (h.passed x hx hs (hc.trans_le h.reach)).resolve_right fun hf => ?_
  have := (h.flying x hf).2.1
  omega

theorem mono {B : α → Prop} (h : c.Sound key l start A) (hAB : ∀ x, A x → B x) : c.Sound key l start B :=
  { h with
    deferred := fun x hx => ⟨(h.deferred x hx).1, (h.deferred x hx).2.1, (h.deferred x hx).2.2.1, hAB x (h.deferred x hx).2.2.2⟩
    passed := fun x hx hs hp => (h.passed x hx hs hp).imp_left (hAB x) }

theorem init (key : α → Int) (l : List α) (start : Int) (A : α → Prop) : Sound key ⟨start, start, ∅, ∅⟩ l start A where
  begins := le_rfl
  reach := le_rfl
  flying _ h := h.elim
  deferred _ h := h.elim
  disjoint _ h := h.elim
  behind _ h := h.elim
  passed _ _ h1 h2 := absurd h2 (not_lt.mpr h1)

theorem take (h : c.Sound key l start A) (ho : Ordered key l) (hx : next? key l c.position = some x) :
    (c.take key x).Sound key l start A := by
  obtain ⟨hmem, hlo⟩ := next?_mem hx
  have hreach := h.reach
  refine ⟨h.begins, ?_, ?_, fun y hy => ?_, ?_, fun y hy => ?_, fun y hy hs hp => ?_⟩
  · simp only [Cursor.take]
    omega
  · rintro y (rfl | hy)
    · refine ⟨hmem, ?_, ?_⟩ <;> simp only [Cursor.take] <;> omega
    · obtain ⟨hyl, hyc, hyp⟩ := h.flying y hy
      refine ⟨hyl, hyc, ?_⟩
      simp only [Cursor.take]
      omega
  · obtain ⟨hyl, hyc, hyp, hyA⟩ := h.deferred y hy
    refine ⟨hyl, hyc, ?_, hyA⟩
    simp only [Cursor.take]
    omega
  · rintro y hy (rfl | hf)
    · have := (h.deferred y hy).2.2.1
      omega
    · exact h.disjoint y hy hf
  · obtain ⟨z, hz, hlt⟩ := h.behind y hy
    exact ⟨z, .inr hz, hlt⟩
  · by_cases hyp : key y < c.position
    · exact (h.passed y hy hs hyp).imp_right .inr
    · -- nothing is between the position and the next entry
      have hwin : y ∈ window key l c.position (key x + 1) := mem_window.mpr ⟨hy, by omega, hp⟩
      rw [window_next ho le_rfl hx, window_self, List.nil_append] at hwin
      exact .inr (.inl (List.mem_singleton.mp hwin))

theorem rewind (h : c.Sound key l start A) (hx : x ∈ c.flying) : (c.rewind key (key x)).Sound key l start A := by
  obtain ⟨-, hxc, hxp⟩ := h.flying x hx
  refine ⟨h.begins, hxc, fun y hy => ?_, fun y hy => ?_, fun y hy hf => h.disjoint y hy.1 hf.1, fun y hy => ?_,
    fun y hy hs hp => ?_⟩
  · exact ⟨(h.flying y hy.1).1, (h.flying y hy.1).2.1, hy.2⟩
  · obtain ⟨hyl, hyc, -, hyA⟩ := h.deferred y hy.1
    exact ⟨hyl, hyc, hy.2, hyA⟩
  · obtain ⟨z, hz, hlt⟩ := h.behind y hy.1
    exact ⟨z, ⟨hz, hlt.trans hy.2⟩, hlt⟩
  · have hp : key y < key x := hp
    exact (h.passed y hy hs (hp.trans hxp)).imp_right fun hf => ⟨hf, hp⟩

theorem restart (h : c.Sound key l start A) : c.restart.Sound key l start A where
  begins := h.begins
  reach := le_rfl
  flying _ h := h.elim
  deferred _ h := h.elim
  disjoint _ h := h.elim
  behind _ h := h.elim
  passed _ hx hs hc := .inl (h.accounted hx hs hc)

/-- A settle keeps the invariant, wherever its commit ends. -/
theorem settle (h : c.Sound key l start A) (ho : Ordered key l) (hx : x ∈ c.flying) (hA : A x)
    (hs : c.Settles key x c') : c'.Sound key l start A := by
  have hsettled : ∀ y ∈ insert x c.deferred, y ∈ l ∧ c.committed ≤ key y ∧ key y < c.position ∧ A y := by
    rintro y (rfl | hy)
    · exact ⟨(h.flying y hx).1, (h.flying y hx).2.1, (h.flying y hx).2.2, hA⟩
    · exact h.deferred y hy
  -- the commit did not go back, and it is not past what is in flight or still deferred
  have hlow : c.committed ≤ c'.committed := by
    rcases hs.committed with he | ⟨top, htop, -, he⟩
    · exact he.ge
    · have := (hsettled top htop.1).2.1
      omega
  have hreach : c'.committed ≤ c.position := by
    rcases hs.committed with he | ⟨top, htop, -, he⟩
    · exact he.le.trans h.reach
    · have := (hsettled top htop.1).2.2.1
      omega
  have hflying : ∀ y ∈ c.flying \ {x}, c'.committed ≤ key y := by
    intro y hy
    rcases hs.committed with he | ⟨top, htop, -, he⟩
    · exact he.le.trans (h.flying y hy.1).2.1
    · have := htop.2 y hy
      omega
  have hwaits : ∀ y ∈ insert x c.deferred \ c.committable key x, ∃ z ∈ c.flying \ {x}, key z < key y := by
    rintro y ⟨hy, hn⟩
    have hn : ¬ ∀ z ∈ c.flying \ {x}, key y < key z := fun hall => hn ⟨hy, hall⟩
    push Not at hn
    obtain ⟨z, hz, hle⟩ := hn
    rcases lt_or_eq_of_le hle with hlt | heq
    · exact ⟨z, hz, hlt⟩
    · -- an entry in flight is not settled
      have hzy := ho.eq_of_key (h.flying z hz.1).1 (hsettled y hy).1 heq
      subst hzy
      rcases hy with rfl | hyd
      · exact absurd rfl hz.2
      · exact absurd hz.1 (h.disjoint z hyd)
  refine ⟨h.begins.trans hlow, hs.position ▸ hreach, fun y hy => ?_, fun y hy => ?_, fun y hy => ?_, fun y hy => ?_,
    fun y hy hy1 hy2 => ?_⟩
  · rw [hs.flying] at hy
    rw [hs.position]
    exact ⟨(h.flying y hy.1).1, hflying y hy, (h.flying y hy.1).2.2⟩
  · rw [hs.deferred] at hy
    obtain ⟨hyl, -, hyp, hyA⟩ := hsettled y hy.1
    obtain ⟨z, hz, hlt⟩ := hwaits y hy
    rw [hs.position]
    exact ⟨hyl, (hflying z hz).trans hlt.le, hyp, hyA⟩
  · rw [hs.deferred] at hy
    rw [hs.flying]
    rcases hy.1 with rfl | hyd
    · exact fun hf => hf.2 rfl
    · exact fun hf => h.disjoint y hyd hf.1
  · rw [hs.deferred] at hy
    rw [hs.flying]
    exact hwaits y hy
  · rw [hs.position] at hy2
    rw [hs.flying]
    rcases h.passed y hy hy1 hy2 with hyA | hf
    · exact .inl hyA
    · by_cases hyx : y = x
      · exact .inl (hyx ▸ hA)
      · exact .inr ⟨hf, hyx⟩

/-- A commit does not go back. -/
theorem settle_mono (h : c.Sound key l start A) (hx : x ∈ c.flying) (hs : c.Settles key x c') : c.committed ≤ c'.committed := by
  rcases hs.committed with he | ⟨top, htop, -, he⟩
  · exact he.ge
  · have : c.committed ≤ key top := by
      rcases htop.1 with rfl | hd
      · exact (h.flying _ hx).2.1
      · exact (h.deferred top hd).2.1
    omega

/-- With nothing in flight, what was read is committed. -/
theorem committed_of_idle (h : c.Sound key l start A) (he : c.Exact key l) (hidle : ∀ y, y ∉ c.flying) (hx : x ∈ l)
    (hp : key x < c.position) : key x < c.committed := by
  by_contra hc
  rcases he x hx (by omega) hp with hf | hd
  · exact hidle x hf
  · obtain ⟨y, hy, -⟩ := h.behind x hd
    exact hidle y hy

end Sound

namespace Exact

theorem init (key : α → Int) (l : List α) (start : Int) : Exact key ⟨start, start, ∅, ∅⟩ l :=
  fun _ _ h1 h2 => absurd h2 (not_lt.mpr h1)

theorem take (h : c.Exact key l) (ho : Ordered key l) (hx : next? key l c.position = some x) : (c.take key x).Exact key l := by
  intro y hy hc hp
  by_cases hyp : key y < c.position
  · exact (h y hy hc hyp).imp_left .inr
  · have hwin : y ∈ window key l c.position (key x + 1) := mem_window.mpr ⟨hy, by omega, hp⟩
    rw [window_next ho le_rfl hx, window_self, List.nil_append] at hwin
    exact .inl (.inl (List.mem_singleton.mp hwin))

theorem rewind {offset : Int} (h : c.Exact key l) (ho : offset ≤ c.position) : (c.rewind key offset).Exact key l := by
  intro y hy hc hp
  have hp : key y < offset := hp
  exact (h y hy hc (hp.trans_le ho)).imp (fun hf => ⟨hf, hp⟩) fun hd => ⟨hd, hp⟩

theorem restart (c : Cursor α) : c.restart.Exact key l := fun _ _ h1 h2 => absurd h2 (not_lt.mpr h1)

/-- A settle whose commit lands. -/
theorem settle (h : c.Exact key l) (hs : c.Settles key x c')
    (hlands : ∀ y ∈ c.committable key x, key y < c'.committed) (hmono : c.committed ≤ c'.committed) : c'.Exact key l := by
  intro y hy hc hp
  rw [hs.position] at hp
  rw [hs.flying, hs.deferred]
  have hnot : y ∉ c.committable key x := fun hm => absurd (hlands y hm) (not_lt.mpr hc)
  rcases h y hy (hmono.trans hc) hp with hf | hd
  · by_cases hyx : y = x
    · exact .inr ⟨.inl hyx, hnot⟩
    · exact .inl ⟨hf, hyx⟩
  · exact .inr ⟨.inr hd, hnot⟩

end Exact

end Cursor

end Log
