import BabelQueue.Py.Float

/-!
# The JSON grammar

A `Tree` is a JSON text read without any interpretation: a number keeps its literal, an object the
list of its members, repeated ones included. `Spells t s` says that `s` is a text of `t`, with no
white space around it. The three constants `json` accepts beside RFC 8259 are trees too.

* A string is a list of `Piece`s between quotes; `decode` is the string they denote.
* `Sep P as s`: `s` is texts of `as`, in order, with commas between.
-/

namespace Py.Json

/-- The white space of JSON. -/
def whitespace : Str := [cp ' ', cp '\t', cp '\n', cp '\r']

/-- `s` is white space. -/
abbrev Ws (s : Str) : Prop := Within whitespace s

/-! ## Strings -/

/-- A hexadecimal digit and its value. -/
def hexValue? (c : CodePoint) : Option Nat :=
  if 48 ≤ c.val ∧ c.val ≤ 57 then some (c.val - 48)
  else if 97 ≤ c.val ∧ c.val ≤ 102 then some (c.val - 87)
  else if 65 ≤ c.val ∧ c.val ≤ 70 then some (c.val - 55)
  else none

theorem hexValue?_digitChar {n : Nat} (h : n < 16) : hexValue? (cp (Nat.digitChar n)) = some n := by
  have : ∀ n < 16, hexValue? (cp (Nat.digitChar n)) = some n := by decide
  exact this n h

/-- The letter of a short escape and the code point it stands for. -/
def shortEscape? (c : CodePoint) : Option CodePoint :=
  if c = cp '"' ∨ c = cp '\\' ∨ c = cp '/' then some c
  else if c = cp 'b' then some 8
  else if c = cp 'f' then some 12
  else if c = cp 'n' then some 10
  else if c = cp 'r' then some 13
  else if c = cp 't' then some 9
  else none

/-- What stands for one code point (or half of a surrogate pair) inside a string. -/
inductive Piece
  | raw (c : CodePoint)
  | short (c : CodePoint)
  | unicode (h₃ h₂ h₁ h₀ : CodePoint)
  deriving DecidableEq

namespace Piece

def text : Piece → Str
  | raw c => [c]
  | short c => [cp '\\', c]
  | unicode h₃ h₂ h₁ h₀ => [cp '\\', cp 'u', h₃, h₂, h₁, h₀]

def Valid : Piece → Prop
  | raw c => c ≠ cp '"' ∧ c ≠ cp '\\' ∧ 0x20 ≤ c.val
  | short c => (shortEscape? c).isSome
  | unicode h₃ h₂ h₁ h₀ => ∀ h ∈ [h₃, h₂, h₁, h₀], (hexValue? h).isSome

instance : (p : Piece) → Decidable p.Valid
  | raw _ => inferInstanceAs (Decidable (_ ∧ _ ∧ _))
  | short _ => inferInstanceAs (Decidable (_ = true))
  | unicode h₃ h₂ h₁ h₀ => inferInstanceAs (Decidable (∀ h ∈ [h₃, h₂, h₁, h₀], _))

/-- The code point of a piece on its own. -/
def value : Piece → CodePoint
  | raw c => c
  | short c => (shortEscape? c).getD c
  | unicode h₃ h₂ h₁ h₀ =>
    Fin.ofNat _ ((((hexValue? h₃).getD 0 * 16 + (hexValue? h₂).getD 0) * 16 + (hexValue? h₁).getD 0) * 16
      + (hexValue? h₀).getD 0)

/-- Whether the piece is a `\u` escape, the only kind that pairs up. -/
def isUnicode : Piece → Bool
  | unicode .. => true
  | _ => false

end Piece

/-- The string a list of pieces denotes: a high and a low `\u` surrogate are one code point. -/
def decode : List Piece → Str
  | [] => []
  | [p] => [p.value]
  | p :: q :: ps =>
    if p.isUnicode && q.isUnicode && isHighSurrogate p.value && isLowSurrogate q.value then
      joinPair p.value q.value :: decode ps
    else p.value :: decode (q :: ps)

/-- The text of a string literal. -/
def quoted (ps : List Piece) : Str := cp '"' :: ps.flatMap Piece.text ++ [cp '"']

/-- `s` is a literal of the string `v`. -/
def SpellsStr (v s : Str) : Prop := ∃ ps : List Piece, (∀ p ∈ ps, p.Valid) ∧ v = decode ps ∧ s = quoted ps

/-! ## Trees -/

/-- The constants of `json` that are not in RFC 8259. -/
inductive Constant
  | nan
  | infinity
  | negInfinity
  deriving DecidableEq

def Constant.text : Constant → Str
  | nan => str "NaN"
  | infinity => str "Infinity"
  | negInfinity => str "-Infinity"

inductive Tree
  | null
  | bool (b : Bool)
  | num (l : NumLit)
  | const (c : Constant)
  | str (s : Str)
  | arr (items : List Tree)
  | obj (members : List (Str × Tree))

/-- Texts of `as` with commas between; there is at least one. -/
def Sep {α : Type} (P : α → Str → Prop) : List α → Str → Prop
  | [], _ => False
  | [a], s => P a s
  | a :: b :: as, s => ∃ s₁ s₂, s = s₁ ++ cp ',' :: s₂ ∧ P a s₁ ∧ Sep P (b :: as) s₂

/-- White space, a text of `P`, white space. -/
def Padded (P : Str → Prop) (s : Str) : Prop :=
  ∃ w t w', Ws w ∧ Ws w' ∧ P t ∧ s = w ++ t ++ w'

/-- The text of a key and a value. -/
def Member (k : Str) (P : Str → Prop) (s : Str) : Prop :=
  ∃ s₁ s₂, Padded (SpellsStr k) s₁ ∧ Padded P s₂ ∧ s = s₁ ++ cp ':' :: s₂

/-- The texts of a container: `as` between brackets, or white space when there are none. -/
def Bracketed {α : Type} (o c : CodePoint) (as : List α) (P : Str → Prop) (s : Str) : Prop :=
  ∃ body, s = o :: body ++ [c] ∧ (as = [] ∧ Ws body ∨ P body)

mutual

/-- `s` is a text of the tree. -/
def Spells : Tree → Str → Prop
  | .null, s => s = str "null"
  | .bool b, s => s = if b then str "true" else str "false"
  | .num l, s => l.Valid ∧ s = l.text
  | .const c, s => s = c.text
  | .str v, s => SpellsStr v s
  | .arr ts, s => Bracketed (cp '[') (cp ']') ts (SpellsItems ts) s
  | .obj ms, s => Bracketed (cp '{') (cp '}') ms (SpellsMembers ms) s

def SpellsItems : List Tree → Str → Prop
  | [], _ => False
  | [t], s => Padded (Spells t) s
  | t :: u :: ts, s => ∃ s₁ s₂, s = s₁ ++ cp ',' :: s₂ ∧ Padded (Spells t) s₁ ∧ SpellsItems (u :: ts) s₂

def SpellsMembers : List (Str × Tree) → Str → Prop
  | [], _ => False
  | [(k, t)], s => Member k (Spells t) s
  | (k, t) :: m :: ms, s =>
    ∃ s₁ s₂, s = s₁ ++ cp ',' :: s₂ ∧ Member k (Spells t) s₁ ∧ SpellsMembers (m :: ms) s₂

end

theorem spellsItems_iff : ∀ (ts : List Tree) (s : Str),
    SpellsItems ts s ↔ Sep (fun t => Padded (Spells t)) ts s
  | [], _ => by simp only [SpellsItems, Sep]
  | [t], _ => by simp only [SpellsItems, Sep]
  | t :: u :: ts, s => by simp only [SpellsItems, Sep, spellsItems_iff (u :: ts)]

theorem spellsMembers_iff : ∀ (ms : List (Str × Tree)) (s : Str),
    SpellsMembers ms s ↔ Sep (fun m => Member m.1 (Spells m.2)) ms s
  | [], _ => by simp only [SpellsMembers, Sep]
  | [(k, t)], _ => by simp only [SpellsMembers, Sep]
  | (k, t) :: m :: ms, s => by simp only [SpellsMembers, Sep, spellsMembers_iff (m :: ms)]

/-! ## Induction, depth -/

/-- Induction over trees: a container is reached with the statement for everything in it. -/
theorem Tree.ind {P : Tree → Prop} (null : P .null) (bool : ∀ b, P (.bool b)) (num : ∀ l, P (.num l))
    (const : ∀ c, P (.const c)) (str : ∀ s, P (.str s)) (arr : ∀ ts, (∀ t ∈ ts, P t) → P (.arr ts))
    (obj : ∀ ms, (∀ m ∈ ms, P m.2) → P (.obj ms)) (t : Tree) : P t :=
  @Tree.rec P (fun ts => ∀ t ∈ ts, P t) (fun ms => ∀ m ∈ ms, P m.2) (fun m => P m.2)
    null bool num const str (fun ts h => arr ts h) (fun ms h => obj ms h)
    (by simp) (fun t ts h hs => List.forall_mem_cons.mpr ⟨h, hs⟩)
    (by simp) (fun m ms h hs => List.forall_mem_cons.mpr ⟨h, hs⟩)
    (fun _ _ h => h) t

mutual

/-- How deep containers are nested. -/
def Tree.depth : Tree → Nat
  | .arr ts => depthItems ts + 1
  | .obj ms => depthMembers ms + 1
  | _ => 0

def depthItems : List Tree → Nat
  | [] => 0
  | t :: ts => max t.depth (depthItems ts)

def depthMembers : List (Str × Tree) → Nat
  | [] => 0
  | (_, t) :: ms => max t.depth (depthMembers ms)

end

theorem depthItems_le_iff {ts : List Tree} {d : Nat} :
    depthItems ts ≤ d ↔ ∀ t ∈ ts, t.depth ≤ d := by
  induction ts with
  | nil => simp [depthItems]
  | cons t ts ih => simp [depthItems, ih]

theorem depthMembers_le_iff {ms : List (Str × Tree)} {d : Nat} :
    depthMembers ms ≤ d ↔ ∀ m ∈ ms, m.2.depth ≤ d := by
  induction ms with
  | nil => simp [depthMembers]
  | cons m ms ih => obtain ⟨k, t⟩ := m; simp only [depthMembers, Nat.max_le, ih]; simp

mutual

/-- `p` holds of the tree and of every tree in it. -/
def Tree.All (p : Tree → Prop) : Tree → Prop
  | .arr ts => p (.arr ts) ∧ allItems p ts
  | .obj ms => p (.obj ms) ∧ allMembers p ms
  | t => p t

def allItems (p : Tree → Prop) : List Tree → Prop
  | [] => True
  | t :: ts => t.All p ∧ allItems p ts

def allMembers (p : Tree → Prop) : List (Str × Tree) → Prop
  | [] => True
  | (_, t) :: ms => t.All p ∧ allMembers p ms

end

theorem allItems_iff {p : Tree → Prop} {ts : List Tree} : allItems p ts ↔ ∀ t ∈ ts, t.All p := by
  induction ts with
  | nil => simp [allItems]
  | cons t ts ih => simp [allItems, ih]

theorem allMembers_iff {p : Tree → Prop} {ms : List (Str × Tree)} :
    allMembers p ms ↔ ∀ m ∈ ms, m.2.All p := by
  induction ms with
  | nil => simp [allMembers]
  | cons m ms ih => obtain ⟨k, t⟩ := m; simp only [allMembers, ih]; simp

theorem Tree.All.imp {p q : Tree → Prop} (h : ∀ t, p t → q t) {t : Tree} (ht : t.All p) : t.All q := by
  induction t using Tree.ind with
  | arr ts ih => exact ⟨h _ ht.1, allItems_iff.mpr fun t hm => ih t hm (allItems_iff.mp ht.2 t hm)⟩
  | obj ms ih => exact ⟨h _ ht.1, allMembers_iff.mpr fun m hm => ih m hm (allMembers_iff.mp ht.2 m hm)⟩
  | null => exact h .null ht
  | bool b => exact h (.bool b) ht
  | num l => exact h (.num l) ht
  | const c => exact h (.const c) ht
  | str s => exact h (.str s) ht

/-! ## Sequences -/

section Sep

variable {α : Type} {P : α → Str → Prop}

/-- One more element after a sequence. -/
theorem Sep.snoc {as : List α} {a : α} {s s' : Str} (h : Sep P as s) (ha : P a s') :
    Sep P (as ++ [a]) (s ++ cp ',' :: s') := by
  induction as generalizing s with
  | nil => exact h.elim
  | cons b as ih =>
    cases as with
    | nil => exact ⟨s, s', rfl, h, ha⟩
    | cons c as =>
      obtain ⟨s₁, s₂, rfl, hb, hs⟩ := h
      exact ⟨s₁, s₂ ++ cp ',' :: s', by simp, hb, ih hs⟩

theorem Sep.cons {a b : α} {as : List α} {s₁ s₂ : Str} (ha : P a s₁) (h : Sep P (b :: as) s₂) :
    Sep P (a :: b :: as) (s₁ ++ cp ',' :: s₂) := ⟨s₁, s₂, rfl, ha, h⟩

/-- There are no more elements than the text has code points, and one. -/
theorem Sep.length_le {as : List α} {s : Str} (h : Sep P as s) : as.length ≤ s.length + 1 := by
  induction as generalizing s with
  | nil => exact h.elim
  | cons b as ih =>
    cases as with
    | nil => simp
    | cons c as =>
      obtain ⟨s₁, s₂, rfl, -, hs⟩ := h
      have := ih hs
      simp only [List.length_cons, List.length_append] at this ⊢
      omega

end Sep

end Py.Json
