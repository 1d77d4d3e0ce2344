import BabelQueue.Py.Text

/-!
# Exceptions and effects

A call ends with a value or with an exception. A pure function is an `Except PyExc α`, a call with
effects on a state `σ` is an `Act σ α`; the state a raising call leaves is kept.

* `tryExcept` is `try: … except classes as exc: …`.
* `Triple P c Q E`: from a state with `P`, `c` ends in one with `Q` when it returns and in one
  with `E` when it raises.
* `Rel R c c'`: two runs from related states end in the same way, in related states; `Sim R c c'` is
  the same for runs on states of two types.
-/

namespace Py

/-- An exception class. `defined` is a class the program declares, with its base class. -/
inductive ExcClass
  | baseException
  | exception
  | keyboardInterrupt
  | valueError
  | jsonDecodeError
  | unicodeEncodeError
  | unicodeDecodeError
  | typeError
  | attributeError
  | overflowError
  | recursionError
  | defined (name : Str) (base : ExcClass)
  deriving DecidableEq

namespace ExcClass

/-- `type(exc).__name__`. -/
def name : ExcClass → Str
  | baseException => str "BaseException"
  | exception => str "Exception"
  | keyboardInterrupt => str "KeyboardInterrupt"
  | valueError => str "ValueError"
  | jsonDecodeError => str "JSONDecodeError"
  | unicodeEncodeError => str "UnicodeEncodeError"
  | unicodeDecodeError => str "UnicodeDecodeError"
  | typeError => str "TypeError"
  | attributeError => str "AttributeError"
  | overflowError => str "OverflowError"
  | recursionError => str "RecursionError"
  | defined n _ => n

/-- The class and its bases (`__mro__`, as far as an `except` clause of the program can tell). -/
def ancestors : ExcClass → List ExcClass
  | baseException => [baseException]
  | keyboardInterrupt => [keyboardInterrupt, baseException]
  | exception => [exception, baseException]
  | valueError => [valueError, exception, baseException]
  | jsonDecodeError => [jsonDecodeError, valueError, exception, baseException]
  | unicodeEncodeError => [unicodeEncodeError, valueError, exception, baseException]
  | unicodeDecodeError => [unicodeDecodeError, valueError, exception, baseException]
  | typeError => [typeError, exception, baseException]
  | attributeError => [attributeError, exception, baseException]
  | overflowError => [overflowError, exception, baseException]
  | recursionError => [recursionError, exception, baseException]
  | defined n b => defined n b :: ancestors b

end ExcClass

structure PyExc where
  cls : ExcClass
  msg : Str
  deriving DecidableEq

namespace PyExc

/-- `isinstance(exc, c)`. -/
def isA (e : PyExc) (c : ExcClass) : Bool := c ∈ e.cls.ancestors

/-- `isinstance(exc, classes)`. -/
def isAny (e : PyExc) (cs : List ExcClass) : Bool := cs.any e.isA

/-- What `except Exception` catches: everything but an interrupt and its like. -/
abbrev isException (e : PyExc) : Bool := e.isA .exception

end PyExc

theorem isAny_exception {e : PyExc} : e.isAny [.exception] = e.isException := by
  simp [PyExc.isAny]

/-- `try: r except classes: h(exc)` of a pure call. -/
def tryExceptPure {α : Type} (r : Except PyExc α) (cs : List ExcClass)
    (h : PyExc → Except PyExc α) : Except PyExc α :=
  match r with
  | .ok a => .ok a
  | .error e => if e.isAny cs then h e else .error e

theorem bind_eq_ok {α β : Type} {r : Except PyExc α} {k : α → Except PyExc β} {b : β} :
    r >>= k = .ok b ↔ ∃ a, r = .ok a ∧ k a = .ok b := by
  cases r with
  | ok a => exact ⟨fun h => ⟨a, rfl, h⟩, by rintro ⟨_, ⟨⟩, h⟩; exact h⟩
  | error e => exact ⟨fun h => (nomatch h), by rintro ⟨_, ⟨⟩, _⟩⟩

theorem isOk_bind {α β : Type} {r : Except PyExc α} {k : α → Except PyExc β} (hr : ∃ a, r = .ok a)
    (hk : ∀ a, ∃ b, k a = .ok b) : ∃ b, r >>= k = .ok b := by
  obtain ⟨a, rfl⟩ := hr
  exact hk a

theorem isOk_bind_iff_and {α β : Type} {r : Except PyExc α} {k : α → Except PyExc β} {p : Prop}
    (hk : ∀ a, r = .ok a → ((∃ b, k a = .ok b) ↔ p)) : (∃ b, r >>= k = .ok b) ↔ (∃ a, r = .ok a) ∧ p := by
  constructor
  · rintro ⟨b, h⟩
    obtain ⟨a, ha, hb⟩ := bind_eq_ok.mp h
    exact ⟨⟨a, ha⟩, (hk a ha).mp ⟨b, hb⟩⟩
  · rintro ⟨⟨a, rfl⟩, hp⟩
    exact (hk a rfl).mpr hp

/-- After a call that returns. -/
theorem isOk_bind_iff {α β : Type} {r : Except PyExc α} {k : α → Except PyExc β} {p : Prop} (hr : ∃ a, r = .ok a)
    (hk : ∀ a, r = .ok a → ((∃ b, k a = .ok b) ↔ p)) : (∃ b, r >>= k = .ok b) ↔ p :=
  (isOk_bind_iff_and hk).trans (and_iff_right hr)

/-- Before what returns. -/
theorem isOk_bind_iff_isOk {α β : Type} {r : Except PyExc α} {k : α → Except PyExc β}
    (hk : ∀ a, r = .ok a → ∃ b, k a = .ok b) : (∃ b, r >>= k = .ok b) ↔ ∃ a, r = .ok a :=
  (isOk_bind_iff_and fun a ha => iff_true_intro (hk a ha)).trans (iff_of_eq (and_true _))

theorem mapM_isOk_iff {α β : Type} {f : α → Except PyExc β} {l : List α} :
    (∃ bs, l.mapM f = .ok bs) ↔ ∀ a ∈ l, ∃ b, f a = .ok b := by
  induction l with
  | nil => exact iff_of_true ⟨[], rfl⟩ fun _ h => nomatch h
  | cons a l ih =>
    rw [List.mapM_cons, List.forall_mem_cons, ← ih]
    exact isOk_bind_iff_and fun b _ => isOk_bind_iff_isOk fun bs _ => ⟨_, rfl⟩

theorem map_eq_ok {α β : Type} {r : Except PyExc α} {f : α → β} {b : β} :
    r.map f = .ok b ↔ ∃ a, r = .ok a ∧ f a = b := by
  cases r with
  | ok a => exact ⟨fun h => ⟨a, rfl, Except.ok.inj h⟩, by rintro ⟨_, ⟨⟩, rfl⟩; rfl⟩
  | error e => exact ⟨fun h => (nomatch h), by rintro ⟨_, ⟨⟩, _⟩⟩

/-- A call with effects on `σ`. -/
def Act (σ α : Type) := σ → Except PyExc α × σ

namespace Act

variable {σ α β : Type}

instance : Monad (Act σ) where
  pure a := fun s => (.ok a, s)
  bind c k := fun s =>
    match c s with
    | (.ok a, s') => k a s'
    | (.error e, s') => (.error e, s')

def raise (e : PyExc) : Act σ α := fun s => (.error e, s)

/-- A pure call that may raise. -/
def lift (r : Except PyExc α) : Act σ α := fun s => (r, s)

def get : Act σ σ := fun s => (.ok s, s)

def modify (f : σ → σ) : Act σ Unit := fun s => (.ok (), f s)

/-- `try: c except classes as exc: h(exc)`. -/
def tryExcept (c : Act σ α) (cs : List ExcClass) (h : PyExc → Act σ α) : Act σ α := fun s =>
  match c s with
  | (.ok a, s') => (.ok a, s')
  | (.error e, s') => if e.isAny cs then h e s' else (.error e, s')

/-- `try: c finally: f`, with a finalizer that does not raise. -/
def tryFinally (c : Act σ α) (f : σ → σ) : Act σ α := fun s => ((c s).1, f (c s).2)

@[simp] theorem pure_run (a : α) (s : σ) : (pure a : Act σ α) s = (.ok a, s) := rfl

@[simp] theorem raise_run (e : PyExc) (s : σ) : (raise e : Act σ α) s = (.error e, s) := rfl

@[simp] theorem lift_run (r : Except PyExc α) (s : σ) : (lift r : Act σ α) s = (r, s) := rfl

@[simp] theorem get_run (s : σ) : (get : Act σ σ) s = (.ok s, s) := rfl

@[simp] theorem modify_run (f : σ → σ) (s : σ) : modify f s = (.ok (), f s) := rfl

theorem bind_run (c : Act σ α) (k : α → Act σ β) (s : σ) :
    (c >>= k) s = match c s with
      | (.ok a, s') => k a s'
      | (.error e, s') => (.error e, s') := rfl

theorem bind_run_ok {c : Act σ α} {k : α → Act σ β} {s s' : σ} {a : α} (h : c s = (.ok a, s')) :
    (c >>= k) s = k a s' := by rw [bind_run, h]

theorem bind_run_error {c : Act σ α} {k : α → Act σ β} {s s' : σ} {e : PyExc}
    (h : c s = (.error e, s')) : (c >>= k) s = (.error e, s') := by rw [bind_run, h]

/-- A sequence that returns: both of its calls do. -/
theorem of_bind_run_ok {c : Act σ α} {k : α → Act σ β} {s s' : σ} {b : β} (h : (c >>= k) s = (.ok b, s')) :
    ∃ a s₁, c s = (.ok a, s₁) ∧ k a s₁ = (.ok b, s') := by
  rw [bind_run] at h
  split at h
  · next a s₁ hc => exact ⟨a, s₁, hc, h⟩
  · cases h

theorem tryExcept_run_ok {c : Act σ α} {cs : List ExcClass} {h : PyExc → Act σ α} {s s' : σ} {a : α}
    (e : c s = (.ok a, s')) : tryExcept c cs h s = (.ok a, s') := by rw [tryExcept, e]

theorem tryExcept_run_error {c : Act σ α} {cs : List ExcClass} {h : PyExc → Act σ α} {s s' : σ}
    {x : PyExc} (e : c s = (.error x, s')) :
    tryExcept c cs h s = if x.isAny cs then h x s' else (.error x, s') := by rw [tryExcept, e]

end Act

/-! ## Triples -/

/-- From a state with `P`, `c` ends in `Q` when it returns and in `E` when it raises. -/
def Triple {σ α : Type} (P : σ → Prop) (c : Act σ α) (Q : α → σ → Prop) (E : PyExc → σ → Prop) :
    Prop :=
  ∀ s, P s → match c s with
    | (.ok a, s') => Q a s'
    | (.error e, s') => E e s'

namespace Triple

variable {σ α β : Type} {P P' : σ → Prop} {c : Act σ α} {Q Q' : α → σ → Prop} {E E' : PyExc → σ → Prop}

theorem ok (h : Triple P c Q E) {s s' : σ} {a : α} (hp : P s) (e : c s = (.ok a, s')) : Q a s' := by
  have := h s hp; rw [e] at this; exact this

theorem error (h : Triple P c Q E) {s s' : σ} {x : PyExc} (hp : P s) (e : c s = (.error x, s')) :
    E x s' := by
  have := h s hp; rw [e] at this; exact this

theorem conseq (h : Triple P c Q E) (hp : ∀ s, P' s → P s) (hq : ∀ a s, Q a s → Q' a s)
    (he : ∀ e s, E e s → E' e s) : Triple P' c Q' E' := by
  intro s hs
  have := h s (hp s hs)
  revert this
  rcases c s with ⟨_ | _, _⟩
  · exact he _ _
  · exact hq _ _

theorem pre (h : Triple P c Q E) (hp : ∀ s, P' s → P s) : Triple P' c Q E :=
  h.conseq hp (fun _ _ => id) fun _ _ => id

theorem post (h : Triple P c Q E) (hq : ∀ a s, Q a s → Q' a s) : Triple P c Q' E :=
  h.conseq (fun _ => id) hq fun _ _ => id

protected theorem pure (a : α) (h : ∀ s, P s → Q a s) : Triple P (pure a) Q E := fun s hs => h s hs

protected theorem raise (e : PyExc) (h : ∀ s, P s → E e s) :
    Triple P (Act.raise e : Act σ α) Q E := fun s hs => h s hs

protected theorem lift (r : Except PyExc α) (hq : ∀ a s, r = .ok a → P s → Q a s)
    (he : ∀ e s, r = .error e → P s → E e s) : Triple P (Act.lift r) Q E := by
  intro s hs
  cases r with
  | ok a => exact hq a s rfl hs
  | error e => exact he e s rfl hs

protected theorem get {Q : σ → σ → Prop} (h : ∀ s, P s → Q s s) : Triple P Act.get Q E :=
  fun s hs => h s hs

protected theorem modify {Q : Unit → σ → Prop} (f : σ → σ) (h : ∀ s, P s → Q () (f s)) :
    Triple P (Act.modify f) Q E := fun s hs => h s hs

protected theorem bind {k : α → Act σ β} {R : β → σ → Prop} (h : Triple P c Q E)
    (hk : ∀ a, Triple (Q a) (k a) R E) : Triple P (c >>= k) R E := by
  intro s hs
  have h1 := h s hs
  rw [Act.bind_run]
  revert h1
  rcases c s with ⟨_ | a, s'⟩
  · exact id
  · exact hk a s'

theorem tryExcept {cs : List ExcClass} {f : PyExc → Act σ α} (h : Triple P c Q E)
    (hf : ∀ e, e.isAny cs → Triple (E e) (f e) Q E')
    (hn : ∀ e s, e.isAny cs = false → E e s → E' e s) :
    Triple P (Act.tryExcept c cs f) Q E' := by
  intro s hs
  have h1 := h s hs
  rw [Act.tryExcept]
  revert h1
  rcases c s with ⟨e | a, s'⟩
  · intro h1
    dsimp only
    by_cases hc : e.isAny cs
    · rw [if_pos hc]; exact hf e hc s' h1
    · rw [if_neg hc]; exact hn e s' (by simpa using hc) h1
  · exact id

theorem tryFinally {f : σ → σ} (h : Triple P c (fun a s => Q a (f s)) fun e s => E e (f s)) :
    Triple P (Act.tryFinally c f) Q E := by
  intro s hs
  have h1 := h s hs
  rw [Act.tryFinally]
  revert h1
  rcases c s with ⟨_ | _, _⟩ <;> exact id

/-- The state after a call, however it ends. -/
theorem after_iff {R : σ → Prop} : Triple P c (fun _ => R) (fun _ => R) ↔ ∀ s, P s → R (c s).2 := by
  refine forall₂_congr fun s _ => ?_
  rcases c s with ⟨_ | _, _⟩ <;> exact Iff.rfl

/-- What holds whatever the state was before can be fixed first. -/
theorem of_state (h : ∀ s₀, P s₀ → Triple (· = s₀) c Q E) : Triple P c Q E :=
  fun s hs => h s hs s rfl

end Triple

/-! ## Two runs -/

/-- From related states, `c` and `c'` end in the same way, in related states. -/
def Rel {σ α : Type} (R : σ → σ → Prop) (c c' : Act σ α) : Prop :=
  ∀ s s', R s s' → (c s).1 = (c' s').1 ∧ R (c s).2 (c' s').2

namespace Rel

variable {σ α β : Type} {R : σ → σ → Prop} {c c' : Act σ α}

protected theorem pure (a : α) : Rel R (pure a) (pure a) := fun _ _ h => ⟨rfl, h⟩

protected theorem raise (e : PyExc) : Rel R (Act.raise e : Act σ α) (Act.raise e) := fun _ _ h => ⟨rfl, h⟩

protected theorem lift (r : Except PyExc α) : Rel R (Act.lift r) (Act.lift r) := fun _ _ h => ⟨rfl, h⟩

protected theorem modify {f g : σ → σ} (h : ∀ s s', R s s' → R (f s) (g s')) : Rel R (Act.modify f) (Act.modify g) :=
  fun s s' hs => ⟨rfl, h s s' hs⟩

protected theorem bind {k k' : α → Act σ β} (h : Rel R c c') (hk : ∀ a, Rel R (k a) (k' a)) :
    Rel R (c >>= k) (c' >>= k') := by
  intro s s' hs
  obtain ⟨h1, h2⟩ := h s s' hs
  rw [Act.bind_run, Act.bind_run]
  revert h1 h2
  rcases c s with ⟨r, t⟩
  rcases c' s' with ⟨r', t'⟩
  rintro ⟨⟩ h2
  cases r with
  | ok a => exact hk a t t' h2
  | error e => exact ⟨rfl, h2⟩

theorem tryExcept {cs : List ExcClass} {f f' : PyExc → Act σ α} (h : Rel R c c') (hf : ∀ e, Rel R (f e) (f' e)) :
    Rel R (Act.tryExcept c cs f) (Act.tryExcept c' cs f') := by
  intro s s' hs
  obtain ⟨h1, h2⟩ := h s s' hs
  rw [Act.tryExcept, Act.tryExcept]
  revert h1 h2
  rcases c s with ⟨r, t⟩
  rcases c' s' with ⟨r', t'⟩
  rintro ⟨⟩ h2
  cases r with
  | ok a => exact ⟨rfl, h2⟩
  | error e =>
    by_cases he : e.isAny cs
    · simpa only [he, if_true] using hf e t t' h2
    · simpa only [he, if_false] using ⟨rfl, h2⟩

theorem tryFinally {f f' : σ → σ} (h : Rel R c c') (hf : ∀ s s', R s s' → R (f s) (f' s')) :
    Rel R (Act.tryFinally c f) (Act.tryFinally c' f') := fun s s' hs =>
  ⟨(h s s' hs).1, hf _ _ (h s s' hs).2⟩

end Rel

/-! ## Two runs on states of two types -/

/-- From related states, `c` and `c'` end in the same way, in related states. -/
def Sim {σ σ' α : Type} (R : σ → σ' → Prop) (c : Act σ α) (c' : Act σ' α) : Prop :=
  ∀ s s', R s s' → (c s).1 = (c' s').1 ∧ R (c s).2 (c' s').2

namespace Sim

variable {σ σ' α β : Type} {R : σ → σ' → Prop} {c : Act σ α} {c' : Act σ' α}

protected theorem pure (a : α) : Sim R (pure a) (pure a) := fun _ _ h => ⟨rfl, h⟩

protected theorem raise (e : PyExc) : Sim R (Act.raise e : Act σ α) (Act.raise e) := fun _ _ h => ⟨rfl, h⟩

protected theorem lift (r : Except PyExc α) : Sim R (Act.lift r) (Act.lift r) := fun _ _ h => ⟨rfl, h⟩

protected theorem modify {f : σ → σ} {g : σ' → σ'} (h : ∀ s s', R s s' → R (f s) (g s')) :
    Sim R (Act.modify f) (Act.modify g) := fun s s' hs => ⟨rfl, h s s' hs⟩

protected theorem bind {k : α → Act σ β} {k' : α → Act σ' β} (h : Sim R c c') (hk : ∀ a, Sim R (k a) (k' a)) :
    Sim R (c >>= k) (c' >>= k') := by
  intro s s' hs
  obtain ⟨h1, h2⟩ := h s s' hs
  rw [Act.bind_run, Act.bind_run]
  revert h1 h2
  rcases c s with ⟨r, t⟩
  rcases c' s' with ⟨r', t'⟩
  rintro ⟨⟩ h2
  cases r with
  | ok a => exact hk a t t' h2
  | error e => exact ⟨rfl, h2⟩

theorem get_bind {k : σ → Act σ β} {k' : σ' → Act σ' β} (hk : ∀ s s', R s s' → Sim R (k s) (k' s')) :
    Sim R (Act.get >>= k) (Act.get >>= k') := fun s s' hs => hk s s' hs s s' hs

theorem tryExcept {cs : List ExcClass} {f : PyExc → Act σ α} {f' : PyExc → Act σ' α} (h : Sim R c c')
    (hf : ∀ e, Sim R (f e) (f' e)) : Sim R (Act.tryExcept c cs f) (Act.tryExcept c' cs f') := by
  intro s s' hs
  obtain ⟨h1, h2⟩ := h s s' hs
  rw [Act.tryExcept, Act.tryExcept]
  revert h1 h2
  rcases c s with ⟨r, t⟩
  rcases c' s' with ⟨r', t'⟩
  rintro ⟨⟩ h2
  cases r with
  | ok a => exact ⟨rfl, h2⟩
  | error e =>
    by_cases he : e.isAny cs
    · simpa only [he, if_true] using hf e t t' h2
    · simpa only [he, if_false] using ⟨rfl, h2⟩

theorem tryFinally {f : σ → σ} {f' : σ' → σ'} (h : Sim R c c') (hf : ∀ s s', R s s' → R (f s) (f' s')) :
    Sim R (Act.tryFinally c f) (Act.tryFinally c' f') := fun s s' hs =>
  ⟨(h s s' hs).1, hf _ _ (h s s' hs).2⟩

theorem ite {p : Prop} [Decidable p] {d : Act σ α} {d' : Act σ' α} (h : Sim R c c') (hd : Sim R d d') :
    Sim R (if p then c else d) (if p then c' else d') := by
  split
  · exact h
  · exact hd

end Sim

end Py
