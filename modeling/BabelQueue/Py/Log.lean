import BabelQueue.Py.Act

/-!
# A log beside the state

* `aside c` is `c` on a state with a log, which it does not touch; `logging x c` also adds `x`.
* `Logs P c`: each entry that `c` adds to the log has `P`.
-/

namespace Py

variable {σ ε α β : Type}

namespace Act

/-- `c`, which adds nothing. -/
def aside (c : Act σ α) : Act (σ × List ε) α := fun s => ((c s.1).1, (c s.1).2, s.2)

/-- `c`, which adds `x`, however it ends. -/
def logging (x : ε) (c : Act σ α) : Act (σ × List ε) α := fun s => ((c s.1).1, (c s.1).2, s.2 ++ [x])

end Act

/-- Every entry that `c` adds has `P`. -/
def Logs (P : ε → Prop) (c : Act (σ × List ε) α) : Prop :=
  ∀ s log, ∃ new, (c (s, log)).2.2 = log ++ new ∧ ∀ x ∈ new, P x

namespace Logs

variable {P : ε → Prop} {c : Act (σ × List ε) α}

theorem of_run (h : Logs P c) (s : σ) : ∀ x ∈ (c (s, [])).2.2, P x := by
  obtain ⟨new, he, hp⟩ := h s []
  rwa [he, List.nil_append]

theorem quiet (h : ∀ s log, (c (s, log)).2.2 = log) : Logs P c := fun s log => ⟨[], by rw [h, List.append_nil], by simp⟩

protected theorem pure (a : α) : Logs P (pure a : Act (σ × List ε) α) := quiet fun _ _ => rfl

theorem raise (e : PyExc) : Logs P (Act.raise e : Act (σ × List ε) α) := quiet fun _ _ => rfl

theorem lift (r : Except PyExc α) : Logs P (Act.lift r : Act (σ × List ε) α) := quiet fun _ _ => rfl

theorem modify (f : σ → σ) : Logs P (Act.modify fun s : σ × List ε => (f s.1, s.2)) := quiet fun _ _ => rfl

theorem aside (c : Act σ α) : Logs P (Act.aside c) := quiet fun _ _ => rfl

theorem logging {x : ε} (h : P x) (c : Act σ α) : Logs P (Act.logging x c) := fun _ _ => ⟨[x], rfl, by simpa using h⟩

theorem bind {k : α → Act (σ × List ε) β} (h : Logs P c) (hk : ∀ a, Logs P (k a)) : Logs P (c >>= k) := by
  intro s log
  obtain ⟨new, he, hp⟩ := h s log
  rw [Act.bind_run]
  rcases hc : c (s, log) with ⟨r, s', log'⟩
  rw [hc] at he
  obtain rfl : log' = log ++ new := he
  cases r with
  | error e => exact ⟨new, rfl, hp⟩
  | ok a =>
    obtain ⟨more, hm, hp'⟩ := hk a s' (log ++ new)
    refine ⟨new ++ more, by rw [← List.append_assoc]; exact hm, fun x hx => ?_⟩
    exact (List.mem_append.mp hx).elim (hp x) (hp' x)

theorem lift_bind {r : Except PyExc α} {k : α → Act (σ × List ε) β} (h : ∀ a, r = .ok a → Logs P (k a)) :
    Logs P (Act.lift r >>= k) := by
  cases r with
  | error e => exact quiet fun _ _ => rfl
  | ok a => exact h a rfl

theorem get_bind {k : σ × List ε → Act (σ × List ε) β} (h : ∀ s, Logs P (k s)) : Logs P (Act.get >>= k) :=
  fun s log => h (s, log) s log

theorem tryExcept {cs : List ExcClass} {f : PyExc → Act (σ × List ε) α} (h : Logs P c) (hf : ∀ e, Logs P (f e)) :
    Logs P (Act.tryExcept c cs f) := by
  intro s log
  obtain ⟨new, he, hp⟩ := h s log
  rw [Act.tryExcept]
  rcases hc : c (s, log) with ⟨r, s', log'⟩
  rw [hc] at he
  obtain rfl : log' = log ++ new := he
  cases r with
  | ok a => exact ⟨new, rfl, hp⟩
  | error e =>
    by_cases hx : e.isAny cs = true
    · obtain ⟨more, hm, hp'⟩ := hf e s' (log ++ new)
      dsimp only
      rw [if_pos hx]
      refine ⟨new ++ more, by rw [← List.append_assoc]; exact hm, fun x hx => ?_⟩
      exact (List.mem_append.mp hx).elim (hp x) (hp' x)
    · dsimp only
      rw [if_neg hx]
      exact ⟨new, rfl, hp⟩

theorem tryFinally {f : σ → σ} (h : Logs P c) : Logs P (Act.tryFinally c fun s : σ × List ε => (f s.1, s.2)) :=
  fun s log => h s log

theorem ite {p : Prop} [Decidable p] {d : Act (σ × List ε) α} (h : p → Logs P c) (hd : ¬ p → Logs P d) :
    Logs P (if p then c else d) := by
  by_cases hp : p
  · rw [if_pos hp]; exact h hp
  · rw [if_neg hp]; exact hd hp

end Logs

end Py
