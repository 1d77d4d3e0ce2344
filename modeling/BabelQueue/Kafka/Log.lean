import Mathlib.Data.List.Basic
import Mathlib.Data.List.Induction

/-!
# Ordered logs

A log is a list of entries in the strict order of a key: the records of a partition and their offsets.

* `window key l a b`: the entries from `a` up to `b`.
* `next? key l a`: the first entry from `a` on.
* `InTurn keys`: a key comes only after every smaller key of the list.
-/

namespace Log

variable {α : Type} {key : α → Int} {l : List α} {a b : Int}

/-- The keys ascend. -/
def Ordered (key : α → Int) (l : List α) : Prop := l.Pairwise fun x y => key x < key y

/-- The entries with keys from `a` up to `b`. -/
def window (key : α → Int) (l : List α) (a b : Int) : List α := l.filter fun x => a ≤ key x && key x < b

/-- The first entry with a key from `a` on. -/
def next? (key : α → Int) (l : List α) (a : Int) : Option α := l.find? fun x => a ≤ key x

@[simp] theorem mem_window {x : α} : x ∈ window key l a b ↔ x ∈ l ∧ a ≤ key x ∧ key x < b := by
  simp [window]

@[simp] theorem window_self : window key l a a = [] := by
  refine List.filter_eq_nil_iff.mpr fun x _ => ?_
  simp only [Bool.and_eq_true, decide_eq_true_eq]
  omega

theorem Ordered.window (h : Ordered key l) : Ordered key (window key l a b) := h.filter _

/-- A key has one entry. -/
theorem Ordered.eq_of_key (h : Ordered key l) {x y : α} (hx : x ∈ l) (hy : y ∈ l) (hxy : key x = key y) : x = y := by
  induction l with
  | nil => cases hx
  | cons z l ih =>
    obtain ⟨hz, hl⟩ := List.pairwise_cons.mp h
    rcases List.mem_cons.mp hx with rfl | hxl <;> rcases List.mem_cons.mp hy with rfl | hyl
    · rfl
    · have := hz y hyl
      omega
    · have := hz x hxl
      omega
    · exact ih hl hxl hyl

theorem next?_mem {x : α} (h : next? key l a = some x) : x ∈ l ∧ a ≤ key x :=
  ⟨List.mem_of_find?_eq_some h, by simpa using List.find?_some h⟩

/-- The window up to the next entry has one entry more. -/
theorem window_next (h : Ordered key l) (hab : a ≤ b) {x : α} (hx : next? key l b = some x) :
    window key l a (key x + 1) = window key l a b ++ [x] := by
  induction l with
  | nil => cases hx
  | cons y l ih =>
    obtain ⟨hy, hl⟩ := List.pairwise_cons.mp h
    unfold next? at hx
    rw [List.find?_cons] at hx
    by_cases hb : b ≤ key y
    · -- the entry is `y`, and all others are behind it
      rw [decide_eq_true hb] at hx
      obtain rfl : y = x := Option.some.inj hx
      have hnil : ∀ c, c ≤ key y + 1 → Log.window key l a c = [] := by
        intro c hc
        refine List.filter_eq_nil_iff.mpr fun z hz => ?_
        have := hy z hz
        simp only [Bool.and_eq_true, decide_eq_true_eq]
        omega
      have h1 := hnil (key y + 1) (by omega)
      have h2 := hnil b (by omega)
      unfold Log.window at h1 h2 ⊢
      rw [List.filter_cons_of_pos (by simp; omega), List.filter_cons_of_neg (by simp; omega), h1, h2]
      rfl
    · rw [decide_eq_false hb] at hx
      have hlt := hy x (next?_mem hx).1
      have := ih hl hx
      unfold Log.window at this ⊢
      by_cases ha : a ≤ key y
      · rw [List.filter_cons_of_pos (by simp; omega), List.filter_cons_of_pos (by simp; omega), this]
        rfl
      · rw [List.filter_cons_of_neg (by simp; omega), List.filter_cons_of_neg (by simp; omega), this]

/-- The window up to one of its entries. -/
theorem window_before (h : Ordered key l) {xs ys : List α} {x : α} (hw : window key l a b = xs ++ x :: ys) :
    window key l a (key x) = xs := by
  have hord : Ordered key (xs ++ x :: ys) := hw ▸ h.window
  obtain ⟨-, hcons, hlt⟩ := List.pairwise_append.mp hord
  have hb : key x < b := (mem_window.mp (hw ▸ List.mem_append_right xs List.mem_cons_self)).2.2
  calc window key l a (key x) = (window key l a b).filter fun y => key y < key x := by
        unfold window
        rw [List.filter_filter]
        congr 1
        funext y
        by_cases h1 : key y < key x <;> by_cases h2 : a ≤ key y <;> simp [h1, h2]
        omega
    _ = xs.filter (fun y => key y < key x) ++ (x :: ys).filter fun y => key y < key x := by
        rw [hw, List.filter_append]
    _ = xs ++ [] := by
        congr 1
        · exact List.filter_eq_self.mpr fun y hy => by simpa using hlt y hy x List.mem_cons_self
        · refine List.filter_eq_nil_iff.mpr fun y hy => ?_
          rcases List.mem_cons.mp hy with rfl | hy
          · simp
          · have := (List.pairwise_cons.mp hcons).1 y hy
            simp only [decide_eq_true_eq]
            omega
    _ = xs := List.append_nil xs

/-- Every entry before a key comes before it in the list. -/
def InTurn (keys : List Int) : Prop := ∀ xs x ys, keys = xs ++ x :: ys → ∀ y ∈ keys, y < x → y ∈ xs

theorem InTurn.of_append {xs ys : List Int} (h : InTurn (xs ++ ys)) : InTurn xs := by
  intro us x vs hsplit y hy hlt
  exact h us x (vs ++ ys) (by simp [hsplit]) y (List.mem_append_left ys hy) hlt

/-- The first occurrences of the keys ascend. -/
theorem InTurn.eraseDups {keys : List Int} (h : InTurn keys) : keys.eraseDups.Pairwise (· < ·) := by
  induction keys using List.reverseRecOn with
  | nil => simp
  | append_singleton keys x ih =>
    rw [List.eraseDups_append]
    by_cases hx : x ∈ keys
    · simpa [List.removeAll, hx] using ih h.of_append
    · have hlast : ([x].removeAll keys).eraseDups = [x] := by simp [List.removeAll, hx, List.eraseDups_cons]
      rw [hlast, List.pairwise_append]
      refine ⟨ih h.of_append, List.pairwise_singleton _ _, fun y hy z hz => ?_⟩
      obtain rfl := List.mem_singleton.mp hz
      have hy := List.mem_eraseDups.mp hy
      by_contra hle
      obtain ⟨us, vs, rfl⟩ := List.append_of_mem hy
      have hne : y ≠ z := by rintro rfl; exact hx hy
      have := h us y (vs ++ [z]) (by simp) z (by simp) (by omega)
      exact hx (List.mem_append_left _ this)

end Log
