import BabelQueue.Gdpr.RoundTrip
import BabelQueue.Py.Json.Path.Reach

/-!
# What `protect` encrypts

The marked locations are visited as they are read back from strings. `protect` encrypts exactly
them when, as far as the data goes, the locations read back lead to the same values.

* `Exact`: exactly the marked values are encrypted, and the rest of the output does not depend on
  them.
* `protect_exact`: the data for which that holds.
* `exact_of_plain`: all data, when the names are plain.
-/

namespace BabelQueue

open Py Py.Json

/-- The marked locations but the root. -/
def markedPaths (schema : Json) : List Path := (marks schema).filter (· ≠ [])

section

variable {σ : Type}

/-- A string that encryption returns. -/
def IsCiphertext (cipher : Cipher σ) (v : Json) : Prop := ∃ x s c s', cipher.encrypt x s = (.ok c, s') ∧ v = .str c

variable [Interpreter] {cipher : Cipher σ}

theorem closed_writable : Closed fun n v => n ≤ Interpreter.maxDepth ∧ Writable n v where
  member := by
    rintro n d k v ⟨hn, h⟩ hv
    obtain ⟨m, rfl, -⟩ := writable_obj.mp h
    exact ⟨m, ⟨by omega, h.get? hv⟩, fun w hw => ⟨hn, h.set k hw.2⟩⟩
  items := by
    rintro n vs ⟨hn, h⟩
    obtain ⟨m, rfl, hvs⟩ := writable_arr.mp h
    exact ⟨m, fun v hv => ⟨by omega, hvs v hv⟩, fun ws hws => ⟨hn, writable_arr.mpr ⟨m, rfl, fun w hw => (hws w hw).2⟩⟩⟩

theorem returns_ciphertext (hc : ∀ x s, ∃ c s', cipher.encrypt x s = (.ok c, s')) :
    ReturnsOn (fun n v => n ≤ Interpreter.maxDepth ∧ Writable n v) (fun _ w => IsCiphertext cipher w)
      (applyLeaf (encryptLeaf cipher)) := by
  rintro n s v ⟨hn, hv⟩
  obtain ⟨text, x, ht, hx⟩ := dumpsCanonical_bytes (hv.mono hn)
  obtain ⟨c, s', hrun⟩ := hc x s
  exact ⟨s', .str c, (applyLeaf_encrypt ht hx).mpr ⟨c, hrun, rfl⟩, ⟨hn, writable_str n c⟩, x, s, c, s', hrun, rfl⟩

theorem protect_visits (hc : ∀ x s, ∃ c s', cipher.encrypt x s = (.ok c, s')) (schema : Json) {v : Json}
    (hv : Writable Interpreter.maxDepth v) (s : σ) :
    ∃ s' w, protect cipher schema (s, v) = (.ok (), (s', w)) ∧
      VisitsAll (fun _ w => IsCiphertext cipher w) (readPaths schema) v w := by
  obtain ⟨s', w, hrun, -, hw⟩ := walk_returns closed_writable (returns_ciphertext hc) _ s v ⟨le_refl _, hv⟩
  exact ⟨s', w, hrun, hw⟩

omit [Interpreter] in
theorem IsCiphertext.isScalar {v : Json} (h : IsCiphertext cipher v) : isScalar v = true := by
  obtain ⟨_, _, _, _, _, rfl⟩ := h
  rfl

end

section

variable [Interpreter]

/-- `protect` replaces the marked values by ciphertexts and changes nothing else, so on data that differs in marked
values only it differs in ciphertexts only. -/
structure Exact (schema : Json) (data : Dict Json) : Prop where
  encrypts : ∀ (σ : Type) (cipher : Cipher σ), (∀ x s, ∃ c s', cipher.encrypt x s = (.ok c, s')) →
    ∀ s, ∃ s' out, protect cipher schema (s, .obj data) = (.ok (), (s', out)) ∧
      Outside (fun _ w => IsCiphertext cipher w) (markedPaths schema) (.obj data) out
  hides : ∀ (σ : Type) (cipher : Cipher σ), (∀ x s, ∃ c s', cipher.encrypt x s = (.ok c, s')) →
    ∀ data', IsJson (.obj data') → Outside (fun _ _ => True) (markedPaths schema) (.obj data) (.obj data') →
    ∀ s t s' out t' out', protect cipher schema (s, .obj data) = (.ok (), (s', out)) →
      protect cipher schema (t, .obj data') = (.ok (), (t', out')) →
      Outside (fun w w' => IsCiphertext cipher w ∧ IsCiphertext cipher w') (markedPaths schema) out out'

variable {schema : Json} {data : Dict Json}

theorem protect_outside {σ : Type} {cipher : Cipher σ} (hc : ∀ x s, ∃ c s', cipher.encrypt x s = (.ok c, s'))
    (hv : Writable Interpreter.maxDepth (.obj data)) (hm : Meets (markedPaths schema) (readPaths schema) (.obj data))
    (s : σ) : ∃ s' out, protect cipher schema (s, .obj data) = (.ok (), (s', out)) ∧
      Outside (fun _ w => IsCiphertext cipher w) (markedPaths schema) (.obj data) out := by
  obtain ⟨s', out, hrun, hvisits⟩ := protect_visits hc schema hv s
  exact ⟨s', out, hrun, outside_of_visits (C := IsCiphertext cipher) (fun _ _ h => h) (fun _ => IsCiphertext.isScalar) hm hvisits⟩

theorem exact_of_meets (hv : Writable Interpreter.maxDepth (.obj data))
    (hm : Meets (markedPaths schema) (readPaths schema) (.obj data)) : Exact schema data where
  encrypts _ _ hc s := protect_outside hc hv hm s
  hides := by
    rintro σ cipher hc data' hjson hsame s t s' out t' out' hrun hrun'
    obtain ⟨_, _, hrun₁, ho⟩ := protect_outside hc hv hm s
    obtain ⟨_, _, hrun₂, ho'⟩ := protect_outside hc (isJson_iff.mp hjson).writable (hm.congr hsame) t
    cases hrun.symm.trans hrun₁
    cases hrun'.symm.trans hrun₂
    exact outside_both ho ho' hsame

/-! ## Data that shows the difference -/

/-- Every string in `v` has at most `n` characters. -/
def Short (n : Nat) (v : Json) : Prop := ∀ p t, .str t ∈ valuesAt p v → t.length ≤ n

omit [Interpreter] in
theorem exists_bound {α : Type} {P : Nat → α → Prop} (hP : ∀ {n m a}, P n a → n ≤ m → P m a) {as : List α}
    (h : ∀ a ∈ as, ∃ n, P n a) : ∃ n, ∀ a ∈ as, P n a := by
  induction as with
  | nil => exact ⟨0, by simp⟩
  | cons a as ih =>
    obtain ⟨ha, has⟩ := List.forall_mem_cons.mp h
    obtain ⟨n, hn⟩ := ha
    obtain ⟨m, hm⟩ := ih has
    exact ⟨max n m, List.forall_mem_cons.mpr ⟨hP hn (le_max_left n m), fun b hb => hP (hm b hb) (le_max_right n m)⟩⟩

omit [Interpreter] in
theorem Short.mono {n m : Nat} {v : Json} (h : Short n v) (hm : n ≤ m) : Short m v :=
  fun p t ht => (h p t ht).trans hm

omit [Interpreter] in
theorem exists_short (v : Json) : ∃ n, Short n v := by
  have hscalar : ∀ {v : Json}, isScalar v = true → (∀ t, v ≠ .str t) → ∃ n, Short n v := by
    intro v hv hne
    refine ⟨0, fun p t ht => ?_⟩
    cases p with
    | nil => exact absurd (List.mem_singleton.mp ht).symm (hne t)
    | cons s p => cases v <;> cases s <;> first | cases ht | cases hv
  induction v using Json.ind with
  | str t =>
    refine ⟨t.length, fun p u hu => ?_⟩
    cases p with
    | nil => cases List.mem_singleton.mp hu; exact le_refl _
    | cons s p => cases s <;> cases hu
  | arr vs ih =>
    obtain ⟨n, hn⟩ := exists_bound (fun h hm => h.mono hm) ih
    refine ⟨n, fun p t ht => ?_⟩
    rcases p with _ | ⟨_ | _, p⟩
    · cases List.mem_singleton.mp ht
    · cases ht
    · obtain ⟨v, hv, ht⟩ := List.mem_flatMap.mp ht
      exact hn v hv p t ht
  | obj d ih =>
    obtain ⟨n, hn⟩ := exists_bound (P := fun n (m : Str × Json) => Short n m.2) (fun h hm => h.mono hm) ih
    refine ⟨n, fun p t ht => ?_⟩
    rcases p with _ | ⟨k | _, p⟩
    · cases List.mem_singleton.mp ht
    · cases hg : Dict.get? d k with
      | none => simp [valuesAt, hg] at ht
      | some v =>
        simp only [valuesAt, hg] at ht
        exact hn _ (Dict.mem_of_get? hg) p t ht
    · cases ht
  | _ => exact hscalar rfl (by simp)

theorem meets_of_exact (hv : Writable Interpreter.maxDepth (.obj data)) (h : Exact schema data) :
    Meets (markedPaths schema) (readPaths schema) (.obj data) := by
  obtain ⟨n, hn⟩ := exists_short (.obj data)
  have hc : ∀ x s, ∃ c s', (byteCipher (n + 1)).encrypt x s = (.ok c, s') := (byteCipher_lawful (n + 1)).returns
  obtain ⟨s', out, hrun, ho⟩ := h.encrypts Unit _ hc ()
  obtain ⟨_, _, hrun', hvisits⟩ := protect_visits hc schema hv ()
  cases hrun.symm.trans hrun'
  refine meets_of_outside (C := IsCiphertext (byteCipher (n + 1))) (fun _ _ h => h) (fun _ => IsCiphertext.isScalar) (fun p x hx hcipher => ?_) hvisits ho
  obtain ⟨y, s, c, s', henc, rfl⟩ := hcipher
  cases henc
  have := hn p _ hx
  rw [List.length_append, List.length_replicate] at this
  omega

/-- With plain names that is all data. -/
theorem exact_of_plain (hplain : ∀ p ∈ marks schema, PlainPath p) (h : IsJson (.obj data)) : Exact schema data := by
  have hmem : ∀ q, q ∈ readPaths schema ↔ q ∈ markedPaths schema := by
    intro q
    rw [mem_readPaths_of_plain hplain, markedPaths, List.mem_filter, decide_eq_true_iff]
  exact exact_of_meets (isJson_iff.mp h).writable
    ⟨fun p hp _ => ⟨p, (hmem p).mpr hp, List.prefix_refl p⟩, fun q hq _ => ⟨q, (hmem q).mp hq, List.prefix_refl q⟩⟩

end

section CPython

attribute [local instance] cpython

/-- Marked items of the items of a property. -/
def gridSchema : Json :=
  .obj [(str "properties", .obj [(str "grid", .obj [(str "items", .obj [(str "items", sensitiveNode [])])])])]

def gridData : Dict Json := [(str "grid", .arr [.arr [.str (str "Alice")]])]

end CPython

end BabelQueue
