import BabelQueue.Py.Text

/-!
# Dictionaries

A Python `dict` with `str` keys, in insertion order. `set` keeps the place of a key that is there
(`d[k] = v`), `erase` is `del d[k]`, and `ofPairs` is `dict(pairs)`: of the values of a repeated
key the last one stays, in the place of the first.
-/

namespace Py

/-- A `dict` with `str` keys: its items in insertion order. -/
abbrev Dict (β : Type) := List (Str × β)

namespace Dict

variable {β : Type}

/-- `d.get(k)`. -/
def get? : Dict β → Str → Option β
  | [], _ => none
  | (k', v) :: d, k => if k' = k then some v else get? d k

/-- `d[k] = v`. -/
def set : Dict β → Str → β → Dict β
  | [], k, v => [(k, v)]
  | (k', v') :: d, k, v => if k' = k then (k, v) :: d else (k', v') :: set d k v

/-- `del d[k]`, of a key that may be missing. -/
def erase (d : Dict β) (k : Str) : Dict β := d.filter (fun p => p.1 ≠ k)

/-- `k in d`. -/
def has (d : Dict β) (k : Str) : Bool := (d.get? k).isSome

/-- `dict(pairs)`. -/
def ofPairs (ps : List (Str × β)) : Dict β := ps.foldl (fun d p => set d p.1 p.2) []

def keys (d : Dict β) : List Str := d.map Prod.fst

/-- No key occurs twice. -/
def Proper (d : Dict β) : Prop := (keys d).Nodup

@[simp] theorem get?_nil (k : Str) : get? ([] : Dict β) k = none := rfl

@[simp] theorem keys_nil : keys ([] : Dict β) = [] := rfl

@[simp] theorem keys_cons (p : Str × β) (d : Dict β) : keys (p :: d) = p.1 :: keys d := rfl

@[simp] theorem get?_set_self (d : Dict β) (k : Str) (v : β) : get? (set d k v) k = some v := by
  induction d with
  | nil => simp [set, get?]
  | cons p d ih =>
    obtain ⟨k', v'⟩ := p
    by_cases h : k' = k
    · simp [set, get?, h]
    · simp [set, get?, h, ih]

theorem get?_set_of_ne (d : Dict β) {k k₂ : Str} (v : β) (h : k₂ ≠ k) :
    get? (set d k v) k₂ = get? d k₂ := by
  induction d with
  | nil => simp [set, get?, h.symm]
  | cons p d ih =>
    obtain ⟨k', v'⟩ := p
    by_cases e : k' = k
    · subst e; simp [set, get?, h.symm]
    · simp only [set, if_neg e, get?, ih]

theorem get?_set (d : Dict β) (k k₂ : Str) (v : β) :
    get? (set d k v) k₂ = if k₂ = k then some v else get? d k₂ := by
  split
  · next h => rw [h, get?_set_self]
  · next h => exact get?_set_of_ne d v h

@[simp] theorem get?_erase_self (d : Dict β) (k : Str) : get? (erase d k) k = none := by
  induction d with
  | nil => rfl
  | cons p d ih =>
    obtain ⟨k', v'⟩ := p
    by_cases e : k' = k
    · simpa [erase, e] using ih
    · simpa [erase, e, get?] using ih

theorem get?_erase_of_ne (d : Dict β) {k k₂ : Str} (h : k₂ ≠ k) :
    get? (erase d k) k₂ = get? d k₂ := by
  induction d with
  | nil => rfl
  | cons p d ih =>
    obtain ⟨k', v'⟩ := p
    by_cases e : k' = k
    · subst e; simpa [erase, get?, h.symm] using ih
    · by_cases e₂ : k' = k₂
      · simp [erase, get?, e₂, h]
      · simpa [erase, e, get?, e₂] using ih

theorem get?_eq_none_iff {d : Dict β} {k : Str} : get? d k = none ↔ k ∉ keys d := by
  induction d with
  | nil => simp
  | cons p d ih =>
    obtain ⟨k', v'⟩ := p
    by_cases e : k' = k
    · simp [get?, e]
    · simp [get?, e, ih, Ne.symm e]

theorem mem_of_get? {d : Dict β} {k : Str} {v : β} (h : get? d k = some v) : (k, v) ∈ d := by
  induction d with
  | nil => simp at h
  | cons p d ih =>
    obtain ⟨k', v'⟩ := p
    by_cases e : k' = k
    · simp only [get?, if_pos e, Option.some.injEq] at h
      simp [e, h]
    · simp only [get?, if_neg e] at h
      exact List.mem_cons_of_mem _ (ih h)

theorem get?_of_mem {d : Dict β} (hd : Proper d) {k : Str} {v : β} (h : (k, v) ∈ d) :
    get? d k = some v := by
  induction d with
  | nil => simp at h
  | cons p d ih =>
    obtain ⟨k', v'⟩ := p
    obtain ⟨hk, hd⟩ : k' ∉ keys d ∧ Proper d := by simpa [Proper] using hd
    rcases List.mem_cons.mp h with e | h
    · obtain ⟨rfl, rfl⟩ := Prod.mk.inj e; simp [get?]
    · have : k' ≠ k := by rintro rfl; exact hk (List.mem_map_of_mem h)
      simp only [get?, if_neg this, ih hd h]

theorem keys_set (d : Dict β) (k : Str) (v : β) :
    keys (set d k v) = if k ∈ keys d then keys d else keys d ++ [k] := by
  induction d with
  | nil => simp [set]
  | cons p d ih =>
    obtain ⟨k', v'⟩ := p
    by_cases e : k' = k
    · simp [set, e]
    · simp only [set, if_neg e, keys_cons, ih, List.mem_cons, Ne.symm e, false_or]
      split <;> simp

theorem Proper.set {d : Dict β} (hd : Proper d) (k : Str) (v : β) : Proper (d.set k v) := by
  simp only [Proper, keys_set]
  split
  · exact hd
  · next h => exact List.nodup_append.mpr ⟨hd, by simp, by simpa using fun a ha => by rintro rfl; exact h ha⟩

theorem Proper.erase {d : Dict β} (hd : Proper d) (k : Str) : Proper (d.erase k) :=
  List.Nodup.sublist (List.Sublist.map _ List.filter_sublist) hd

theorem set_mem {d : Dict β} {k : Str} {v : β} {p : Str × β} (h : p ∈ d.set k v) :
    p = (k, v) ∨ p ∈ d := by
  induction d with
  | nil => simpa [Dict.set] using h
  | cons q d ih =>
    obtain ⟨k', v'⟩ := q
    by_cases e : k' = k
    · simp only [Dict.set, if_pos e, List.mem_cons] at h
      rcases h with h | h
      · exact Or.inl h
      · exact Or.inr (List.mem_cons_of_mem _ h)
    · simp only [Dict.set, if_neg e, List.mem_cons] at h
      rcases h with h | h
      · exact Or.inr (by simp [h])
      · exact (ih h).imp id (List.mem_cons_of_mem _)

/-! ## A key written twice, or written and deleted -/

@[simp] theorem set_set (d : Dict β) (k : Str) (v w : β) : (d.set k v).set k w = d.set k w := by
  induction d with
  | nil => simp [Dict.set]
  | cons p d ih =>
    obtain ⟨k', v'⟩ := p
    by_cases e : k' = k
    · simp [Dict.set, e]
    · simp [Dict.set, e, ih]

@[simp] theorem erase_set_self (d : Dict β) (k : Str) (v : β) : (d.set k v).erase k = d.erase k := by
  induction d with
  | nil => simp [Dict.set, Dict.erase]
  | cons p d ih =>
    obtain ⟨k', v'⟩ := p
    by_cases e : k' = k
    · simp [Dict.set, Dict.erase, e]
    · simpa [Dict.set, Dict.erase, e] using ih

theorem erase_cons (p : Str × β) (d : Dict β) (k : Str) :
    erase (p :: d) k = if p.1 = k then erase d k else p :: erase d k := by
  by_cases h : p.1 = k <;> simp [Dict.erase, h]

theorem erase_set_of_ne (d : Dict β) {k k' : Str} (v : β) (h : k ≠ k') :
    (d.set k v).erase k' = (d.erase k').set k v := by
  induction d with
  | nil => simp [Dict.set, Dict.erase, h]
  | cons p d ih =>
    obtain ⟨k₀, v₀⟩ := p
    by_cases e : k₀ = k
    · subst e; simp [Dict.set, erase_cons, h]
    · by_cases e' : k₀ = k'
      · simp only [Dict.set, if_neg e, erase_cons, if_pos e', ih]
      · simp only [Dict.set, if_neg e, erase_cons, if_neg e', ih]

theorem set_ne_nil (d : Dict β) (k : Str) (v : β) : d.set k v ≠ [] := by
  cases d with
  | nil => simp [Dict.set]
  | cons p d => obtain ⟨k', v'⟩ := p; simp only [Dict.set]; split <;> simp

/-- The dictionary with `f` of each value. -/
def mapValues {γ : Type} (f : β → γ) (d : Dict β) : Dict γ := List.map (fun p => (p.1, f p.2)) d

theorem get?_mapValues {γ : Type} (f : β → γ) (d : Dict β) (k : Str) :
    get? (mapValues f d) k = (get? d k).map f := by
  induction d with
  | nil => rfl
  | cons p d ih =>
    obtain ⟨k', v⟩ := p
    have ih : get? (List.map (fun p => (p.1, f p.2)) d) k = (get? d k).map f := ih
    simp only [mapValues, List.map_cons, get?]
    split
    · rfl
    · exact ih

theorem mapValues_set {γ : Type} (f : β → γ) (d : Dict β) (k : Str) (v : β) :
    mapValues f (d.set k v) = (mapValues f d).set k (f v) := by
  induction d with
  | nil => rfl
  | cons p d ih =>
    obtain ⟨k', v'⟩ := p
    simp only [mapValues, List.map_cons, Dict.set] at ih ⊢
    split
    · rfl
    · rw [List.map_cons, ih]

/-- Writing what is there changes nothing. -/
theorem set_of_get? {d : Dict β} {k : Str} {v : β} (h : get? d k = some v) : d.set k v = d := by
  induction d with
  | nil => simp at h
  | cons p d ih =>
    obtain ⟨k', v'⟩ := p
    by_cases e : k' = k
    · simp only [get?, if_pos e, Option.some.injEq] at h
      simp [Dict.set, e, h]
    · simp only [get?, if_neg e] at h
      simp [Dict.set, e, ih h]

theorem set_of_not_mem {d : Dict β} {k : Str} (hk : k ∉ keys d) (v : β) : d.set k v = d ++ [(k, v)] := by
  induction d with
  | nil => rfl
  | cons p d ih =>
    obtain ⟨k', v'⟩ := p
    simp only [keys_cons, List.mem_cons, not_or] at hk
    simp [Dict.set, Ne.symm hk.1, ih hk.2]

theorem keys_mapValues {γ : Type} (f : β → γ) (d : Dict β) : keys (mapValues f d) = keys d := by
  simp [keys, mapValues, Function.comp_def]

/-! ## `dict(pairs)` -/

theorem ofPairs_append_singleton (ps : List (Str × β)) (k : Str) (v : β) :
    ofPairs (ps ++ [(k, v)]) = (ofPairs ps).set k v := by
  simp [ofPairs, List.foldl_append]

theorem ofPairs_proper (ps : List (Str × β)) : Proper (ofPairs ps) := by
  induction ps using List.reverseRecOn with
  | nil => simp [ofPairs, Proper]
  | append_singleton ps p ih =>
    obtain ⟨k, v⟩ := p
    rw [ofPairs_append_singleton]; exact ih.set k v

theorem mem_of_mem_ofPairs {ps : List (Str × β)} {p : Str × β} (h : p ∈ ofPairs ps) : p ∈ ps := by
  induction ps using List.reverseRecOn with
  | nil => exact h
  | append_singleton ps q ih =>
    obtain ⟨k, v⟩ := q
    rw [ofPairs_append_singleton] at h
    rcases set_mem h with rfl | h
    · simp
    · exact List.mem_append_left _ (ih h)

theorem keys_ofPairs (ps : List (Str × β)) (k : Str) : k ∈ keys (ofPairs ps) ↔ k ∈ keys ps := by
  induction ps using List.reverseRecOn with
  | nil => rfl
  | append_singleton ps q ih =>
    obtain ⟨k', v⟩ := q
    rw [ofPairs_append_singleton, keys_set]
    have hk : keys (ps ++ [(k', v)]) = keys ps ++ [k'] := by simp [keys]
    split
    · next h => simp only [hk, List.mem_append, ih, List.mem_singleton]; grind
    · simp only [hk, List.mem_append, ih]

/-- A list without a repeated key is its own `dict`. -/
theorem ofPairs_of_proper {ps : List (Str × β)} (h : Proper ps) : ofPairs ps = ps := by
  induction ps using List.reverseRecOn with
  | nil => rfl
  | append_singleton ps q ih =>
    obtain ⟨k, v⟩ := q
    have hk : keys (ps ++ [(k, v)]) = keys ps ++ [k] := by simp [keys]
    rw [Proper, hk, List.nodup_append] at h
    rw [ofPairs_append_singleton, ih h.1, set_of_not_mem (fun hm => h.2.2 k hm k (by simp) rfl)]

theorem get?_append (d e : Dict β) (k : Str) : get? (d ++ e) k = (get? d k).or (get? e k) := by
  induction d with
  | nil => rfl
  | cons p d ih =>
    show (if p.1 = k then some p.2 else get? (d ++ e) k) = (if p.1 = k then some p.2 else get? d k).or (get? e k)
    split
    · rfl
    · exact ih

/-- `base.update(d)` -/
theorem get?_update {d : Dict β} (hd : Proper d) (base : Dict β) (k : Str) :
    get? (d.foldl (fun base p => set base p.1 p.2) base) k = (get? d k).or (get? base k) := by
  induction d generalizing base with
  | nil => rfl
  | cons p d ih =>
    obtain ⟨hp, hd⟩ := List.nodup_cons.mp hd
    show get? (d.foldl _ (set base p.1 p.2)) k = (if p.1 = k then some p.2 else get? d k).or (get? base k)
    rw [ih hd, get?_set]
    by_cases h : p.1 = k
    · subst h
      rw [get?_eq_none_iff.mpr hp, if_pos rfl, if_pos rfl]
      rfl
    · rw [if_neg h, if_neg (Ne.symm h)]

/-- New keys are put at the end. -/
theorem update_of_not_mem {d : Dict β} (hd : Proper d) (base : Dict β) (h : ∀ k ∈ keys d, k ∉ keys base) :
    d.foldl (fun base p => set base p.1 p.2) base = base ++ d := by
  induction d generalizing base with
  | nil => rw [List.foldl_nil, List.append_nil]
  | cons p d ih =>
    obtain ⟨hp, hd⟩ := List.nodup_cons.mp hd
    rw [List.foldl_cons, set_of_not_mem (h _ List.mem_cons_self), ih hd, List.append_assoc]
    · rfl
    · intro k hk hmem
      rw [keys, List.map_append, List.mem_append] at hmem
      rcases hmem with hmem | hmem
      · exact h k (List.mem_cons_of_mem _ hk) hmem
      · exact hp (List.mem_singleton.mp hmem ▸ hk)

/-- The order of the items does not matter. -/
theorem get?_perm {d e : Dict β} (hd : Proper d) (h : d.Perm e) (k : Str) : get? d k = get? e k := by
  have he : Proper e := (h.map Prod.fst).nodup_iff.mp hd
  cases hk : get? e k with
  | none =>
    rw [get?_eq_none_iff] at hk ⊢
    exact fun hm => hk ((h.map Prod.fst).mem_iff.mp hm)
  | some v => exact get?_of_mem hd (h.mem_iff.mpr (mem_of_get? hk))

end Dict

end Py
