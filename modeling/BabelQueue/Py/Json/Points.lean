import BabelQueue.Py.Json.Canonical

/-!
# The code points of what `dumps` writes

* `Json.All p v`: every value inside `v` has the property, `v` too.
* `Strings q v`: every string in `v` has the property, the keys included.
* `forall_mem_dumps`: a property of code points that the printable ASCII characters have holds in
  the text of a value exactly when it holds in its strings.
-/

namespace Py.Json

mutual

/-- Every value inside the value has the property, and it has. -/
def All (p : Json → Prop) : Json → Prop
  | .arr vs => p (.arr vs) ∧ allValues p vs
  | .obj ms => p (.obj ms) ∧ allEntries p ms
  | v => p v

def allValues (p : Json → Prop) : List Json → Prop
  | [] => True
  | v :: vs => All p v ∧ allValues p vs

def allEntries (p : Json → Prop) : List (Str × Json) → Prop
  | [] => True
  | (_, v) :: ms => All p v ∧ allEntries p ms

end

theorem allValues_iff {p : Json → Prop} {vs : List Json} : allValues p vs ↔ ∀ v ∈ vs, All p v := by
  induction vs with
  | nil => simp [allValues]
  | cons v vs ih => simp [allValues, ih]

theorem allEntries_iff {p : Json → Prop} {ms : List (Str × Json)} : allEntries p ms ↔ ∀ m ∈ ms, All p m.2 := by
  induction ms with
  | nil => simp [allEntries]
  | cons m ms ih => obtain ⟨k, v⟩ := m; simp only [allEntries, ih]; simp

theorem all_arr {p : Json → Prop} {vs : List Json} : All p (.arr vs) ↔ p (.arr vs) ∧ ∀ v ∈ vs, All p v := by
  rw [All, allValues_iff]

theorem all_obj {p : Json → Prop} {ms : List (Str × Json)} : All p (.obj ms) ↔ p (.obj ms) ∧ ∀ m ∈ ms, All p m.2 := by
  rw [All, allEntries_iff]

theorem all_congr {p q : Json → Prop} (h : ∀ v, p v ↔ q v) {v : Json} : v.All p ↔ v.All q := by
  rw [funext fun v => propext (h v)]

theorem all_and {p q : Json → Prop} {v : Json} : (v.All fun v => p v ∧ q v) ↔ v.All p ∧ v.All q := by
  induction v using Json.ind with
  | arr vs ih =>
    rw [all_arr, all_arr, all_arr, forall₂_congr ih]
    exact ⟨fun h => ⟨⟨h.1.1, fun v hv => (h.2 v hv).1⟩, h.1.2, fun v hv => (h.2 v hv).2⟩,
      fun h => ⟨⟨h.1.1, h.2.1⟩, fun v hv => ⟨h.1.2 v hv, h.2.2 v hv⟩⟩⟩
  | obj ms ih =>
    rw [all_obj, all_obj, all_obj, forall₂_congr ih]
    exact ⟨fun h => ⟨⟨h.1.1, fun m hm => (h.2 m hm).1⟩, h.1.2, fun m hm => (h.2 m hm).2⟩,
      fun h => ⟨⟨h.1.1, h.2.1⟩, fun m hm => ⟨h.1.2 m hm, h.2.2 m hm⟩⟩⟩
  | _ => exact Iff.rfl

/-- The tree of a value has what the value has. -/
theorem all_toTree {p : Tree → Prop} {v : Json} : (toTree v).All p ↔ v.All fun v => p (toTree v) := by
  induction v using Json.ind with
  | arr vs ih =>
    rw [all_arr, toTree, itemsToTree_eq, Tree.All, allItems_iff, List.forall_mem_map]
    exact and_congr Iff.rfl (forall₂_congr ih)
  | obj ms ih =>
    rw [all_obj, toTree, membersToTree_eq, Tree.All, allMembers_iff, List.forall_mem_map]
    exact and_congr Iff.rfl (forall₂_congr ih)
  | float x =>
    cases x with
    | nan => exact Iff.rfl
    | inf neg => exact Iff.rfl
    | finite neg m e h => exact Iff.rfl
  | _ => exact Iff.rfl

/-- The strings of one value, without those of the values inside it. -/
def OwnStrings (q : Str → Prop) : Json → Prop
  | .str s => q s
  | .obj ms => ∀ m ∈ ms, q m.1
  | _ => True

/-- Every string in the value has the property, the keys included. -/
def Strings (q : Str → Prop) (v : Json) : Prop := v.All (OwnStrings q)

theorem strings_arr {q : Str → Prop} {vs : List Json} : Strings q (.arr vs) ↔ ∀ v ∈ vs, Strings q v :=
  all_arr.trans (and_iff_right trivial)

theorem strings_obj {q : Str → Prop} {ms : List (Str × Json)} :
    Strings q (.obj ms) ↔ ∀ m ∈ ms, q m.1 ∧ Strings q m.2 := by
  refine all_obj.trans ⟨fun h m hm => ⟨h.1 m hm, h.2 m hm⟩, fun h => ⟨fun m hm => (h m hm).1, fun m hm => (h m hm).2⟩⟩

theorem strings_append {q : Str → Prop} {d e : Dict Json} :
    Strings q (.obj (d ++ e)) ↔ Strings q (.obj d) ∧ Strings q (.obj e) := by
  rw [strings_obj, strings_obj, strings_obj, List.forall_mem_append]

theorem Strings.get? {q : Str → Prop} {d : Dict Json} (h : Strings q (.obj d)) {k : Str} {v : Json}
    (hv : d.get? k = some v) : Strings q v := (strings_obj.mp h _ (Dict.mem_of_get? hv)).2

/-! ## Texts -/

section Points

variable {p : CodePoint → Prop} (hp : ∀ c, c.val ≤ 0x7E → p c)

include hp in
theorem forall_mem_encodePiece {c : CodePoint} : (∀ x ∈ (encodePiece c).text, p x) ↔ p c := by
  by_cases hc : c.val ≤ 0x7E
  · exact iff_of_true (fun x hx => hp x ((encodePiece_text_range hx).2 hc)) (hp c hc)
  · rw [encodePiece_of_not_le hc]
    simp [Piece.text]

include hp in
theorem forall_mem_strText {s : Str} : (∀ c ∈ strText s, p c) ↔ ∀ c ∈ s, p c := by
  have hquote : p (cp '"') := hp _ (by decide)
  constructor
  · intro h c hc
    refine (forall_mem_encodePiece hp).mp fun x hx => h x ?_
    simp only [strText, quoted, List.flatMap_map]
    exact List.mem_append_left _ (List.mem_cons_of_mem _ (List.mem_flatMap.mpr ⟨c, hc, hx⟩))
  · intro h x hx
    simp only [strText, quoted, List.flatMap_map, List.cons_append, List.mem_cons, List.mem_append, List.not_mem_nil,
      or_false] at hx
    rcases hx with rfl | hx | rfl
    · exact hquote
    · obtain ⟨c, hc, hx⟩ := List.mem_flatMap.mp hx
      exact (forall_mem_encodePiece hp).mpr (h c hc) x hx
    · exact hquote

include hp in
theorem forall_mem_commas {ss : List Str} : (∀ c ∈ commas ss, p c) ↔ ∀ s ∈ ss, ∀ c ∈ s, p c := by
  have hcomma : p (cp ',') := hp _ (by decide)
  induction ss with
  | nil => simp [commas]
  | cons s ss ih =>
    cases ss with
    | nil => simp [commas]
    | cons t ss =>
      rw [commas, List.forall_mem_append, List.forall_mem_cons, List.forall_mem_cons, and_iff_right hcomma]
      exact and_congr_right fun _ => ih

include hp in
theorem forall_mem_brackets {o c : CodePoint} (ho : o.val ≤ 0x7E) (hc : c.val ≤ 0x7E) {ss : List Str} :
    (∀ x ∈ o :: commas ss ++ [c], p x) ↔ ∀ s ∈ ss, ∀ x ∈ s, p x := by
  rw [List.cons_append, List.forall_mem_cons, List.forall_mem_append, forall_mem_commas hp, List.forall_mem_singleton,
    and_iff_left (hp c hc), and_iff_right (hp o ho)]

theorem forall_of_forall₂ {α β : Type} {P : α → Prop} {Q : β → Prop} {as : List α} {bs : List β}
    (h : List.Forall₂ (fun a b => Q b ↔ P a) as bs) : (∀ b ∈ bs, Q b) ↔ ∀ a ∈ as, P a := by
  induction h with
  | nil => simp
  | cons h _ ih => rw [List.forall_mem_cons, List.forall_mem_cons, h, ih]

include hp in
/-- The code points of a text come from the strings of the value, or are printable ASCII. -/
theorem forall_mem_dumpsAt {d : Nat} {v : Json} {s : Str} (h : dumpsAt true d v = .ok s) :
    (∀ c ∈ s, p c) ↔ Strings (fun t => ∀ c ∈ t, p c) v := by
  have hword : ∀ {w : Str} {v : Json}, OwnStrings (fun t => ∀ c ∈ t, p c) v →
      (∀ c ∈ w, 0x20 ≤ c.val ∧ c.val ≤ 0x7E) → ((∀ c ∈ w, p c) ↔ OwnStrings (fun t => ∀ c ∈ t, p c) v) :=
    fun ho hw => iff_of_true (fun c hc => hp c (hw c hc).2) ho
  refine dumpsAt_ind (P := fun v s => (∀ c ∈ s, p c) ↔ Strings (fun t => ∀ c ∈ t, p c) v) ?_ ?_ ?_ ?_ ?_ ?_ ?_ h
  · exact hword (v := .null) trivial (printable_of_all (by decide))
  · intro b
    refine hword (v := .bool b) trivial ?_
    cases b <;> exact printable_of_all (by decide)
  · intro i
    have hi := spells_numLit_le (NumLit.ofInt_valid i)
    rw [NumLit.ofInt_text] at hi
    exact hword (v := .int i) trivial hi
  · intro x s hs
    refine hword (v := .float x) trivial ?_
    cases x with
    | nan => cases hs; exact printable_of_all (by decide)
    | inf neg => cases hs; cases neg <;> exact printable_of_all (by decide)
    | finite neg m e hc => cases hs; exact spells_numLit_le (Float64.readsBack_reprLit neg hc).1
  · intro s
    exact forall_mem_strText hp
  · intro vs ss hall
    rw [forall_mem_brackets hp (by decide) (by decide), strings_arr]
    exact forall_of_forall₂ hall
  · intro ms ss hall
    rw [forall_mem_brackets hp (by decide) (by decide), strings_obj]
    refine forall_of_forall₂ (hall.imp ?_)
    rintro m _ ⟨t, ht, rfl⟩
    rw [List.forall_mem_append, List.forall_mem_cons, forall_mem_strText hp, ht, and_iff_right (hp _ (by decide))]

include hp in
theorem forall_mem_dumps [Interpreter] {v : Json} {s : Str} (h : dumps true v = .ok s) :
    (∀ c ∈ s, p c) ↔ Strings (fun t => ∀ c ∈ t, p c) v := forall_mem_dumpsAt hp h

end Points

end Py.Json
