import BabelQueue.Py.Json.Path

/-!
# Two lists of paths in one value

* `Meets ps qs v`: what a path of either list leads to in `v` is at or inside what one of the other leads to.
* `outside_of_visits`: to visit `qs` is then to change exactly what is at `ps`, and `meets_of_outside` is the
  converse, when the visit leaves a mark that `v` does not have.
* `outside_both`: two values that agree outside `ps` are still so after such visits.
-/

namespace Py.Json

/-- A path of `ps` that leads anywhere in `v` continues one of `qs`. -/
def Covered (ps qs : List Path) (v : Json) : Prop := ∀ p ∈ ps, valuesAt p v ≠ [] → ∃ q ∈ qs, q <+: p

/-- Each list covers the other one. -/
def Meets (ps qs : List Path) (v : Json) : Prop := Covered ps qs v ∧ Covered qs ps v

section Covered

variable {ps qs : List Path} {v : Json}

theorem covered_of_nil (h : [] ∈ qs) : Covered ps qs v := fun _ _ _ => ⟨[], h, List.nil_prefix⟩

theorem Covered.nil (h : Covered ps qs v) (hp : [] ∈ ps) : [] ∈ qs := by
  obtain ⟨q, hq, hpre⟩ := h [] hp (by simp [valuesAt])
  rwa [List.prefix_nil.mp hpre] at hq

theorem covered_scalar (hp : [] ∉ ps) (hv : isScalar v = true) : Covered ps qs v := by
  intro p hm hne
  obtain ⟨s, p, rfl⟩ := List.exists_cons_of_ne_nil (show p ≠ [] from fun e => hp (e ▸ hm))
  refine absurd ?_ hne
  cases v <;> cases s <;> first | rfl | cases hv

/-- Where no path of `qs` ends, one of them goes the same step. -/
theorem prefix_of_step {s : Step} {p : Path} (hq : [] ∉ qs) :
    (∃ q ∈ qs, q <+: s :: p) ↔ ∃ q ∈ tails s qs, q <+: p := by
  constructor
  · rintro ⟨q, hm, hpre⟩
    obtain ⟨s', q, rfl⟩ := List.exists_cons_of_ne_nil (show q ≠ [] from fun e => hq (e ▸ hm))
    obtain ⟨rfl, hrest⟩ := List.cons_prefix_cons.mp hpre
    exact ⟨q, mem_tails.mpr hm, hrest⟩
  · rintro ⟨q, hm, hpre⟩
    exact ⟨s :: q, mem_tails.mp hm, List.cons_prefix_cons.mpr ⟨rfl, hpre⟩⟩

theorem covered_arr (hp : [] ∉ ps) (hq : [] ∉ qs) {vs : List Json} :
    Covered ps qs (.arr vs) ↔ ∀ v ∈ vs, Covered (tails .items ps) (tails .items qs) v := by
  constructor
  · intro h v hv p hm hne
    refine (prefix_of_step hq).mp (h _ (mem_tails.mp hm) fun e => hne ?_)
    exact List.flatMap_eq_nil_iff.mp e v hv
  · intro h p hm hne
    obtain ⟨s, p, rfl⟩ := List.exists_cons_of_ne_nil (show p ≠ [] from fun e => hp (e ▸ hm))
    cases s with
    | key k => exact absurd rfl hne
    | items =>
      obtain ⟨v, hv, hne⟩ : ∃ v ∈ vs, valuesAt p v ≠ [] := by
        by_contra hn
        push Not at hn
        exact hne (List.flatMap_eq_nil_iff.mpr hn)
      exact (prefix_of_step hq).mpr (h v hv p (mem_tails.mpr hm) hne)

theorem covered_obj (hp : [] ∉ ps) (hq : [] ∉ qs) {d : Dict Json} :
    Covered ps qs (.obj d) ↔ ∀ k v, d.get? k = some v → Covered (tails (.key k) ps) (tails (.key k) qs) v := by
  constructor
  · intro h k v hv p hm hne
    refine (prefix_of_step hq).mp (h _ (mem_tails.mp hm) ?_)
    simpa only [valuesAt, hv] using hne
  · intro h p hm hne
    obtain ⟨s, p, rfl⟩ := List.exists_cons_of_ne_nil (show p ≠ [] from fun e => hp (e ▸ hm))
    cases s with
    | items => exact absurd rfl hne
    | key k =>
      cases hv : d.get? k with
      | none => simp [valuesAt, hv] at hne
      | some v =>
        simp only [valuesAt, hv] at hne
        exact (prefix_of_step hq).mpr (h k v hv p (mem_tails.mpr hm) hne)

end Covered

section Meets

variable {ps qs : List Path} {v : Json}

theorem Meets.nil_iff (h : Meets ps qs v) : [] ∈ ps ↔ [] ∈ qs := ⟨h.1.nil, h.2.nil⟩

theorem meets_of_nil (hp : [] ∈ ps) (hq : [] ∈ qs) : Meets ps qs v := ⟨covered_of_nil hq, covered_of_nil hp⟩

theorem meets_scalar (hp : [] ∉ ps) (hq : [] ∉ qs) (hv : isScalar v = true) : Meets ps qs v :=
  ⟨covered_scalar hp hv, covered_scalar hq hv⟩

theorem meets_arr (hp : [] ∉ ps) (hq : [] ∉ qs) {vs : List Json} :
    Meets ps qs (.arr vs) ↔ ∀ v ∈ vs, Meets (tails .items ps) (tails .items qs) v := by
  rw [Meets, covered_arr hp hq, covered_arr hq hp]
  exact ⟨fun h v hv => ⟨h.1 v hv, h.2 v hv⟩, fun h => ⟨fun v hv => (h v hv).1, fun v hv => (h v hv).2⟩⟩

theorem meets_obj (hp : [] ∉ ps) (hq : [] ∉ qs) {d : Dict Json} :
    Meets ps qs (.obj d) ↔ ∀ k v, d.get? k = some v → Meets (tails (.key k) ps) (tails (.key k) qs) v := by
  rw [Meets, covered_obj hp hq, covered_obj hq hp]
  exact ⟨fun h k v hv => ⟨h.1 k v hv, h.2 k v hv⟩, fun h => ⟨fun k v hv => (h k v hv).1, fun k v hv => (h k v hv).2⟩⟩

end Meets

/-! ## Visits that leave a mark -/

section Mark

variable {E : Json → Json → Prop} {C : Json → Prop} (hE : ∀ v c, E v c → C c) (hC : ∀ c, C c → isScalar c = true)

include hE hC

theorem visitsAll_here {qs : List Path} (hq : [] ∈ qs) {v w : Json} (h : VisitsAll E qs v w) : C w := by
  induction qs generalizing v with
  | nil => cases hq
  | cons q qs ih =>
    obtain ⟨u, hu, h⟩ := h
    by_cases hm : [] ∈ qs
    · exact ih hm h
    · obtain rfl : [] = q := (List.mem_cons.mp hq).resolve_right hm
      have hc := hE v u hu
      rwa [(visitsAll_scalar hm (hC u hc)).mp h]

/-- The visit changes exactly what is at `ps`. -/
theorem outside_of_visits {ps qs : List Path} {v w : Json} (hm : Meets ps qs v) (h : VisitsAll E qs v w) :
    Outside (fun _ w => C w) ps v w := by
  by_cases hq : [] ∈ qs
  · exact .marked (hm.nil_iff.mpr hq) (visitsAll_here hE hC hq h)
  have hp := mt hm.nil_iff.mp hq
  induction v using Json.ind generalizing ps qs w with
  | arr vs ih =>
    obtain ⟨ws, rfl, hws⟩ := (visitsAll_arr hq).mp h
    refine .arr hp hws.length_eq fun i v w hv hw => ?_
    obtain ⟨hi, rfl⟩ := List.getElem?_eq_some_iff.mp hv
    obtain ⟨hi', rfl⟩ := List.getElem?_eq_some_iff.mp hw
    have hmi := (meets_arr hp hq).mp hm _ (List.getElem_mem hi)
    by_cases hqi : [] ∈ tails .items qs
    · exact .marked (hmi.nil_iff.mpr hqi) (visitsAll_here hE hC hqi (hws.get hi hi'))
    · exact ih _ (List.getElem_mem hi) hmi (hws.get hi hi') hqi (mt hmi.nil_iff.mp hqi)
  | obj d ih =>
    obtain ⟨e, rfl, hk, he⟩ := visitsAll_obj hq h
    refine .obj hp ?_ fun k v w hv hw => ?_
    · intro k
      have : e.get? k = none ↔ Dict.get? d k = none := by rw [Dict.get?_eq_none_iff, Dict.get?_eq_none_iff, hk]
      rw [Dict.has, Dict.has, Bool.eq_iff_iff, Option.isSome_iff_ne_none, Option.isSome_iff_ne_none, ne_eq, this]
    · obtain ⟨w', hw', hvis⟩ := he k v hv
      obtain rfl := Option.some.inj (hw.symm.trans hw')
      have hmk := (meets_obj hp hq).mp hm k v hv
      by_cases hqk : [] ∈ tails (.key k) qs
      · exact .marked (hmk.nil_iff.mpr hqk) (visitsAll_here hE hC hqk hvis)
      · exact ih (k, v) (Dict.mem_of_get? hv) hmk hvis hqk (mt hmk.nil_iff.mp hqk)
  | _ =>
    rw [(visitsAll_scalar hq rfl).mp h]
    exact .scalar hp rfl

/-- If the visit changes exactly what is at `ps`, and its mark is new, the lists meet. -/
theorem meets_of_outside {ps qs : List Path} {v w : Json} (hfresh : ∀ p, ∀ x ∈ valuesAt p v, ¬ C x)
    (h : VisitsAll E qs v w) (ho : Outside (fun _ w => C w) ps v w) : Meets ps qs v := by
  induction v using Json.ind generalizing ps qs w with
  | arr vs ih =>
    by_cases hq : [] ∈ qs
    · cases ho with
      | marked hp _ => exact meets_of_nil hp hq
      | scalar _ hs => cases hs
      | arr _ _ _ => cases hC _ (visitsAll_here hE hC hq h)
    obtain ⟨ws, rfl, hws⟩ := (visitsAll_arr hq).mp h
    cases ho with
    | marked _ hc => cases hC _ hc
    | scalar _ hs => cases hs
    | arr hp _ hall =>
      refine (meets_arr hp hq).mpr fun v hv => ?_
      obtain ⟨i, hi, rfl⟩ := List.mem_iff_getElem.mp hv
      have hi' : i < ws.length := hws.length_eq ▸ hi
      refine ih _ hv (fun p x hx => hfresh (.items :: p) x (List.mem_flatMap.mpr ⟨_, hv, hx⟩)) (hws.get hi hi')
        (hall i _ _ (List.getElem?_eq_getElem hi) (List.getElem?_eq_getElem hi'))
  | obj d ih =>
    by_cases hq : [] ∈ qs
    · cases ho with
      | marked hp _ => exact meets_of_nil hp hq
      | scalar _ hs => cases hs
      | obj _ _ _ => cases hC _ (visitsAll_here hE hC hq h)
    obtain ⟨e, rfl, hk, he⟩ := visitsAll_obj hq h
    cases ho with
    | marked _ hc => cases hC _ hc
    | scalar _ hs => cases hs
    | obj hp _ hall =>
      refine (meets_obj hp hq).mpr fun k v hv => ?_
      obtain ⟨w, hw, hvis⟩ := he k v hv
      refine ih (k, v) (Dict.mem_of_get? hv) (fun p x hx => hfresh (.key k :: p) x ?_) hvis (hall k v w hv hw)
      simpa only [valuesAt, hv] using hx
  | _ =>
    by_cases hq : [] ∈ qs
    · cases ho with
      | marked hp _ => exact meets_of_nil hp hq
      | scalar _ _ => exact absurd (visitsAll_here hE hC hq h) (hfresh [] _ (by simp [valuesAt]))
    · obtain rfl := (visitsAll_scalar hq rfl).mp h
      cases ho with
      | marked _ hc => exact absurd hc (hfresh [] _ (by simp [valuesAt]))
      | scalar hp _ => exact meets_scalar hp hq rfl

end Mark

/-! ## Two values that agree outside the paths -/

theorem Meets.congr {ps qs : List Path} {v v' : Json} (h : Meets ps qs v) (ho : Outside (fun _ _ => True) ps v v') :
    Meets ps qs v' := by
  induction ho generalizing qs with
  | marked hp _ => exact meets_of_nil hp (h.nil_iff.mp hp)
  | scalar _ _ => exact h
  | @arr ps vs ws hp hl _ ih =>
    have hq := mt h.nil_iff.mpr hp
    refine (meets_arr hp hq).mpr fun w hw => ?_
    obtain ⟨i, hi, rfl⟩ := List.mem_iff_getElem.mp hw
    have hi' : i < vs.length := hl ▸ hi
    exact ih i _ _ (List.getElem?_eq_getElem hi') (List.getElem?_eq_getElem hi)
      ((meets_arr hp hq).mp h _ (List.getElem_mem hi'))
  | @obj ps d e hp hk _ ih =>
    have hq := mt h.nil_iff.mpr hp
    refine (meets_obj hp hq).mpr fun k w hw => ?_
    obtain ⟨v, hv⟩ : ∃ v, d.get? k = some v := by
      have := hk k
      rw [Dict.has, Dict.has, hw] at this
      exact Option.isSome_iff_exists.mp this.symm
    exact ih k v w hv hw ((meets_obj hp hq).mp h k v hv)

/-- Two values that agree outside `ps` still do when only what is there is changed. -/
theorem outside_both {C : Json → Prop} {ps : List Path} {v w v' w' : Json} (h : Outside (fun _ w => C w) ps v w)
    (h' : Outside (fun _ w => C w) ps v' w') (ho : Outside (fun _ _ => True) ps v v') :
    Outside (fun w w' => C w ∧ C w') ps w w' := by
  induction h generalizing v' w' with
  | marked hp hc =>
    cases h' with
    | marked _ hc' => exact .marked hp ⟨hc, hc'⟩
    | scalar hn _ => exact absurd hp hn
    | arr hn _ _ => exact absurd hp hn
    | obj hn _ _ => exact absurd hp hn
  | scalar hn hs =>
    cases ho with
    | marked hp _ => exact absurd hp hn
    | scalar _ _ =>
      cases h' with
      | marked hp _ => exact absurd hp hn
      | scalar _ _ => exact .scalar hn hs
      | arr _ _ _ => cases hs
      | obj _ _ _ => cases hs
    | arr _ _ _ => cases hs
    | obj _ _ _ => cases hs
  | @arr ps vs ws hn hl _ ih =>
    cases ho with
    | marked hp _ => exact absurd hp hn
    | scalar _ hs => cases hs
    | @arr _ _ vs' _ hl' ho =>
      cases h' with
      | marked hp _ => exact absurd hp hn
      | scalar _ hs => cases hs
      | @arr _ _ ws' _ hl'' h' =>
        refine .arr hn (by omega) fun i w w' hw hw' => ?_
        obtain ⟨hi, -⟩ := List.getElem?_eq_some_iff.mp hw
        have hv := List.getElem?_eq_getElem (show i < vs.length by omega)
        have hv' := List.getElem?_eq_getElem (show i < vs'.length by omega)
        exact ih i _ w hv hw (h' i _ w' hv' hw') (ho i _ _ hv hv')
  | @obj ps d e hn hk _ ih =>
    cases ho with
    | marked hp _ => exact absurd hp hn
    | scalar _ hs => cases hs
    | @obj _ _ d' _ hk' ho =>
      cases h' with
      | marked hp _ => exact absurd hp hn
      | scalar _ hs => cases hs
      | @obj _ _ e' _ hk'' h' =>
        refine .obj hn (fun k => by rw [hk'', hk', hk]) fun k w w' hw hw' => ?_
        have hhas : d.has k = true := by rw [← hk, Dict.has, hw]; rfl
        have hhas' : d'.has k = true := by rw [hk', hhas]
        obtain ⟨v, hv⟩ := Option.isSome_iff_exists.mp hhas
        obtain ⟨v', hv'⟩ := Option.isSome_iff_exists.mp hhas'
        exact ih k v w hv hw (h' k v' w' hv' hw') (ho k v v' hv hv')

end Py.Json
