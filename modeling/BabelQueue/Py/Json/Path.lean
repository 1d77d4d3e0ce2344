import Mathlib.Data.List.Forall2
import BabelQueue.Py.Json.Value

/-!
# Locations in a JSON value

A `Path` goes down by the members of objects and through every element of arrays.

* `valuesAt p v`: the values at a path.
* `Visits R p v w`: `w` is `v` with each value at `p` replaced by one `R` relates it to.
* `VisitsAll R ps v w`: one path after the other. `visitsAll_obj`, `visitsAll_arr`: that is to visit
  each value inside with the `tails` of the paths, when none of them ends here.
* `Outside C ps v w`: `v` and `w` agree outside the paths `ps`, and `C` relates the values there.
-/

namespace Py.Json

/-- A step down: to a member, or to every element. -/
inductive Step
  | key (k : Str)
  | items
  deriving DecidableEq

abbrev Path := List Step

/-- What is left of the paths that start with a step. -/
def tails (s : Step) (ps : List Path) : List Path :=
  ps.filterMap fun p =>
    match p with
    | [] => none
    | s' :: p => if s' = s then some p else none

/-- The values at a path. -/
def valuesAt : Path → Json → List Json
  | [], v => [v]
  | .key k :: p, .obj d =>
    match Dict.get? d k with
    | some v => valuesAt p v
    | none => []
  | .items :: p, .arr vs => vs.flatMap (valuesAt p)
  | _ :: _, _ => []

/-- Whether there is nothing to go down to. -/
def isScalar : Json → Bool
  | .arr _ => false
  | .obj _ => false
  | _ => true

/-- `w` is `v` with the values at a path replaced along `R`. -/
def Visits (R : Json → Json → Prop) : Path → Json → Json → Prop
  | [], v, w => R v w
  | .key k :: p, .obj d, w =>
    match Dict.get? d k with
    | some v => ∃ v', Visits R p v v' ∧ w = .obj (Dict.set d k v')
    | none => w = .obj d
  | .items :: p, .arr vs, w => ∃ vs', List.Forall₂ (Visits R p) vs vs' ∧ w = .arr vs'
  | _ :: _, v, w => w = v

/-- The paths are visited one after the other. -/
def VisitsAll (R : Json → Json → Prop) : List Path → Json → Json → Prop
  | [], v, w => w = v
  | p :: ps, v, w => ∃ u, Visits R p v u ∧ VisitsAll R ps u w

/-- `v` and `w` agree outside the paths, and `C` relates the topmost values at one. -/
inductive Outside (C : Json → Json → Prop) : List Path → Json → Json → Prop
  | marked {ps : List Path} {v w : Json} : [] ∈ ps → C v w → Outside C ps v w
  | scalar {ps : List Path} {v : Json} : [] ∉ ps → isScalar v = true → Outside C ps v v
  | arr {ps : List Path} {vs ws : List Json} : [] ∉ ps → vs.length = ws.length →
      (∀ (i : Nat) v w, vs[i]? = some v → ws[i]? = some w → Outside C (tails .items ps) v w) →
      Outside C ps (.arr vs) (.arr ws)
  | obj {ps : List Path} {d e : Dict Json} : [] ∉ ps → (∀ k, e.has k = d.has k) →
      (∀ k v w, d.get? k = some v → e.get? k = some w → Outside C (tails (.key k) ps) v w) →
      Outside C ps (.obj d) (.obj e)

/-- The same value, up to the order of members. -/
abbrev Same : Json → Json → Prop := Outside (fun _ _ => False) []

/-! ## Tails -/

@[simp] theorem tails_nil (s : Step) : tails s [] = [] := rfl

@[simp] theorem mem_tails {s : Step} {ps : List Path} {p : Path} : p ∈ tails s ps ↔ s :: p ∈ ps := by
  rw [tails, List.mem_filterMap]
  constructor
  · rintro ⟨q, hq, h⟩
    cases q with
    | nil => cases h
    | cons s' q =>
      dsimp only at h
      split at h
      · next hs => cases h; exact hs ▸ hq
      · cases h
  · exact fun h => ⟨_, h, if_pos rfl⟩

theorem tails_cons_self (s : Step) (p : Path) (ps : List Path) : tails s ((s :: p) :: ps) = p :: tails s ps := by
  simp [tails]

theorem tails_cons_of_ne {s s' : Step} (h : s' ≠ s) (p : Path) (ps : List Path) :
    tails s ((s' :: p) :: ps) = tails s ps := by
  simp [tails, h]

theorem nil_not_mem_cons {p : Path} {ps : List Path} (h : [] ∉ p :: ps) : p ≠ [] ∧ [] ∉ ps :=
  ⟨fun e => h (by simp [e]), fun hm => h (by simp [hm])⟩

/-! ## One path -/

section Visits

variable {R : Json → Json → Prop}

theorem visits_scalar {p : Path} (hp : p ≠ []) {v w : Json} (hv : isScalar v = true) : Visits R p v w ↔ w = v := by
  cases p with
  | nil => exact absurd rfl hp
  | cons s p => cases v <;> cases s <;> first | rfl | cases hv

theorem visits_key_some {k : Str} {p : Path} {d : Dict Json} {v : Json} (h : d.get? k = some v) {w : Json} :
    Visits R (.key k :: p) (.obj d) w ↔ ∃ v', Visits R p v v' ∧ w = .obj (d.set k v') := by
  rw [Visits, h]

theorem visits_key_none {k : Str} {p : Path} {d : Dict Json} (h : d.get? k = none) {w : Json} :
    Visits R (.key k :: p) (.obj d) w ↔ w = .obj d := by
  rw [Visits, h]

theorem visits_items {p : Path} {vs : List Json} {w : Json} :
    Visits R (.items :: p) (.arr vs) w ↔ ∃ vs', List.Forall₂ (Visits R p) vs vs' ∧ w = .arr vs' := by
  rw [Visits]

/-! ## Several paths -/

theorem visitsAll_append {ps qs : List Path} {v w : Json} :
    VisitsAll R (ps ++ qs) v w ↔ ∃ u, VisitsAll R ps v u ∧ VisitsAll R qs u w := by
  induction ps generalizing v with
  | nil => simp [VisitsAll]
  | cons p ps ih =>
    simp only [List.cons_append, VisitsAll, ih]
    constructor
    · rintro ⟨u, hu, x, hx, hw⟩
      exact ⟨x, ⟨u, hu, hx⟩, hw⟩
    · rintro ⟨x, ⟨u, hu, hx⟩, hw⟩
      exact ⟨u, hu, x, hx, hw⟩

theorem visitsAll_scalar {ps : List Path} (hp : [] ∉ ps) {v w : Json} (hv : isScalar v = true) :
    VisitsAll R ps v w ↔ w = v := by
  induction ps with
  | nil => rfl
  | cons p ps ih =>
    obtain ⟨hp, hps⟩ := nil_not_mem_cons hp
    rw [VisitsAll]
    simp only [visits_scalar hp hv, exists_eq_left, ih hps]

/-- A dictionary is its keys and what they are mapped to. -/
theorem dict_ext {d e : Dict Json} (hd : d.Proper) (hk : e.keys = d.keys) (h : ∀ k, e.get? k = d.get? k) : e = d := by
  induction d generalizing e with
  | nil => simpa [Dict.keys] using hk
  | cons m d ih =>
    obtain ⟨k, v⟩ := m
    cases e with
    | nil => simp [Dict.keys] at hk
    | cons m' e =>
      obtain ⟨k', v'⟩ := m'
      simp only [Dict.keys_cons, List.cons.injEq] at hk
      obtain ⟨rfl, hk⟩ := hk
      obtain ⟨hnot, hd⟩ := List.nodup_cons.mp hd
      have hv : v' = v := by simpa [Dict.get?] using h k'
      refine congrArg₂ _ (by rw [hv]) (ih hd hk fun x => ?_)
      by_cases hx : k' = x
      · subst hx
        rw [Dict.get?_eq_none_iff.mpr hnot, Dict.get?_eq_none_iff.mpr (hk ▸ hnot)]
      · simpa [Dict.get?, hx] using h x

theorem keys_set_of_get? {d : Dict Json} {k : Str} {v : Json} (h : d.get? k = some v) (w : Json) :
    (d.set k w).keys = d.keys := by
  have hk : k ∈ d.keys := List.mem_map_of_mem (Dict.mem_of_get? h)
  rw [Dict.keys_set, if_pos hk]

/-- To visit an object is to visit each of its members. -/
theorem visitsAll_obj {ps : List Path} (hp : [] ∉ ps) {d : Dict Json} {w : Json} (h : VisitsAll R ps (.obj d) w) :
    ∃ e : Dict Json, w = .obj e ∧ e.keys = d.keys ∧
      ∀ k v, d.get? k = some v → ∃ v', e.get? k = some v' ∧ VisitsAll R (tails (.key k) ps) v v' := by
  induction ps generalizing d with
  | nil => exact ⟨d, h, rfl, fun k v hv => ⟨v, hv, rfl⟩⟩
  | cons p ps ih =>
    obtain ⟨hp, hps⟩ := nil_not_mem_cons hp
    obtain ⟨u, hu, h⟩ := h
    obtain ⟨s, p, rfl⟩ := List.exists_cons_of_ne_nil hp
    cases s with
    | items =>
      obtain rfl : u = .obj d := hu
      obtain ⟨e, rfl, hk, he⟩ := ih hps h
      exact ⟨e, rfl, hk, fun k v hv => by rw [tails_cons_of_ne (by simp)]; exact he k v hv⟩
    | key k =>
      cases hg : d.get? k with
      | none =>
        obtain rfl := (visits_key_none hg).mp hu
        obtain ⟨e, rfl, hk, he⟩ := ih hps h
        refine ⟨e, rfl, hk, fun k' v hv => ?_⟩
        rw [tails_cons_of_ne (by rintro ⟨⟩; rw [hg] at hv; cases hv)]
        exact he k' v hv
      | some x =>
        obtain ⟨y, hy, rfl⟩ := (visits_key_some hg).mp hu
        obtain ⟨e, rfl, hk, he⟩ := ih hps h
        refine ⟨e, rfl, hk.trans (keys_set_of_get? hg y), fun k' v hv => ?_⟩
        by_cases hkk : k' = k
        · subst hkk
          obtain rfl : x = v := Option.some.inj (hg.symm.trans hv)
          obtain ⟨v', hv', hvis⟩ := he k' y (Dict.get?_set_self d k' y)
          exact ⟨v', hv', by rw [tails_cons_self]; exact ⟨y, hy, hvis⟩⟩
        · rw [tails_cons_of_ne (by rintro ⟨⟩; exact hkk rfl)]
          exact he k' v (by rw [Dict.get?_set_of_ne d y hkk]; exact hv)

theorem visitsAll_obj_of {ps : List Path} (hp : [] ∉ ps) {d e : Dict Json} (hd : d.Proper) (hk : e.keys = d.keys)
    (h : ∀ k v v', d.get? k = some v → e.get? k = some v' → VisitsAll R (tails (.key k) ps) v v') :
    VisitsAll R ps (.obj d) (.obj e) := by
  have hsome : ∀ {d e : Dict Json} {k}, e.keys = d.keys → (e.get? k = none ↔ d.get? k = none) := by
    intro d e k hk
    rw [Dict.get?_eq_none_iff, Dict.get?_eq_none_iff, hk]
  induction ps generalizing d with
  | nil =>
    refine congrArg _ (dict_ext hd hk fun k => ?_)
    cases hg : d.get? k with
    | none => exact (hsome hk).mpr hg
    | some v =>
      obtain ⟨v', hv'⟩ := Option.ne_none_iff_exists'.mp (mt (hsome hk).mp (hg ▸ Option.some_ne_none v))
      rw [hv', h k v v' hg hv']
  | cons p ps ih =>
    obtain ⟨hp, hps⟩ := nil_not_mem_cons hp
    obtain ⟨s, p, rfl⟩ := List.exists_cons_of_ne_nil hp
    cases s with
    | items =>
      refine ⟨.obj d, rfl, ih hps hd hk fun k v v' hv hv' => ?_⟩
      have := h k v v' hv hv'
      rwa [tails_cons_of_ne (by simp)] at this
    | key k =>
      cases hg : d.get? k with
      | none =>
        refine ⟨.obj d, (visits_key_none hg).mpr rfl, ih hps hd hk fun k' v v' hv hv' => ?_⟩
        have := h k' v v' hv hv'
        rwa [tails_cons_of_ne (by rintro ⟨⟩; rw [hg] at hv; cases hv)] at this
      | some x =>
        obtain ⟨x', hx'⟩ := Option.ne_none_iff_exists'.mp (mt (hsome hk).mp (hg ▸ Option.some_ne_none x))
        have hx := h k x x' hg hx'
        rw [tails_cons_self] at hx
        obtain ⟨y, hy, hrest⟩ := hx
        refine ⟨.obj (d.set k y), (visits_key_some hg).mpr ⟨y, hy, rfl⟩, ih hps (hd.set k y)
          (hk.trans (keys_set_of_get? hg y).symm) fun k' v v' hv hv' => ?_⟩
        by_cases hkk : k' = k
        · subst hkk
          rw [Dict.get?_set_self] at hv
          cases hv
          cases hx'.symm.trans hv'
          exact hrest
        · rw [Dict.get?_set_of_ne d y hkk] at hv
          have := h k' v v' hv hv'
          rwa [tails_cons_of_ne (by rintro ⟨⟩; exact hkk rfl)] at this

theorem forall₂_comp {α : Type} {A B : α → α → Prop} {as cs : List α} :
    List.Forall₂ (fun a c => ∃ b, A a b ∧ B b c) as cs ↔ ∃ bs, List.Forall₂ A as bs ∧ List.Forall₂ B bs cs := by
  constructor
  · intro h
    induction h with
    | nil => exact ⟨[], .nil, .nil⟩
    | cons h _ ih =>
      obtain ⟨b, ha, hb⟩ := h
      obtain ⟨bs, has, hbs⟩ := ih
      exact ⟨b :: bs, .cons ha has, .cons hb hbs⟩
  · rintro ⟨bs, h, h'⟩
    induction h generalizing cs with
    | nil => cases h'; exact .nil
    | cons ha _ ih =>
      cases h' with
      | cons hb hbs => exact .cons ⟨_, ha, hb⟩ (ih hbs)

/-- To visit an array is to visit each of its elements. -/
theorem visitsAll_arr {ps : List Path} (hp : [] ∉ ps) {vs : List Json} {w : Json} :
    VisitsAll R ps (.arr vs) w ↔ ∃ ws, w = .arr ws ∧ List.Forall₂ (VisitsAll R (tails .items ps)) vs ws := by
  induction ps generalizing vs with
  | nil =>
    rw [tails_nil]
    constructor
    · intro h
      exact ⟨vs, h, List.forall₂_same.mpr fun _ _ => rfl⟩
    · rintro ⟨ws, rfl, h⟩
      have heq : List.Forall₂ Eq ws vs := h.flip
      rw [List.forall₂_eq_eq_eq] at heq
      rw [VisitsAll, heq]
  | cons p ps ih =>
    obtain ⟨hp, hps⟩ := nil_not_mem_cons hp
    obtain ⟨s, p, rfl⟩ := List.exists_cons_of_ne_nil hp
    cases s with
    | key k =>
      rw [tails_cons_of_ne (by simp), VisitsAll, ← ih hps]
      exact ⟨by rintro ⟨u, rfl, h⟩; exact h, fun h => ⟨_, rfl, h⟩⟩
    | items =>
      rw [tails_cons_self, VisitsAll]
      have hcomp : ∀ ws, List.Forall₂ (VisitsAll R (p :: tails .items ps)) vs ws ↔
          ∃ us, List.Forall₂ (Visits R p) vs us ∧ List.Forall₂ (VisitsAll R (tails .items ps)) us ws :=
        fun ws => forall₂_comp
      constructor
      · rintro ⟨u, hu, h⟩
        obtain ⟨us, hus, rfl⟩ := visits_items.mp hu
        obtain ⟨ws, rfl, hws⟩ := (ih hps).mp h
        exact ⟨ws, rfl, (hcomp ws).mpr ⟨us, hus, hws⟩⟩
      · rintro ⟨ws, rfl, h⟩
        obtain ⟨us, hus, hws⟩ := (hcomp ws).mp h
        exact ⟨_, visits_items.mpr ⟨us, hus, rfl⟩, (ih hps).mpr ⟨ws, rfl, hws⟩⟩

end Visits

/-! ## What is outside -/

/-- The values at a path without a shorter one are replaced. -/
theorem Outside.at_path {C : Json → Prop} {p : Path} {ps : List Path} {v w : Json} (h : Outside (fun _ w => C w) ps v w)
    (hp : p ∈ ps) (hmin : ∀ q ∈ ps, q <+: p → q = p) : ∀ x ∈ valuesAt p w, C x := by
  induction p generalizing ps v w with
  | nil =>
    intro x hx
    obtain rfl := List.mem_singleton.mp hx
    cases h with
    | marked _ hc => exact hc
    | scalar hn _ => exact absurd hp hn
    | arr hn _ _ => exact absurd hp hn
    | obj hn _ _ => exact absurd hp hn
  | cons s p ih =>
    have htails : ∀ q ∈ tails s ps, q <+: p → q = p := by
      intro q hq hpre
      simpa using hmin _ (mem_tails.mp hq) (List.cons_prefix_cons.mpr ⟨rfl, hpre⟩)
    intro x hx
    cases h with
    | marked hn _ => cases hmin [] hn List.nil_prefix
    | scalar _ hs => cases v <;> cases s <;> first | cases hx | cases hs
    | arr _ hl hall =>
      cases s with
      | key k => cases hx
      | items =>
        obtain ⟨w, hw, hx⟩ := List.mem_flatMap.mp hx
        obtain ⟨i, hi, rfl⟩ := List.mem_iff_getElem.mp hw
        have hv := List.getElem?_eq_getElem (hl.symm ▸ hi)
        exact ih (hall i _ _ hv (List.getElem?_eq_getElem hi)) (mem_tails.mpr hp) htails x hx
    | @obj _ d e _ hk hall =>
      cases s with
      | items => cases hx
      | key k =>
        cases he : e.get? k with
        | none => simp [valuesAt, he] at hx
        | some w =>
          simp only [valuesAt, he] at hx
          have hhas := hk k
          cases hd : d.get? k with
          | none => simp [Dict.has, he, hd] at hhas
          | some v => exact ih (hall k v w hd he) (mem_tails.mpr hp) htails x hx

end Py.Json
