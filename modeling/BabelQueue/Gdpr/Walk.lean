import BabelQueue.Gdpr
import BabelQueue.Py.Json.Path

/-!
# What a walk does

A walk visits the paths that `_parse_path` reads, one after the other (`VisitsAll`).

* `stepsOf segments`, `readPaths schema`: these paths, in the order of the walk.
* `walk_visits`: a walk that returns is a visit, along what `op` did to each value.
* `walk_run`: a visit along what `op` does in every state is a walk.
* `walk_returns`: an `op` that returns on every value of a kind is a visit of them.
-/

namespace BabelQueue

open Py Py.Json

/-- The steps of segments. -/
def stepsOf (segments : List Segment) : Path :=
  segments.flatMap fun (key, isArray) => .key key :: if isArray then [.items] else []

/-- The path that `_parse_path` reads from a string. -/
def readPath (path : Str) : Path := stepsOf (parsePath path)

/-- The steps of some sensitive paths; the root has none. -/
def stepsOfAll (paths : List SensitivePath) : List Path := (paths.map fun sp => readPath sp.path).filter (· ≠ [])

/-- The paths of a walk, in order. -/
def readPaths (schema : Json) : List Path := stepsOfAll (sensitivePaths schema)

theorem stepsOf_cons (key : Str) (isArray : Bool) (segments : List Segment) :
    stepsOf ((key, isArray) :: segments) = .key key :: if isArray then .items :: stepsOf segments else stepsOf segments := by
  cases isArray <;> rfl

theorem stepsOf_eq_nil_iff {segments : List Segment} : stepsOf segments = [] ↔ segments = [] := by
  cases segments with
  | nil => simp [stepsOf]
  | cons s segments => rw [stepsOf_cons]; simp

variable {σ : Type} {op : LeafOp σ} {act : Act (σ × Json) Unit}

theorem applyLeaf_eq_ok {s s' : σ} {v w : Json} : applyLeaf op (s, v) = (.ok (), (s', w)) ↔
    op v s = (.ok (some w), s') ∨ op v s = (.ok none, s') ∧ w = v := by
  rw [applyLeaf]
  rcases op v s with ⟨_ | _ | u, t⟩ <;> simp [eq_comm, and_comm]

/-! ## A walk that returns -/

section Visits

variable {R : Json → Json → Prop} {p : Path}

theorem onMember_visits {key : Str} (hact : ∀ s v s' w, act (s, v) = (.ok (), (s', w)) → Visits R p v w) {s s' : σ}
    {v w : Json} (h : onMember key act (s, v) = (.ok (), (s', w))) : Visits R (.key key :: p) v w := by
  cases v with
  | obj d =>
    cases hg : Dict.get? d key with
    | none =>
      simp only [onMember, hg] at h
      cases h
      exact (visits_key_none hg).mpr rfl
    | some child =>
      simp only [onMember, hg] at h
      obtain ⟨hr, hs⟩ := Prod.mk.inj h
      obtain ⟨rfl, rfl⟩ := Prod.mk.inj hs
      exact (visits_key_some hg).mpr ⟨_, hact s child _ _ (Prod.ext hr rfl), rfl⟩
  | _ => cases h; rfl

theorem onEach_visits (hact : ∀ s v s' w, act (s, v) = (.ok (), (s', w)) → Visits R p v w) {vs ws : List Json} {s s' : σ}
    (h : onEach act vs s = (.ok (), s', ws)) : List.Forall₂ (Visits R p) vs ws := by
  induction vs generalizing s ws with
  | nil => cases h; exact .nil
  | cons v vs ih =>
    rw [onEach] at h
    split at h
    · next s₁ v' hv =>
      cases hr : onEach act vs s₁ with
      | mk r rest =>
        obtain ⟨s₂, vs'⟩ := rest
        rw [hr] at h
        cases h
        exact .cons (hact _ _ _ _ hv) (ih hr)
    · cases h

theorem onItems_visits (hact : ∀ s v s' w, act (s, v) = (.ok (), (s', w)) → Visits R p v w) {s s' : σ} {v w : Json}
    (h : onItems act (s, v) = (.ok (), (s', w))) : Visits R (.items :: p) v w := by
  cases v with
  | arr vs =>
    cases hr : onEach act vs s with
    | mk r rest =>
      obtain ⟨s₁, vs'⟩ := rest
      simp only [onItems, hr] at h
      cases h
      exact visits_items.mpr ⟨_, onEach_visits hact hr, rfl⟩
  | _ => cases h; rfl

theorem applyAtPath_visits (hop : ∀ s v s' w, applyLeaf op (s, v) = (.ok (), (s', w)) → R v w) {segments : List Segment}
    (hne : segments ≠ []) {s s' : σ} {v w : Json} (h : applyAtPath op segments (s, v) = (.ok (), (s', w))) :
    Visits R (stepsOf segments) v w := by
  induction segments generalizing s v s' w with
  | nil => exact absurd rfl hne
  | cons segment segments ih =>
    obtain ⟨key, isArray⟩ := segment
    rw [stepsOf_cons]
    cases segments with
    | nil =>
      rw [applyAtPath] at h
      cases isArray with
      | false => exact onMember_visits (p := []) hop h
      | true => exact onMember_visits (fun s v s' w => onItems_visits (p := []) hop) h
    | cons next segments =>
      rw [applyAtPath] at h
      have hrest : ∀ s v s' w, applyAtPath op (next :: segments) (s, v) = (.ok (), (s', w)) →
          Visits R (stepsOf (next :: segments)) v w := fun s v s' w => ih (List.cons_ne_nil _ _)
      cases isArray with
      | false => exact onMember_visits hrest h
      | true => exact onMember_visits (fun s v s' w => onItems_visits hrest) h

end Visits

/-! ## A walk that is the same in every state -/

section Run

variable {D : Json → Json → Prop} {p : Path}

theorem onMember_run {key : Str} (hact : ∀ v w, Visits D p v w → ∀ s, ∃ s', act (s, v) = (.ok (), (s', w))) {v w : Json}
    (h : Visits D (.key key :: p) v w) (s : σ) : ∃ s', onMember key act (s, v) = (.ok (), (s', w)) := by
  cases v with
  | obj d =>
    cases hg : Dict.get? d key with
    | none =>
      obtain rfl := (visits_key_none hg).mp h
      exact ⟨s, by simp only [onMember, hg]⟩
    | some child =>
      obtain ⟨child', hc, rfl⟩ := (visits_key_some hg).mp h
      obtain ⟨s', hs⟩ := hact child child' hc s
      exact ⟨s', by simp only [onMember, hg, hs]⟩
  | _ => obtain rfl := h; exact ⟨s, rfl⟩

theorem onEach_run (hact : ∀ v w, Visits D p v w → ∀ s, ∃ s', act (s, v) = (.ok (), (s', w))) {vs ws : List Json}
    (h : List.Forall₂ (Visits D p) vs ws) (s : σ) : ∃ s', onEach act vs s = (.ok (), s', ws) := by
  induction h generalizing s with
  | nil => exact ⟨s, rfl⟩
  | cons hv _ ih =>
    obtain ⟨s₁, h₁⟩ := hact _ _ hv s
    obtain ⟨s₂, h₂⟩ := ih s₁
    exact ⟨s₂, by simp only [onEach, h₁, h₂]⟩

theorem onItems_run (hact : ∀ v w, Visits D p v w → ∀ s, ∃ s', act (s, v) = (.ok (), (s', w))) {v w : Json}
    (h : Visits D (.items :: p) v w) (s : σ) : ∃ s', onItems act (s, v) = (.ok (), (s', w)) := by
  cases v with
  | arr vs =>
    obtain ⟨ws, hws, rfl⟩ := visits_items.mp h
    obtain ⟨s', hs⟩ := onEach_run hact hws s
    exact ⟨s', by simp only [onItems, hs]⟩
  | _ => obtain rfl := h; exact ⟨s, rfl⟩

theorem applyAtPath_run (hop : ∀ v w, D v w → ∀ s, ∃ s', applyLeaf op (s, v) = (.ok (), (s', w))) {segments : List Segment}
    (hne : segments ≠ []) {v w : Json} (h : Visits D (stepsOf segments) v w) (s : σ) :
    ∃ s', applyAtPath op segments (s, v) = (.ok (), (s', w)) := by
  induction segments generalizing v w s with
  | nil => exact absurd rfl hne
  | cons segment segments ih =>
    obtain ⟨key, isArray⟩ := segment
    rw [stepsOf_cons] at h
    cases segments with
    | nil =>
      rw [applyAtPath]
      cases isArray with
      | false => exact onMember_run (p := []) hop h s
      | true => exact onMember_run (fun v w => onItems_run (p := []) hop) h s
    | cons next segments =>
      rw [applyAtPath]
      have hrest : ∀ v w, Visits D (stepsOf (next :: segments)) v w →
          ∀ s, ∃ s', applyAtPath op (next :: segments) (s, v) = (.ok (), (s', w)) := fun v w => ih (List.cons_ne_nil _ _)
      cases isArray with
      | false => exact onMember_run hrest h s
      | true => exact onMember_run (fun v w => onItems_run hrest) h s

end Run

/-! ## A walk of values of a kind -/

/-- `P n` is kept when the parts of a value are replaced. -/
structure Closed (P : Nat → Json → Prop) : Prop where
  member : ∀ {n : Nat} {d : Dict Json} {k : Str} {v : Json}, P n (.obj d) → d.get? k = some v →
    ∃ m, P m v ∧ ∀ w, P m w → P n (.obj (d.set k w))
  items : ∀ {n : Nat} {vs : List Json}, P n (.arr vs) →
    ∃ m, (∀ v ∈ vs, P m v) ∧ ∀ ws : List Json, (∀ w ∈ ws, P m w) → P n (.arr ws)

/-- `act` returns on every value of a kind, with another one that `R` relates to it. -/
def ReturnsOn (P : Nat → Json → Prop) (R : Json → Json → Prop) (act : Act (σ × Json) Unit) : Prop :=
  ∀ n s v, P n v → ∃ s' w, act (s, v) = (.ok (), (s', w)) ∧ P n w ∧ R v w

section ReturnsOn

variable {P : Nat → Json → Prop} (hP : Closed P) {R : Json → Json → Prop} {p : Path}

include hP

theorem onMember_returns {key : Str} (hact : ReturnsOn P (Visits R p) act) :
    ReturnsOn P (Visits R (.key key :: p)) (onMember key act) := by
  intro n s v hv
  cases v with
  | obj d =>
    cases hg : Dict.get? d key with
    | none => exact ⟨s, .obj d, by simp only [onMember, hg], hv, (visits_key_none hg).mpr rfl⟩
    | some child =>
      obtain ⟨m, hc, hset⟩ := hP.member hv hg
      obtain ⟨s', child', hrun, hc', hR⟩ := hact m s child hc
      exact ⟨s', .obj (Dict.set d key child'), by simp only [onMember, hg, hrun], hset child' hc',
        (visits_key_some hg).mpr ⟨child', hR, rfl⟩⟩
  | _ => exact ⟨s, _, rfl, hv, rfl⟩

omit hP in
theorem onEach_returns (hact : ReturnsOn P (Visits R p) act) {n : Nat} {vs : List Json} (hvs : ∀ v ∈ vs, P n v) (s : σ) :
    ∃ s' ws, onEach act vs s = (.ok (), s', ws) ∧ (∀ w ∈ ws, P n w) ∧ List.Forall₂ (Visits R p) vs ws := by
  induction vs generalizing s with
  | nil => exact ⟨s, [], rfl, by simp, .nil⟩
  | cons v vs ih =>
    obtain ⟨hv, hvs⟩ := List.forall_mem_cons.mp hvs
    obtain ⟨s₁, w, h₁, hw, hR⟩ := hact n s v hv
    obtain ⟨s₂, ws, h₂, hws, hall⟩ := ih hvs s₁
    exact ⟨s₂, w :: ws, by simp only [onEach, h₁, h₂], List.forall_mem_cons.mpr ⟨hw, hws⟩, .cons hR hall⟩

theorem onItems_returns (hact : ReturnsOn P (Visits R p) act) : ReturnsOn P (Visits R (.items :: p)) (onItems act) := by
  intro n s v hv
  cases v with
  | arr vs =>
    obtain ⟨m, hvs, harr⟩ := hP.items hv
    obtain ⟨s', ws, hrun, hws, hall⟩ := onEach_returns hact hvs s
    exact ⟨s', .arr ws, by simp only [onItems, hrun], harr ws hws, visits_items.mpr ⟨ws, hall, rfl⟩⟩
  | _ => exact ⟨s, _, rfl, hv, rfl⟩

theorem applyAtPath_returns (hop : ReturnsOn P R (applyLeaf op)) {segments : List Segment} (hne : segments ≠ []) :
    ReturnsOn P (Visits R (stepsOf segments)) (applyAtPath op segments) := by
  induction segments with
  | nil => exact absurd rfl hne
  | cons segment segments ih =>
    obtain ⟨key, isArray⟩ := segment
    rw [stepsOf_cons]
    cases segments with
    | nil =>
      rw [applyAtPath]
      cases isArray with
      | false => exact onMember_returns hP (p := []) hop
      | true => exact onMember_returns hP (onItems_returns hP (p := []) hop)
    | cons next segments =>
      rw [applyAtPath]
      have hrest := ih (List.cons_ne_nil _ _)
      cases isArray with
      | false => exact onMember_returns hP hrest
      | true => exact onMember_returns hP (onItems_returns hP hrest)

end ReturnsOn

/-! ## All the paths -/

theorem stepsOfAll_cons (sp : SensitivePath) (paths : List SensitivePath) :
    stepsOfAll (sp :: paths) = if parsePath sp.path = [] then stepsOfAll paths
      else stepsOf (parsePath sp.path) :: stepsOfAll paths := by
  rw [stepsOfAll, List.map_cons, List.filter_cons, readPath]
  by_cases hp : parsePath sp.path = []
  · rw [if_pos hp, if_neg (by simpa using stepsOf_eq_nil_iff.mpr hp), stepsOfAll]
  · rw [if_neg hp, if_pos (by simpa using mt stepsOf_eq_nil_iff.mp hp), stepsOfAll]

theorem applyAll_visits {R : Json → Json → Prop} (hop : ∀ s v s' w, applyLeaf op (s, v) = (.ok (), (s', w)) → R v w)
    {paths : List SensitivePath} {s s' : σ} {v w : Json} (h : applyAll op paths (s, v) = (.ok (), (s', w))) :
    VisitsAll R (stepsOfAll paths) v w := by
  induction paths generalizing s v with
  | nil => cases h; rfl
  | cons sp paths ih =>
    rw [applyAll, Act.bind_run] at h
    rw [stepsOfAll_cons]
    split at h
    · next s₁ h₁ =>
      obtain ⟨s₁, u⟩ := s₁
      split_ifs with hp
      · rw [hp] at h₁
        cases h₁
        exact ih h
      · exact ⟨u, applyAtPath_visits hop hp h₁, ih h⟩
    · cases h

theorem applyAll_run {D : Json → Json → Prop} (hop : ∀ v w, D v w → ∀ s : σ, ∃ s', applyLeaf op (s, v) = (.ok (), (s', w)))
    {paths : List SensitivePath} {v w : Json} (h : VisitsAll D (stepsOfAll paths) v w) (s : σ) :
    ∃ s', applyAll op paths (s, v) = (.ok (), (s', w)) := by
  induction paths generalizing v s with
  | nil => obtain rfl := h; exact ⟨s, rfl⟩
  | cons sp paths ih =>
    rw [stepsOfAll_cons] at h
    rw [applyAll]
    split_ifs at h with hp
    · obtain ⟨s', hs⟩ := ih h s
      exact ⟨s', by rw [hp]; exact hs⟩
    · obtain ⟨u, hu, h⟩ := h
      obtain ⟨s₁, h₁⟩ := applyAtPath_run hop hp hu s
      obtain ⟨s₂, h₂⟩ := ih h s₁
      exact ⟨s₂, by rw [Act.bind_run_ok h₁]; exact h₂⟩

theorem applyAll_returns {P : Nat → Json → Prop} (hP : Closed P) {R : Json → Json → Prop}
    (hop : ReturnsOn P R (applyLeaf op)) (paths : List SensitivePath) :
    ReturnsOn P (VisitsAll R (stepsOfAll paths)) (applyAll op paths) := by
  induction paths with
  | nil => exact fun n s v hv => ⟨s, v, rfl, hv, rfl⟩
  | cons sp paths ih =>
    intro n s v hv
    rw [stepsOfAll_cons, applyAll]
    split_ifs with hp
    · obtain ⟨s', w, hs, hw, hR⟩ := ih n s v hv
      exact ⟨s', w, by rw [hp]; exact hs, hw, hR⟩
    · obtain ⟨s₁, u, h₁, hu, hR₁⟩ := applyAtPath_returns hP hop hp n s v hv
      obtain ⟨s₂, w, h₂, hw, hR₂⟩ := ih n s₁ u hu
      exact ⟨s₂, w, by rw [Act.bind_run_ok h₁]; exact h₂, hw, u, hR₁, hR₂⟩

section Walk

variable {schema : Json}

theorem walk_eq : walk schema op = applyAll op (sensitivePaths schema) := by
  rw [walk]
  split
  · next h =>
    cases schema with
    | null => rfl
    | _ => cases h
  · rfl

theorem walk_visits {R : Json → Json → Prop} (hop : ∀ s v s' w, applyLeaf op (s, v) = (.ok (), (s', w)) → R v w)
    {s s' : σ} {v w : Json} (h : walk schema op (s, v) = (.ok (), (s', w))) : VisitsAll R (readPaths schema) v w :=
  applyAll_visits hop (by rwa [walk_eq] at h)

theorem walk_run {D : Json → Json → Prop} (hop : ∀ v w, D v w → ∀ s : σ, ∃ s', applyLeaf op (s, v) = (.ok (), (s', w)))
    {v w : Json} (h : VisitsAll D (readPaths schema) v w) (s : σ) : ∃ s', walk schema op (s, v) = (.ok (), (s', w)) := by
  rw [walk_eq]
  exact applyAll_run hop h s

theorem walk_returns {P : Nat → Json → Prop} (hP : Closed P) {R : Json → Json → Prop}
    (hop : ReturnsOn P R (applyLeaf op)) : ReturnsOn P (VisitsAll R (readPaths schema)) (walk schema op) := by
  rw [walk_eq]
  exact applyAll_returns hP hop _

end Walk

end BabelQueue
