import BabelQueue.Py.Json.Path

/-!
# Visiting the same paths twice

`E` seals a value as a string, and `D` opens such a string again. The paths are visited with `E` and
then, in the same order, with `D`.

* `visitsAll_undo`: the value is back, when no path leads to a string inside what another one seals.
* `visitsAll_blocked`: otherwise the second visit meets a string that it cannot open.
-/

namespace Py.Json

/-! ## The same value -/

theorem Same.refl (v : Json) : Same v v := by
  induction v using Json.ind with
  | arr vs ih =>
    refine .arr (by simp) rfl fun i v w hv hw => ?_
    cases hv.symm.trans hw
    exact ih v (List.mem_of_getElem? hv)
  | obj d ih =>
    refine .obj (by simp) (fun _ => rfl) fun k v w hv hw => ?_
    cases hv.symm.trans hw
    exact ih (k, v) (Dict.mem_of_get? hv)
  | _ => exact .scalar (by simp) rfl

theorem same_str_iff {t : Str} {v : Json} : Same (.str t) v ↔ v = .str t := by
  constructor
  · intro h
    cases h with
    | marked h => cases h
    | scalar _ _ => rfl
  · rintro rfl
    exact Same.refl _

theorem same_str_iff' {t : Str} {v : Json} : Same v (.str t) ↔ v = .str t := by
  constructor
  · intro h
    cases h with
    | marked h => cases h
    | scalar _ _ => rfl
  · rintro rfl
    exact Same.refl _

/-- Both have the same strings at a path. -/
theorem Same.str_mem_valuesAt {v u : Json} (h : Same v u) {q : Path} {t : Str} :
    .str t ∈ valuesAt q v ↔ .str t ∈ valuesAt q u := by
  induction q generalizing v u with
  | nil =>
    simp only [valuesAt, List.mem_singleton]
    constructor
    · rintro rfl; exact (same_str_iff.mp h).symm
    · rintro rfl; exact (same_str_iff'.mp h).symm
  | cons s q ih =>
    cases h with
    | marked h => cases h
    | scalar _ _ => exact Iff.rfl
    | @arr _ vs ws _ hl hs =>
      cases s with
      | key k => exact Iff.rfl
      | items =>
        simp only [valuesAt, List.mem_flatMap]
        constructor
        · rintro ⟨x, hx, ht⟩
          obtain ⟨i, hi, rfl⟩ := List.mem_iff_getElem.mp hx
          have hi' : i < ws.length := hl ▸ hi
          exact ⟨ws[i], List.getElem_mem hi',
            (ih (hs i _ _ (List.getElem?_eq_getElem hi) (List.getElem?_eq_getElem hi'))).mp ht⟩
        · rintro ⟨x, hx, ht⟩
          obtain ⟨i, hi, rfl⟩ := List.mem_iff_getElem.mp hx
          have hi' : i < vs.length := hl ▸ hi
          exact ⟨vs[i], List.getElem_mem hi',
            (ih (hs i _ _ (List.getElem?_eq_getElem hi') (List.getElem?_eq_getElem hi))).mpr ht⟩
    | @obj _ d e _ hk hs =>
      cases s with
      | items => exact Iff.rfl
      | key k =>
        have := hk k
        simp only [valuesAt]
        cases hd : d.get? k with
        | none =>
          cases he : e.get? k with
          | none => exact Iff.rfl
          | some y => simp [Dict.has, hd, he] at this
        | some x =>
          cases he : e.get? k with
          | none => simp [Dict.has, hd, he] at this
          | some y => exact ih (hs k x y hd he)

/-! ## Paths in order -/

/-- No path stands before one that it continues. -/
def PrefixFirst (ps : List Path) : Prop := ps.Pairwise fun p q => ¬ (q <+: p ∧ q ≠ p)

theorem PrefixFirst.tails {ps : List Path} (h : PrefixFirst ps) (s : Step) : PrefixFirst (tails s ps) := by
  induction ps with
  | nil => exact .nil
  | cons p ps ih =>
    obtain ⟨hp, hps⟩ := List.pairwise_cons.mp h
    cases p with
    | nil => exact ih hps
    | cons s' p =>
      by_cases hs : s' = s
      · subst hs
        rw [tails_cons_self]
        refine List.pairwise_cons.mpr ⟨fun q hq hqp => ?_, ih hps⟩
        exact hp _ (mem_tails.mp hq) ⟨List.cons_prefix_cons.mpr ⟨rfl, hqp.1⟩, by simpa using hqp.2⟩
      · rw [tails_cons_of_ne hs]
        exact ih hps

/-- The paths that end here come first. -/
theorem PrefixFirst.split {ps : List Path} (h : PrefixFirst ps) :
    ∃ n rest, ps = List.replicate n [] ++ rest ∧ [] ∉ rest := by
  induction ps with
  | nil => exact ⟨0, [], rfl, by simp⟩
  | cons p ps ih =>
    obtain ⟨hp, hps⟩ := List.pairwise_cons.mp h
    cases p with
    | nil =>
      obtain ⟨n, rest, rfl, hr⟩ := ih hps
      exact ⟨n + 1, rest, rfl, hr⟩
    | cons s p =>
      refine ⟨0, (s :: p) :: ps, rfl, ?_⟩
      rw [List.mem_cons]
      rintro (h | hm)
      · cases h
      · exact hp [] hm ⟨List.nil_prefix, by simp⟩

/-! ## Values that stay -/

section Stay

variable {D : Json → Json → Prop}

theorem visits_refl {q : Path} {v : Json} (h : ∀ x ∈ valuesAt q v, D x x) : Visits D q v v := by
  induction q generalizing v with
  | nil => exact h v (by simp [valuesAt])
  | cons s q ih =>
    cases v with
    | arr vs =>
      cases s with
      | key k => rfl
      | items =>
        refine visits_items.mpr ⟨vs, List.forall₂_same.mpr fun v hv => ih fun x hx => h x ?_, rfl⟩
        exact List.mem_flatMap.mpr ⟨v, hv, hx⟩
    | obj d =>
      cases s with
      | items => rfl
      | key k =>
        cases hk : Dict.get? d k with
        | none => exact (visits_key_none hk).mpr rfl
        | some x =>
          refine (visits_key_some hk).mpr ⟨x, ih fun y hy => h y ?_, by rw [Dict.set_of_get? hk]⟩
          simpa only [valuesAt, hk] using hy
    | _ => exact (visits_scalar (List.cons_ne_nil _ _) rfl).mpr rfl

theorem visitsAll_refl {ps : List Path} {v : Json} (h : ∀ q ∈ ps, ∀ x ∈ valuesAt q v, D x x) : VisitsAll D ps v v := by
  induction ps with
  | nil => rfl
  | cons q ps ih =>
    exact ⟨v, visits_refl (h q List.mem_cons_self), ih fun q hq => h q (List.mem_cons_of_mem _ hq)⟩

/-- A visit elsewhere leaves a string where it is, and one here must relate it to something. -/
theorem visits_str_mem {r q : Path} {v w : Json} {t : Str} (hkeep : ∀ v w, D v w → (∀ t, v ≠ .str t) → w = v)
    (ht : ∀ w, ¬ D (.str t) w) (h : Visits D r v w) (hq : .str t ∈ valuesAt q v) :
    r ≠ q ∧ .str t ∈ valuesAt q w := by
  induction r generalizing q v w with
  | nil =>
    cases q with
    | nil =>
      obtain rfl : .str t = v := by simpa [valuesAt] using hq
      exact absurd h (ht w)
    | cons s q =>
      have hv : ∀ t, v ≠ .str t := by rintro t rfl; cases s <;> cases hq
      rw [hkeep v w h hv]
      exact ⟨by simp, hq⟩
  | cons s r ih =>
    cases v with
    | arr vs =>
      cases s with
      | key k =>
        obtain rfl : w = .arr vs := h
        refine ⟨?_, hq⟩
        rintro rfl
        cases hq
      | items =>
        obtain ⟨ws, hws, rfl⟩ := visits_items.mp h
        cases q with
        | nil => simp [valuesAt] at hq
        | cons s' q =>
          cases s' with
          | key k => cases hq
          | items =>
            obtain ⟨x, hx, hxq⟩ := List.mem_flatMap.mp hq
            obtain ⟨i, hi, rfl⟩ := List.mem_iff_getElem.mp hx
            have hi' : i < ws.length := hws.length_eq ▸ hi
            obtain ⟨hne, hm⟩ := ih (hws.get hi hi') hxq
            exact ⟨by simpa using hne, List.mem_flatMap.mpr ⟨_, List.getElem_mem hi', hm⟩⟩
    | obj d =>
      cases s with
      | items =>
        obtain rfl : w = .obj d := h
        refine ⟨?_, hq⟩
        rintro rfl
        cases hq
      | key k =>
        cases hk : Dict.get? d k with
        | none =>
          obtain rfl := (visits_key_none hk).mp h
          refine ⟨?_, hq⟩
          rintro rfl
          simp [valuesAt, hk] at hq
        | some x =>
          obtain ⟨y, hy, rfl⟩ := (visits_key_some hk).mp h
          cases q with
          | nil => simp [valuesAt] at hq
          | cons s' q =>
            cases s' with
            | items => cases hq
            | key k' =>
              by_cases hkk : k' = k
              · subst hkk
                simp only [valuesAt, hk] at hq
                obtain ⟨hne, hm⟩ := ih hy hq
                exact ⟨by simpa using hne, by simpa only [valuesAt, Dict.get?_set_self] using hm⟩
              · refine ⟨by simp [Ne.symm hkk], ?_⟩
                simpa only [valuesAt, Dict.get?_set_of_ne d y hkk] using hq
    | _ =>
      obtain rfl := (visits_scalar (List.cons_ne_nil _ _) rfl).mp h
      refine ⟨?_, hq⟩
      rintro rfl
      cases s <;> cases hq

theorem visitsAll_str_mem {ps : List Path} {q : Path} {v w : Json} {t : Str}
    (hkeep : ∀ v w, D v w → (∀ t, v ≠ .str t) → w = v) (ht : ∀ w, ¬ D (.str t) w) (h : VisitsAll D ps v w)
    (hq : .str t ∈ valuesAt q v) : q ∉ ps := by
  induction ps generalizing v with
  | nil => simp
  | cons r ps ih =>
    obtain ⟨u, hu, h⟩ := h
    obtain ⟨hne, hm⟩ := visits_str_mem hkeep ht hu hq
    rw [List.mem_cons, not_or]
    exact ⟨Ne.symm hne, ih h hm⟩

end Stay

/-! ## Sealing and opening -/

/-- `E` seals values as strings, which `D` opens; `D` keeps what is no string. -/
structure Opens (E D : Json → Json → Prop) : Prop where
  seals : ∀ {v c}, E v c → ∃ t, c = .str t
  opens : ∀ {v c}, E v c → ∃ u, D c u
  restores : ∀ {v c u}, E v c → D c u → Same v u
  keeps : ∀ {v}, (∀ t, v ≠ .str t) → D v v
  only : ∀ {v w}, D v w → (∀ t, v ≠ .str t) → w = v

section Undo

variable {E D : Json → Json → Prop} (h : Opens E D)

include h

/-- A value that is sealed some times over and opened as often is back. -/
theorem Opens.back {n : Nat} {v c u : Json} (hv : VisitsAll E (List.replicate (n + 1) []) v c)
    (hc : VisitsAll D (List.replicate (n + 1) []) c u) : Same v u := by
  induction n generalizing v u with
  | zero =>
    obtain ⟨_, hE, rfl⟩ := hv
    obtain ⟨_, hD, rfl⟩ := hc
    exact h.restores hE hD
  | succ n ih =>
    obtain ⟨c₁, hE, hv⟩ := hv
    rw [List.replicate_succ', visitsAll_append] at hc
    obtain ⟨x, hx, _, hD, rfl⟩ := hc
    obtain ⟨t, rfl⟩ := h.seals hE
    obtain rfl := same_str_iff.mp (ih hv hx)
    exact h.restores hE hD

theorem Opens.here {n : Nat} {v c : Json} (hv : VisitsAll E (List.replicate (n + 1) []) v c) :
    (∃ t, c = .str t) ∧ ∃ u, VisitsAll D (List.replicate (n + 1) []) c u := by
  induction n generalizing v with
  | zero =>
    obtain ⟨_, hE, rfl⟩ := hv
    obtain ⟨u, hu⟩ := h.opens hE
    exact ⟨h.seals hE, u, u, hu, rfl⟩
  | succ n ih =>
    obtain ⟨c₁, hE, hv⟩ := hv
    obtain ⟨hstr, x, hx⟩ := ih hv
    obtain ⟨t, rfl⟩ := h.seals hE
    obtain ⟨u, hu⟩ := h.opens hE
    obtain rfl := same_str_iff.mp (h.back hv hx)
    refine ⟨hstr, u, ?_⟩
    rw [List.replicate_succ', visitsAll_append]
    exact ⟨.str t, hx, u, hu, rfl⟩

/-- The paths that go on from a value that is sealed do not reach anything. -/
theorem Opens.sealed {n : Nat} {rest : List Path} (hr : [] ∉ rest) {v w : Json}
    (hv : VisitsAll E (List.replicate (n + 1) [] ++ rest) v w) : VisitsAll E (List.replicate (n + 1) []) v w := by
  obtain ⟨c, hc, hw⟩ := visitsAll_append.mp hv
  obtain ⟨⟨t, rfl⟩, -⟩ := h.here hc
  rw [(visitsAll_scalar hr rfl).mp hw]
  exact hc

omit h in
/-- An object with the keys of `e` and values that `Q` relates to those of `e`. -/
theorem exists_obj {Q : Str → Json → Json → Prop} {e : Dict Json} (h : ∀ k v, e.get? k = some v → ∃ u, Q k v u) :
    ∃ d : Dict Json, d.keys = e.keys ∧ ∀ k v, e.get? k = some v → ∃ u, d.get? k = some u ∧ Q k v u := by
  classical
  let f : Str × Json → Json := fun m => if hm : ∃ u, Q m.1 m.2 u then hm.choose else m.2
  have hget : ∀ k, Dict.get? (e.map fun m => (m.1, f m)) k = (e.get? k).map fun v => f (k, v) := by
    intro k
    clear h
    induction e with
    | nil => rfl
    | cons m e ih =>
      obtain ⟨k', v⟩ := m
      by_cases hk : k' = k
      · subst hk; simp [Dict.get?]
      · simpa [Dict.get?, hk] using ih
  refine ⟨e.map fun m => (m.1, f m), by simp [Dict.keys, Function.comp_def], fun k v hv => ?_⟩
  have hm : ∃ u, Q k v u := h k v hv
  refine ⟨f (k, v), by rw [hget, hv]; rfl, ?_⟩
  rw [show f (k, v) = hm.choose from dif_pos hm]
  exact hm.choose_spec

omit h in
theorem has_of_keys {d e : Dict Json} (h : e.keys = d.keys) (k : Str) : e.has k = d.has k := by
  have : e.get? k = none ↔ d.get? k = none := by rw [Dict.get?_eq_none_iff, Dict.get?_eq_none_iff, h]
  rw [Dict.has, Dict.has]
  cases he : e.get? k <;> cases hd : d.get? k <;> simp_all

omit h in
theorem PrefixFirst.here {ps : List Path} (ho : PrefixFirst ps) (hm : [] ∈ ps) :
    ∃ n rest, ps = List.replicate (n + 1) [] ++ rest ∧ [] ∉ rest := by
  obtain ⟨n, rest, rfl, hr⟩ := ho.split
  cases n with
  | zero => exact absurd hm (by simpa using hr)
  | succ n => exact ⟨n, rest, rfl, hr⟩

/-- A value that is sealed itself. -/
theorem undo_here {ps : List Path} (ho : PrefixFirst ps) (hm : [] ∈ ps) {v w : Json} (hv : VisitsAll E ps v w)
    (hs : ∀ q ∈ ps, q ≠ [] → ∀ t, .str t ∉ valuesAt q v) : ∃ u, VisitsAll D ps w u ∧ Same v u := by
  obtain ⟨n, rest, rfl, hr⟩ := ho.here hm
  have hv := h.sealed hr hv
  obtain ⟨-, u, hu⟩ := h.here hv
  have hsame := h.back hv hu
  refine ⟨u, visitsAll_append.mpr ⟨u, hu, visitsAll_refl fun q hq x hx => h.keeps ?_⟩, hsame⟩
  rintro t rfl
  have hne : q ≠ [] := fun e => hr (e ▸ hq)
  exact hs q (List.mem_append_right _ hq) hne t (hsame.str_mem_valuesAt.mpr hx)

/-- The second visit brings the value back, when no path leads to a string inside what another one seals. -/
theorem visitsAll_undo {ps : List Path} (ho : PrefixFirst ps) {v w : Json} (hp : v.Proper)
    (hv : VisitsAll E ps v w)
    (hs : ∀ p ∈ ps, ∀ q ∈ ps, p <+: q → p ≠ q → ∀ t, .str t ∉ valuesAt q v) :
    ∃ u, VisitsAll D ps w u ∧ Same v u := by
  induction v using Json.ind generalizing ps w with
  | arr vs ih =>
    by_cases hm : [] ∈ ps
    · exact undo_here h ho hm hv fun q hq hne => hs [] hm q hq List.nil_prefix (Ne.symm hne)
    obtain ⟨ws, rfl, hws⟩ := (visitsAll_arr hm).mp hv
    have hitem : ∀ v ∈ vs, ∀ w, VisitsAll E (tails .items ps) v w →
        ∃ u, VisitsAll D (tails .items ps) w u ∧ Same v u := by
      intro v hmem w hw
      refine ih v hmem (ho.tails .items) (properItems_iff.mp hp v hmem) hw fun p hp' q hq hpq hne t ht => ?_
      refine hs (.items :: p) (mem_tails.mp hp') (.items :: q) (mem_tails.mp hq)
        (List.cons_prefix_cons.mpr ⟨rfl, hpq⟩) (by simpa using hne) t ?_
      exact List.mem_flatMap.mpr ⟨v, hmem, ht⟩
    obtain ⟨us, hus, hsame⟩ : ∃ us, List.Forall₂ (VisitsAll D (tails .items ps)) ws us ∧ List.Forall₂ Same vs us := by
      clear hv hs hm ih hp
      induction hws with
      | nil => exact ⟨[], .nil, .nil⟩
      | @cons v w vs ws hw _ ihs =>
        obtain ⟨u, hu, hvu⟩ := hitem v List.mem_cons_self w hw
        obtain ⟨us, hus, hvus⟩ := ihs fun v hv => hitem v (List.mem_cons_of_mem _ hv)
        exact ⟨u :: us, .cons hu hus, .cons hvu hvus⟩
    refine ⟨.arr us, (visitsAll_arr hm).mpr ⟨us, rfl, hus⟩, .arr (by simp) hsame.length_eq fun i v u hv hu => ?_⟩
    obtain ⟨hi, rfl⟩ := List.getElem?_eq_some_iff.mp hv
    obtain ⟨hi', rfl⟩ := List.getElem?_eq_some_iff.mp hu
    exact hsame.get hi hi'
  | obj d ih =>
    by_cases hm : [] ∈ ps
    · exact undo_here h ho hm hv fun q hq hne => hs [] hm q hq List.nil_prefix (Ne.symm hne)
    obtain ⟨e, rfl, hk, he⟩ := visitsAll_obj hm hv
    obtain ⟨hd, hpm⟩ := proper_obj.mp hp
    have hmember : ∀ k x, Dict.get? d k = some x → ∀ w, VisitsAll E (tails (.key k) ps) x w →
        ∃ u, VisitsAll D (tails (.key k) ps) w u ∧ Same x u := by
      intro k x hx w hw
      have hmem := Dict.mem_of_get? hx
      refine ih (k, x) hmem (ho.tails (.key k)) (hpm _ hmem) hw fun p hp' q hq hpq hne t ht => ?_
      refine hs (.key k :: p) (mem_tails.mp hp') (.key k :: q) (mem_tails.mp hq)
        (List.cons_prefix_cons.mpr ⟨rfl, hpq⟩) (by simpa using hne) t ?_
      simpa only [valuesAt, hx] using ht
    have hex : ∀ k y, e.get? k = some y → ∃ u, VisitsAll D (tails (.key k) ps) y u ∧
        ∀ x, Dict.get? d k = some x → Same x u := by
      intro k y hy
      obtain ⟨x, hx⟩ : ∃ x, Dict.get? d k = some x := by
        have := has_of_keys hk k
        rw [Dict.has, Dict.has, hy] at this
        exact Option.isSome_iff_exists.mp this.symm
      obtain ⟨y', hy', hvis⟩ := he k x hx
      obtain rfl := Option.some.inj (hy.symm.trans hy')
      obtain ⟨u, hu, hxu⟩ := hmember k x hx y hvis
      exact ⟨u, hu, fun x' hx' => Option.some.inj (hx.symm.trans hx') ▸ hxu⟩
    obtain ⟨d', hkeys, hd'⟩ := exists_obj hex
    have hproper : Dict.Proper e := by rw [Dict.Proper, hk]; exact hd
    refine ⟨.obj d', visitsAll_obj_of hm hproper hkeys fun k y u hy hu => ?_,
      .obj (by simp) (has_of_keys (hkeys.trans hk)) fun k x u hx hu => ?_⟩
    · obtain ⟨u', hu', hvis, -⟩ := hd' k y hy
      exact Option.some.inj (hu'.symm.trans hu) ▸ hvis
    · obtain ⟨y, hy, -⟩ := he k x hx
      obtain ⟨u', hu', -, hsame⟩ := hd' k y hy
      exact Option.some.inj (hu'.symm.trans hu) ▸ hsame x hx
  | _ =>
    by_cases hm : [] ∈ ps
    · exact undo_here h ho hm hv fun q hq hne => hs [] hm q hq List.nil_prefix (Ne.symm hne)
    · rw [(visitsAll_scalar hm rfl).mp hv]
      exact ⟨_, (visitsAll_scalar hm rfl).mpr rfl, Same.refl _⟩

theorem blocked_here {t : Str} (ht : ∀ w, ¬ D (.str t) w) {ps : List Path} (ho : PrefixFirst ps) (hm : [] ∈ ps)
    {v w u : Json} (hv : VisitsAll E ps v w) (hw : VisitsAll D ps w u) {q : Path} (hq : q ∈ ps) (hne : q ≠ []) :
    .str t ∉ valuesAt q v := by
  intro hmem
  obtain ⟨n, rest, rfl, hr⟩ := ho.here hm
  obtain ⟨x, hx, hu⟩ := visitsAll_append.mp hw
  have hsame := h.back (h.sealed hr hv) hx
  have hrest : q ∈ rest := (List.mem_append.mp hq).resolve_left fun hq => hne (List.eq_of_mem_replicate hq)
  exact visitsAll_str_mem (fun _ _ => h.only) ht hu (hsame.str_mem_valuesAt.mp hmem) hrest

omit h in
theorem prefix_step {p q : Path} (hpq : p <+: q) (hp : p ≠ []) :
    ∃ s p' q', p = s :: p' ∧ q = s :: q' ∧ p' <+: q' := by
  obtain ⟨s, p, rfl⟩ := List.exists_cons_of_ne_nil hp
  obtain ⟨q, rfl⟩ := hpq
  exact ⟨s, p, p ++ q, rfl, rfl, List.prefix_append p q⟩

/-- The second visit does not end when a path leads to a string `t` that `D` does not open inside what another one
seals. -/
theorem visitsAll_blocked {t : Str} (ht : ∀ w, ¬ D (.str t) w) {ps : List Path} (ho : PrefixFirst ps) {v w u : Json}
    (hv : VisitsAll E ps v w) (hw : VisitsAll D ps w u) {p q : Path} (hp : p ∈ ps) (hq : q ∈ ps) (hpq : p <+: q)
    (hne : p ≠ q) : .str t ∉ valuesAt q v := by
  induction v using Json.ind generalizing ps w u p q with
  | arr vs ih =>
    by_cases hm : [] ∈ ps
    · refine blocked_here h ht ho hm hv hw hq ?_
      rintro rfl
      exact hne (List.prefix_nil.mp hpq)
    obtain ⟨s, p, q, rfl, rfl, hrest⟩ := prefix_step hpq fun e => hm (e ▸ hp)
    obtain ⟨ws, rfl, hws⟩ := (visitsAll_arr hm).mp hv
    obtain ⟨us, rfl, hus⟩ := (visitsAll_arr hm).mp hw
    cases s with
    | key k => exact List.not_mem_nil
    | items =>
      intro hmem
      obtain ⟨x, hx, hxt⟩ := List.mem_flatMap.mp hmem
      obtain ⟨i, hi, rfl⟩ := List.mem_iff_getElem.mp hx
      have hi' : i < ws.length := hws.length_eq ▸ hi
      have hi'' : i < us.length := hus.length_eq ▸ hi'
      exact ih _ hx (ho.tails .items) (hws.get hi hi') (hus.get hi' hi'') (mem_tails.mpr hp) (mem_tails.mpr hq) hrest
        (by simpa using hne) hxt
  | obj d ih =>
    by_cases hm : [] ∈ ps
    · refine blocked_here h ht ho hm hv hw hq ?_
      rintro rfl
      exact hne (List.prefix_nil.mp hpq)
    obtain ⟨s, p, q, rfl, rfl, hrest⟩ := prefix_step hpq fun e => hm (e ▸ hp)
    obtain ⟨e, rfl, -, he⟩ := visitsAll_obj hm hv
    obtain ⟨e', rfl, -, he'⟩ := visitsAll_obj hm hw
    cases s with
    | items => exact List.not_mem_nil
    | key k =>
      intro hmem
      cases hx : Dict.get? d k with
      | none => simp [valuesAt, hx] at hmem
      | some x =>
        simp only [valuesAt, hx] at hmem
        obtain ⟨y, hy, hxy⟩ := he k x hx
        obtain ⟨z, -, hyz⟩ := he' k y hy
        exact ih (k, x) (Dict.mem_of_get? hx) (ho.tails (.key k)) hxy hyz (mem_tails.mpr hp) (mem_tails.mpr hq) hrest
          (by simpa using hne) hmem
  | _ =>
    by_cases hm : [] ∈ ps
    · refine blocked_here h ht ho hm hv hw hq ?_
      rintro rfl
      exact hne (List.prefix_nil.mp hpq)
    · obtain ⟨s, p, q, rfl, rfl, -⟩ := prefix_step hpq fun e => hm (e ▸ hp)
      cases s <;> exact List.not_mem_nil

end Undo

end Py.Json
