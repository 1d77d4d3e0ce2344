import Mathlib.Data.List.Forall2
import BabelQueue.Py.Json.Value

/-!
# Written values are read back

* `dumpsAt_sound`: what `json.dumps` writes is a text of the value's tree, so `loads_dumps`.
* `Writable d v`: `v` is no deeper than `d` and every integer in it has at most 4300 digits. That is
  when `json.dumps` returns (`dumpsAt_isOk`), and it holds of every value `json.loads` returns
  (`writable_of_loads`).
-/

namespace Py.Json

/-! ## Strings -/

theorem encodePiece_value (c : CodePoint) : (encodePiece c).value = c := by
  have hlow : ∀ n < 0x20, Fin.ofNat 0x110000 ((((hexValue? (cp '0')).getD 0 * 16 +
      (hexValue? (cp '0')).getD 0) * 16 + (hexValue? (cp (Nat.digitChar (n / 16)))).getD 0) * 16 +
      (hexValue? (cp (Nat.digitChar (n % 16)))).getD 0) = Fin.ofNat _ n := by decide
  rw [encodePiece]
  split
  · next h => rcases h with rfl | rfl <;> rfl
  split
  · next h => subst h; rfl
  split
  · next h => subst h; rfl
  split
  · next h => subst h; rfl
  split
  · next h => exact Fin.ext h.symm
  split
  · next h => exact Fin.ext h.symm
  split
  · next h => rw [Piece.value, hlow c.val h]; exact Fin.ext (Nat.mod_eq_of_lt c.isLt)
  · rfl

theorem encodePiece_valid (c : CodePoint) : (encodePiece c).Valid := by
  have hhex : ∀ n < 16, (hexValue? (cp (Nat.digitChar n))).isSome := by decide
  rw [encodePiece]
  split
  · next h => rcases h with rfl | rfl <;> decide
  · next hq =>
    split
    · decide
    split
    · decide
    split
    · decide
    split
    · decide
    split
    · decide
    split
    · next h =>
      intro x hx
      simp only [List.mem_cons, List.not_mem_nil, or_false] at hx
      rcases hx with rfl | rfl | rfl | rfl
      · decide
      · decide
      · exact hhex _ (by omega)
      · exact hhex _ (Nat.mod_lt _ (by omega))
    · exact ⟨fun h => hq (Or.inl h), fun h => hq (Or.inr h), by omega⟩

/-- Only escapes pair up, so pieces without an escaped high surrogate are read one by one. -/
theorem decode_of_not_high : ∀ ps : List Piece,
    (∀ p ∈ ps, (p.isUnicode && isHighSurrogate p.value) = false) → decode ps = ps.map Piece.value
  | [], _ => rfl
  | [p], _ => rfl
  | p :: q :: ps, h => by
    obtain ⟨hp, hq⟩ := List.forall_mem_cons.mp h
    have hc : ¬ (p.isUnicode && q.isUnicode && isHighSurrogate p.value && isLowSurrogate q.value) = true := by
      intro hc
      simp only [Bool.and_eq_true] at hc
      simp [hc.1.1.1, hc.1.2] at hp
    rw [decode, if_neg hc, decode_of_not_high (q :: ps) hq]; rfl

theorem encodePiece_not_high (c : CodePoint) :
    ((encodePiece c).isUnicode && isHighSurrogate (encodePiece c).value) = false := by
  rw [encodePiece_value, encodePiece]
  split; · rfl
  split; · rfl
  split; · rfl
  split; · rfl
  split; · rfl
  split; · rfl
  split
  · next h =>
    simp only [Piece.isUnicode, Bool.true_and, isHighSurrogate, Bool.and_eq_false_iff, decide_eq_false_iff_not]
    omega
  · rfl

theorem spellsStr_strText (s : Str) : SpellsStr s (strText s) := by
  refine ⟨s.map encodePiece, by simpa using fun c _ => encodePiece_valid c, ?_, rfl⟩
  rw [decode_of_not_high _ (by simpa using fun c _ => encodePiece_not_high c), List.map_map]
  have : (Piece.value ∘ encodePiece) = id := funext encodePiece_value
  rw [this, List.map_id]

/-! ## What can be written -/

/-- `json.dumps` accepts `v` inside containers that leave room for `d` more. -/
def Writable (d : Nat) (v : Json) : Prop := Fits defaultHooks d (toTree v)

theorem writable_null (d : Nat) : Writable d .null := ⟨Nat.zero_le _, trivial⟩

theorem writable_str (d : Nat) (s : Str) : Writable d (.str s) := ⟨Nat.zero_le _, trivial⟩

theorem writable_bool (d : Nat) (b : Bool) : Writable d (.bool b) := ⟨Nat.zero_le _, trivial⟩

theorem writable_int {d : Nat} {i : Int} : Writable d (.int i) ↔ i.natAbs < 10 ^ maxStrDigits := by
  have hd : (defaultHooks.parseInt (NumLit.ofInt i) = .ok ()) ↔ (digits i.natAbs).length ≤ maxStrDigits := by
    simp only [defaultHooks, NumLit.ofInt]
    split <;> simp [*]
  rw [← length_digits_le_iff (by decide), ← hd]
  exact ⟨fun h => h.2.resolve_left (by simp), fun h => ⟨Nat.zero_le _, Or.inr h⟩⟩

theorem writable_float (d : Nat) (x : Float64) : Writable d (.float x) := by
  cases x with
  | nan => exact ⟨Nat.zero_le _, rfl⟩
  | inf neg => exact ⟨Nat.zero_le _, by cases neg <;> rfl⟩
  | finite neg m e h => exact ⟨Nat.zero_le _, Or.inl (Float64.readsBack_reprLit neg h).2.1⟩

theorem writable_arr {d : Nat} {vs : List Json} :
    Writable d (.arr vs) ↔ ∃ d', d = d' + 1 ∧ ∀ v ∈ vs, Writable d' v := by
  simp [Writable, toTree, fits_arr, itemsToTree_eq]

theorem writable_obj {d : Nat} {ms : List (Str × Json)} :
    Writable d (.obj ms) ↔ ∃ d', d = d' + 1 ∧ ∀ m ∈ ms, Writable d' m.2 := by
  simp only [Writable, toTree, fits_obj, membersToTree_eq, List.forall_mem_map]

/-- A value that is read from a tree the default hooks accept can be written. -/
theorem writable_toJson {d : Nat} {t : Tree} (h : Fits defaultHooks d t)
    (hv : t.All fun t => ∀ l, t = .num l → l.Valid) : Writable d t.toJson := by
  induction t using Tree.ind generalizing d with
  | null => exact writable_null d
  | bool b => exact writable_bool d b
  | str s => exact writable_str d s
  | const c => exact writable_float d _
  | num l =>
    rw [Tree.toJson]
    split
    · exact writable_float d _
    · next hf =>
      have hlen : l.int.length ≤ maxStrDigits := by
        have := h.2.resolve_left hf
        simp only [defaultHooks] at this
        split at this
        · assumption
        · cases this
      have hlt := natOfDigits_lt (hv l rfl).1.2
      have hpow : 10 ^ l.int.length ≤ 10 ^ maxStrDigits := Nat.pow_le_pow_right (by omega) hlen
      rw [writable_int, NumLit.toInt]
      split <;> omega
  | arr ts ih =>
    obtain ⟨d, rfl, hts⟩ := fits_arr.mp h
    rw [Tree.toJson, writable_arr, itemsToJson_eq]
    refine ⟨d, rfl, List.forall_mem_map.mpr fun t ht => ih t ht (hts t ht) ?_⟩
    exact allItems_iff.mp hv.2 t ht
  | obj ms ih =>
    obtain ⟨d, rfl, hms⟩ := fits_obj.mp h
    rw [Tree.toJson, writable_obj, membersToJson_eq]
    refine ⟨d, rfl, fun m hm => ?_⟩
    obtain ⟨m', hm', rfl⟩ := List.mem_map.mp (Dict.mem_of_mem_ofPairs hm)
    exact ih m' hm' (hms m' hm') (allMembers_iff.mp hv.2 m' hm')

theorem writable_of_loads [Interpreter] {s : Str} {v : Json} (h : loads s = .ok v) :
    Writable Interpreter.maxDepth v ∧ Proper v := by
  obtain ⟨t, ht, rfl⟩ : ∃ t, parse defaultHooks s = .ok t ∧ t.toJson = v := by
    rw [loads] at h
    cases e : parse defaultHooks s with
    | error x => rw [e] at h; cases h
    | ok t => rw [e] at h; cases h; exact ⟨t, rfl, rfl⟩
  obtain ⟨⟨w, c, w', -, -, hc, -⟩, hf⟩ := parse_sound ht
  exact ⟨writable_toJson hf hc.valid, toJson_proper t⟩

theorem Writable.mono {d d' : Nat} {v : Json} (h : Writable d v) (hd : d ≤ d') : Writable d' v :=
  Fits.mono h hd

theorem Writable.set {d : Nat} {ms : Dict Json} (h : Writable (d + 1) (.obj ms)) (k : Str) {v : Json}
    (hv : Writable d v) : Writable (d + 1) (.obj (ms.set k v)) := by
  obtain ⟨d', e, hms⟩ := writable_obj.mp h
  obtain rfl : d = d' := by omega
  refine writable_obj.mpr ⟨d, rfl, fun m hm => ?_⟩
  rcases Dict.set_mem hm with rfl | hm
  · exact hv
  · exact hms m hm

theorem Writable.erase {d : Nat} {ms : Dict Json} (h : Writable d (.obj ms)) (k : Str) :
    Writable d (.obj (ms.erase k)) := by
  obtain ⟨d', rfl, hms⟩ := writable_obj.mp h
  exact writable_obj.mpr ⟨d', rfl, fun m hm => hms m (List.mem_of_mem_filter hm)⟩

theorem Writable.get? {d : Nat} {ms : Dict Json} (h : Writable (d + 1) (.obj ms)) {k : Str} {v : Json}
    (hv : ms.get? k = some v) : Writable d v := by
  obtain ⟨d', e, hms⟩ := writable_obj.mp h
  obtain rfl : d = d' := by omega
  exact hms _ (Dict.mem_of_get? hv)

theorem Writable.getJ {d : Nat} {ms : Dict Json} (h : Writable (d + 1) (.obj ms)) (k : Str) :
    Writable d (ms.getJ k) := by
  rw [Dict.getJ]
  cases hv : ms.get? k with
  | none => exact writable_null d
  | some v => exact h.get? hv

/-! ## What is written -/

theorem commas_sep {α : Type} {P : α → Str → Prop} {as : List α} {ss : List Str}
    (h : List.Forall₂ P as ss) : as = [] ∧ commas ss = [] ∨ Sep P as (commas ss) := by
  induction h with
  | nil => exact Or.inl ⟨rfl, rfl⟩
  | @cons a s as ss ha has ih =>
    right
    cases has with
    | nil => exact ha
    | @cons b t bs ts hb hbs =>
      rcases ih with ⟨h, -⟩ | ih
      · cases h
      · exact ⟨s, _, rfl, ha, ih⟩

theorem dumpsItems_ok {allowNan : Bool} {d : Nat} {vs : List Json} {ss : List Str} :
    dumpsItems allowNan d vs = .ok ss ↔ List.Forall₂ (fun v s => dumpsAt allowNan d v = .ok s) vs ss := by
  induction vs generalizing ss with
  | nil => rw [dumpsItems, Except.ok.injEq, List.forall₂_nil_left_iff]; exact eq_comm
  | cons v vs ih =>
    rw [dumpsItems, List.forall₂_cons_left_iff]
    cases hv : dumpsAt allowNan d v with
    | error e => simp
    | ok s =>
      cases hvs : dumpsItems allowNan d vs with
      | error e =>
        constructor
        · intro h; cases h
        · rintro ⟨s', ss', -, h, -⟩; rw [← ih, hvs] at h; cases h
      | ok ss' =>
        constructor
        · intro h; cases h; exact ⟨s, ss', rfl, ih.mp hvs, rfl⟩
        · rintro ⟨s', ss'', hs, h, rfl⟩
          rw [← ih, hvs] at h
          cases h; cases hs; rfl

theorem dumpsMembers_ok {allowNan : Bool} {d : Nat} {ms : List (Str × Json)} {ss : List Str} :
    dumpsMembers allowNan d ms = .ok ss ↔ List.Forall₂ (fun m s =>
      ∃ t, dumpsAt allowNan d m.2 = .ok t ∧ s = strText m.1 ++ cp ':' :: t) ms ss := by
  induction ms generalizing ss with
  | nil => rw [dumpsMembers, Except.ok.injEq, List.forall₂_nil_left_iff]; exact eq_comm
  | cons m ms ih =>
    obtain ⟨k, v⟩ := m
    rw [dumpsMembers, List.forall₂_cons_left_iff]
    cases hv : dumpsAt allowNan d v with
    | error e => simp
    | ok s =>
      cases hvs : dumpsMembers allowNan d ms with
      | error e =>
        constructor
        · intro h; cases h
        · rintro ⟨s', ss', -, h, -⟩; rw [← ih, hvs] at h; cases h
      | ok ss' =>
        constructor
        · intro h; cases h; exact ⟨_, ss', ⟨s, rfl, rfl⟩, ih.mp hvs, rfl⟩
        · rintro ⟨s', ss'', ⟨t, ht, rfl⟩, h, rfl⟩
          rw [← ih, hvs] at h
          cases h; cases ht; rfl

theorem Padded.of {P : Str → Prop} {s : Str} (h : P s) : Padded P s :=
  ⟨[], s, [], ws_nil, ws_nil, h, by simp⟩

theorem Member.of {k s t : Str} {P : Str → Prop} (hk : SpellsStr k s) (h : P t) :
    Member k P (s ++ cp ':' :: t) := ⟨s, t, Padded.of hk, Padded.of h, rfl⟩

theorem Sep.map {α β : Type} {P : β → Str → Prop} {f : α → β} {as : List α} {s : Str}
    (h : Sep (fun a => P (f a)) as s) : Sep P (as.map f) s := by
  induction as generalizing s with
  | nil => exact h
  | cons a as ih =>
    cases as with
    | nil => exact h
    | cons b bs =>
      obtain ⟨s₁, s₂, rfl, ha, hb⟩ := h
      exact ⟨s₁, s₂, rfl, ha, ih hb⟩

/-- What `json.dumps` writes is a text of the tree of the value. -/
theorem dumpsAt_sound {allowNan : Bool} {d : Nat} {v : Json} {s : Str} (h : dumpsAt allowNan d v = .ok s) :
    Spells (toTree v) s ∧ Writable d v := by
  induction v using Json.ind generalizing d s with
  | null => rw [dumpsAt] at h; cases h; exact ⟨rfl, writable_null d⟩
  | bool b => rw [dumpsAt] at h; cases h; exact ⟨by cases b <;> rfl, writable_bool d b⟩
  | int i =>
    rw [dumpsAt, intStr_eq_ok_iff] at h
    obtain ⟨hi, rfl⟩ := h
    exact ⟨⟨NumLit.ofInt_valid i, (NumLit.ofInt_text i).symm⟩, writable_int.mpr hi⟩
  | float x =>
    rw [dumpsAt, floatText.eq_def] at h
    refine ⟨?_, writable_float d x⟩
    cases x with
    | nan => cases allowNan <;> simp at h; subst h; rfl
    | inf neg => cases allowNan <;> simp at h; subst h; cases neg <;> rfl
    | finite neg m e hc => cases h; exact ⟨(Float64.readsBack_reprLit neg hc).1, rfl⟩
  | str v => rw [dumpsAt] at h; cases h; exact ⟨spellsStr_strText v, writable_str d v⟩
  | arr vs ih =>
    cases d with
    | zero => rw [dumpsAt] at h; cases h
    | succ d =>
      rw [dumpsAt] at h
      cases hss : dumpsItems allowNan d vs with
      | error e => rw [hss] at h; cases h
      | ok ss =>
        rw [hss] at h; cases h
        have hall := dumpsItems_ok.mp hss
        have hall' : List.Forall₂ (fun v s => Padded (Spells (toTree v)) s ∧ Writable d v) vs ss := by
          refine ((List.forall₂_and_left _ _).mpr ⟨fun v hv => fun s => ih v hv (d := d) (s := s), hall⟩).imp ?_
          rintro v s ⟨hv, hs⟩
          exact ⟨Padded.of (hv s hs).1, (hv s hs).2⟩
        refine ⟨?_, writable_arr.mpr ⟨d, rfl, ?_⟩⟩
        · rw [toTree, Spells, itemsToTree_eq]
          refine ⟨commas ss, rfl, ?_⟩
          rcases commas_sep hall' with ⟨rfl, hc⟩ | hc
          · exact Or.inl ⟨rfl, hc ▸ ws_nil⟩
          · exact Or.inr ((spellsItems_iff _ _).mpr (Sep.map (hc.imp fun _ _ => And.left)))
        · rcases commas_sep hall' with ⟨rfl, -⟩ | hc
          · simp
          · exact hc.forall fun _ _ _ h => h.2
  | obj ms ih =>
    cases d with
    | zero => rw [dumpsAt] at h; cases h
    | succ d =>
      rw [dumpsAt] at h
      cases hss : dumpsMembers allowNan d ms with
      | error e => rw [hss] at h; cases h
      | ok ss =>
        rw [hss] at h; cases h
        have hall := dumpsMembers_ok.mp hss
        have hall' : List.Forall₂ (fun m s => Member m.1 (Spells (toTree m.2)) s ∧ Writable d m.2) ms ss := by
          refine ((List.forall₂_and_left _ _).mpr ⟨fun m hm => fun s => ih m hm (d := d) (s := s), hall⟩).imp ?_
          rintro m s ⟨hm, t, ht, hs⟩
          exact ⟨hs ▸ Member.of (spellsStr_strText _) (hm t ht).1, (hm t ht).2⟩
        refine ⟨?_, writable_obj.mpr ⟨d, rfl, ?_⟩⟩
        · rw [toTree, Spells, membersToTree_eq]
          refine ⟨commas ss, rfl, ?_⟩
          rcases commas_sep hall' with ⟨rfl, hc⟩ | hc
          · exact Or.inl ⟨rfl, hc ▸ ws_nil⟩
          · exact Or.inr ((spellsMembers_iff _ _).mpr (Sep.map (hc.imp fun _ _ => And.left)))
        · rcases commas_sep hall' with ⟨rfl, -⟩ | hc
          · simp
          · exact hc.forall fun _ _ _ h => h.2

/-- `json.dumps` returns for every value that is writable. -/
theorem dumpsAt_isOk {d : Nat} {v : Json} (h : Writable d v) : ∃ s, dumpsAt true d v = .ok s := by
  induction v using Json.ind generalizing d with
  | null => exact ⟨_, by rw [dumpsAt]⟩
  | bool b => exact ⟨_, by rw [dumpsAt]⟩
  | int i => exact ⟨intText i, by rw [dumpsAt, intStr_eq_ok_iff]; exact ⟨writable_int.mp h, rfl⟩⟩
  | float x => cases x <;> exact ⟨_, by rw [dumpsAt]; rfl⟩
  | str s => exact ⟨_, by rw [dumpsAt]⟩
  | arr vs ih =>
    obtain ⟨d, rfl, hvs⟩ := writable_arr.mp h
    obtain ⟨ss, hss⟩ : ∃ ss, dumpsItems true d vs = .ok ss := by
      clear h
      induction vs with
      | nil => exact ⟨[], rfl⟩
      | cons v vs ihs =>
        obtain ⟨s, hs⟩ := ih v (by simp) (hvs v (by simp))
        obtain ⟨ss, hss⟩ := ihs (fun v hv => ih v (by simp [hv])) fun v hv => hvs v (by simp [hv])
        exact ⟨s :: ss, by rw [dumpsItems, hs, hss]⟩
    exact ⟨_, by rw [dumpsAt, hss]; rfl⟩
  | obj ms ih =>
    obtain ⟨d, rfl, hms⟩ := writable_obj.mp h
    obtain ⟨ss, hss⟩ : ∃ ss, dumpsMembers true d ms = .ok ss := by
      clear h
      induction ms with
      | nil => exact ⟨[], rfl⟩
      | cons m ms ihs =>
        obtain ⟨s, hs⟩ := ih m (by simp) (hms m (by simp))
        obtain ⟨ss, hss⟩ := ihs (fun v hv => ih v (by simp [hv])) fun v hv => hms v (by simp [hv])
        obtain ⟨k, v⟩ := m
        exact ⟨_ :: ss, by rw [dumpsMembers, hs, hss]⟩
    exact ⟨_, by rw [dumpsAt, hss]; rfl⟩

/-- Without constants, `allow_nan` makes no difference. -/
theorem dumpsAt_allowNan {d : Nat} {v : Json} {s : Str} (h : dumpsAt false d v = .ok s) : dumpsAt true d v = .ok s := by
  induction v using Json.ind generalizing d s with
  | float x =>
    rw [dumpsAt] at h ⊢
    cases x with
    | finite neg m e hc => exact h
    | nan => cases h
    | inf neg => cases h
  | arr vs ih =>
    cases d with
    | zero => rw [dumpsAt] at h; cases h
    | succ d =>
      rw [dumpsAt] at h ⊢
      obtain ⟨ss, hss, rfl⟩ := map_eq_ok.mp h
      have hall := (List.forall₂_and_left _ _).mpr ⟨fun v hv s => ih v hv (d := d) (s := s), dumpsItems_ok.mp hss⟩
      exact map_eq_ok.mpr ⟨ss, dumpsItems_ok.mpr (hall.imp fun v s h => h.1 s h.2), rfl⟩
  | obj ms ih =>
    cases d with
    | zero => rw [dumpsAt] at h; cases h
    | succ d =>
      rw [dumpsAt] at h ⊢
      obtain ⟨ss, hss, rfl⟩ := map_eq_ok.mp h
      have hall := (List.forall₂_and_left _ _).mpr ⟨fun m hm s => ih m hm (d := d) (s := s), dumpsMembers_ok.mp hss⟩
      refine map_eq_ok.mpr ⟨ss, dumpsMembers_ok.mpr (hall.imp fun m s h => ?_), rfl⟩
      obtain ⟨t, ht, hs⟩ := h.2
      exact ⟨t, h.1 t ht, hs⟩
  | _ =>
    rw [dumpsAt] at h ⊢
    exact h

/-- What `json.dumps` may raise. -/
theorem dumpsAt_cls {allowNan : Bool} {d : Nat} {v : Json} {e : PyExc} (h : dumpsAt allowNan d v = .error e) :
    e.cls = .valueError ∨ e.cls = .recursionError := by
  induction v using Json.ind generalizing d e with
  | null => rw [dumpsAt] at h; cases h
  | bool b => rw [dumpsAt] at h; cases h
  | str s => rw [dumpsAt] at h; cases h
  | int i =>
    rw [dumpsAt, intStr] at h
    split at h <;> cases h
    exact .inl rfl
  | float x =>
    rw [dumpsAt] at h
    cases x <;> simp only [floatText] at h <;> (try split at h) <;> cases h <;> exact .inl rfl
  | arr vs ih =>
    cases d with
    | zero => rw [dumpsAt] at h; cases h; exact .inr rfl
    | succ d =>
      have hitems : ∀ {e}, dumpsItems allowNan d vs = .error e → e.cls = .valueError ∨ e.cls = .recursionError := by
        clear h
        induction vs with
        | nil => intro e h; rw [dumpsItems] at h; cases h
        | cons v vs ihs =>
          intro e h
          rw [dumpsItems] at h
          split at h
          · next hv => cases h; exact ih v (by simp) hv
          · next hvs _ => cases h; exact ihs (fun v hv => ih v (by simp [hv])) hvs
          · cases h
      rw [dumpsAt] at h
      cases hvs : dumpsItems allowNan d vs with
      | ok ss => rw [hvs] at h; cases h
      | error e' => rw [hvs] at h; cases h; exact hitems hvs
  | obj ms ih =>
    cases d with
    | zero => rw [dumpsAt] at h; cases h; exact .inr rfl
    | succ d =>
      have hmembers : ∀ {e}, dumpsMembers allowNan d ms = .error e → e.cls = .valueError ∨ e.cls = .recursionError := by
        clear h
        induction ms with
        | nil => intro e h; rw [dumpsMembers] at h; cases h
        | cons m ms ihs =>
          obtain ⟨k, v⟩ := m
          intro e h
          rw [dumpsMembers] at h
          split at h
          · next hv => cases h; exact ih (k, v) (by simp) hv
          · next hvs _ => cases h; exact ihs (fun m hm => ih m (by simp [hm])) hvs
          · cases h
      rw [dumpsAt] at h
      cases hms : dumpsMembers allowNan d ms with
      | ok ss => rw [hms] at h; cases h
      | error e' => rw [hms] at h; cases h; exact hmembers hms

/-- What `json.dumps` raises is an `Exception`. -/
theorem dumpsAt_raises {allowNan : Bool} {d : Nat} {v : Json} {e : PyExc} (h : dumpsAt allowNan d v = .error e) :
    e.isException = true := by
  rcases dumpsAt_cls h with hc | hc <;> simp [PyExc.isA, hc, ExcClass.ancestors]

section Loads

variable [Interpreter]

theorem dumps_isOk {v : Json} (h : Writable Interpreter.maxDepth v) : ∃ s, dumps true v = .ok s :=
  dumpsAt_isOk h

/-- The text of a tree that fits is read as the tree's value. -/
theorem loads_of_spells {t : Tree} {s : Str} (h : Padded (Spells t) s)
    (hf : Fits defaultHooks Interpreter.maxDepth t) : loads s = .ok t.toJson := by
  rw [loads, parse_complete h hf]; rfl

/-- What `json.dumps` writes, `json.loads` reads back. -/
theorem loads_dumps {allowNan : Bool} {v : Json} {s : Str} (hv : Proper v) (h : dumps allowNan v = .ok s) :
    loads s = .ok v := by
  obtain ⟨hs, hf⟩ := dumpsAt_sound h
  rw [loads_of_spells (Padded.of hs) hf, toJson_toTree hv]

/-- What `json.loads` may raise. -/
theorem loads_raises {s : Str} {e : PyExc} (h : loads s = .error e) :
    e.isA .valueError = true ∨ e.cls = .recursionError := by
  rw [loads] at h
  cases hp : parse defaultHooks s with
  | ok t => rw [hp] at h; cases h
  | error e' =>
    rw [hp] at h; cases h
    rcases parse_raises hp with hc | hc | ⟨l, hl⟩ | ⟨c, hc⟩
    · left; rw [PyExc.isA, hc]; rfl
    · exact Or.inr hc
    · left
      simp only [defaultHooks] at hl
      split at hl
      · cases hl
      · cases hl; rfl
    · cases hc

end Loads

end Py.Json
