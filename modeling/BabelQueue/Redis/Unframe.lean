import BabelQueue.Redis.Frame

/-!
# The cheap reject of `_unframe`

`_unframe` parses only a value that starts with a brace and contains the quoted frame key.

* `unframeSlow`: `_unframe` without that check.
* `length_lt_of_loads`: a string member is shorter than the text of its object, so no frame is its own body.
* `unframe_eq_slow_iff`: when the check changes nothing.
-/

namespace BabelQueue.Redis

open Py Py.Json

section Interpreter

variable [Interpreter]

/-- The object and the body of a frame, with every value parsed. -/
def frameSlow? (value : Str) : Except PyExc (Option (Dict Json × Str)) :=
  tryExceptPure
    ((loads value).map fun v => v.asObj?.bind fun decoded =>
      if (decoded.getJ frameKey).truthy then (decoded.getJ (str "body")).asStr?.map (decoded, ·) else none)
    [.valueError, .typeError] fun _ => .ok none

/-- `_unframe` without its cheap reject. -/
def unframeSlow (value : Str) : Except PyExc (Str × Dict Str) := do
  match ← frameSlow? value with
  | none => pure (value, [])
  | some (decoded, body) => pure (body, ← sanitizeHeaders ((decoded.getJ (str "headers")).asObj?.getD []))

/-- The frame key as a JSON string without escapes. -/
def quotedFrameKey : Str := cp '"' :: frameKey ++ [cp '"']

/-! ## The check -/

omit [Interpreter] in
theorem mayBeFrame_iff {value : Str} :
    mayBeFrame value = true ↔ (∃ rest, value = cp '{' :: rest) ∧ quotedFrameKey <:+: value := by
  have hinfix : (value.tails.any fun t => startsWith t (cp '"' :: frameKey ++ [cp '"'])) = true ↔
      quotedFrameKey <:+: value := by
    rw [List.any_eq_true, List.infix_iff_prefix_suffix]
    refine exists_congr fun t => ?_
    rw [List.mem_tails, startsWith, List.isPrefixOf_iff_prefix, and_comm]
    rfl
  rw [mayBeFrame, Bool.and_eq_true, startsWith_iff, hinfix]
  rfl

theorem frame?_of_mayBeFrame {value : Str} (h : mayBeFrame value = true) : frame? value = frameSlow? value := by
  unfold frame?
  rw [h, if_neg (by decide)]
  rfl

theorem unframe_of_mayBeFrame {value : Str} (h : mayBeFrame value = true) : unframe value = unframeSlow value := by
  unfold unframe unframeSlow
  exact frame?_of_mayBeFrame h ▸ rfl

theorem unframe_of_not_mayBeFrame {value : Str} (h : mayBeFrame value = false) : unframe value = .ok (value, []) := by
  refine unframe_of_not_frame ?_
  unfold frame?
  exact if_pos h

/-! ## The slow path -/

/-- The slow path finds the body of a frame. -/
theorem frameSlow?_of_frame {value body : Str} {decoded : Dict Json} (hl : loads value = .ok (.obj decoded))
    (ht : (decoded.getJ frameKey).truthy = true) (hb : decoded.getJ (str "body") = .str body) :
    frameSlow? value = .ok (some (decoded, body)) := by
  unfold frameSlow?
  rw [hl]
  show Except.ok (if (decoded.getJ frameKey).truthy = true then (decoded.getJ (str "body")).asStr?.map (decoded, ·)
    else none) = _
  rw [if_pos ht, hb]
  rfl

theorem frameSlow?_of_overdeep {value : Str} (h : Overdeep value) : ∃ e, frameSlow? value = .error e := by
  obtain ⟨e, hl, he⟩ := h
  refine ⟨e, ?_⟩
  unfold frameSlow?
  rw [hl]
  exact if_neg (by simp [PyExc.isAny, PyExc.isA, he, ExcClass.ancestors])

theorem frameSlow?_bare {value : Str} (hf : ¬ IsFrame value) (hd : ¬ Overdeep value) : frameSlow? value = .ok none := by
  unfold frameSlow?
  cases hl : loads value with
  | error e =>
    refine if_pos ?_
    rcases loads_raises hl with h | h
    · simp [PyExc.isAny, h]
    · exact absurd ⟨e, hl, h⟩ hd
  | ok v =>
    cases v with
    | obj decoded =>
      show Except.ok (if (Dict.getJ decoded frameKey).truthy = true then
        (Dict.getJ decoded (str "body")).asStr?.map (decoded, ·) else none) = _
      split
      · next ht =>
        cases hb : Dict.getJ decoded (str "body") with
        | str body => exact absurd ⟨decoded, body, hl, ht, hb⟩ hf
        | _ => rfl
      · rfl
    | _ => rfl

/-! ## The length of a member -/

omit [Interpreter] in
theorem decode_length_le (ps : List Piece) : (Json.decode ps).length ≤ ps.length := by
  fun_induction Json.decode ps with
  | case1 => exact Nat.le_refl _
  | case2 p => exact Nat.le_refl _
  | case3 p q ps _ ih =>
    simp only [List.length_cons]
    omega
  | case4 p q ps _ ih =>
    simp only [List.length_cons] at ih ⊢
    omega

omit [Interpreter] in
theorem length_lt_of_spellsStr {v s : Str} (h : SpellsStr v s) : v.length < s.length := by
  obtain ⟨ps, -, rfl, rfl⟩ := h
  have htext : ps.length ≤ (ps.flatMap Piece.text).length := by
    induction ps with
    | nil => exact Nat.le_refl _
    | cons p ps ih =>
      have hp : 0 < p.text.length := by cases p <;> exact Nat.succ_pos _
      rw [List.flatMap_cons, List.length_append, List.length_cons]
      omega
  have := decode_length_le ps
  unfold quoted
  rw [List.length_append, List.length_cons]
  omega

omit [Interpreter] in
/-- An element of a sequence is no longer than the sequence. -/
theorem exists_of_sep {α : Type} {P : α → Str → Prop} {as : List α} {s : Str} (h : Sep P as s) {a : α} (ha : a ∈ as) :
    ∃ t, P a t ∧ t.length ≤ s.length := by
  induction as generalizing s with
  | nil => cases ha
  | cons b as ih =>
    cases as with
    | nil =>
      obtain rfl := List.mem_singleton.mp ha
      exact ⟨s, h, Nat.le_refl _⟩
    | cons c as =>
      obtain ⟨s₁, s₂, rfl, hb, hs⟩ := h
      rcases List.mem_cons.mp ha with rfl | ha
      · exact ⟨s₁, hb, by rw [List.length_append]; omega⟩
      · obtain ⟨t, ht, hle⟩ := ih hs ha
        exact ⟨t, ht, by rw [List.length_append, List.length_cons]; omega⟩

/-- A string member is shorter than the text of its object. -/
theorem length_lt_of_loads {text body key : Str} {d : Dict Json} (h : loads text = .ok (.obj d))
    (hb : d.getJ key = .str body) : body.length < text.length := by
  obtain ⟨t, ht, hobj⟩ := map_eq_ok.mp h
  obtain ⟨⟨w, s, w', -, -, hs, rfl⟩, -⟩ := parse_sound ht
  cases t with
  | obj ms =>
    rw [toJson_obj] at hobj
    obtain rfl := Json.obj.inj hobj
    have hget : Dict.get? (Dict.ofPairs (membersToJson ms)) key = some (.str body) := by
      unfold Dict.getJ at hb
      cases hg : Dict.get? (Dict.ofPairs (membersToJson ms)) key with
      | none => rw [hg] at hb; cases hb
      | some v => rw [hg] at hb; exact congrArg some hb
    have hmem := Dict.mem_of_mem_ofPairs (Dict.mem_of_get? hget)
    rw [membersToJson_eq, List.mem_map] at hmem
    obtain ⟨⟨k, u⟩, hm, he⟩ := hmem
    obtain rfl : u = .str body := by
      have hu : u.toJson = .str body := congrArg Prod.snd he
      cases u with
      | str s => rw [Tree.toJson] at hu; exact congrArg Tree.str (Json.str.inj hu)
      | num l => rw [Tree.toJson] at hu; split at hu <;> cases hu
      | _ => rw [Tree.toJson] at hu; cases hu
    rw [Spells] at hs
    obtain ⟨members, rfl, ⟨rfl, -⟩ | hms⟩ := hs
    · cases hm
    · rw [spellsMembers_iff] at hms
      obtain ⟨t, ⟨s₁, s₂, -, ⟨v, lit, v', -, -, hlit, rfl⟩, rfl⟩, hle⟩ := exists_of_sep hms hm
      rw [Spells] at hlit
      have hlt := length_lt_of_spellsStr hlit
      simp only [List.length_append, List.length_cons] at hle ⊢
      omega
  | num l => rw [Tree.toJson] at hobj; split at hobj <;> cases hobj
  | _ => rw [Tree.toJson] at hobj; cases hobj

/-! ## Agreement -/

/-- The slow path hands no frame back as it is. -/
theorem unframeSlow_ne_bare {value : Str} (h : IsFrame value ∨ Overdeep value) : unframeSlow value ≠ .ok (value, []) := by
  intro hu
  unfold unframeSlow at hu
  rcases h with ⟨decoded, body, hl, ht, hb⟩ | hd
  · rw [frameSlow?_of_frame hl ht hb] at hu
    replace hu : (sanitizeHeaders ((decoded.getJ (str "headers")).asObj?.getD []) >>= fun headers => pure (body, headers)) =
      Except.ok (value, []) := hu
    obtain ⟨headers, -, he⟩ := bind_eq_ok.mp hu
    have hbody : body = value := congrArg Prod.fst (Except.ok.inj he)
    have hlt := length_lt_of_loads hl hb
    rw [hbody] at hlt
    exact Nat.lt_irrefl _ hlt
  · obtain ⟨e, he⟩ := frameSlow?_of_overdeep hd
    rw [he] at hu
    cases hu

/-- The cheap reject changes nothing exactly when a frame, or a value that is too deep to parse, starts with its
brace and contains the frame key without escapes. -/
theorem unframe_eq_slow_iff (value : Str) :
    unframe value = unframeSlow value ↔
      (IsFrame value ∨ Overdeep value → (∃ rest, value = cp '{' :: rest) ∧ quotedFrameKey <:+: value) := by
  rw [← mayBeFrame_iff]
  constructor
  · intro h hv
    by_contra hm
    rw [unframe_of_not_mayBeFrame (by simpa using hm)] at h
    exact unframeSlow_ne_bare hv h.symm
  · intro h
    cases hm : mayBeFrame value with
    | true => exact unframe_of_mayBeFrame hm
    | false =>
      have hv : ¬ (IsFrame value ∨ Overdeep value) := fun hv => by
        rw [h hv] at hm
        cases hm
      obtain ⟨hf, hd⟩ := not_or.mp hv
      rw [unframe_of_not_mayBeFrame hm]
      unfold unframeSlow
      rw [frameSlow?_bare hf hd]
      rfl

end Interpreter

section CPython

attribute [local instance] cpython

/-- A frame with a blank before its brace. -/
def paddedFrame : Str := str " \x7b\"__bq_frame\":1,\"headers\":\x7b\"a\":\"b\"\x7d,\"body\":\"x\"\x7d"

/-- The slow path takes it apart, and `_unframe` does not. -/
theorem unframe_padded :
    unframe paddedFrame = .ok (paddedFrame, []) ∧ unframeSlow paddedFrame = .ok (str "x", [(str "a", str "b")]) ∧
      ¬ ∀ value, unframe value = unframeSlow value := by
  have hfast : unframe paddedFrame = .ok (paddedFrame, []) := by decide +kernel
  have hslow : unframeSlow paddedFrame = .ok (str "x", [(str "a", str "b")]) := by decide +kernel
  refine ⟨hfast, hslow, fun h => ?_⟩
  have hsame := h paddedFrame
  rw [hfast, hslow] at hsame
  exact absurd hsame (by decide +kernel)

end CPython

end BabelQueue.Redis
