import BabelQueue.PoisonRecord.Lossless

/-!
# What a poison record tells of its body

* `EqualUpToSpace`: the same bytes, or the same object with other white space around it.
* `Wraps b b'`: the text of `b` is the object that a wrapped `b'` is recorded as, without the block.
* `poisonRecord_identifies`: two bodies with the same record are equal in this sense, or both are objects
  without members, or one wraps the other.
-/

namespace BabelQueue

open Py Py.Json

/-- The same bytes, or the same JSON object, up to the white space around it. -/
def EqualUpToSpace (b b' : Bytes) : Prop :=
  b = b' ∨ ∃ w₁ w₂ w₁' w₂' t ms, Utf8.decodeStrict b = some (w₁ ++ t ++ w₂) ∧
    Utf8.decodeStrict b' = some (w₁' ++ t ++ w₂') ∧ Ws w₁ ∧ Ws w₂ ∧ Ws w₁' ∧ Ws w₂' ∧ Spells (.obj ms) t

/-- An object without members. -/
def EmptyObject (b : Bytes) : Prop := ∃ decoded, Utf8.decodeStrict b = some decoded ∧ Padded (Spells (.obj [])) decoded

/-- `b` is the object of the members that `b'` is wrapped in. -/
inductive Wraps (b b' : Bytes) : Prop
  | text {w w' decoded : Str} (hw : Ws w) (hw' : Ws w') (hb' : Utf8.decodeStrict b' = some decoded)
      (hb : Utf8.decodeStrict b = some (w ++ (str "\x7b\"raw\":" ++ strText decoded ++ [cp '}']) ++ w')) : Wraps b b'
  | bytes {w w' : Str} (hw : Ws w) (hw' : Ws w') (hb' : Utf8.decodeStrict b' = none)
      (hb : Utf8.decodeStrict b =
        some (w ++ (str "\x7b\"raw\":\"" ++ b64encode b' ++ str "\",\"raw_encoding\":\"base64\"" ++ [cp '}']) ++ w')) :
      Wraps b b'

theorem wrapText_eq (decoded block : Str) :
    wrapText decoded block =
      (str "\x7b\"raw\":" ++ strText decoded) ++ str ",\"dead_letter\":" ++ block ++ str "\x7d" := rfl

theorem wrapBytes_eq (b : Bytes) (block : Str) :
    wrapBytes b block =
      (str "\x7b\"raw\":\"" ++ b64encode b ++ str "\",\"raw_encoding\":\"base64\"") ++ str ",\"dead_letter\":" ++ block ++
        str "\x7d" := by
  have e : str "\",\"raw_encoding\":\"base64\",\"dead_letter\":" =
      str "\",\"raw_encoding\":\"base64\"" ++ str ",\"dead_letter\":" := by decide +kernel
  rw [wrapBytes, e]
  simp only [List.append_assoc]

/-- The text before the block is determined by the record. -/
theorem kept_unique {kept kept' block : Str}
    (h : kept ++ str ",\"dead_letter\":" ++ block ++ str "\x7d" = kept' ++ str ",\"dead_letter\":" ++ block ++ str "\x7d") :
    kept = kept' := by
  simp only [List.append_assoc] at h
  exact List.append_cancel_right h

theorem EqualUpToSpace.symm {b b' : Bytes} (h : EqualUpToSpace b b') : EqualUpToSpace b' b := by
  rcases h with rfl | ⟨w₁, w₂, w₁', w₂', t, ms, hb, hb', h₁, h₂, h₁', h₂', hs⟩
  · exact .inl rfl
  · exact .inr ⟨w₁', w₂', w₁, w₂, t, ms, hb', hb, h₁', h₂', h₁, h₂, hs⟩

/-- A spliced body, against any body with the same record. -/
theorem Keeps.wraps {b b' : Bytes} {block kept w w' record : Str} {ms : List (Str × Tree)} (hw : Ws w) (hw' : Ws w')
    (hb : Utf8.decodeStrict b = some (w ++ (kept ++ [cp '}']) ++ w')) (h : Keeps b' block ms record) (hne : ms ≠ [])
    (hr : kept ++ str ",\"dead_letter\":" ++ block ++ str "\x7d" = record) : Wraps b b' ∨ EqualUpToSpace b b' := by
  cases h with
  | spliced hb' hv hv' hs _ =>
    obtain rfl := kept_unique hr
    exact .inr (.inr ⟨w, w', _, _, _, _, hb, hb', hw, hw', hv, hv', hs⟩)
  | empty => exact absurd rfl hne
  | text hb' _ =>
    rw [wrapText_eq] at hr
    obtain rfl := kept_unique hr
    exact .inl (.text hw hw' hb' hb)
  | bytes hb' _ =>
    rw [wrapBytes_eq] at hr
    obtain rfl := kept_unique hr
    exact .inl (.bytes hw hw' hb' hb)

/-- What two bodies with the same record have in common. -/
theorem Keeps.identifies {b b' : Bytes} {block record record' : Str} {ms ms' : List (Str × Tree)}
    (h : Keeps b block ms record) (h' : Keeps b' block ms' record') (hr : record = record') (hms : ms = ms') :
    EqualUpToSpace b b' ∨ (EmptyObject b ∧ EmptyObject b') ∨ Wraps b b' ∨ Wraps b' b := by
  have hother : ∀ {kept w w' : Str}, Utf8.decodeStrict b' = some (w ++ (kept ++ [cp '}']) ++ w') → Ws w → Ws w' → ms ≠ [] →
      record = kept ++ str ",\"dead_letter\":" ++ block ++ str "\x7d" → EqualUpToSpace b b' ∨ Wraps b' b := by
    intro kept w w' hb' hw hw' hne hrec
    rcases h.wraps hw hw' hb' hne hrec.symm with hwr | heq
    · exact .inr hwr
    · exact .inl heq.symm
  cases h' with
  | spliced hb' hw hw' _ hne =>
    rcases hother hb' hw hw' (hms ▸ hne) hr with heq | hwr
    · exact .inl heq
    · exact .inr (.inr (.inr hwr))
  | empty hb' hs' =>
    cases h with
    | spliced _ _ _ _ hne => exact absurd hms hne
    | empty hb hs => exact .inr (.inl ⟨⟨_, hb, hs⟩, ⟨_, hb', hs'⟩⟩)
    | text _ _ => cases hms
    | bytes _ _ => cases hms
  | text hb' he' =>
    cases h with
    | spliced hb hw hw' _ hne =>
      rcases (Keeps.text hb' he').wraps hw hw' hb (by simp) hr with hwr | heq
      · exact .inr (.inr (.inl hwr))
      · exact .inl heq
    | empty _ _ => cases hms
    | text hb he =>
      cases hms
      rw [he] at he'
      exact .inl (.inl (Except.ok.inj he'))
    | bytes _ _ => cases hms
  | bytes hb' hd' =>
    cases h with
    | spliced hb hw hw' _ hne =>
      rcases (Keeps.bytes hb' hd').wraps hw hw' hb (by simp) hr with hwr | heq
      · exact .inr (.inr (.inl hwr))
      · exact .inl heq
    | empty _ _ => cases hms
    | text _ _ => cases hms
    | bytes hb hd =>
      cases hms
      rw [hd] at hd'
      exact .inl (.inl (Option.some.inj hd'))

section Build

variable [Interpreter]

/-- Two bodies with the same record and block. -/
theorem poisonRecord_identifies {b b' : Bytes} {block : Dict Json} {record : Str} (hblock : Json.Proper (.obj block))
    (h : buildPoisonRecord (Utf8.decodeEscape b) block = .ok record)
    (h' : buildPoisonRecord (Utf8.decodeEscape b') block = .ok record) :
    EqualUpToSpace b b' ∨ (EmptyObject b ∧ EmptyObject b') ∨ Wraps b b' ∨ Wraps b' b := by
  obtain ⟨ms, text, htext, hk, hs, -⟩ := ((poisonRecord_lossless b block hblock).2 record h).object
  obtain ⟨ms', text', htext', hk', hs', -⟩ := ((poisonRecord_lossless b' block hblock).2 record h').object
  rw [htext] at htext'
  obtain rfl := Except.ok.inj htext'
  have hmembers := Tree.obj.inj (hs.unique hs')
  exact hk.identifies hk' rfl (List.append_cancel_right hmembers)

end Build

section CPython

attribute [local instance] cpython

/-- The text `x`. -/
def rawBody : Bytes := [0x78]

/-- The text `{"raw":"x"}`. -/
def wrapBody : Bytes := [0x7B, 0x22, 0x72, 0x61, 0x77, 0x22, 0x3A, 0x22, 0x78, 0x22, 0x7D]

/-- The record of both. -/
def sharedRecord : Str := str "\x7b\"raw\":\"x\",\"dead_letter\":\x7b\"reason\":\"poison\"\x7d\x7d"

theorem poisonRecord_identifies_shared :
    EqualUpToSpace rawBody wrapBody ∨ (EmptyObject rawBody ∧ EmptyObject wrapBody) ∨ Wraps rawBody wrapBody ∨
      Wraps wrapBody rawBody :=
  poisonRecord_identifies (show Json.Proper (.obj [(str "reason", .str (str "poison"))]) by simp [Json.Proper, properMembers, Dict.Proper])
    (show _ = Except.ok sharedRecord by decide +kernel) (by decide +kernel)

/-- The two bodies have the same record, and they are not the same object. -/
theorem poisonRecord_shared :
    buildPoisonRecord (Utf8.decodeEscape rawBody) [(str "reason", .str (str "poison"))] = .ok sharedRecord ∧
      buildPoisonRecord (Utf8.decodeEscape wrapBody) [(str "reason", .str (str "poison"))] = .ok sharedRecord ∧
      ¬ EqualUpToSpace rawBody wrapBody := by
  refine ⟨by decide +kernel, by decide +kernel, ?_⟩
  rintro (h | ⟨w₁, w₂, w₁', w₂', t, ms, h, -, -, -, -, -, hs⟩)
  · exact absurd h (by decide)
  · have hx : Utf8.decodeStrict rawBody = some [cp 'x'] := by decide +kernel
    rw [Spells] at hs
    obtain ⟨body, rfl, -⟩ := hs
    rw [hx] at h
    have hbrace : cp '{' ∈ [cp 'x'] := by rw [Option.some.inj h]; simp
    exact absurd hbrace (by decide)

end CPython

end BabelQueue
