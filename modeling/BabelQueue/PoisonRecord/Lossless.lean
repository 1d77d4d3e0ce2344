import BabelQueue.EnvelopeShape.Grammar
import BabelQueue.PoisonRecord
import BabelQueue.Py.Utf8.RoundTrip

/-!
# A poison record keeps its body

* `Keeps b block ms record`: `record` holds the bytes `b` in the members `ms` before its block.
* `poisonRecord_lossless`: every record is an object that ends with its one `dead_letter` member and
  keeps the body.
-/

namespace BabelQueue

open Py Py.Json

/-- The ways a record keeps a body: the text of the object up to its last brace, or its whole text
or bytes under `raw`. -/
inductive Keeps (b : Bytes) (block : Str) : List (Str × Tree) → Str → Prop
  /-- Every character of the object stays, but for the white space around it and the last brace. -/
  | spliced {w kept w' : Str} {ms : List (Str × Tree)} : Utf8.decodeStrict b = some (w ++ (kept ++ [cp '}']) ++ w') →
      Ws w → Ws w' → Spells (.obj ms) (kept ++ [cp '}']) → ms ≠ [] →
      Keeps b block ms (kept ++ str ",\"dead_letter\":" ++ block ++ str "\x7d")
  /-- An object without members has no text to keep. -/
  | empty {decoded : Str} : Utf8.decodeStrict b = some decoded → Padded (Spells (.obj [])) decoded →
      Keeps b block [] (str "\x7b\"dead_letter\":" ++ block ++ str "\x7d")
  /-- The UTF-8 form of `raw` is the body. -/
  | text {decoded : Str} : Utf8.decodeStrict b = some decoded → Utf8.encodeStrict decoded = .ok b →
      Keeps b block [(str "raw", .str decoded)] (wrapText decoded block)
  /-- The base64 of `raw` is the body. -/
  | bytes {raw : Str} : Utf8.decodeStrict b = none → b64decode raw = some b →
      Keeps b block [(str "raw", .str raw), (str "raw_encoding", .str (str "base64"))] (wrapBytes b block)

/-! ## Characters -/

theorem not_isSurrogate_cp (c : Char) : isSurrogate (cp c) = false := by
  have hv : (cp c).val = c.toNat := rfl
  have := c.valid
  rw [← Bool.not_eq_true, Utf8.isSurrogate_iff, hv]
  simp only [UInt32.isValidChar, Nat.isValidChar] at this
  have : c.toNat = c.val.toNat := rfl
  omega

theorem not_isSurrogate_str {s : String} {c : CodePoint} (h : c ∈ str s) : isSurrogate c = false := by
  obtain ⟨c', -, rfl⟩ := List.mem_map.mp h
  exact not_isSurrogate_cp c'

theorem not_isSurrogate_encodePiece {c : CodePoint} (hc : isSurrogate c = false) {c' : CodePoint}
    (h : c' ∈ (encodePiece c).text) : isSurrogate c' = false := by
  unfold encodePiece at h
  -- a short escape of a quote or a backslash, of a named control character, a long escape, or `c`
  repeat' split at h
  all_goals
    simp only [Piece.text, List.mem_cons, List.not_mem_nil, or_false] at h
  all_goals
    rcases h with rfl | rfl | rfl | rfl | rfl | rfl
  all_goals
    first
    | exact not_isSurrogate_cp _
    | exact hc

theorem not_isSurrogate_strText {s : Str} (hs : ∀ c ∈ s, isSurrogate c = false) {c : CodePoint} (h : c ∈ strText s) :
    isSurrogate c = false := by
  simp only [strText, quoted, List.cons_append, List.mem_cons, List.mem_append, List.not_mem_nil, or_false,
    List.flatMap_map, List.mem_flatMap] at h
  rcases h with rfl | ⟨c', hc', h⟩ | rfl
  · exact not_isSurrogate_cp _
  · exact not_isSurrogate_encodePiece (hs c' hc') h
  · exact not_isSurrogate_cp _

theorem not_isSurrogate_b64encode {b : Bytes} {c : CodePoint} (h : c ∈ b64encode b) : isSurrogate c = false := by
  refine b64encode_forall (P := fun c => isSurrogate c = false) (fun n => ?_) (not_isSurrogate_cp _) h
  rcases List.mem_cons.mp (b64Char_mem n) with h | h
  · rw [h]; exact not_isSurrogate_cp _
  · exact not_isSurrogate_str h

/-- No code point of the text is a surrogate: it has a UTF-8 form. -/
def Encodable (s : Str) : Prop := ∀ c ∈ s, isSurrogate c = false

theorem encodable_iff {s : Str} : Encodable s ↔ ∃ bytes, Utf8.encodeStrict s = .ok bytes := by
  unfold Encodable Utf8.encodeStrict
  split
  · next h => simpa using h
  · next h => simpa using h

theorem Encodable.append {s t : Str} (hs : Encodable s) (ht : Encodable t) : Encodable (s ++ t) := fun c hc =>
  (List.mem_append.mp hc).elim (hs c) (ht c)

theorem encodable_str (s : String) : Encodable (str s) := fun _ => not_isSurrogate_str

/-! ## Constants -/

theorem exists_of_forall₂_left {α β : Type} {R : α → β → Prop} {as : List α} {bs : List β} (h : List.Forall₂ R as bs)
    {a : α} (ha : a ∈ as) : ∃ b, R a b := by
  induction h with
  | nil => cases ha
  | cons h _ ih =>
    rcases List.mem_cons.mp ha with rfl | ha
    · exact ⟨_, h⟩
    · exact ih ha

/-- `allow_nan=False` keeps the constants out. -/
theorem noConstant_of_dumpsAt {d : Nat} {v : Json} {s : Str} (h : dumpsAt false d v = .ok s) :
    NoConstant (toTree v) := by
  induction v using Json.ind generalizing d s with
  | float x =>
    rw [dumpsAt] at h
    cases x with
    | finite neg m e hc => rintro c ⟨⟩
    | nan => cases h
    | inf neg => cases h
  | arr vs ih =>
    cases d with
    | zero => rw [dumpsAt] at h; cases h
    | succ d =>
      rw [dumpsAt] at h
      cases hs : dumpsItems false d vs with
      | error e => rw [hs] at h; cases h
      | ok ss =>
        refine ⟨by rintro c ⟨⟩, ?_⟩
        rw [itemsToTree_eq, allItems_iff]
        intro t ht
        obtain ⟨v, hv, rfl⟩ := List.mem_map.mp ht
        obtain ⟨s', hs'⟩ := exists_of_forall₂_left (dumpsItems_ok.mp hs) hv
        exact ih v hv hs'
  | obj ms ih =>
    cases d with
    | zero => rw [dumpsAt] at h; cases h
    | succ d =>
      rw [dumpsAt] at h
      cases hs : dumpsMembers false d ms with
      | error e => rw [hs] at h; cases h
      | ok ss =>
        refine ⟨by rintro c ⟨⟩, ?_⟩
        rw [membersToTree_eq, allMembers_iff]
        intro t ht
        obtain ⟨m, hm, rfl⟩ := List.mem_map.mp ht
        obtain ⟨s', t, hs', -⟩ := exists_of_forall₂_left (dumpsMembers_ok.mp hs) hm
        exact ih m hm hs'
  | _ => rintro c ⟨⟩

theorem noConstant_of_spliceHooks {d : Nat} {t : Tree} (h : Fits spliceHooks d t) : NoConstant t :=
  h.2.imp fun t ha c hc => by
    subst hc
    cases ha

theorem noConstant_snoc {ms : List (Str × Tree)} {k : Str} {t : Tree} (h : NoConstant (.obj ms)) (ht : NoConstant t) :
    NoConstant (.obj (ms ++ [(k, t)])) := by
  refine ⟨by rintro c ⟨⟩, allMembers_iff.mpr fun m hm => ?_⟩
  rcases List.mem_append.mp hm with hm | hm
  · exact allMembers_iff.mp h.2 m hm
  · rw [List.mem_singleton.mp hm]; exact ht

/-! ## Records -/

/-- A splice keeps the text of the object. -/
theorem keeps_splice {b : Bytes} {decoded block : Str} (hd : Utf8.decodeStrict b = some decoded)
    {ms : List (Str × Tree)} (hs : Padded (Spells (.obj ms)) decoded) : Keeps b block ms (splice decoded block) := by
  have hs' := hs
  obtain ⟨w, t, w', hw, hw', ht, rfl⟩ := hs
  have ht' := ht
  rw [Spells] at ht
  obtain ⟨body, rfl, hbody⟩ := ht
  have htrim : strip jsonWhitespace (w ++ (cp '{' :: body ++ [cp '}']) ++ w') = cp '{' :: body ++ [cp '}'] :=
    strip_between (within_jsonWhitespace.mpr hw) (within_jsonWhitespace.mpr hw') (by decide) (by decide)
  have hinner : (cp '{' :: body ++ [cp '}']).tail.dropLast = body := by simp
  have hlast : (cp '{' :: body ++ [cp '}']).dropLast = cp '{' :: body := List.dropLast_concat
  have hnil : strip jsonWhitespace body = [] ↔ Ws body := strip_eq_nil_iff.trans within_jsonWhitespace
  unfold splice
  simp only [htrim, hinner, hlast]
  rcases hbody with ⟨rfl, hws⟩ | hms
  · rw [if_pos (hnil.mpr hws)]
    exact .empty hd hs'
  · rw [if_neg (mt hnil.mp (not_ws_of_spellsMembers hms))]
    refine .spliced hd hw hw' ht' ?_
    rintro rfl
    rw [SpellsMembers] at hms
    exact hms

section Build

variable [Interpreter]

/-- The record of the bytes `b`, by what they are. -/
theorem buildPoisonRecord_eq (b : Bytes) (block : Dict Json) :
    buildPoisonRecord (Utf8.decodeEscape b) block =
      (dumps false (.obj block)).map fun blockText =>
        match Utf8.decodeStrict b with
        | some decoded =>
          if isSpliceableObject decoded = .ok true then splice decoded blockText else wrapText decoded blockText
        | none => wrapBytes b blockText := by
  have hb : bodyBytes (Utf8.decodeEscape b) = .ok b := by
    rw [bodyBytes, Utf8.encodeEscape_decodeEscape]
    rfl
  unfold buildPoisonRecord
  simp only [hb, bind, Except.bind]
  cases dumps false (.obj block) with
  | error e => rfl
  | ok blockText =>
    cases Utf8.decodeStrict b with
    | none => rfl
    | some decoded =>
      obtain ⟨spliceable, hsp⟩ := isSpliceableObject_returns decoded
      simp only [hsp, Except.map]
      cases spliceable <;> rfl

/-- A body with a `dead_letter` member, however its name is spelled, is not spliced. -/
theorem not_spliceable {decoded : Str} {ms : List (Str × Tree)} (hs : Padded (Spells (.obj ms)) decoded)
    (hm : ∃ m ∈ ms, m.1 = str "dead_letter") : isSpliceableObject decoded ≠ .ok true := by
  intro h
  obtain ⟨ms', hp, hne⟩ := isSpliceableObject_true h
  cases hs.unique (parse_sound hp).1
  obtain ⟨m, hm, he⟩ := hm
  exact hne m hm he

omit [Interpreter] in
theorem encodable_record {b : Bytes} {ms : List (Str × Tree)} {block record : Str} (h : Keeps b block ms record)
    (hblock : Encodable block) : Encodable record := by
  have hdecoded : ∀ {s : Str}, Utf8.decodeStrict b = some s → Encodable s :=
    fun hd _ => Utf8.not_isSurrogate_of_decodeStrict hd
  cases h with
  | @spliced w kept w' ms hd =>
    have hkept : Encodable kept := fun c hc => hdecoded hd c (by simp [hc])
    exact ((hkept.append (encodable_str _)).append hblock).append (encodable_str _)
  | empty hd => exact ((encodable_str _).append hblock).append (encodable_str _)
  | @text decoded hd he =>
    have hraw : Encodable (strText decoded) := fun _ => not_isSurrogate_strText (hdecoded hd)
    exact ((((encodable_str _).append hraw).append (encodable_str _)).append hblock).append (encodable_str _)
  | bytes hd he =>
    have hraw : Encodable (b64encode b) := fun _ => not_isSurrogate_b64encode
    exact ((((encodable_str _).append hraw).append (encodable_str _)).append hblock).append (encodable_str _)

/-- What a record of the bytes `b` is: an object that ends with `block` under its only `dead_letter`
name, and that keeps `b`. -/
structure WellFormed (b : Bytes) (block : Dict Json) (record : Str) : Prop where
  object : ∃ ms blockText, dumps false (.obj block) = .ok blockText ∧ Keeps b blockText ms record ∧
    Spells (.obj (ms ++ [(str "dead_letter", toTree (.obj block))])) record ∧
    NoConstant (.obj (ms ++ [(str "dead_letter", toTree (.obj block))])) ∧ (∀ m ∈ ms, m.1 ≠ str "dead_letter") ∧
    (Encodable blockText → Encodable record)
  /-- The last member is read as the block. -/
  block_eq : (toTree (.obj block)).toJson = .obj block
  /-- A body with a `dead_letter` member is wrapped. -/
  not_spliced : ∀ decoded ms, Utf8.decodeStrict b = some decoded → Padded (Spells (.obj ms)) decoded →
    (∃ m ∈ ms, m.1 = str "dead_letter") → ∃ blockText, record = wrapText decoded blockText

/-- A record is built from every block that can be written, and it is well formed and lossless. -/
theorem poisonRecord_lossless (b : Bytes) (block : Dict Json) (hb : Json.Proper (.obj block)) :
    ((∃ record, buildPoisonRecord (Utf8.decodeEscape b) block = .ok record) ↔
      ∃ blockText, dumps false (.obj block) = .ok blockText) ∧
    ∀ record, buildPoisonRecord (Utf8.decodeEscape b) block = .ok record → WellFormed b block record := by
  rw [buildPoisonRecord_eq]
  cases hblock : dumps false (.obj block) with
  | error e => simp [Except.map]
  | ok blockText =>
    refine ⟨by simp [Except.map], fun record h => ?_⟩
    obtain rfl := Except.ok.inj h
    have hspell := (dumpsAt_sound hblock).1
    have hconst := noConstant_of_dumpsAt hblock
    have hplain : ∀ ms : List (Str × Tree), (∀ m ∈ ms, ∃ v, m.2 = .str v) → NoConstant (.obj ms) := by
      refine fun ms h => ⟨by rintro c ⟨⟩, allMembers_iff.mpr fun m hm => ?_⟩
      obtain ⟨v, hv⟩ := h m hm
      rw [hv]
      rintro c ⟨⟩
    have hraw : ∀ v (rest : List (Str × Tree)), (∀ m ∈ rest, m.1 = str "raw_encoding") →
        ∀ m ∈ (str "raw", v) :: rest, m.1 ≠ str "dead_letter" := by
      intro v rest hrest m hm
      rcases List.mem_cons.mp hm with rfl | hm
      · simp
      · rw [hrest m hm]; simp
    refine ⟨?_, toJson_toTree hb, fun decoded ms hd hs hm => ?_⟩
    · cases hd : Utf8.decodeStrict b with
      | none =>
        have hk : Keeps b blockText _ _ := .bytes hd (b64decode_b64encode b)
        exact ⟨_, blockText, hblock, hk, spells_wrapBytes hspell, noConstant_snoc (hplain _ (by simp)) hconst,
          hraw _ _ (by simp), encodable_record hk⟩
      | some decoded =>
        dsimp only
        split
        · next hsp =>
          obtain ⟨ms, hp, hne⟩ := isSpliceableObject_true hsp
          have hk : Keeps b blockText _ _ := keeps_splice hd (parse_sound hp).1
          exact ⟨ms, blockText, hblock, hk, spells_splice (parse_sound hp).1 hspell,
            noConstant_snoc (noConstant_of_spliceHooks (parse_sound hp).2) hconst, hne, encodable_record hk⟩
        · have hk : Keeps b blockText _ _ := .text hd (Utf8.encodeStrict_decodeStrict hd)
          exact ⟨_, blockText, hblock, hk, spells_wrapText hspell, noConstant_snoc (hplain _ (by simp)) hconst,
            hraw _ _ (by simp), encodable_record hk⟩
    · rw [hd]
      dsimp only
      rw [if_neg (not_spliceable hs hm)]
      exact ⟨blockText, rfl⟩

end Build

section CPython

attribute [local instance] cpython

/-- The body `{"a":1}` is spliced. -/
theorem poisonRecord_lossless_object :
    WellFormed [0x7B, 0x22, 0x61, 0x22, 0x3A, 0x31, 0x7D] [(str "reason", .str (str "x"))]
      (str "\x7b\"a\":1,\"dead_letter\":\x7b\"reason\":\"x\"\x7d\x7d") :=
  (poisonRecord_lossless _ _ (by simp [Json.Proper, properMembers, Dict.Proper])).2 _ (by decide +kernel)

end CPython

end BabelQueue
