import BabelQueue.Codec

/-!
# Dead-letter records (`dead_letter.py`, `_poison_record.py`)

* `DeadLetterBlock`, `annotate`: the `dead_letter` member.
* `buildPoisonRecord text block`: the record of a poison body, spliced, wrapped or as base64.
* `poisonRecord_cases`, `loads_poisonRecord`: the record is an object again, with the members of a
  spliced body and a `dead_letter` member.
-/

namespace BabelQueue

open Py Py.Json

/-! ## The `dead_letter` block -/

/-- The value of a `dead_letter` member. -/
structure DeadLetterBlock where
  reason : Str
  error : Option Str
  exception : Option Str
  failedAt : Int
  originalQueue : Str
  attempts : Int
  lang : Str

/-- A string, or `None`. -/
def optStr : Option Str → Json
  | none => .null
  | some s => .str s

def DeadLetterBlock.toDict (b : DeadLetterBlock) : Dict Json :=
  [(str "reason", .str b.reason), (str "error", optStr b.error), (str "exception", optStr b.exception),
    (str "failed_at", .int b.failedAt), (str "original_queue", .str b.originalQueue),
    (str "attempts", .int b.attempts), (str "lang", .str b.lang)]

/-- `annotate`, at the time `now` in milliseconds. -/
def annotate (envelope : Dict Json) (reason originalQueue : Str) (attempts : Int)
    (error exception : Option Str) (now : Int) : Dict Json :=
  envelope.set (str "dead_letter")
    (.obj (DeadLetterBlock.toDict ⟨reason, error, exception, now, originalQueue, attempts, sourceLang⟩))

/-! ## Unpaired surrogate escapes -/

def jsonWhitespace : Str := [cp ' ', cp '\t', cp '\r', cp '\n']

/-- The rest of a match of `_STRING_LITERAL`, from after its opening quote, and the text after it. -/
def literalTail : Str → Option (Str × Str)
  | [] => none
  | c :: s =>
    if c = cp '"' then some ([c], s)
    else if c = cp '\\' then
      match s with
      | [] => none
      | e :: s => (literalTail s).map fun m => (c :: e :: m.1, m.2)
    else (literalTail s).map fun m => (c :: m.1, m.2)

/-- `_STRING_LITERAL.finditer(text)`; the fuel is the length of the text. -/
def stringLiterals : Nat → Str → List Str
  | 0, _ => []
  | _, [] => []
  | fuel + 1, c :: s =>
    if c = cp '"' then
      match literalTail s with
      | some (m, s') => (c :: m) :: stringLiterals fuel s'
      | none => stringLiterals fuel s
    else stringLiterals fuel s

/-- The codes of `_ESCAPE.finditer(literal)`, `-1` for an escape that has none. -/
def escapeCodes : Str → List Int
  | [] => []
  | c :: s =>
    if c = cp '\\' then
      match s with
      | [] => []
      | e :: s =>
        if e = cp 'u' then
          match s with
          | h₃ :: h₂ :: h₁ :: h₀ :: s' =>
            match hexValue? h₃, hexValue? h₂, hexValue? h₁, hexValue? h₀ with
            | some a, some b, some c, some d => (((a * 16 + b) * 16 + c) * 16 + d : Nat) :: escapeCodes s'
            | _, _, _, _ => -1 :: escapeCodes (h₃ :: h₂ :: h₁ :: h₀ :: s')
          | s => -1 :: escapeCodes s
        else -1 :: escapeCodes s
    else escapeCodes s

/-- The inner loop of `_has_unpaired_surrogate_escape`. -/
def unpaired (pendingHigh : Bool) : List Int → Bool
  | [] => pendingHigh
  | code :: codes =>
    let isHigh : Bool := 0xD800 ≤ code && code ≤ 0xDBFF
    let isLow : Bool := 0xDC00 ≤ code && code ≤ 0xDFFF
    if pendingHigh && !isLow then true
    else if isLow && !pendingHigh then true
    else unpaired isHigh codes

/-- `_has_unpaired_surrogate_escape`. -/
def hasUnpairedSurrogateEscape (text : Str) : Bool :=
  (stringLiterals text.length text).any fun literal => unpaired false (escapeCodes literal)

/-! ## The record -/

/-- The hooks of `_is_spliceable_object`. -/
def spliceHooks : Hooks := { defaultHooks with parseConstant := rejectConstant }

section Build

variable [Interpreter]

/-- `_is_spliceable_object`. The pairs the hook saw last are those of the outermost object. -/
def isSpliceableObject (text : Str) : Except PyExc Bool :=
  tryExceptPure
    ((parse spliceHooks text).map fun parsed =>
      match parsed with
      | .obj pairs => !(pairs.any fun p => p.1 = str "dead_letter") && !hasUnpairedSurrogateEscape text
      | _ => false)
    [.valueError, .recursionError] fun _ => .ok false

/-- The bytes of a body: `surrogateescape` is undone where it can be. -/
def bodyBytes (text : Str) : Except PyExc Bytes :=
  tryExceptPure (Utf8.encodeEscape text) [.unicodeEncodeError] fun _ => .ok (Utf8.encodePass text)

/-- The splice of `build_poison_record`, with `block` the text of the block. -/
def splice (decoded block : Str) : Str :=
  let trimmed := strip jsonWhitespace decoded
  if strip jsonWhitespace (trimmed.tail.dropLast) = [] then str "\x7b\"dead_letter\":" ++ block ++ str "\x7d"
  else trimmed.dropLast ++ str ",\"dead_letter\":" ++ block ++ str "\x7d"

/-- The wrap of a body that is plain text. -/
def wrapText (decoded block : Str) : Str :=
  str "\x7b\"raw\":" ++ strText decoded ++ str ",\"dead_letter\":" ++ block ++ str "\x7d"

/-- The wrap of a body that is not UTF-8. -/
def wrapBytes (data : Bytes) (block : Str) : Str :=
  str "\x7b\"raw\":\"" ++ b64encode data ++ str "\",\"raw_encoding\":\"base64\",\"dead_letter\":" ++ block ++ str "\x7d"

/-- `build_poison_record`. -/
def buildPoisonRecord (text : Str) (deadLetterBlock : Dict Json) : Except PyExc Str := do
  let data ← bodyBytes text
  let block ← dumps false (.obj deadLetterBlock)
  match Utf8.decodeStrict data with
  | some decoded => do
    if ← isSpliceableObject decoded then pure (splice decoded block)
    else pure (wrapText decoded block)
  | none => pure (wrapBytes data block)

end Build

/-! ## Reading a record back -/

theorem DeadLetterBlock.toDict_proper (b : DeadLetterBlock) : Json.Proper (.obj b.toDict) := by
  have ho : ∀ o, (optStr o).Proper := by rintro (_ | _) <;> trivial
  refine proper_obj.mpr ⟨by simp [DeadLetterBlock.toDict, Dict.Proper], ?_⟩
  simp [DeadLetterBlock.toDict, ho, Json.Proper]

theorem DeadLetterBlock.writable_toDict {b : DeadLetterBlock} {d : Nat} :
    Writable (d + 1) (.obj b.toDict) ↔
      b.failedAt.natAbs < 10 ^ maxStrDigits ∧ b.attempts.natAbs < 10 ^ maxStrDigits := by
  have ho : ∀ o, Writable d (optStr o) := by
    rintro (_ | s)
    · exact writable_null d
    · exact writable_str d s
  simp [writable_obj, DeadLetterBlock.toDict, ho, writable_str, writable_int]

/-- A member `"dead_letter":block`. -/
theorem member_deadLetter {v : Json} {block : Str} (h : Spells (toTree v) block) :
    Member (str "dead_letter") (Spells (toTree v)) (str "\"dead_letter\":" ++ block) := by
  have e : str "\"dead_letter\":" = strText (str "dead_letter") ++ [cp ':'] := by decide +kernel
  rw [e, List.append_assoc]
  exact Member.of (spellsStr_strText _) h

theorem str_closeBrace : str "\x7d" = [cp '}'] := by decide +kernel

/-- An object with one more member. -/
theorem spells_snoc {ms : List (Str × Tree)} {body : Str} (hb : SpellsMembers ms body) {v : Json} {block : Str}
    (h : Spells (toTree v) block) :
    Spells (.obj (ms ++ [(str "dead_letter", toTree v)]))
      (cp '{' :: body ++ str ",\"dead_letter\":" ++ block ++ str "\x7d") := by
  have e : str ",\"dead_letter\":" = cp ',' :: str "\"dead_letter\":" := by decide +kernel
  rw [Spells]
  refine ⟨body ++ cp ',' :: (str "\"dead_letter\":" ++ block), by rw [e, str_closeBrace]; simp, .inr ?_⟩
  rw [spellsMembers_iff] at hb ⊢
  exact hb.snoc (member_deadLetter h)

theorem spells_only {v : Json} {block : Str} (h : Spells (toTree v) block) :
    Spells (.obj [(str "dead_letter", toTree v)]) (str "\x7b\"dead_letter\":" ++ block ++ str "\x7d") := by
  have e : str "\x7b\"dead_letter\":" = cp '{' :: str "\"dead_letter\":" := by decide +kernel
  rw [Spells]
  exact ⟨str "\"dead_letter\":" ++ block, by rw [e, str_closeBrace]; simp, .inr (member_deadLetter h)⟩

theorem within_jsonWhitespace {s : Str} : Within jsonWhitespace s ↔ Ws s := by
  have : ∀ c, c ∈ jsonWhitespace ↔ c ∈ whitespace := by
    intro c
    simp only [jsonWhitespace, whitespace, List.mem_cons, List.not_mem_nil, or_false]
    tauto
  simp [Within, this]

theorem strip_eq_nil_iff {chars s : Str} : strip chars s = [] ↔ Within chars s := by
  constructor
  · intro h
    obtain ⟨w, w', hw, hw', e⟩ := strip_split chars s
    rw [h, List.append_nil] at e
    rw [e]
    intro c hc
    exact (List.mem_append.mp hc).elim (hw c) (hw' c)
  · intro h
    have : lstrip chars s = [] := List.dropWhile_eq_nil_iff.mpr (by simpa [Within] using h)
    rw [strip, this]
    rfl

theorem not_ws_of_spellsMembers {ms : List (Str × Tree)} {body : Str} (h : SpellsMembers ms body) : ¬ Ws body := by
  have hm : ∃ k t s, ms.head? = some (k, t) ∧ Member k (Spells t) s ∧ ∀ c ∈ s, c ∈ body := by
    rw [spellsMembers_iff] at h
    match ms, h with
    | [(k, t)], h => exact ⟨k, t, body, rfl, h, fun _ => id⟩
    | (k, t) :: m :: ms, ⟨s₁, s₂, e, h, _⟩ =>
      exact ⟨k, t, s₁, rfl, h, fun c hc => by rw [e]; exact List.mem_append_left _ hc⟩
  obtain ⟨k, t, s, -, ⟨s₁, s₂, -, -, rfl⟩, hsub⟩ := hm
  intro hws
  have : cp ':' ∈ whitespace := hws _ (hsub _ (by simp))
  revert this
  decide

/-- The splice is an object with the members of the body and the block. -/
theorem spells_splice {decoded : Str} {ms : List (Str × Tree)} (hd : Padded (Spells (.obj ms)) decoded) {v : Json}
    {block : Str} (hb : Spells (toTree v) block) :
    Spells (.obj (ms ++ [(str "dead_letter", toTree v)])) (splice decoded block) := by
  obtain ⟨w, t, w', hw, hw', ht, rfl⟩ := hd
  rw [Spells] at ht
  obtain ⟨body, rfl, hbody⟩ := ht
  have htrim : strip jsonWhitespace (w ++ (cp '{' :: body ++ [cp '}']) ++ w') = cp '{' :: body ++ [cp '}'] :=
    strip_between (within_jsonWhitespace.mpr hw) (within_jsonWhitespace.mpr hw') (by decide) (by decide)
  have hinner : (cp '{' :: body ++ [cp '}']).tail.dropLast = body := by simp
  have hlast : (cp '{' :: body ++ [cp '}']).dropLast = cp '{' :: body := List.dropLast_concat
  unfold splice
  simp only [htrim, hinner, hlast]
  have hnil : strip jsonWhitespace body = [] ↔ Ws body := strip_eq_nil_iff.trans within_jsonWhitespace
  rcases hbody with ⟨rfl, hws⟩ | hms
  · rw [if_pos (hnil.mpr hws)]; exact spells_only hb
  · rw [if_neg (mt hnil.mp (not_ws_of_spellsMembers hms))]; exact spells_snoc hms hb

theorem spells_wrapText {decoded : Str} {v : Json} {block : Str} (hb : Spells (toTree v) block) :
    Spells (.obj [(str "raw", .str decoded), (str "dead_letter", toTree v)]) (wrapText decoded block) := by
  have e : str "\x7b\"raw\":" = cp '{' :: (strText (str "raw") ++ [cp ':']) := by decide +kernel
  have hraw : SpellsMembers [(str "raw", .str decoded)] (strText (str "raw") ++ cp ':' :: strText decoded) := by
    rw [SpellsMembers]
    exact Member.of (spellsStr_strText _) (by rw [Spells]; exact spellsStr_strText decoded)
  have := spells_snoc hraw hb
  unfold wrapText
  rw [e]
  simpa using this

theorem spells_wrapBytes {data : Bytes} {v : Json} {block : Str} (hb : Spells (toTree v) block) :
    Spells (.obj [(str "raw", .str (b64encode data)), (str "raw_encoding", .str (str "base64")),
      (str "dead_letter", toTree v)]) (wrapBytes data block) := by
  have e : str "\x7b\"raw\":\"" = cp '{' :: (strText (str "raw") ++ [cp ':', cp '"']) := by decide +kernel
  have e' : str "\",\"raw_encoding\":\"base64\",\"dead_letter\":" =
      cp '"' :: cp ',' :: (strText (str "raw_encoding") ++ cp ':' :: strText (str "base64")) ++
        str ",\"dead_letter\":" := by decide +kernel
  have hdata : SpellsStr (b64encode data) (cp '"' :: b64encode data ++ [cp '"']) := by
    refine ⟨(b64encode data).map .raw, ?_, ?_, ?_⟩
    · intro p hp
      obtain ⟨c, hc, rfl⟩ := List.mem_map.mp hp
      exact mem_b64encode hc
    · rw [decode_of_not_high _ (by simp [Piece.isUnicode])]
      simp [Piece.value, Function.comp_def]
    · simp [quoted, List.flatMap_map, Piece.text]
  have hms : SpellsMembers [(str "raw", .str (b64encode data)), (str "raw_encoding", .str (str "base64"))]
      ((strText (str "raw") ++ cp ':' :: (cp '"' :: b64encode data ++ [cp '"'])) ++ cp ',' ::
        (strText (str "raw_encoding") ++ cp ':' :: strText (str "base64"))) := by
    rw [SpellsMembers]
    refine ⟨_, _, rfl, Member.of (spellsStr_strText _) (by rw [Spells]; exact hdata), ?_⟩
    rw [SpellsMembers]
    exact Member.of (spellsStr_strText _) (by rw [Spells]; exact spellsStr_strText _)
  have := spells_snoc hms hb
  unfold wrapBytes
  rw [e, e']
  simpa using this

section Loads

variable [Interpreter]

omit [Interpreter] in
theorem bodyBytes_returns (text : Str) : ∃ data, bodyBytes text = .ok data := by
  unfold bodyBytes Utf8.encodeEscape
  split <;> exact ⟨_, rfl⟩

theorem parse_spliceHooks_raises {text : Str} {e : PyExc} (h : parse spliceHooks text = .error e) :
    e.isAny [.valueError, .recursionError] = true := by
  have hv : e.isA .valueError = true ∨ e.cls = .recursionError := by
    rcases parse_raises h with hc | hc | ⟨l, hl⟩ | ⟨c, hc⟩
    · left; simp [PyExc.isA, hc, ExcClass.ancestors]
    · exact .inr hc
    · left
      simp only [spliceHooks, defaultHooks] at hl
      split at hl
      · cases hl
      · cases hl; simp [PyExc.isA, ExcClass.ancestors]
    · left
      simp only [spliceHooks, rejectConstant, Except.error.injEq] at hc
      simp [PyExc.isA, ← hc, ExcClass.ancestors]
  rcases hv with h | h
  · simp [PyExc.isAny, h]
  · simp [PyExc.isAny, PyExc.isA, h, ExcClass.ancestors]

theorem isSpliceableObject_returns (text : Str) : ∃ b, isSpliceableObject text = .ok b := by
  unfold isSpliceableObject
  cases h : parse spliceHooks text with
  | ok t => exact ⟨_, rfl⟩
  | error e => exact ⟨false, if_pos (parse_spliceHooks_raises h)⟩

theorem isSpliceableObject_true {text : Str} (h : isSpliceableObject text = .ok true) :
    ∃ ms, parse spliceHooks text = .ok (.obj ms) ∧ ∀ m ∈ ms, m.1 ≠ str "dead_letter" := by
  unfold isSpliceableObject at h
  cases hp : parse spliceHooks text with
  | error e =>
    rw [hp] at h
    have : (.ok false : Except PyExc Bool) = .ok true := (if_pos (parse_spliceHooks_raises hp)).symm.trans h
    cases this
  | ok t =>
    rw [hp] at h
    cases t with
    | obj ms =>
      refine ⟨ms, rfl, ?_⟩
      simp only [Except.map, tryExceptPure, Except.ok.injEq, Bool.and_eq_true, Bool.not_eq_true',
        List.any_eq_false, decide_eq_true_eq] at h
      exact h.1
    | _ => cases h

omit [Interpreter] in
/-- What the strict hooks accept, the default ones accept. -/
theorem fits_of_spliceHooks {d : Nat} {t : Tree} (h : Fits spliceHooks d t) : Fits defaultHooks d t := by
  refine ⟨h.1, h.2.imp ?_⟩
  rintro (_ | _ | l | c | _ | _ | _) ht
  · exact ht
  · exact ht
  · exact ht
  · cases ht
  · exact ht
  · exact ht
  · exact ht

/-- The text of a body, when its bytes are UTF-8. -/
def bodyText (text : Str) : Option Str :=
  match bodyBytes text with
  | .ok data => Utf8.decodeStrict data
  | .error _ => none

/-- The members of a body that is spliced. -/
def splicedMembers (text : Str) : Option (Dict Json) :=
  match bodyText text with
  | none => none
  | some decoded =>
    match isSpliceableObject decoded, loads decoded with
    | .ok true, .ok (.obj d) => some d
    | _, _ => none

/-- The members beside `dead_letter` of a record: those of a spliced body, or the wrap. -/
def recordMembers (text : Str) : Dict Json :=
  match splicedMembers text, bodyText text, bodyBytes text with
  | some d, _, _ => d
  | none, some decoded, _ => [(str "raw", .str decoded)]
  | none, none, .ok data => [(str "raw", .str (b64encode data)), (str "raw_encoding", .str (str "base64"))]
  | none, none, .error _ => []

/-- A record is read as an object: the members of the body or the wrap, and the block. -/
theorem loads_poisonRecord {text record : Str} {b : DeadLetterBlock}
    (h : buildPoisonRecord text b.toDict = .ok record) :
    loads record = .ok (.obj ((recordMembers text).set (str "dead_letter") (.obj b.toDict))) := by
  obtain ⟨data, hdata⟩ := bodyBytes_returns text
  unfold buildPoisonRecord at h
  simp only [hdata, bind, Except.bind] at h
  cases hblock : dumps false (.obj b.toDict) with
  | error e => rw [hblock] at h; cases h
  | ok block =>
    rw [hblock] at h
    dsimp only at h
    obtain ⟨hspell, hwrite⟩ := dumpsAt_sound hblock
    obtain ⟨n, hn⟩ := maxDepth_succ
    have hshallow : Writable (n + 1) (.obj b.toDict) := by
      rw [hn] at hwrite
      exact DeadLetterBlock.writable_toDict.mpr (DeadLetterBlock.writable_toDict.mp hwrite)
    -- an object of members that fit one level down fits with the block
    have hread : ∀ ms, Spells (.obj (ms ++ [(str "dead_letter", toTree (.obj b.toDict))])) record →
        (∀ m ∈ ms, Fits defaultHooks (n + 1) m.2) →
        loads record = .ok (.obj ((Dict.ofPairs (membersToJson ms)).set (str "dead_letter") (.obj b.toDict))) := by
      intro ms hs hf
      have hfit : Fits defaultHooks Interpreter.maxDepth (.obj (ms ++ [(str "dead_letter", toTree (.obj b.toDict))])) := by
        rw [hn]
        refine fits_obj.mpr ⟨n + 1, rfl, fun m hm => ?_⟩
        rcases List.mem_append.mp hm with hm | hm
        · exact hf m hm
        · rw [List.mem_singleton.mp hm]; exact hshallow
      rw [loads_of_spells (Padded.of hs) hfit, toJson_obj, membersToJson_eq, List.map_append, ← membersToJson_eq,
        List.map_singleton, toJson_toTree b.toDict_proper, Dict.ofPairs_append_singleton]
    cases hdec : Utf8.decodeStrict data with
    | none =>
      rw [hdec] at h
      cases h
      have := hread [(str "raw", .str (b64encode data)), (str "raw_encoding", .str (str "base64"))]
        (spells_wrapBytes hspell) (by simp [Fits, Tree.depth, Tree.All, Hooks.Accepts])
      simpa [recordMembers, splicedMembers, bodyText, hdata, hdec, membersToJson, Tree.toJson, Dict.ofPairs,
        Dict.set] using this
    | some decoded =>
      rw [hdec] at h
      obtain ⟨spliceable, hsp⟩ := isSpliceableObject_returns decoded
      simp only [hsp] at h
      cases spliceable with
      | false =>
        cases h
        have := hread [(str "raw", .str decoded)]
          (spells_wrapText hspell) (by simp [Fits, Tree.depth, Tree.All, Hooks.Accepts])
        simpa [recordMembers, splicedMembers, bodyText, hdata, hdec, hsp, membersToJson, Tree.toJson, Dict.ofPairs,
          Dict.set] using this
      | true =>
        cases h
        obtain ⟨ms, hp, -⟩ := isSpliceableObject_true hsp
        obtain ⟨hpad, hfit⟩ := parse_sound hp
        have hfit := fits_of_spliceHooks hfit
        have hl : loads decoded = .ok (.obj (Dict.ofPairs (membersToJson ms))) := by
          rw [loads_of_spells hpad hfit, toJson_obj]
        have := hread ms (spells_splice hpad hspell) (by
          rw [hn] at hfit
          obtain ⟨n', e, hms⟩ := fits_obj.mp hfit
          obtain rfl : n + 1 = n' := by omega
          exact hms)
        simpa [recordMembers, splicedMembers, bodyText, hdata, hdec, hsp, hl] using this

/-- A body that is spliced into its record is as `p` says. -/
def Spliced (p : Dict Json → Prop) (text : Str) : Prop := ∀ d, splicedMembers text = some d → p d

theorem get?_recordMembers {text key : Str} (h : splicedMembers text = none) (hraw : key ≠ str "raw")
    (hencoding : key ≠ str "raw_encoding") : (recordMembers text).get? key = none := by
  unfold recordMembers
  rw [h]
  split
  · next h => cases h
  · rw [Dict.get?, if_neg hraw.symm]
    rfl
  · rw [Dict.get?, if_neg hraw.symm, Dict.get?, if_neg hencoding.symm]
    rfl
  · rfl

theorem spliced_iff {p : Dict Json → Prop} {text : Str} (key : Str) (v : Json)
    (hp : ∀ d : Dict Json, p (d.set key v) ↔ p d) (hwrap : splicedMembers text = none → p (recordMembers text)) :
    p ((recordMembers text).set key v) ↔ Spliced p text := by
  rw [hp]
  unfold Spliced
  cases hs : splicedMembers text with
  | none => exact iff_of_true (hwrap hs) fun _ h => by cases h
  | some d =>
    have hm : recordMembers text = d := by
      unfold recordMembers
      rw [hs]
    simp only [hm, Option.some.injEq, forall_eq']

theorem DeadLetterBlock.dumps_isOk (b : DeadLetterBlock) (hf : b.failedAt.natAbs < 10 ^ maxStrDigits)
    (ha : b.attempts.natAbs < 10 ^ maxStrDigits) : ∃ block, dumps false (.obj b.toDict) = .ok block := by
  obtain ⟨n, hn⟩ := maxDepth_succ
  have hf : intStr b.failedAt = .ok _ := intStr_eq_ok_iff.mpr ⟨hf, rfl⟩
  have ha : intStr b.attempts = .ok _ := intStr_eq_ok_iff.mpr ⟨ha, rfl⟩
  have ho : ∀ o, ∃ s, dumpsAt false (n + 1) (optStr o) = .ok s := by
    rintro (_ | s)
    · exact ⟨_, rfl⟩
    · exact ⟨_, by rw [optStr, dumpsAt]⟩
  obtain ⟨s₁, h₁⟩ := ho b.error
  obtain ⟨s₂, h₂⟩ := ho b.exception
  rw [dumps, hn, DeadLetterBlock.toDict, dumpsAt]
  simp only [dumpsMembers, dumpsAt, hf, ha, h₁, h₂]
  exact ⟨_, rfl⟩

/-- A poison record is built whenever the numbers of its block can be written. -/
theorem buildPoisonRecord_isOk {text : Str} {b : DeadLetterBlock} :
    (∃ record, buildPoisonRecord text b.toDict = .ok record) ↔
      b.failedAt.natAbs < 10 ^ maxStrDigits ∧ b.attempts.natAbs < 10 ^ maxStrDigits := by
  obtain ⟨data, hdata⟩ := bodyBytes_returns text
  obtain ⟨n, hn⟩ := maxDepth_succ
  unfold buildPoisonRecord
  simp only [hdata, bind, Except.bind]
  constructor
  · rintro ⟨record, h⟩
    cases hblock : dumps false (.obj b.toDict) with
    | error e => rw [hblock] at h; cases h
    | ok block =>
      have := (dumpsAt_sound hblock).2
      rw [hn] at this
      exact DeadLetterBlock.writable_toDict.mp this
  · intro h
    obtain ⟨block, hblock⟩ := b.dumps_isOk h.1 h.2
    rw [hblock]
    dsimp only
    split
    · next decoded _ =>
      obtain ⟨c, hc⟩ := isSpliceableObject_returns decoded
      rw [hc]
      cases c <;> exact ⟨_, rfl⟩
    · exact ⟨_, rfl⟩

end Loads

end BabelQueue
