import Mathlib.Data.List.Infix
import BabelQueue.Py.Json.Canonical
import BabelQueue.Py.Utf8.Readable
import BabelQueue.Redis.Layouts

/-!
# The header frame

`_frame_value` puts headers beside a body, `_unframe` takes them apart.

* `frameValue_eq`: a frame is the JSON text `frameText`; without a header there is none.
* `roundTrips_iff`: when a value that is written is read back, for a body that is no frame itself.
* `readable_frameText`: the client stores a frame of readable texts as it is.
-/

namespace BabelQueue.Redis

open Py Py.Json Py.Utf8

/-- What `_sanitize_headers` keeps of headers that are text. -/
def cleanHeaders (headers : Dict Str) : Dict Str := headers.filter fun h => h.1 ≠ [] ∧ h.2 ≠ []

/-- The headers of a frame, as text. -/
def headersText (headers : Dict Str) : Str :=
  cp '{' :: commas (headers.map fun h => strText h.1 ++ cp ':' :: strText h.2) ++ [cp '}']

/-- The text of a frame. -/
def frameText (headers : Dict Str) (body : Str) : Str :=
  cp '{' :: (strText frameKey ++ cp ':' :: (intText frameVersion ++ cp ',' :: (strText (str "headers") ++ cp ':' ::
    (headersText headers ++ cp ',' :: (strText (str "body") ++ cp ':' :: (strText body ++ [cp '}']))))))

/-- The value of a frame. -/
def frameObject (headers : Dict Str) (body : Str) : Dict Json :=
  [(frameKey, .int frameVersion), (str "headers", .obj (headers.mapValues .str)), (str "body", .str body)]

/-! ## Headers -/

theorem mem_cleanHeaders {headers : Dict Str} {h : Str × Str} :
    h ∈ cleanHeaders headers ↔ h ∈ headers ∧ h.1 ≠ [] ∧ h.2 ≠ [] := by
  unfold cleanHeaders
  simp

@[simp] theorem cleanHeaders_idem (headers : Dict Str) : cleanHeaders (cleanHeaders headers) = cleanHeaders headers := by
  unfold cleanHeaders
  simp

theorem cleanHeaders_proper {headers : Dict Str} (h : headers.Proper) : (cleanHeaders headers).Proper := by
  unfold Dict.Proper Dict.keys cleanHeaders
  exact List.Nodup.sublist (List.Sublist.map _ List.filter_sublist) h

variable [Interpreter]

theorem sanitizeHeaders_text (headers : Dict Str) :
    sanitizeHeaders (headers.mapValues .str) = .ok (cleanHeaders headers) := by
  induction headers with
  | nil => rfl
  | cons h headers ih =>
    obtain ⟨key, value⟩ := h
    show sanitizeHeaders ((key, .str value) :: Dict.mapValues .str headers) = _
    have hb : isBlank (.str value) = true ↔ value = [] := by cases value <;> simp [isBlank]
    rw [sanitizeHeaders, ih]
    unfold cleanHeaders
    rw [List.filter_cons]
    by_cases h : key = [] ∨ value = []
    · rw [if_pos (by rwa [hb]), if_neg (by simpa [imp_iff_not_or] using h)]
    · rw [if_neg (by rwa [hb]), if_pos (by simpa [not_or] using h)]
      rfl

/-! ## The text of a frame -/

omit [Interpreter] in
theorem dumpsMembers_text (d : Nat) (headers : Dict Str) :
    dumpsMembers true d (headers.mapValues .str) = .ok (headers.map fun h => strText h.1 ++ cp ':' :: strText h.2) := by
  induction headers with
  | nil => cases d <;> rfl
  | cons h headers ih =>
    show dumpsMembers true d ((h.1, .str h.2) :: Dict.mapValues .str headers) = _
    rw [dumpsMembers, ih, dumpsAt]
    rfl

theorem dumps_frame (headers : Dict Str) (body : Str) :
    dumps true (.obj (frameObject headers body)) = .ok (frameText headers body) := by
  obtain ⟨d, hd⟩ := maxDepth_succ
  have hversion : intStr frameVersion = .ok (intText frameVersion) := by decide +kernel
  unfold dumps frameObject
  rw [hd, dumpsAt, dumpsMembers, dumpsMembers, dumpsMembers, dumpsMembers, dumpsAt, dumpsAt, dumpsAt,
    dumpsMembers_text, hversion]
  simp only [Except.map, commas, frameText, headersText, List.append_assoc, List.cons_append, List.nil_append]

theorem frameValue_eq (body : Str) (headers : Dict Str) :
    frameValue body headers =
      .ok (if cleanHeaders headers = [] then body else frameText (cleanHeaders headers) body) := by
  unfold frameValue
  rw [sanitizeHeaders_text]
  show (if cleanHeaders headers = [] then pure body else dumps true (.obj (frameObject (cleanHeaders headers) body))) = _
  rw [dumps_frame]
  split <;> rfl

omit [Interpreter] in
theorem mayBeFrame_frameText (headers : Dict Str) (body : Str) : mayBeFrame (frameText headers body) = true := by
  have hkey : strText frameKey = cp '"' :: frameKey ++ [cp '"'] := by decide +kernel
  have htext : ∃ t, frameText headers body = cp '{' :: ((cp '"' :: frameKey ++ [cp '"']) ++ t) := by
    unfold frameText
    rw [hkey]
    exact ⟨_, rfl⟩
  obtain ⟨t, ht⟩ := htext
  unfold mayBeFrame
  rw [ht, Bool.and_eq_true, List.any_eq_true]
  exact ⟨rfl, _, .tail _ (.head _), startsWith_append _ _⟩

omit [Interpreter] in
theorem frameObject_proper {headers : Dict Str} (h : headers.Proper) (body : Str) :
    (Json.obj (frameObject headers body)).Proper := by
  have hvalues : (Json.obj (headers.mapValues .str)).Proper := by
    rw [proper_obj]
    refine ⟨by rw [Dict.Proper, Dict.keys_mapValues]; exact h, fun m hm => ?_⟩
    obtain ⟨x, -, rfl⟩ := List.mem_map.mp hm
    exact trivial
  rw [proper_obj]
  have hkeys : Dict.keys (frameObject headers body) = [frameKey, str "headers", str "body"] := rfl
  refine ⟨by rw [Dict.Proper, hkeys]; decide, ?_⟩
  unfold frameObject
  simp only [List.mem_cons, List.not_mem_nil, or_false, forall_eq_or_imp, forall_eq]
  exact ⟨trivial, hvalues, trivial⟩

/-! ## Reading a value -/

/-- A JSON object with a truthy `__bq_frame` and a string `body`. -/
def IsFrame (value : Str) : Prop :=
  ∃ (decoded : Dict Json) (body : Str), loads value = .ok (.obj decoded) ∧ (decoded.getJ frameKey).truthy = true ∧
    decoded.getJ (str "body") = .str body

/-- What is written for `body` and `headers` is read back: the body, and the headers that are kept. -/
def RoundTrips (body : Str) (headers : Dict Str) : Prop :=
  ∃ value, frameValue body headers = .ok value ∧ unframe value = .ok (body, cleanHeaders headers) ∧
    (cleanHeaders headers = [] → value = body)

/-- A bare value that `_unframe` parses, so deep that `json` raises. -/
def Stuck (value : Str) : Prop := mayBeFrame value = true ∧ Overdeep value

theorem unframe_frameText {headers : Dict Str} (h : headers.Proper) (body : Str) :
    unframe (frameText headers body) = .ok (body, cleanHeaders headers) := by
  have hframe : frame? (frameText headers body) = .ok (some (frameObject headers body, body)) := by
    unfold frame?
    rw [mayBeFrame_frameText, loads_dumps (frameObject_proper h body) (dumps_frame headers body)]
    rfl
  have hheaders : ((frameObject headers body).getJ (str "headers")).asObj?.getD [] = headers.mapValues .str := rfl
  unfold unframe
  rw [hframe]
  show (do pure (body, ← sanitizeHeaders (((frameObject headers body).getJ (str "headers")).asObj?.getD []))) = _
  rw [hheaders, sanitizeHeaders_text]
  rfl

theorem frame?_eq_none_iff {value : Str} (hf : ¬ IsFrame value) : frame? value = .ok none ↔ ¬ Stuck value := by
  unfold frame? Stuck
  cases hm : mayBeFrame value with
  | false => simp
  | true =>
    simp only [Bool.true_eq_false, if_false, true_and]
    cases hl : loads value with
    | error e =>
      have hover : Overdeep value ↔ e.cls = .recursionError := by
        simp only [Overdeep, hl, Except.error.injEq, exists_eq_left']
      rw [hover]
      show (if e.isAny [.valueError, .typeError] = true then _ else _) = _ ↔ _
      rcases loads_raises hl with h | h
      · rw [if_pos (by simp [PyExc.isAny, h])]
        refine iff_of_true rfl fun hc => ?_
        simp [PyExc.isA, hc, ExcClass.ancestors] at h
      · rw [if_neg (by simp [PyExc.isAny, PyExc.isA, h, ExcClass.ancestors])]
        simp [h]
    | ok v =>
      refine iff_of_true ?_ (by rintro ⟨e, he, -⟩; rw [hl] at he; cases he)
      cases v with
      | obj decoded =>
        show Except.ok (if (Dict.getJ decoded frameKey).truthy = true then
          (Dict.getJ decoded (str "body")).asStr?.map (decoded, ·) else none) = _
        split
        · next ht =>
          cases hb : Dict.getJ decoded (str "body") with
          | str body => exact absurd ⟨decoded, body, hl, ht, hb⟩ hf
          | _ => rfl
        · rfl
      | _ => rfl

/-- A value that is no frame is the body, unless it is stuck. -/
theorem unframe_bare_iff {value : Str} (hf : ¬ IsFrame value) : unframe value = .ok (value, []) ↔ ¬ Stuck value := by
  rw [← frame?_eq_none_iff hf]
  refine ⟨fun h => ?_, unframe_of_not_frame⟩
  cases hr : frame? value with
  | error e => unfold unframe at h; rw [hr] at h; cases h
  | ok r =>
    cases r with
    | none => rfl
    | some r =>
      -- Only a frame is read as one.
      refine absurd ?_ hf
      obtain ⟨decoded, body⟩ := r
      unfold frame? at hr
      split at hr
      · cases hr
      · cases hl : loads value with
        | error e =>
          rw [hl] at hr
          simp only [Except.map, tryExceptPure] at hr
          split at hr <;> cases hr
        | ok v =>
          rw [hl] at hr
          cases v with
          | obj d =>
            replace hr : (if (Dict.getJ d frameKey).truthy = true then (Dict.getJ d (str "body")).asStr?.map (d, ·)
              else none) = some (decoded, body) := Except.ok.inj hr
            split at hr
            · next ht =>
              cases hb : Dict.getJ d (str "body") with
              | str text => exact ⟨d, text, hl, ht, hb⟩
              | _ => rw [hb] at hr; cases hr
            · cases hr
          | _ => cases hr

/-- When a value is read back: there is a frame around it, or it is not stuck. -/
theorem roundTrips_iff {headers : Dict Str} (h : headers.Proper) {body : Str} (hf : ¬ IsFrame body) :
    RoundTrips body headers ↔ ¬ (cleanHeaders headers = [] ∧ Stuck body) := by
  unfold RoundTrips
  simp only [frameValue_eq, Except.ok.injEq, exists_eq_left']
  by_cases hc : cleanHeaders headers = []
  · simp only [hc, if_true, implies_true, and_true, true_and]
    exact unframe_bare_iff hf
  · simp only [hc, if_false, false_implies, and_true, false_and, not_false_iff, iff_true]
    rw [unframe_frameText (cleanHeaders_proper h), cleanHeaders_idem]

/-! ## On the server -/

omit [Interpreter] in
/-- The literal of a readable text. -/
theorem readable_strText {s : Str} (h : Readable s) : Readable (strText s) := by
  have hpieces : strText s = cp '"' :: (s.flatMap (fun c => (encodePiece c).text) ++ [cp '"']) := by
    unfold strText quoted
    simp [List.flatMap_map]
  have hself : ∀ c : CodePoint, 0x7F ≤ c.val → encodePiece c = .raw c := by
    intro c hc
    have h1 : ∀ x : Char, x.toNat < 0x7F → c ≠ cp x := by
      rintro x hx rfl
      exact absurd hc (by simpa [cp] using hx)
    unfold encodePiece
    rw [if_neg (by simp [h1]), if_neg (h1 _ (by decide)), if_neg (h1 _ (by decide)), if_neg (h1 _ (by decide)),
      if_neg (by omega), if_neg (by omega), if_neg (by omega)]
  rw [hpieces]
  refine Readable.cons (Readable.append (h.flatMap ?_ ?_) readable_nil (by decide)) (by decide)
  · intro c hc
    rw [hself c (by omega)]
    rfl
  · intro c hc
    refine ⟨by cases encodePiece c <;> simp [Piece.text], fun x hx => ?_⟩
    by_cases hdel : c.val ≤ 0x7E
    · exact Nat.lt_succ_of_lt (Nat.lt_succ_of_le ((encodePiece_text_range hx).2 hdel))
    · have hraw : encodePiece c = .raw c := hself c (by omega)
      rw [hraw] at hx
      obtain rfl : x = c := by simpa [Piece.text] using hx
      exact hc

omit [Interpreter] in
theorem readable_commas {ss : List Str} (h : ∀ s ∈ ss, Readable s) : Readable (commas ss) := by
  induction ss with
  | nil => exact readable_nil
  | cons s ss ih =>
    obtain ⟨hs, hss⟩ := List.forall_mem_cons.mp h
    cases ss with
    | nil => exact hs
    | cons t ss => exact hs.append (ih hss) (by decide)

/-- The keys and the values of the headers are readable. -/
def ReadableHeaders (headers : Dict Str) : Prop := ∀ h ∈ headers, Readable h.1 ∧ Readable h.2

omit [Interpreter] in
theorem readable_frameText {headers : Dict Str} (h : ReadableHeaders headers) {body : Str} (hb : Readable body) :
    Readable (frameText headers body) := by
  have hcolon : (cp ':').val < 0x80 := by decide
  have hcomma : (cp ',').val < 0x80 := by decide
  have hascii : ∀ s : Str, s.all (fun c => c.val < 0x80) = true → Readable s := fun s hs =>
    readable_ascii fun c hc => by simpa using List.all_eq_true.mp hs c hc
  have hversion : Readable (intText frameVersion) := hascii _ (by decide +kernel)
  have hkey : ∀ s : Str, s.all (fun c => c.val < 0x80) = true → Readable (strText s) := fun s hs =>
    readable_strText (hascii s hs)
  have hheaders : Readable (headersText headers) := by
    refine Readable.cons (Readable.append (readable_commas fun s hs => ?_) readable_nil (by decide)) (by decide)
    obtain ⟨x, hx, rfl⟩ := List.mem_map.mp hs
    exact (readable_strText (h x hx).1).append (readable_strText (h x hx).2) hcolon
  have hbody : Readable (strText body ++ [cp '}']) := (readable_strText hb).append readable_nil (by decide)
  refine Readable.cons (Readable.append (hkey frameKey (by decide +kernel)) (Readable.append hversion ?_ hcomma) hcolon)
    (by decide)
  refine Readable.append (hkey _ (by decide +kernel)) (Readable.append hheaders ?_ hcomma) hcolon
  exact Readable.append (hkey _ (by decide +kernel)) hbody hcolon

/-- A written value of readable texts is readable. -/
theorem readable_frameValue {headers : Dict Str} (h : ReadableHeaders (cleanHeaders headers)) {body value : Str}
    (hb : Readable body) (hv : frameValue body headers = .ok value) : Readable value := by
  rw [frameValue_eq] at hv
  obtain rfl := Except.ok.inj hv
  split
  · exact hb
  · exact readable_frameText h hb

/-! ## The delivery -/

theorem sanitizeHeaders_eq (headers : Dict Json) : BabelQueue.sanitizeHeaders headers = sanitizeHeaders headers := by
  induction headers with
  | nil => rfl
  | cons h headers ih =>
    obtain ⟨key, value⟩ := h
    rw [sanitizeHeaders, BabelQueue.sanitizeHeaders.eq_def]
    cases key with
    | nil => simpa using ih
    | cons c key =>
      cases value with
      | null => simpa [isBlank] using ih
      | str s => cases s <;> simp [isBlank, ih]
      | _ => simp [isBlank, ih]

theorem unframe_eq (value : Str) : BabelQueue.unframe value = unframe value := by
  cases value with
  | nil => rfl
  | cons c text =>
    have hmay : mayBeFrame (c :: text) = true ↔
        ¬ (c ≠ cp '{' ∨ ¬ (cp '"' :: BabelQueue.frameKey ++ [cp '"']) <:+: c :: text) := by
      have hinfix : ((c :: text).tails.any fun t => startsWith t (cp '"' :: frameKey ++ [cp '"'])) = true ↔
          (cp '"' :: frameKey ++ [cp '"']) <:+: c :: text := by
        rw [List.any_eq_true, List.infix_iff_prefix_suffix]
        refine exists_congr fun t => ?_
        rw [List.mem_tails, startsWith, List.isPrefixOf_iff_prefix, and_comm]
      have hhead : startsWith (c :: text) [cp '{'] = true ↔ c = cp '{' := by
        rw [startsWith_iff]
        exact ⟨by rintro ⟨t, ht⟩; exact (List.cons.inj ht).1, by rintro rfl; exact ⟨text, rfl⟩⟩
      rw [mayBeFrame, Bool.and_eq_true, hhead, hinfix, not_or, not_not, not_not]
      rfl
    rw [BabelQueue.unframe]
    unfold unframe frame?
    by_cases hm : mayBeFrame (c :: text) = true
    · rw [if_neg (hmay.mp hm), hm, if_neg (by decide)]
      cases hl : loads (c :: text) with
      | error e =>
        simp only [Except.map, tryExceptPure]
        split <;> rfl
      | ok v =>
        cases v with
        | obj decoded =>
          simp only [Except.map, tryExceptPure, asObj?, Option.bind_some]
          show (if (Dict.getJ decoded frameKey).truthy = true then _ else _) = _
          split
          · have hget : Dict.getJ decoded (str "body") = (Dict.get? decoded (str "body")).getD .null := rfl
            rw [hget]
            cases hb : Dict.get? decoded (str "body") with
            | none => rfl
            | some b =>
              cases b with
              | str body =>
                rw [sanitizeHeaders_eq]
                rfl
              | _ => rfl
          · rfl
        | _ => rfl
    · rw [if_pos (by rwa [hmay, not_not] at hm), if_pos (by simpa using hm)]
      rfl

theorem legacyMessage_ok {queue text token body : Str} {headers : Dict Str} (h : unframe text = .ok (body, headers)) :
    ∃ route, BabelQueue.legacyMessage queue text token =
      .ok (popped route body queue (.legacy ⟨text, token⟩) headers) := by
  have hroute : ∃ route, legacyRoute text body = .ok route := by
    unfold legacyRoute
    split
    · exact ⟨_, rfl⟩
    · obtain ⟨cause, hc⟩ := poisonCause_returns body true
      rw [hc]
      exact ⟨_, rfl⟩
  obtain ⟨route, hr⟩ := hroute
  refine ⟨route, ?_⟩
  unfold BabelQueue.legacyMessage
  rw [unframe_eq, h]
  show (do pure (popped (← legacyRoute text body) body queue (RedisHandle.legacy ⟨text, token⟩) headers)) = _
  rw [hr]
  rfl

end BabelQueue.Redis
