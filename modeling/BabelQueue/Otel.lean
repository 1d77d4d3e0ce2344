import BabelQueue.Py.Hex

/-!
# Trace ids (`otel.py`)

The mapping between the `trace_id` of an envelope and the trace id of OpenTelemetry. SHA-256 is the
parameter `sha256`; spans, metrics and the propagator are left out.

* `uuidOf_directTraceId`: an id that is read from a text writes the digits of the text.
* `MapsTraceId`: a text of 32 digits is read as the number it denotes, any other is hashed.
* `traceIds`: the mapping inverts `uuidOf`, and is right but for texts with whitespace between bytes
  and texts that have no UTF-8 form.
-/

namespace BabelQueue.Otel

open Py

/-- `s.replace("-", "")` -/
def unhyphen (s : Str) : Str := s.filter (· ≠ cp '-')

/-- `_uuid_bytes` -/
def uuidBytes (s : Str) : Option Bytes := if (unhyphen s).length ≠ 32 then none else fromHex (unhyphen s)

/-- `_direct_trace_id` -/
def directTraceId (traceId : Str) : Option Nat :=
  match uuidBytes traceId with
  | none => none
  | some raw => if fromBytes raw = 0 then none else some (fromBytes raw)

/-- The id of a text that is hashed. -/
def hashedTraceId (sha256 : Bytes → Bytes) (traceId : Str) : Except PyExc Nat := do
  let digest := (sha256 (← Utf8.encodeStrict traceId)).take 16
  pure (if fromBytes digest = 0 then 1 else fromBytes digest)

/-- `trace_id_of` -/
def traceIdOf (sha256 : Bytes → Bytes) (traceId : Str) : Except PyExc Nat :=
  match directTraceId traceId with
  | some direct => .ok direct
  | none => hashedTraceId sha256 traceId

/-- `uuid_of` -/
def uuidOf (traceId : Int) : Str :=
  let h := hexText 32 (traceId % 2 ^ 128).toNat
  h.take 8 ++ [cp '-'] ++ (h.drop 8).take 4 ++ [cp '-'] ++ (h.drop 12).take 4 ++ [cp '-'] ++ (h.drop 16).take 4 ++
    [cp '-'] ++ h.drop 20

/-- The text is 32 hexadecimal digits, but for hyphens, and denotes `k`, which is not zero. -/
def Denotes (traceId : Str) (k : Nat) : Prop :=
  (unhyphen traceId).length = 32 ∧ IsHex (unhyphen traceId) ∧ hexNat (unhyphen traceId) = k ∧ 0 < k

/-- `bytes.fromhex` reads the 32 characters, which are not all digits, and not as zero. -/
def Spaced (traceId : Str) : Prop :=
  (unhyphen traceId).length = 32 ∧ (∃ c ∈ unhyphen traceId, isAsciiSpace c = true) ∧
    ∃ raw, fromHex (unhyphen traceId) = some raw ∧ fromBytes raw ≠ 0

/-- A text that denotes an id is mapped to it, and any other is hashed to an id. -/
structure MapsTraceId (sha256 : Bytes → Bytes) (traceId : Str) : Prop where
  direct : ∀ k, directTraceId traceId = some k ↔ Denotes traceId k
  digits : ∀ k, directTraceId traceId = some k → unhyphen (uuidOf k) = (unhyphen traceId).map asciiLower
  hashed : (∀ k, ¬ Denotes traceId k) →
    ∃ b, Utf8.encodeStrict traceId = .ok b ∧
      traceIdOf sha256 traceId =
        .ok (if fromBytes ((sha256 b).take 16) = 0 then 1 else fromBytes ((sha256 b).take 16))

/-! ## Reading -/

theorem directTraceId_eq_some {s : Str} {k : Nat} :
    directTraceId s = some k ↔
      (unhyphen s).length = 32 ∧ ∃ raw, fromHex (unhyphen s) = some raw ∧ fromBytes raw = k ∧ k ≠ 0 := by
  unfold directTraceId uuidBytes
  by_cases hlen : (unhyphen s).length = 32
  · rw [if_neg (not_not.mpr hlen)]
    cases fromHex (unhyphen s) with
    | none => simp
    | some raw =>
      by_cases hz : fromBytes raw = 0
      · simp [hz]; omega
      · simp [hz, hlen]; omega
  · simp [hlen]

/-- 32 digits are read as their number. -/
theorem directTraceId_of_denotes {s : Str} {k : Nat} (h : Denotes s k) : directTraceId s = some k := by
  obtain ⟨hlen, hhex, hk, hpos⟩ := h
  obtain ⟨raw, hraw, hval⟩ := fromHex_of_isHex hhex (by rw [hlen])
  exact directTraceId_eq_some.mpr ⟨hlen, raw, hraw, by rw [hval, hk], by omega⟩

/-- What is read is the number of 32 digits, or has whitespace in it. -/
theorem denotes_of_directTraceId {s : Str} {k : Nat} (h : directTraceId s = some k) : Denotes s k ∨ Spaced s := by
  obtain ⟨hlen, raw, hraw, hk, hne⟩ := directTraceId_eq_some.mp h
  by_cases hhex : IsHex (unhyphen s)
  · obtain ⟨raw', hraw', hval⟩ := fromHex_of_isHex hhex (by rw [hlen])
    rw [hraw] at hraw'
    cases hraw'
    exact .inl ⟨hlen, hhex, by rw [← hval, hk], by omega⟩
  · refine .inr ⟨hlen, ?_, raw, hraw, by rwa [hk]⟩
    by_contra hnone
    refine hhex fun c hc => (fromHex_chars hraw c hc).resolve_left fun hsp => hnone ⟨c, hc, hsp⟩

theorem not_denotes_of_spaced {s : Str} {k : Nat} (h : Spaced s) : ¬ Denotes s k := by
  obtain ⟨-, ⟨c, hc, hsp⟩, -⟩ := h
  rintro ⟨-, hhex, -⟩
  rw [not_space_of_hex (hhex c hc)] at hsp
  cases hsp

/-! ## Writing -/

theorem hyphen_not_hex : Json.hexValue? (cp '-') = none := by decide

theorem unhyphen_of_isHex {s : Str} (h : IsHex s) : unhyphen s = s := by
  refine List.filter_eq_self.mpr fun c hc => decide_eq_true ?_
  rintro rfl
  have hc := h _ hc
  rw [hyphen_not_hex] at hc
  cases hc

/-- The text without its hyphens is the 32 digits. -/
theorem unhyphen_uuidOf (n : Int) : unhyphen (uuidOf n) = hexText 32 (n % 2 ^ 128).toNat := by
  have hdrop : ∀ a b c d e : Str,
      unhyphen (a ++ [cp '-'] ++ b ++ [cp '-'] ++ c ++ [cp '-'] ++ d ++ [cp '-'] ++ e) =
        unhyphen (a ++ (b ++ (c ++ (d ++ e)))) := by
    intro a b c d e
    simp [unhyphen]
  have hsplit : ∀ h : Str,
      h.take 8 ++ ((h.drop 8).take 4 ++ ((h.drop 12).take 4 ++ ((h.drop 16).take 4 ++ h.drop 20))) = h := by
    intro h
    rw [show h.drop 20 = (h.drop 16).drop 4 by simp, List.take_append_drop,
      show h.drop 16 = (h.drop 12).drop 4 by simp, List.take_append_drop,
      show h.drop 12 = (h.drop 8).drop 4 by simp, List.take_append_drop, List.take_append_drop]
  unfold uuidOf
  rw [hdrop, hsplit, unhyphen_of_isHex (isHex_hexText 32 _)]

/-- The id that a text denotes writes the digits of the text. -/
theorem unhyphen_uuidOf_of_denotes {s : Str} {k : Nat} (h : Denotes s k) :
    unhyphen (uuidOf k) = (unhyphen s).map asciiLower := by
  obtain ⟨hlen, hhex, rfl, -⟩ := h
  have hlower := hexText_hexNat hhex
  rw [hlen] at hlower
  have hlt := hexNat_lt (unhyphen s)
  rw [hlen] at hlt
  have hnat : ((hexNat (unhyphen s) : Int) % 2 ^ 128).toNat = hexNat (unhyphen s) := by omega
  rw [unhyphen_uuidOf, hnat, hlower]

theorem traceIdOf_of_direct {sha256 : Bytes → Bytes} {s : Str} {k : Nat} (h : directTraceId s = some k) :
    traceIdOf sha256 s = .ok k := by rw [traceIdOf, h]

/-! ## The mapping -/

/-- `trace_id_of` inverts `uuid_of`. -/
theorem traceIdOf_uuidOf (sha256 : Bytes → Bytes) {n : Nat} (hpos : 0 < n) (hlt : n < 2 ^ 128) :
    traceIdOf sha256 (uuidOf n) = .ok n := by
  have hnat : ((n : Int) % 2 ^ 128).toNat = n := by omega
  refine traceIdOf_of_direct (directTraceId_of_denotes ⟨?_, ?_, ?_, hpos⟩) <;> rw [unhyphen_uuidOf, hnat]
  · exact hexText_length 32 n
  · exact isHex_hexText 32 n
  · rw [hexNat_hexText, Nat.mod_eq_of_lt (by omega)]

/-- Digits and hyphens have a UTF-8 form. -/
theorem encodable_of_denotes {s : Str} {k : Nat} (h : Denotes s k) : s.any isSurrogate = false := by
  obtain ⟨-, hhex, -⟩ := h
  rw [List.any_eq_false]
  intro c hc
  by_cases hyphen : c = cp '-'
  · rw [hyphen]; decide
  · have hdigit := hhex c (List.mem_filter.mpr ⟨hc, decide_eq_true hyphen⟩)
    unfold Json.hexValue? at hdigit
    simp only [isSurrogate, Bool.and_eq_true, decide_eq_true_eq, not_and]
    intro hge
    rw [if_neg (by omega), if_neg (by omega), if_neg (by omega)] at hdigit
    cases hdigit

theorem encodeStrict_ok_iff {s : Str} : (∃ b, Utf8.encodeStrict s = .ok b) ↔ s.any isSurrogate = false := by
  unfold Utf8.encodeStrict
  cases s.any isSurrogate <;> simp

theorem mapsTraceId_iff (sha256 : Bytes → Bytes) (s : Str) :
    MapsTraceId sha256 s ↔ ¬ Spaced s ∧ s.any isSurrogate = false := by
  constructor
  · intro h
    refine ⟨fun hs => ?_, ?_⟩
    · have ⟨hlen, _, raw, hraw, hne⟩ := hs
      have hd := directTraceId_eq_some.mpr ⟨hlen, raw, hraw, rfl, hne⟩
      exact not_denotes_of_spaced hs ((h.direct _).mp hd)
    · by_cases hden : ∃ k, Denotes s k
      · exact encodable_of_denotes hden.choose_spec
      · obtain ⟨b, hb, -⟩ := h.hashed (not_exists.mp hden)
        exact encodeStrict_ok_iff.mp ⟨b, hb⟩
  · rintro ⟨hspaced, hsurrogate⟩
    obtain ⟨b, hb⟩ := encodeStrict_ok_iff.mpr hsurrogate
    have hdirect : ∀ k, directTraceId s = some k ↔ Denotes s k := fun k =>
      ⟨fun h => (denotes_of_directTraceId h).resolve_right hspaced, directTraceId_of_denotes⟩
    refine ⟨hdirect, fun k h => unhyphen_uuidOf_of_denotes ((hdirect k).mp h), fun hden => ⟨b, hb, ?_⟩⟩
    have hnone : directTraceId s = none := Option.eq_none_iff_forall_not_mem.mpr fun k hk => hden k ((hdirect k).mp hk)
    rw [traceIdOf, hnone, hashedTraceId, hb]
    rfl

/-- The mapping inverts `uuid_of`; it maps a text as it should exactly when the text has no whitespace
between bytes and no lone surrogate, and no two such texts of other digits share an id. -/
theorem traceIds (sha256 : Bytes → Bytes) :
    (∀ n : Nat, 0 < n → n < 2 ^ 128 → traceIdOf sha256 (uuidOf n) = .ok n) ∧
      (∀ s, MapsTraceId sha256 s ↔ ¬ Spaced s ∧ s.any isSurrogate = false) ∧
      ∀ s t k, ¬ Spaced s → ¬ Spaced t → directTraceId s = some k → directTraceId t = some k →
        (unhyphen s).map asciiLower = (unhyphen t).map asciiLower := by
  refine ⟨fun n => traceIdOf_uuidOf sha256, mapsTraceId_iff sha256, fun s t k hs ht hsk htk => ?_⟩
  rw [← unhyphen_uuidOf_of_denotes ((denotes_of_directTraceId hsk).resolve_right hs),
    ← unhyphen_uuidOf_of_denotes ((denotes_of_directTraceId htk).resolve_right ht)]

theorem traceIds_one : traceIdOf id (uuidOf (1 : Nat)) = .ok 1 := (traceIds id).1 1 (by decide) (by decide)

/-- 30 digits and two blanks are read as an id. -/
theorem spaced_direct :
    directTraceId (str "00000000-0000-0000-0000-0000000001  ") = some 1 ∧
      ¬ Denotes (str "00000000-0000-0000-0000-0000000001  ") 1 := by
  refine ⟨by decide +kernel, fun h => ?_⟩
  have hblank := h.2.1 (cp ' ') (by decide +kernel)
  exact absurd hblank (by decide)

end BabelQueue.Otel
