import BabelQueue.Py.Json.RoundTrip
import BabelQueue.Py.Utf8.RoundTrip

/-!
# JSON from bytes

`loadsBytes b` is `json.loads(b)`: the encoding is detected from the first bytes, and surrogates are
let through (`surrogatepass`).

* `loadsBytes_ascii`: printable ASCII is read as the text it is.
-/

namespace Py

namespace Json

/-- The encodings of `json.detect_encoding`. -/
inductive Encoding
  | utf8
  | utf8Sig
  | utf16
  | utf16be
  | utf16le
  | utf32
  | utf32be
  | utf32le
  deriving DecidableEq

/-- `json.detect_encoding`. -/
def detectEncoding (b : Bytes) : Encoding :=
  if [0x00, 0x00, 0xFE, 0xFF].isPrefixOf b || [0xFF, 0xFE, 0x00, 0x00].isPrefixOf b then .utf32
  else if [0xFE, 0xFF].isPrefixOf b || [0xFF, 0xFE].isPrefixOf b then .utf16
  else if [0xEF, 0xBB, 0xBF].isPrefixOf b then .utf8Sig
  else match b with
    | b₀ :: b₁ :: b₂ :: b₃ :: _ =>
      if b₀ = 0 then if b₁ ≠ 0 then .utf16be else .utf32be
      else if b₁ = 0 then if b₂ ≠ 0 ∨ b₃ ≠ 0 then .utf16le else .utf32le
      else .utf8
    | [b₀, b₁] => if b₀ = 0 then .utf16be else if b₁ = 0 then .utf16le else .utf8
    | _ => .utf8

/-- UTF-8 with `surrogatepass`; the fuel is the length. -/
def decodePassAt : Nat → Bytes → Option Str
  | _, [] => some []
  | 0, _ :: _ => none
  | fuel + 1, b :: bs =>
    match Utf8.decodePoint? (b :: bs) with
    | some (c, rest) => (decodePassAt fuel rest).map (c :: ·)
    | none =>
      match bs with
      | b₁ :: b₂ :: rest =>
        if b.val = 0xED ∧ 0xA0 ≤ b₁.val ∧ Utf8.isCont b₁ ∧ Utf8.isCont b₂ then
          (decodePassAt fuel rest).map (Fin.ofNat _ (0xD000 + (b₁.val - 0x80) * 0x40 + (b₂.val - 0x80)) :: ·)
        else none
      | _ => none

/-- The 16-bit units of bytes. -/
def units16 (big : Bool) : Bytes → Option (List Nat)
  | [] => some []
  | [_] => none
  | a :: b :: rest => (units16 big rest).map ((if big then a.val * 256 + b.val else b.val * 256 + a.val) :: ·)

/-- UTF-16 units as code points: a high and a low surrogate are one, a lone one stays. -/
def decode16 : List Nat → Str
  | [] => []
  | [u] => [Fin.ofNat _ u]
  | u :: v :: us =>
    if isHighSurrogate (Fin.ofNat _ u) && isLowSurrogate (Fin.ofNat _ v) then
      joinPair (Fin.ofNat _ u) (Fin.ofNat _ v) :: decode16 us
    else Fin.ofNat _ u :: decode16 (v :: us)

/-- UTF-32 with `surrogatepass`. -/
def decode32 (big : Bool) : Bytes → Option Str
  | [] => some []
  | a :: b :: c :: d :: rest =>
    let n := if big then ((a.val * 256 + b.val) * 256 + c.val) * 256 + d.val
      else ((d.val * 256 + c.val) * 256 + b.val) * 256 + a.val
    if n < 0x110000 then (decode32 big rest).map (Fin.ofNat _ n :: ·) else none
  | _ => none

/-- `b.decode(json.detect_encoding(b), "surrogatepass")`; `none` is a `UnicodeDecodeError`. -/
def decodeDetected (b : Bytes) : Option Str :=
  match detectEncoding b with
  | .utf8 => decodePassAt b.length b
  | .utf8Sig => decodePassAt b.length (b.drop 3)
  | .utf16 => (units16 ([0xFE, 0xFF].isPrefixOf b) (b.drop 2)).map decode16
  | .utf16be => (units16 true b).map decode16
  | .utf16le => (units16 false b).map decode16
  | .utf32 => decode32 ([0x00, 0x00, 0xFE, 0xFF].isPrefixOf b) (b.drop 4)
  | .utf32be => decode32 true b
  | .utf32le => decode32 false b

/-- `json.loads(b)` of bytes. -/
def loadsBytes [Interpreter] (b : Bytes) : Except PyExc Json :=
  match decodeDetected b with
  | some s => loads s
  | none => .error ⟨.unicodeDecodeError, Py.str "the bytes are not in the encoding that was detected"⟩

/-! ## ASCII -/

/-- The bytes of ASCII text. -/
def asciiBytes (s : Str) : Bytes := s.map fun c => Fin.ofNat _ c.val

theorem encodeStrict_ascii {s : Str} (h : ∀ c ∈ s, c.val ≤ 0x7E) : Utf8.encodeStrict s = .ok (asciiBytes s) := by
  have hs : s.any isSurrogate = false := by
    refine List.any_eq_false.mpr fun c hc => ?_
    have := h c hc
    simp only [isSurrogate, Bool.and_eq_true, decide_eq_true_eq]
    omega
  have hpoint : s.flatMap Utf8.encodePoint = asciiBytes s := by
    clear hs
    induction s with
    | nil => rfl
    | cons c s ih =>
      have hc := h c List.mem_cons_self
      rw [List.flatMap_cons, ih fun c hc => h c (List.mem_cons_of_mem _ hc), Utf8.encodePoint, if_pos (by omega)]
      rfl
  rw [Utf8.encodeStrict, hs, hpoint]
  rfl

theorem decodePassAt_ascii {s : Str} (h : ∀ c ∈ s, c.val ≤ 0x7E) : decodePassAt s.length (asciiBytes s) = some s := by
  induction s with
  | nil => rfl
  | cons c s ih =>
    have hc := h c List.mem_cons_self
    have hv : (Fin.ofNat 256 c.val).val = c.val := Nat.mod_eq_of_lt (by omega)
    have hp : Utf8.decodePoint? (asciiBytes (c :: s)) = some (c, asciiBytes s) := by
      rw [asciiBytes, List.map_cons, Utf8.decodePoint?.eq_def]
      dsimp only
      rw [if_pos (by omega), hv, show Fin.ofNat 0x110000 c.val = c from Fin.ext (Nat.mod_eq_of_lt c.isLt)]
      rfl
    rw [asciiBytes, List.map_cons] at hp ⊢
    rw [List.length_cons, decodePassAt.eq_def]
    dsimp only
    rw [hp]
    dsimp only
    rw [ih fun c hc => h c (List.mem_cons_of_mem _ hc)]
    rfl

theorem detectEncoding_ascii {s : Str} (h : ∀ c ∈ s, 0x20 ≤ c.val ∧ c.val ≤ 0x7E) :
    detectEncoding (asciiBytes s) = .utf8 := by
  have hb : ∀ b ∈ asciiBytes s, 0x20 ≤ b.val ∧ b.val ≤ 0x7E := by
    intro b hb
    obtain ⟨c, hc, rfl⟩ := List.mem_map.mp hb
    have := h c hc
    rw [Fin.val_ofNat, Nat.mod_eq_of_lt (by omega)]
    exact this
  generalize asciiBytes s = b at hb
  have hfirst : ∀ {x : Byte} {bom : Bytes}, (x.val < 0x20 ∨ 0x7E < x.val) → (x :: bom).isPrefixOf b = false := by
    intro x bom hx
    cases b with
    | nil => rfl
    | cons y b =>
      have hy := hb y List.mem_cons_self
      have : (x == y) = false := beq_eq_false_iff_ne.mpr (by rintro rfl; omega)
      rw [List.isPrefixOf, this, Bool.false_and]
  have hne : ∀ x ∈ b, x ≠ 0 := by
    rintro x hx rfl
    exact absurd (hb 0 hx).1 (by decide)
  unfold detectEncoding
  rw [hfirst (by decide), hfirst (by decide), hfirst (by decide), hfirst (by decide), hfirst (by decide)]
  simp only [Bool.or_false, Bool.false_eq_true, if_false]
  split
  · rw [if_neg (hne _ (by simp)), if_neg (hne _ (by simp))]
  · rw [if_neg (hne _ (by simp)), if_neg (hne _ (by simp))]
  · rfl

/-- Printable ASCII is read as the text it is. -/
theorem loadsBytes_ascii [Interpreter] {s : Str} (h : ∀ c ∈ s, 0x20 ≤ c.val ∧ c.val ≤ 0x7E) :
    loadsBytes (asciiBytes s) = loads s := by
  have hlen : (asciiBytes s).length = s.length := List.length_map _
  rw [loadsBytes, decodeDetected, detectEncoding_ascii h]
  dsimp only
  rw [hlen, decodePassAt_ascii fun c hc => (h c hc).2]

end Json

end Py
