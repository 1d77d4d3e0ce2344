import BabelQueue.Py.Act

/-!
# UTF-8 and base64

* `encodeStrict`, `encodeEscape`, `encodePass`: `s.encode("utf-8", errors)` with `strict`,
  `surrogateescape` and `surrogatepass`.
* `decodeStrict`, `decodeEscape`, `decodeReplace`: `b.decode("utf-8", errors)` with `strict`,
  `surrogateescape` and `replace`.
* `b64encode`, `b64decode`: the standard base64 of bytes.
-/

namespace Py

abbrev Byte := Fin 256

abbrev Bytes := List Byte

instance bytes_neZero : @NeZero Nat Zero.ofOfNat0 256 := Nat.instNeZeroSucc

namespace Utf8

/-- The UTF-8 form of a code point, surrogates included. -/
def encodePoint (c : CodePoint) : Bytes :=
  let n := c.val
  if n < 0x80 then [Fin.ofNat _ n]
  else if n < 0x800 then [Fin.ofNat _ (0xC0 + n / 0x40), Fin.ofNat _ (0x80 + n % 0x40)]
  else if n < 0x10000 then
    [Fin.ofNat _ (0xE0 + n / 0x1000), Fin.ofNat _ (0x80 + n / 0x40 % 0x40), Fin.ofNat _ (0x80 + n % 0x40)]
  else
    [Fin.ofNat _ (0xF0 + n / 0x40000), Fin.ofNat _ (0x80 + n / 0x1000 % 0x40),
      Fin.ofNat _ (0x80 + n / 0x40 % 0x40), Fin.ofNat _ (0x80 + n % 0x40)]

def encodeError : PyExc :=
  ⟨.unicodeEncodeError, str "'utf-8' codec can't encode character: surrogates not allowed"⟩

/-- `s.encode("utf-8")`. -/
def encodeStrict (s : Str) : Except PyExc Bytes :=
  if s.any isSurrogate then .error encodeError else .ok (s.flatMap encodePoint)

/-- A code point that stands for a byte which was not valid UTF-8. -/
def isEscapedByte (c : CodePoint) : Bool := 0xDC80 ≤ c.val && c.val ≤ 0xDCFF

/-- `s.encode("utf-8", "surrogateescape")`. -/
def encodeEscape (s : Str) : Except PyExc Bytes :=
  if s.any fun c => isSurrogate c && !isEscapedByte c then .error encodeError
  else .ok (s.flatMap fun c => if isEscapedByte c then [Fin.ofNat _ (c.val - 0xDC00)] else encodePoint c)

/-- `s.encode("utf-8", "surrogatepass")`. -/
def encodePass (s : Str) : Bytes := s.flatMap encodePoint

/-- A continuation byte. -/
def isCont (b : Byte) : Bool := 0x80 ≤ b.val && b.val ≤ 0xBF

/-- The code point at the start of `b`, when a well-formed sequence is there, and the rest. -/
def decodePoint? : Bytes → Option (CodePoint × Bytes)
  | [] => none
  | b₀ :: rest =>
    if b₀.val < 0x80 then some (Fin.ofNat _ b₀.val, rest)
    else match rest with
      | [] => none
      | b₁ :: rest =>
        if 0xC2 ≤ b₀.val ∧ b₀.val ≤ 0xDF ∧ isCont b₁ then
          some (Fin.ofNat _ ((b₀.val - 0xC0) * 0x40 + (b₁.val - 0x80)), rest)
        else match rest with
          | [] => none
          | b₂ :: rest =>
            -- no overlong form and no surrogate
            if 0xE0 ≤ b₀.val ∧ b₀.val ≤ 0xEF ∧ isCont b₁ ∧ isCont b₂ ∧ (b₀.val = 0xE0 → 0xA0 ≤ b₁.val) ∧
                (b₀.val = 0xED → b₁.val ≤ 0x9F) then
              some (Fin.ofNat _ ((b₀.val - 0xE0) * 0x1000 + (b₁.val - 0x80) * 0x40 + (b₂.val - 0x80)), rest)
            else match rest with
              | [] => none
              | b₃ :: rest =>
                if 0xF0 ≤ b₀.val ∧ b₀.val ≤ 0xF4 ∧ isCont b₁ ∧ isCont b₂ ∧ isCont b₃ ∧
                    (b₀.val = 0xF0 → 0x90 ≤ b₁.val) ∧ (b₀.val = 0xF4 → b₁.val ≤ 0x8F) then
                  some (Fin.ofNat _ ((b₀.val - 0xF0) * 0x40000 + (b₁.val - 0x80) * 0x1000 +
                    (b₂.val - 0x80) * 0x40 + (b₃.val - 0x80)), rest)
                else none

/-- Decode with `bad` for a byte that starts no well-formed sequence; the fuel is the length. -/
def decodeWith (bad : Byte → Option CodePoint) : Nat → Bytes → Option Str
  | _, [] => some []
  | 0, _ :: _ => none
  | fuel + 1, b :: bs =>
    match decodePoint? (b :: bs) with
    | some (c, rest) => (decodeWith bad fuel rest).map (c :: ·)
    | none => (bad b).bind fun c => (decodeWith bad fuel bs).map (c :: ·)

/-- `b.decode("utf-8")`; `none` is a `UnicodeDecodeError`. -/
def decodeStrict (b : Bytes) : Option Str := decodeWith (fun _ => none) b.length b

/-- `b.decode("utf-8", "surrogateescape")`. -/
def decodeEscape (b : Bytes) : Str :=
  (decodeWith (fun x => some (Fin.ofNat _ (0xDC00 + x.val))) b.length b).getD []

/-- How many bytes of an ill-formed sequence one `U+FFFD` stands for: those that start a well-formed
one, and at least one. -/
def brokenLength : Bytes → Nat
  | b₀ :: b₁ :: rest =>
    if 0xE0 ≤ b₀.val ∧ b₀.val ≤ 0xEF ∧ isCont b₁ ∧ (b₀.val = 0xE0 → 0xA0 ≤ b₁.val) ∧
        (b₀.val = 0xED → b₁.val ≤ 0x9F) then 2
    else if 0xF0 ≤ b₀.val ∧ b₀.val ≤ 0xF4 ∧ isCont b₁ ∧ (b₀.val = 0xF0 → 0x90 ≤ b₁.val) ∧
        (b₀.val = 0xF4 → b₁.val ≤ 0x8F) then if (rest.head?.any isCont) then 3 else 2
    else 1
  | _ => 1

/-- The fuel is the length. -/
def decodeReplaceAt : Nat → Bytes → Str
  | _, [] => []
  | 0, _ :: _ => []
  | fuel + 1, b :: bs =>
    match decodePoint? (b :: bs) with
    | some (c, rest) => c :: decodeReplaceAt fuel rest
    | none => Fin.ofNat _ 0xFFFD :: decodeReplaceAt fuel ((b :: bs).drop (brokenLength (b :: bs)))

/-- `b.decode("utf-8", "replace")`. -/
def decodeReplace (b : Bytes) : Str := decodeReplaceAt b.length b

end Utf8

/-! ## Base64 -/

/-- The standard alphabet. -/
def b64Alphabet : Str := str "ABCDEFGHIJKLMNOPQRSTUVWXYZabcdefghijklmnopqrstuvwxyz0123456789+/"

def b64Char (n : Nat) : CodePoint := b64Alphabet.getD n (cp '=')

/-- `base64.b64encode(b).decode("ascii")`. -/
def b64encode : Bytes → Str
  | [] => []
  | [a] => [b64Char (a.val / 4), b64Char (a.val % 4 * 16), cp '=', cp '=']
  | [a, b] => [b64Char (a.val / 4), b64Char (a.val % 4 * 16 + b.val / 16), b64Char (b.val % 16 * 4), cp '=']
  | a :: b :: c :: rest =>
    [b64Char (a.val / 4), b64Char (a.val % 4 * 16 + b.val / 16), b64Char (b.val % 16 * 4 + c.val / 64),
      b64Char (c.val % 64)] ++ b64encode rest

/-- The six bits of a character of the alphabet. -/
def b64Value? (c : CodePoint) : Option Nat := b64Alphabet.findIdx? (· = c)

/-- `base64.b64decode(s, validate=True)`; `none` is a `binascii.Error`. -/
def b64decode : Str → Option Bytes
  | [] => some []
  | a :: b :: c :: d :: rest => do
    let x ← b64Value? a
    let y ← b64Value? b
    let first : Byte := Fin.ofNat _ (x * 4 + y / 16)
    if c = cp '=' ∧ d = cp '=' ∧ rest = [] then pure [first]
    else do
      let z ← b64Value? c
      let second : Byte := Fin.ofNat _ (y % 16 * 16 + z / 4)
      if d = cp '=' ∧ rest = [] then pure [first, second]
      else do
        let w ← b64Value? d
        let bytes ← b64decode rest
        pure (first :: second :: Fin.ofNat _ (z % 4 * 64 + w) :: bytes)
  | _ => none

theorem b64Value?_b64Char {n : Nat} (h : n < 64) : b64Value? (b64Char n) = some n ∧ b64Char n ≠ cp '=' := by
  have hall : ∀ n : Fin 64, b64Value? (b64Char n) = some n.val ∧ b64Char n ≠ cp '=' := by decide +kernel
  exact hall ⟨n, h⟩

theorem byte_ext {n : Nat} {b : Byte} (h : n = b.val) : Fin.ofNat 256 n = b := by
  subst h
  exact Fin.ext (Nat.mod_eq_of_lt b.isLt)

theorem b64decode_b64encode (b : Bytes) : b64decode (b64encode b) = some b := by
  fun_induction b64encode b with
  | case1 => rfl
  | case2 a =>
    have ha := a.isLt
    simp only [b64decode, (b64Value?_b64Char (show a.val / 4 < 64 by omega)).1,
      (b64Value?_b64Char (show a.val % 4 * 16 < 64 by omega)).1, bind, Option.bind_some, and_self, if_true, pure,
      Option.some.injEq, List.cons.injEq, and_true]
    exact byte_ext (by omega)
  | case3 a b =>
    have ha := a.isLt
    have hb := b.isLt
    have hc := b64Value?_b64Char (show b.val % 16 * 4 < 64 by omega)
    simp only [b64decode, (b64Value?_b64Char (show a.val / 4 < 64 by omega)).1,
      (b64Value?_b64Char (show a.val % 4 * 16 + b.val / 16 < 64 by omega)).1, hc.1, hc.2, bind, Option.bind_some,
      and_self, if_true, if_false, pure, Option.some.injEq, List.cons.injEq, and_true]
    exact ⟨byte_ext (by omega), byte_ext (by omega)⟩
  | case4 a b c rest ih =>
    have ha := a.isLt
    have hb := b.isLt
    have hc := c.isLt
    have hz := b64Value?_b64Char (show b.val % 16 * 4 + c.val / 64 < 64 by omega)
    have hw := b64Value?_b64Char (show c.val % 64 < 64 by omega)
    simp only [List.cons_append, List.nil_append, b64decode,
      (b64Value?_b64Char (show a.val / 4 < 64 by omega)).1,
      (b64Value?_b64Char (show a.val % 4 * 16 + b.val / 16 < 64 by omega)).1, hz.1, hz.2, hw.1, hw.2, ih, bind,
      Option.bind_some, false_and, if_false, pure, Option.some.injEq, List.cons.injEq, and_true]
    exact ⟨byte_ext (by omega), byte_ext (by omega), byte_ext (by omega)⟩

theorem b64encode_forall {P : CodePoint → Prop} (hchar : ∀ n, P (b64Char n)) (heq : P (cp '=')) {b : Bytes}
    {c : CodePoint} (h : c ∈ b64encode b) : P c := by
  fun_induction b64encode b with
  | case1 => cases h
  | case2 a =>
    simp only [List.mem_cons, List.not_mem_nil, or_false] at h
    rcases h with rfl | rfl | rfl | rfl
    · exact hchar _
    · exact hchar _
    · exact heq
    · exact heq
  | case3 a b =>
    simp only [List.mem_cons, List.not_mem_nil, or_false] at h
    rcases h with rfl | rfl | rfl | rfl
    · exact hchar _
    · exact hchar _
    · exact hchar _
    · exact heq
  | case4 a b c rest ih =>
    simp only [List.cons_append, List.nil_append, List.mem_cons] at h
    rcases h with rfl | rfl | rfl | rfl | h
    · exact hchar _
    · exact hchar _
    · exact hchar _
    · exact hchar _
    · exact ih h

theorem b64Char_mem (n : Nat) : b64Char n ∈ cp '=' :: b64Alphabet := by
  rw [b64Char, List.getD_eq_getElem?_getD]
  cases hn : b64Alphabet[n]? with
  | none => simp
  | some c => exact List.mem_cons_of_mem _ (List.mem_of_getElem? hn)

/-- Base64 text needs no escape inside a JSON string. -/
theorem mem_b64encode {b : Bytes} {c : CodePoint} (h : c ∈ b64encode b) :
    c ≠ cp '"' ∧ c ≠ cp '\\' ∧ 0x20 ≤ c.val := by
  have hall : ∀ c ∈ cp '=' :: b64Alphabet, c ≠ cp '"' ∧ c ≠ cp '\\' ∧ 0x20 ≤ c.val := by
    intro c hc
    have : (cp '=' :: b64Alphabet).all (fun c => c ≠ cp '"' && c ≠ cp '\\' && 0x20 ≤ c.val) = true := by
      decide
    simpa [and_assoc] using List.all_eq_true.mp this c hc
  exact b64encode_forall (P := fun c => c ≠ cp '"' ∧ c ≠ cp '\\' ∧ 0x20 ≤ c.val) (fun n => hall _ (b64Char_mem n))
    (hall _ List.mem_cons_self) h

end Py
