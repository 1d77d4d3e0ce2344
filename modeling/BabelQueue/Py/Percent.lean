import BabelQueue.Py.Json.Grammar
import BabelQueue.Py.Utf8.Readable

/-!
# Percent-encoding

* `unquote` is `urllib.parse.unquote`, `partition` is `str.partition`.
* `Escapes f`: `f` writes each byte as itself, when it is an ASCII character other than `%`, or as `%` and
  two digits. Every `quote` does, whatever it calls safe.
* `unquote_flatMap`: what such an `f` writes for the bytes of a text is read back as the text.
* `partition_append`: a separator is found where it was put, when its first character is not before it.
-/

namespace Py

open Json (hexValue?)
open Utf8

/-- `unquote_to_bytes`, of ASCII characters. -/
def unquoteToBytes : Str → Bytes
  | [] => []
  | [c] => [Fin.ofNat _ c.val]
  | [c, d] => [Fin.ofNat _ c.val, Fin.ofNat _ d.val]
  | c :: d :: e :: s =>
    if c = cp '%' then
      match hexValue? d, hexValue? e with
      | some high, some low => Fin.ofNat _ (16 * high + low) :: unquoteToBytes s
      | _, _ => Fin.ofNat _ c.val :: unquoteToBytes (d :: e :: s)
    else Fin.ofNat _ c.val :: unquoteToBytes (d :: e :: s)

/-- The loop of `unquote`; `run` are the ASCII characters since the last one that is none. -/
def unquoteFrom (run : Str) : Str → Str
  | [] => decodeReplace (unquoteToBytes run)
  | c :: s =>
    if c.val < 0x80 then unquoteFrom (run ++ [c]) s
    else decodeReplace (unquoteToBytes run) ++ c :: unquoteFrom [] s

/-- `unquote(s)`. -/
def unquote (s : Str) : Str := unquoteFrom [] s

/-- `s.partition(sep)`: what is before the first `sep`, and what is after it, if there is one. -/
def partition (sep : Str) : Str → Str × Option Str
  | [] => ([], none)
  | c :: s =>
    if startsWith (c :: s) sep then ([], some ((c :: s).drop sep.length))
    else (c :: (partition sep s).1, (partition sep s).2)

/-! ## Escapes -/

/-- `f` writes each byte as a character, or as `%` and two digits. -/
def Escapes (f : Byte → Str) : Prop :=
  ∀ b, (f b = [Fin.ofNat _ b.val] ∧ b.val < 0x80 ∧ b.val ≠ 0x25) ∨
    ∃ c d high low, f b = [cp '%', c, d] ∧ hexValue? c = some high ∧ hexValue? d = some low ∧ 16 * high + low = b.val

theorem unquoteToBytes_cons {c : CodePoint} (h : c ≠ cp '%') (s : Str) :
    unquoteToBytes (c :: s) = Fin.ofNat _ c.val :: unquoteToBytes s := by
  match s with
  | [] => rfl
  | [_] => rfl
  | _ :: _ :: _ => rw [unquoteToBytes, if_neg h]

theorem unquoteToBytes_flatMap {f : Byte → Str} (hf : Escapes f) (b : Bytes) : unquoteToBytes (b.flatMap f) = b := by
  induction b with
  | nil => rfl
  | cons x b ih =>
    rw [List.flatMap_cons]
    rcases hf x with ⟨hx, hlt, hne⟩ | ⟨c, d, high, low, hx, hc, hd, hval⟩
    · have hval : (Fin.ofNat 0x110000 x.val).val = x.val := Nat.mod_eq_of_lt (by omega)
      have hpercent : Fin.ofNat 0x110000 x.val ≠ cp '%' := fun h => hne (hval.symm.trans (congrArg Fin.val h))
      rw [hx, List.cons_append, List.nil_append, unquoteToBytes_cons hpercent, ih, hval, byte_ext rfl]
    · rw [hx]
      show unquoteToBytes (cp '%' :: c :: d :: b.flatMap f) = _
      rw [unquoteToBytes, if_pos rfl, hc, hd]
      dsimp only
      rw [ih, hval, byte_ext rfl]

theorem unquoteFrom_ascii {s : Str} (h : ∀ c ∈ s, c.val < 0x80) (run : Str) :
    unquoteFrom run s = decodeReplace (unquoteToBytes (run ++ s)) := by
  induction s generalizing run with
  | nil => rw [List.append_nil]; rfl
  | cons c s ih =>
    rw [unquoteFrom, if_pos (h c List.mem_cons_self), ih fun d hd => h d (List.mem_cons_of_mem c hd),
      List.append_assoc, List.singleton_append]

/-! ## Decoding -/

theorem encodePoint_length_pos (c : CodePoint) : 0 < (encodePoint c).length := by
  unfold encodePoint
  dsimp only
  split_ifs <;> simp

theorem decodeReplaceAt_flatMap {s : Str} (hs : ∀ c ∈ s, isSurrogate c = false) {fuel : Nat}
    (hfuel : (s.flatMap encodePoint).length ≤ fuel) : decodeReplaceAt fuel (s.flatMap encodePoint) = s := by
  induction s generalizing fuel with
  | nil => cases fuel <;> rfl
  | cons c s ih =>
    have hpos := encodePoint_length_pos c
    have hread := decodePoint?_encodePoint (hs c List.mem_cons_self) (s.flatMap encodePoint)
    rw [List.flatMap_cons] at hfuel ⊢
    rw [List.length_append] at hfuel
    obtain ⟨x, xs, hx⟩ := List.exists_cons_of_length_pos hpos
    rw [hx, List.cons_append] at hread ⊢
    cases fuel with
    | zero => omega
    | succ fuel =>
      rw [decodeReplaceAt, hread]
      dsimp only
      rw [ih (fun d hd => hs d (List.mem_cons_of_mem c hd)) (by omega)]

theorem decodeReplace_encodeStrict {s : Str} {b : Bytes} (h : encodeStrict s = .ok b) : decodeReplace b = s := by
  unfold encodeStrict at h
  split at h
  · cases h
  · next hs =>
    cases h
    exact decodeReplaceAt_flatMap (by simpa using hs) le_rfl

/-- What `f` writes for the bytes of a text is read back as the text. -/
theorem unquote_flatMap {f : Byte → Str} (hf : Escapes f) {s : Str} {b : Bytes} (h : encodeStrict s = .ok b) :
    unquote (b.flatMap f) = s := by
  have hascii : ∀ c ∈ b.flatMap f, c.val < 0x80 := by
    intro c hc
    obtain ⟨x, -, hx⟩ := List.mem_flatMap.mp hc
    rcases hf x with ⟨hfx, hlt, -⟩ | ⟨d, e, high, low, hfx, hd, he, -⟩
    · rw [hfx, List.mem_singleton] at hx
      subst hx
      have hval : (Fin.ofNat 0x110000 x.val).val = x.val := Nat.mod_eq_of_lt (by omega)
      omega
    · have hdigit : ∀ {d : CodePoint} {v : Nat}, hexValue? d = some v → d.val < 0x80 := by
        intro d v hv
        unfold hexValue? at hv
        split_ifs at hv <;> omega
      rw [hfx] at hx
      simp only [List.mem_cons, List.not_mem_nil, or_false] at hx
      rcases hx with rfl | rfl | rfl
      · decide
      · exact hdigit hd
      · exact hdigit he
  rw [unquote, unquoteFrom_ascii hascii, List.nil_append, unquoteToBytes_flatMap hf, decodeReplace_encodeStrict h]

/-! ## Separators -/

theorem startsWith_cons_of_ne {c d : CodePoint} (h : d ≠ c) (s sep : Str) : startsWith (d :: s) (c :: sep) = false := by
  rw [startsWith, List.isPrefixOf_cons_cons, beq_eq_false_iff_ne.mpr h.symm, Bool.false_and]

theorem partition_of_not_mem {c : CodePoint} {s : Str} (h : c ∉ s) (sep : Str) : partition (c :: sep) s = (s, none) := by
  induction s with
  | nil => rfl
  | cons d s ih =>
    obtain ⟨hne, hs⟩ := not_or.mp (mt List.mem_cons.mpr h)
    rw [partition, startsWith_cons_of_ne (Ne.symm hne), if_neg Bool.false_ne_true, ih hs]

theorem partition_append {c : CodePoint} {s : Str} (h : c ∉ s) (sep t : Str) :
    partition (c :: sep) (s ++ (c :: sep ++ t)) = (s, some t) := by
  induction s with
  | nil =>
    show partition (c :: sep) (c :: (sep ++ t)) = _
    have hfound : startsWith (c :: (sep ++ t)) (c :: sep) = true := startsWith_append (c :: sep) t
    rw [partition, hfound, if_pos rfl, List.length_cons, List.drop_succ_cons, List.drop_left]
  | cons d s ih =>
    obtain ⟨hne, hs⟩ := not_or.mp (mt List.mem_cons.mpr h)
    rw [List.cons_append, partition, startsWith_cons_of_ne (Ne.symm hne), if_neg Bool.false_ne_true, ih hs]

end Py
