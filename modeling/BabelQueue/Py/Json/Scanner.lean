import BabelQueue.Py.Json.Grammar

/-!
# The scanner of `json.loads`

The C scanner of CPython 3.11 (strict mode), as functions from the text that is left to a tree and
the text after it.

* `Hooks` are the `parse_int` and `parse_constant` hooks, as far as they may refuse a literal.
* `scanOnce H d` reads one value with at most `d` containers around each other.
* `parse H s` is `json.loads(s)` up to the interpretation of the tree. An error has the text of
  the `JSONDecodeError`, with its position.
-/

namespace Py.Json

/-- What ends a scan: a `JSONDecodeError` with the number of code points left at its position, or
an exception of a hook or of the recursion check. `exhausted` never comes out
(`scanOnce_ne_exhausted`). -/
inductive ScanError
  | decode (msg : Str) (left : Nat)
  | raised (e : PyExc)
  | exhausted
  deriving DecidableEq

abbrev Scan (α : Type) := Except ScanError (α × Str)

/-- The hooks of `json.loads`: whether a literal is refused, and with what exception. -/
structure Hooks where
  parseInt : NumLit → Except PyExc Unit
  parseConstant : Constant → Except PyExc Unit

def skipWs (s : Str) : Str := lstrip whitespace s

/-- The text after `p`, when `s` starts with it. -/
def dropPrefix? (p s : Str) : Option Str := if startsWith s p then some (s.drop p.length) else none

theorem dropPrefix?_eq_some_iff {p s r : Str} : dropPrefix? p s = some r ↔ s = p ++ r := by
  rw [dropPrefix?]
  constructor
  · intro h
    split at h
    · next hp =>
      obtain ⟨t, rfl⟩ := startsWith_iff.mp hp
      simp only [List.drop_left, Option.some.injEq] at h
      rw [h]
    · cases h
  · rintro rfl
    rw [if_pos (startsWith_append p r), List.drop_left]

/-- `f` of what a scan reads. -/
def onValue {α β : Type} (f : α → β) : Scan α → Scan β
  | .ok (a, r) => .ok (f a, r)
  | .error e => .error e

@[simp] theorem onValue_ok {α β : Type} (f : α → β) (a : α) (r : Str) :
    onValue f (.ok (a, r)) = .ok (f a, r) := rfl

theorem onValue_eq_ok {α β : Type} {f : α → β} {c : Scan α} {b : β} {r : Str}
    (h : onValue f c = .ok (b, r)) : ∃ a, c = .ok (a, r) ∧ b = f a := by
  rcases c with e | ⟨a, r'⟩
  · cases h
  · cases h; exact ⟨a, rfl, rfl⟩

/-! ## Strings -/

/-- The pieces of a string, from after its opening quote to after its closing quote; `start` code
points were left at the opening quote. -/
def scanPieces (start : Nat) : Str → Scan (List Piece)
  | [] => .error (.decode (str "Unterminated string starting at") start)
  | c :: s =>
    if c = cp '"' then .ok ([], s)
    else if c = cp '\\' then
      match s with
      | [] => .error (.decode (str "Unterminated string starting at") start)
      | e :: s' =>
        if e = cp 'u' then
          match s' with
          | h₃ :: h₂ :: h₁ :: h₀ :: x :: s'' =>
            if (Piece.unicode h₃ h₂ h₁ h₀).Valid then
              onValue (.unicode h₃ h₂ h₁ h₀ :: ·) (scanPieces start (x :: s''))
            else .error (.decode (str "Invalid \\uXXXX escape") (s'.length + 1))
          | _ => .error (.decode (str "Invalid \\uXXXX escape") (s'.length + 1))
        else if (shortEscape? e).isSome then
          onValue (.short e :: ·) (scanPieces start s')
        else .error (.decode (str "Invalid \\escape") (s.length + 1))
    else if c.val < 0x20 then .error (.decode (str "Invalid control character at") (s.length + 1))
    else onValue (.raw c :: ·) (scanPieces start s)

/-! ## Numbers -/

/-- The digits `s` starts with, and the rest. -/
def spanDigits (s : Str) : Str × Str := (s.takeWhile isDigit, s.dropWhile isDigit)

/-- The integer part: `0`, or digits that do not start with `0`. -/
def scanIntPart (s : Str) : Option (Str × Str) :=
  match s with
  | [] => none
  | c :: s' =>
    if c = cp '0' then some ([c], s')
    else if isDigit c then some (spanDigits s)
    else none

def scanFrac (s : Str) : Option Str × Str :=
  match s with
  | [] => (none, s)
  | c :: s' =>
    if c = cp '.' ∧ (spanDigits s').1 ≠ [] then (some (spanDigits s').1, (spanDigits s').2)
    else (none, s)

def scanSign (s : Str) : Option CodePoint × Str :=
  match s with
  | [] => (none, s)
  | c :: s' => if c = cp '+' ∨ c = cp '-' then (some c, s') else (none, s)

def scanExp (s : Str) : Option ExpPart × Str :=
  match s with
  | [] => (none, s)
  | c :: s' =>
    let (sign, t) := scanSign s'
    if (c = cp 'e' ∨ c = cp 'E') ∧ (spanDigits t).1 ≠ [] then
      (some ⟨c, sign, (spanDigits t).1⟩, (spanDigits t).2)
    else (none, s)

def scanMinus (s : Str) : Bool × Str :=
  match s with
  | [] => (false, s)
  | c :: s' => if c = cp '-' then (true, s') else (false, s)

def scanNumber (s : Str) : Option (NumLit × Str) :=
  (scanIntPart (scanMinus s).2).map fun (int, s₁) =>
    let (frac, s₂) := scanFrac s₁
    let (exp, s₃) := scanExp s₂
    (⟨(scanMinus s).1, int, frac, exp⟩, s₃)

/-! ## Values -/

/-- The words of the grammar. -/
def words : List (Str × Tree) :=
  [(str "null", .null), (str "true", .bool true), (str "false", .bool false),
    (str "NaN", .const .nan), (str "Infinity", .const .infinity), (str "-Infinity", .const .negInfinity)]

def scanWord (s : Str) : Option (Tree × Str) :=
  words.findSome? fun (w, t) => (dropPrefix? w s).map fun r => (t, r)

/-- Elements with commas between them, up to and with the closing bracket `close`. `elem` leaves
no white space before what follows an element. -/
def scanSeq {α : Type} (elem : Str → Scan α) (close : CodePoint) : Nat → Str → Scan (List α)
  | 0, _ => .error .exhausted
  | fuel + 1, s =>
    match elem s with
    | .error e => .error e
    | .ok (a, r) =>
      match r with
      | [] => .error (.decode (str "Expecting ',' delimiter") 0)
      | c :: r' =>
        if c = close then .ok ([a], r')
        else if c = cp ',' then onValue (a :: ·) (scanSeq elem close fuel r')
        else .error (.decode (str "Expecting ',' delimiter") r.length)

/-- An element of an array. -/
def scanItem (scan : Str → Scan Tree) (s : Str) : Scan Tree :=
  match scan (skipWs s) with
  | .error e => .error e
  | .ok (t, r) => .ok (t, skipWs r)

/-- A member of an object. -/
def scanMember (scan : Str → Scan Tree) (s : Str) : Scan (Str × Tree) :=
  match skipWs s with
  | [] => .error (.decode (str "Expecting property name enclosed in double quotes") 0)
  | c :: s' =>
    if c = cp '"' then
      match scanPieces (s'.length + 1) s' with
      | .error e => .error e
      | .ok (ps, r) =>
        match skipWs r with
        | [] => .error (.decode (str "Expecting ':' delimiter") 0)
        | c :: r' =>
          if c = cp ':' then onValue (fun t => (decode ps, t)) (scanItem scan r')
          else .error (.decode (str "Expecting ':' delimiter") (r'.length + 1))
    else .error (.decode (str "Expecting property name enclosed in double quotes") (s'.length + 1))

/-- The elements of a container, from after its opening bracket. -/
def scanBracketed {α : Type} (elem : Str → Scan α) (close : CodePoint) (s : Str) : Scan (List α) :=
  match skipWs s with
  | [] => scanSeq elem close (s.length + 1) (skipWs s)
  | c :: r => if c = close then .ok ([], r) else scanSeq elem close (s.length + 1) (skipWs s)

def recursionError (what : String) : ScanError :=
  .raised ⟨.recursionError, str "maximum recursion depth exceeded while decoding a JSON " ++ str what ++
    str " from a unicode string"⟩

/-- Refuse what a hook refuses. -/
def hooked {α : Type} (r : Except PyExc Unit) (v : α × Str) : Scan α :=
  match r with
  | .ok () => .ok v
  | .error e => .error (.raised e)

/-- One value at the start of `s`. -/
def scanOnce (H : Hooks) : Nat → Str → Scan Tree
  | _, [] => .error (.decode (str "Expecting value") 0)
  | d, c :: s =>
    if c = cp '"' then onValue (fun ps => .str (decode ps)) (scanPieces (s.length + 1) s)
    else if c = cp '{' then
      match d with
      | 0 => .error (recursionError "object")
      | d + 1 => onValue .obj (scanBracketed (scanMember (scanOnce H d)) (cp '}') s)
    else if c = cp '[' then
      match d with
      | 0 => .error (recursionError "array")
      | d + 1 => onValue .arr (scanBracketed (scanItem (scanOnce H d)) (cp ']') s)
    else
      match scanWord (c :: s) with
      | some (.const k, r) => hooked (H.parseConstant k) (.const k, r)
      | some v => .ok v
      | none =>
        match scanNumber (c :: s) with
        | some (l, r) => if l.isFloat then .ok (.num l, r) else hooked (H.parseInt l) (.num l, r)
        | none => .error (.decode (str "Expecting value") (s.length + 1))

/-! ## `json.loads` -/

/-- `JSONDecodeError(msg, doc, pos)`. -/
def decodeError (msg doc : Str) (pos : Nat) : PyExc :=
  let before := doc.take pos
  let line := before.count (cp '\n') + 1
  let column := (before.reverse.takeWhile (· ≠ cp '\n')).length + 1
  ⟨.jsonDecodeError, msg ++ str ": line " ++ digits line ++ str " column " ++ digits column ++
    str " (char " ++ digits pos ++ str ")"⟩

/-- `json.loads(s)` with the given hooks, up to the interpretation of the tree. -/
def parse [Interpreter] (H : Hooks) (s : Str) : Except PyExc Tree :=
  if startsWith s [0xFEFF] then
    .error (decodeError (str "Unexpected UTF-8 BOM (decode using utf-8-sig)") s 0)
  else
    match scanOnce H Interpreter.maxDepth (skipWs s) with
    | .error (.decode msg left) => .error (decodeError msg s (s.length - left))
    | .error (.raised e) => .error e
    | .error .exhausted => .error ⟨.baseException, []⟩
    | .ok (t, r) =>
      match skipWs r with
      | [] => .ok t
      | _ :: _ => .error (decodeError (str "Extra data") s (s.length - (skipWs r).length))

/-- One opening bracket too many. -/
theorem scanOnce_brackets (H : Hooks) (d : Nat) :
    scanOnce H d (List.replicate (d + 1) (cp '[')) = .error (recursionError "array") := by
  have h1 : cp '[' ≠ cp '"' := by simp
  have h2 : cp '[' ≠ cp '{' := by simp
  have h3 : cp '[' ≠ cp ']' := by simp
  induction d with
  | zero =>
    rw [List.replicate_one, scanOnce, if_neg h1, if_neg h2, if_pos rfl]
  | succ d ih =>
    rw [List.replicate_succ] at ih
    have hskip : skipWs (cp '[' :: List.replicate d (cp '[')) = cp '[' :: List.replicate d (cp '[') := rfl
    rw [List.replicate_succ, List.replicate_succ, scanOnce, if_neg h1, if_neg h2, if_pos rfl]
    simp only [scanBracketed, hskip, if_neg h3, scanSeq, scanItem, ih, onValue]

end Py.Json
