import BabelQueue.Codec
import BabelQueue.Py.Json.Canonical

/-!
# Field encryption (`gdpr.py`, `schema.py`)

* `sensitivePaths schema`: the paths of the marked nodes as strings, sorted.
* `parsePath`: such a string as segments.
* `applyAtPath op segments`: runs `op` on each value at the segments, in place.
* `protect`, `unprotect`: `applyAtPath` of encryption and decryption on each sensitive path.

A call works on the state `σ` of a cipher and on the value that it changes, `Act (σ × Json) Unit`; what
is written before an exception stays.
-/

namespace BabelQueue

open Py Py.Json

def decryptError : ExcClass := .defined (str "DecryptError") babelQueueError

/-! ## Sensitive paths -/

structure SensitivePath where
  path : Str
  category : Str

/-- `_join` -/
def joinPath (path key : Str) : Str := if path = [] then key else path ++ cp '.' :: key

/-- `_gdpr_mark` -/
def gdprMark (schema : Dict Json) : Option Str :=
  match schema.getJ (str "x-gdpr-sensitive") with
  | .bool true => some []
  | .str (c :: category) => some (c :: category)
  | _ => none

mutual

/-- `_collect_sensitive`: what it appends. -/
def collectSensitive (path : Str) : Json → List SensitivePath
  | .obj schema =>
    (gdprMark schema).toList.map (⟨path, ·⟩) ++ collectProperties path schema ++ collectItems path schema
  | _ => []

/-- The part for `schema.get("properties")`. -/
def collectProperties (path : Str) : List (Str × Json) → List SensitivePath
  | [] => []
  | (key, value) :: schema =>
    if key = str "properties" then
      match value with
      | .obj properties => collectEach path properties
      | _ => []
    else collectProperties path schema

/-- The loop over the properties. -/
def collectEach (path : Str) : List (Str × Json) → List SensitivePath
  | [] => []
  | (name, sub) :: properties => collectSensitive (joinPath path name) sub ++ collectEach path properties

/-- The part for `schema.get("items")`. -/
def collectItems (path : Str) : List (Str × Json) → List SensitivePath
  | [] => []
  | (key, value) :: schema =>
    if key = str "items" then
      match value with
      | .obj items => collectSensitive (path ++ str "[]") (.obj items)
      | _ => []
    else collectItems path schema

end

/-- `sensitive_paths` -/
def sensitivePaths (schema : Json) : List SensitivePath :=
  (collectSensitive [] schema).insertionSort fun a b => a.path ≤ b.path

/-- One step of a path: `(key, is_array)`. -/
abbrev Segment := Str × Bool

/-- One part of a path: a trailing `[]` is for an array. -/
def parsePart (part : Str) : Segment :=
  if 2 ≤ part.length ∧ str "[]" <:+ part then (part.take (part.length - 2), true) else (part, false)

/-- `_parse_path` -/
def parsePath (path : Str) : List Segment := if path = [] then [] else (path.splitOn (cp '.')).map parsePart

/-! ## A value in place -/

section Walk

variable {σ : Type}

/-- What `op` does to one value; `none` leaves it in place. -/
abbrev LeafOp (σ : Type) := Json → Act σ (Option Json)

/-- `op` on the value itself. -/
def applyLeaf (op : LeafOp σ) : Act (σ × Json) Unit := fun (s, v) =>
  match op v s with
  | (.ok (some w), s') => (.ok (), (s', w))
  | (.ok none, s') => (.ok (), (s', v))
  | (.error e, s') => (.error e, (s', v))

/-- `act` on `node[key]`, when the node is an object with the key. -/
def onMember (key : Str) (act : Act (σ × Json) Unit) : Act (σ × Json) Unit := fun (s, node) =>
  match node with
  | .obj d =>
    match Dict.get? d key with
    | some child =>
      let (r, (s', child')) := act (s, child)
      (r, (s', .obj (Dict.set d key child')))
    | none => (.ok (), (s, node))
  | _ => (.ok (), (s, node))

/-- `act` on each element, up to the first that raises. -/
def onEach (act : Act (σ × Json) Unit) : List Json → σ → Except PyExc Unit × σ × List Json
  | [], s => (.ok (), s, [])
  | v :: vs, s =>
    match act (s, v) with
    | (.ok _, (s', v')) =>
      let (r, s'', vs') := onEach act vs s'
      (r, s'', v' :: vs')
    | (.error e, (s', v')) => (.error e, s', v' :: vs)

/-- `act` on each element, when the node is an array. -/
def onItems (act : Act (σ × Json) Unit) : Act (σ × Json) Unit := fun (s, node) =>
  match node with
  | .arr vs =>
    let (r, s', vs') := onEach act vs s
    (r, (s', .arr vs'))
  | _ => (.ok (), (s, node))

/-- `_apply_at_path` -/
def applyAtPath (op : LeafOp σ) : List Segment → Act (σ × Json) Unit
  | [] => pure ()
  | [(key, isArray)] => onMember key (if isArray then onItems (applyLeaf op) else applyLeaf op)
  | (key, isArray) :: segment :: segments =>
    onMember key (if isArray then onItems (applyAtPath op (segment :: segments)) else applyAtPath op (segment :: segments))

/-- The loop of `_walk`. -/
def applyAll (op : LeafOp σ) : List SensitivePath → Act (σ × Json) Unit
  | [] => pure ()
  | sp :: paths => do
    applyAtPath op (parsePath sp.path)
    applyAll op paths

/-- `_walk` -/
def walk (schema : Json) (op : LeafOp σ) : Act (σ × Json) Unit :=
  if schema.isNone then pure () else applyAll op (sensitivePaths schema)

end Walk

/-! ## Ciphers -/

/-- `Cipher`, on states `σ`. -/
structure Cipher (σ : Type) where
  encrypt : Bytes → Act σ Str
  decrypt : Str → Act σ Bytes

section Leaves

variable [Interpreter] {σ : Type} (cipher : Cipher σ)

/-- `_encrypt_leaf` -/
def encryptLeaf : LeafOp σ := fun value => do
  let text ← Act.lift (dumpsCanonical value)
  let plaintext ← Act.lift (Utf8.encodeStrict text)
  let ciphertext ← cipher.encrypt plaintext
  pure (some (.str ciphertext))

/-- `_decrypt_leaf` -/
def decryptLeaf : LeafOp σ := fun value =>
  match value with
  | .str ciphertext => do
    let plaintext ← Act.tryExcept (cipher.decrypt ciphertext) [.exception] fun exc =>
      Act.raise ⟨decryptError, str "cannot decrypt a protected field: " ++ exc.msg⟩
    let restored ← Act.lift (tryExceptPure (loadsBytes plaintext) [.valueError, .typeError] fun exc =>
      .error ⟨decryptError, str "decrypted plaintext is not JSON: " ++ exc.msg⟩)
    pure (some restored)
  | _ => pure none

/-- `protect` -/
def protect (schema : Json) : Act (σ × Json) Unit := walk schema (encryptLeaf cipher)

/-- `unprotect` -/
def unprotect (schema : Json) : Act (σ × Json) Unit := walk schema (decryptLeaf cipher)

end Leaves

end BabelQueue
