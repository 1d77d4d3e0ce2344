import Mathlib.Data.List.Lex
import Mathlib.Data.List.Sort
import Mathlib.Data.Prod.Lex
import Mathlib.Order.WithBot
import BabelQueue.Py.Utf8

/-!
# Lists and sorted sets

The commands of a key-value server, as functions on a `Keyspace`. A key holds a list of byte strings
and a sorted set of them; a key that is not there is empty. A command on a key of the wrong type is
left out.

`zadd` keeps a set sorted by score, then by member.
-/

open Py

/-- The score of a member: a whole number, or `+inf`. -/
abbrev Keyspace.Score := WithTop Int

-- Not the instance of a conditionally complete order, which does not compute.
instance : Preorder Keyspace.Score := @WithTop.instPreorder Int Int.instLinearOrder.toPreorder

structure Keyspace where
  lists : Str → List Bytes
  zsets : Str → List (Bytes × Keyspace.Score)

namespace Keyspace

variable (k : Keyspace) (key : Str)

def empty : Keyspace := ⟨fun _ => [], fun _ => []⟩

def setList (values : List Bytes) : Keyspace := { k with lists := Function.update k.lists key values }

def setZset (members : List (Bytes × Score)) : Keyspace := { k with zsets := Function.update k.zsets key members }

/-- `RPUSH key value…` -/
def rpush (values : List Bytes) : Keyspace := k.setList key (k.lists key ++ values)

/-- `LPOP key` -/
def lpop : Option Bytes × Keyspace :=
  match k.lists key with
  | [] => (none, k)
  | value :: rest => (some value, k.setList key rest)

/-- `LREM key 1 value`: whether it found one. -/
def lrem (value : Bytes) : Bool × Keyspace :=
  if value ∈ k.lists key then (true, k.setList key ((k.lists key).erase value)) else (false, k)

/-- Whether `a` is before `b` in a sorted set. -/
def before (a b : Bytes × Score) : Prop := a.2 < b.2 ∨ a.2 = b.2 ∧ a.1 ≤ b.1

instance : DecidableRel before := fun _ _ => inferInstanceAs (Decidable (_ ∨ _ ∧ _))

/-- Whether `member` is in the sorted set. -/
def hasMember (member : Bytes) : Bool := (k.zsets key).any fun entry => entry.1 = member

/-- `ZREM key member`: whether it was there. -/
def zrem (member : Bytes) : Bool × Keyspace :=
  if k.hasMember key member then (true, k.setZset key ((k.zsets key).filter fun entry => entry.1 ≠ member))
  else (false, k)

/-- `ZADD key score member` -/
def zadd (score : Score) (member : Bytes) : Keyspace :=
  k.setZset key (((k.zsets key).filter fun entry => entry.1 ≠ member).orderedInsert before (member, score))

/-- `ZRANGEBYSCORE key -inf now LIMIT 0 batch`; without a `batch`, all. -/
def zrangebyscore (now : Int) (batch : Option Nat) : List Bytes :=
  let due := ((k.zsets key).filter fun entry => decide (entry.2 ≤ (now : Score))).map Prod.fst
  match batch with
  | none => due
  | some batch => due.take batch

/-- `ZREMRANGEBYRANK key 0 (count - 1)` -/
def zremFirst (count : Nat) : Keyspace := k.setZset key ((k.zsets key).drop count)

/-! ## What a command leaves as it was -/

@[simp] theorem setList_zsets (values : List Bytes) : (k.setList key values).zsets = k.zsets := rfl

@[simp] theorem setZset_lists (members : List (Bytes × Score)) : (k.setZset key members).lists = k.lists := rfl

@[simp] theorem rpush_zsets (values : List Bytes) : (k.rpush key values).zsets = k.zsets := rfl

@[simp] theorem zadd_lists (score : Score) (member : Bytes) : (k.zadd key score member).lists = k.lists := rfl

@[simp] theorem zremFirst_lists (count : Nat) : (k.zremFirst key count).lists = k.lists := rfl

@[simp] theorem zrem_lists (member : Bytes) : (k.zrem key member).2.lists = k.lists := by
  unfold zrem
  split <;> rfl

@[simp] theorem lrem_zsets (value : Bytes) : (k.lrem key value).2.zsets = k.zsets := by
  unfold lrem
  split <;> rfl

theorem setList_lists (values : List Bytes) (key' : Str) :
    (k.setList key values).lists key' = if key' = key then values else k.lists key' := by
  show Function.update k.lists key values key' = _
  rw [Function.update_apply]

theorem rpush_lists (values : List Bytes) (key' : Str) :
    (k.rpush key values).lists key' = if key' = key then k.lists key ++ values else k.lists key' :=
  setList_lists k key _ key'

/-- A pushed value is at the end of its list. -/
@[simp] theorem getLast?_rpush (value : Bytes) : ((k.rpush key [value]).lists key).getLast? = some value := by
  rw [rpush_lists, if_pos rfl, List.getLast?_concat]

/-! ## Members -/

theorem hasMember_iff {member : Bytes} : k.hasMember key member = true ↔ ∃ entry ∈ k.zsets key, entry.1 = member := by
  simp [hasMember, List.any_eq_true]

theorem setZset_zsets (members : List (Bytes × Score)) (key' : Str) :
    (k.setZset key members).zsets key' = if key' = key then members else k.zsets key' := by
  show Function.update k.zsets key members key' = _
  rw [Function.update_apply]

/-- An added member is there. -/
theorem hasMember_zadd (score : Score) (member : Bytes) : (k.zadd key score member).hasMember key member = true := by
  rw [hasMember_iff]
  refine ⟨(member, score), ?_, rfl⟩
  unfold zadd
  rw [setZset_zsets, if_pos rfl]
  exact (List.perm_orderedInsert _ _ _).mem_iff.mpr List.mem_cons_self

end Keyspace
