import Mathlib.Logic.Relation
import BabelQueue.Redis.Layouts

/-!
# Scripts on sorted sets

* `Keyspace.members`: the members of a sorted set.
* `Keyspace.Ordered`: a sorted set is ordered by score, with no member twice. The commands keep it, so that
  the members that are due are the first ones (`Ordered.due`).
* `RedisTransport.Scripted`: an operation whose effect on the server is a run of scripts.
-/

namespace List

variable {α : Type} {R : α → α → Prop} {p : α → Bool}

/-- Where those before a member that is taken are taken too, the first ones are. -/
theorem filter_eq_takeWhile {l : List α} (h : l.Pairwise R) (hp : ∀ a b, R a b → p b = true → p a = true) :
    l.filter p = l.takeWhile p := by
  induction h with
  | nil => rfl
  | @cons a l ha _ ih =>
    by_cases hpa : p a = true
    · rw [filter_cons_of_pos hpa, takeWhile_cons_of_pos hpa, ih]
    · rw [filter_cons_of_neg hpa, takeWhile_cons_of_neg hpa, filter_eq_nil_iff]
      exact fun b hb hpb => hpa (hp a b (ha b hb) hpb)

end List

namespace Keyspace

open Py

variable {k : Keyspace} {key key' : Str}

/-! ## Members -/

/-- The members of a sorted set. -/
def members (k : Keyspace) (key : Str) : List Bytes := (k.zsets key).map Prod.fst

theorem hasMember_iff_mem {member : Bytes} : k.hasMember key member = true ↔ member ∈ k.members key := by
  rw [hasMember_iff]
  exact List.mem_map.symm

/-- A new member. -/
theorem members_zadd (score : Score) {member : Bytes} (h : member ∉ k.members key) :
    ((k.zadd key score member).members key).Perm (member :: k.members key) := by
  have hfilter : (k.zsets key).filter (fun entry => entry.1 ≠ member) = k.zsets key := by
    refine List.filter_eq_self.mpr fun entry he => ?_
    have hne : entry.1 ≠ member := fun heq => h (List.mem_map.mpr ⟨entry, he, heq⟩)
    simpa using hne
  unfold members zadd
  rw [setZset_zsets, if_pos rfl, hfilter]
  exact (List.perm_orderedInsert _ _ _).map _

theorem mem_members_zadd {score : Score} {member value : Bytes} :
    value ∈ (k.zadd key score member).members key ↔ value = member ∨ value ∈ k.members key := by
  unfold members zadd
  rw [setZset_zsets, if_pos rfl, ((List.perm_orderedInsert before _ _).map Prod.fst).mem_iff, List.map_cons, List.mem_cons]
  refine or_congr_right' fun hne => ?_
  simp only [List.mem_map, List.mem_filter, decide_eq_true_eq]
  constructor
  · rintro ⟨entry, ⟨he, -⟩, rfl⟩
    exact ⟨entry, he, rfl⟩
  · rintro ⟨entry, he, rfl⟩
    exact ⟨entry, ⟨he, hne⟩, rfl⟩

theorem mem_members_zrem {member value : Bytes} :
    value ∈ (k.zrem key member).2.members key ↔ value ∈ k.members key ∧ value ≠ member := by
  unfold zrem
  split
  · unfold members
    rw [setZset_zsets, if_pos rfl]
    simp only [List.mem_map, List.mem_filter, decide_eq_true_eq]
    constructor
    · rintro ⟨entry, ⟨he, hne⟩, rfl⟩
      exact ⟨⟨entry, he, rfl⟩, hne⟩
    · rintro ⟨⟨entry, he, rfl⟩, hne⟩
      exact ⟨entry, ⟨he, hne⟩, rfl⟩
  · next hn =>
    rw [hasMember_iff_mem] at hn
    exact ⟨fun hv => ⟨hv, fun heq => hn (heq ▸ hv)⟩, And.left⟩

theorem zadd_zsets_of_ne (score : Score) (member : Bytes) (h : key' ≠ key) :
    (k.zadd key score member).zsets key' = k.zsets key' := by
  unfold zadd
  rw [setZset_zsets, if_neg h]

theorem members_zrem {member : Bytes} (h : (k.members key).Nodup) :
    (k.zrem key member).2.members key = (k.members key).erase member := by
  unfold zrem
  split
  · rw [List.Nodup.erase_eq_filter h]
    unfold members
    rw [setZset_zsets, if_pos rfl, List.filter_map]
    congr 1
    refine List.filter_congr fun entry _ => ?_
    by_cases he : entry.1 = member <;> simp [he]
  · next hn =>
    rw [hasMember_iff_mem] at hn
    exact (List.erase_of_not_mem hn).symm

theorem zrem_zsets_of_ne (member : Bytes) (h : key' ≠ key) : (k.zrem key member).2.zsets key' = k.zsets key' := by
  unfold zrem
  split
  · rw [setZset_zsets, if_neg h]
  · rfl

theorem lrem_lists (value : Bytes) :
    (k.lrem key value).2.lists key' = if key' = key then (k.lists key).erase value else k.lists key' := by
  unfold lrem
  split
  · exact setList_lists k key _ key'
  · next hn =>
    split
    · next he => rw [he, List.erase_of_not_mem hn]
    · rfl

theorem lpop_zsets : (k.lpop key).2.zsets = k.zsets := by
  unfold lpop
  split <;> rfl

theorem lpop_lists_of_ne (h : key' ≠ key) : (k.lpop key).2.lists key' = k.lists key' := by
  unfold lpop
  split
  · rfl
  · rw [setList_lists, if_neg h]

/-! ## The order of a sorted set -/

instance before_total : Std.Total before where
  total a b := by
    unfold before
    rcases lt_trichotomy a.2 b.2 with h | h | h
    · exact .inl (.inl h)
    · exact (le_total a.1 b.1).imp (fun hle => .inr ⟨h, hle⟩) fun hle => .inr ⟨h.symm, hle⟩
    · exact .inr (.inl h)

instance before_trans : IsTrans (Bytes × Score) before where
  trans a b c := by
    rintro (hab | ⟨hab, hle⟩) (hbc | ⟨hbc, hle'⟩)
    · exact .inl (hab.trans hbc)
    · exact .inl (hbc ▸ hab)
    · exact .inl (hab ▸ hbc)
    · exact .inr ⟨hab.trans hbc, hle.trans hle'⟩

/-- The sorted set is in order, with no member twice. -/
structure Ordered (k : Keyspace) (key : Str) : Prop where
  sorted : (k.zsets key).Pairwise before
  nodup : (k.members key).Nodup

namespace Ordered

theorem empty (key : Str) : Ordered empty key := ⟨.nil, List.nodup_nil⟩

theorem congr {k' : Keyspace} (h : Ordered k key) (hzset : k'.zsets key = k.zsets key) : Ordered k' key := by
  refine ⟨hzset ▸ h.sorted, ?_⟩
  unfold members
  rw [hzset]
  exact h.nodup

theorem setZset {entries : List (Bytes × Score)} (hsorted : entries.Pairwise before) (hnodup : (entries.map Prod.fst).Nodup) :
    Ordered (k.setZset key entries) key := by
  refine ⟨?_, ?_⟩
  · rw [setZset_zsets, if_pos rfl]
    exact hsorted
  · unfold members
    rw [setZset_zsets, if_pos rfl]
    exact hnodup

theorem zadd (h : Ordered k key) (key' : Str) (score : Score) (member : Bytes) : Ordered (k.zadd key' score member) key := by
  by_cases hkey : key = key'
  · subst hkey
    refine setZset (List.Pairwise.orderedInsert _ _ (h.sorted.filter _)) ?_
    rw [((List.perm_orderedInsert before _ _).map Prod.fst).nodup_iff, List.map_cons, List.nodup_cons]
    refine ⟨fun hm => ?_, h.nodup.sublist (List.filter_sublist.map _)⟩
    obtain ⟨entry, he, heq⟩ := List.mem_map.mp hm
    have hne := (List.mem_filter.mp he).2
    rw [decide_eq_true_eq] at hne
    exact hne heq
  · exact h.congr (zadd_zsets_of_ne score member hkey)

theorem zrem (h : Ordered k key) (key' : Str) (member : Bytes) : Ordered (k.zrem key' member).2 key := by
  by_cases hkey : key = key'
  · subst hkey
    unfold Keyspace.zrem
    split
    · exact setZset (h.sorted.filter _) (h.nodup.sublist (List.filter_sublist.map _))
    · exact h
  · exact h.congr (zrem_zsets_of_ne member hkey)

theorem zremFirst (h : Ordered k key) (key' : Str) (count : Nat) : Ordered (k.zremFirst key' count) key := by
  by_cases hkey : key = key'
  · subst hkey
    exact setZset h.sorted.drop (h.nodup.sublist ((List.drop_sublist count _).map _))
  · exact h.congr (by unfold Keyspace.zremFirst; rw [setZset_zsets, if_neg hkey])

/-- What is due is at the start. -/
theorem take_due (h : Ordered k key) (now : Int) :
    (k.zsets key).take ((k.zsets key).filter fun entry => decide (entry.2 ≤ (now : Score))).length =
      (k.zsets key).filter fun entry => decide (entry.2 ≤ (now : Score)) := by
  rw [List.filter_eq_takeWhile h.sorted fun a b hab hb => ?_]
  · exact (List.prefix_iff_eq_take.mp (List.takeWhile_prefix _)).symm
  · rw [decide_eq_true_eq] at hb ⊢
    rcases hab with hlt | ⟨heq, -⟩
    · exact hlt.le.trans hb
    · exact heq.le.trans hb

/-- By rank, the first members are what was selected by score. -/
theorem due (h : Ordered k key) (now : Int) (batch : Option Nat) :
    k.zrangebyscore key now batch = ((k.zsets key).take (k.zrangebyscore key now batch).length).map Prod.fst := by
  unfold zrangebyscore
  cases batch with
  | none => rw [List.length_map, h.take_due]
  | some n => rw [List.length_take, List.length_map, ← List.take_take, h.take_due, List.map_take]

/-- Without a batch, what is left is not due. -/
theorem not_due (h : Ordered k key) (now : Int) :
    ∀ entry ∈ (k.zsets key).drop (k.zrangebyscore key now none).length, ¬ entry.2 ≤ (now : Score) := by
  unfold zrangebyscore
  rw [List.length_map]
  have hsplit := @List.filter_append _ (fun entry : Bytes × Score => decide (entry.2 ≤ (now : Score)))
    ((k.zsets key).take ((k.zsets key).filter fun entry => decide (entry.2 ≤ (now : Score))).length)
    ((k.zsets key).drop ((k.zsets key).filter fun entry => decide (entry.2 ≤ (now : Score))).length)
  rw [List.take_append_drop, h.take_due, List.filter_filter] at hsplit
  simp only [Bool.and_self, List.self_eq_append_right, List.filter_eq_nil_iff, decide_eq_true_eq] at hsplit
  exact hsplit

end Ordered

end Keyspace

namespace BabelQueue.RedisTransport

open Py

/-! ## Operations -/

variable {γ α β : Type} {Step : Keyspace × γ → Keyspace × γ → Prop} {s : RedisServer} {g : γ}

/-- The effect of the operation on the server is a run of scripts. -/
def Scripted (Step : Keyspace × γ → Keyspace × γ → Prop) (act : Act RedisServer α) (s : RedisServer) (g : γ) : Prop :=
  ∃ g', Relation.ReflTransGen Step (s.keys, g) ((act s).2.keys, g')

namespace Scripted

theorem lift_bind {value : Except PyExc α} {f : α → Act RedisServer β} (h : ∀ a, value = .ok a → Scripted Step (f a) s g) :
    Scripted Step (Act.lift value >>= f) s g := by
  unfold Scripted
  rw [Act.bind_run, Act.lift_run]
  cases value with
  | ok a => exact h a rfl
  | error e => exact ⟨g, .refl⟩

theorem get_bind {f : RedisServer → Act RedisServer β} (h : Scripted Step (f s) s g) : Scripted Step (Act.get >>= f) s g := h

theorem bind_pure {act : Act RedisServer α} (b : β) (h : Scripted Step act s g) : Scripted Step (act >>= fun _ => pure b) s g := by
  obtain ⟨g', hrun⟩ := h
  refine ⟨g', ?_⟩
  rw [Act.bind_run]
  cases hact : act s with
  | mk r s' =>
    rw [hact] at hrun
    cases r <;> exact hrun

end Scripted

end BabelQueue.RedisTransport
