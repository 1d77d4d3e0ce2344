import BabelQueue.Redis.Hops
import BabelQueue.Redis.Lease
import BabelQueue.Redis.Scripts

/-!
# The legacy layout loses no message

The scripts of the legacy layout as leases: the ready list, the processing list and the deadlines of a queue,
under any interleaving of the scripts.

* `Refines T queue k g`: the keys of `queue` hold what the ledger says. Each script is an operation of the ledger
  (`Refines.reserve`, `Refines.settle`, `Refines.sweep`).
* `LegacyStep`: one script of any worker.
* `legacy_conserves`: what holds of the keys in each state of a run. A sweep strands an empty value.
* `publish_scripted`, `popLegacy_scripted`, `ack_scripted`, `redeliver_scripted`, `deadLetter_scripted`: each method of
  the transport is a run of scripts.
-/

namespace BabelQueue

open Py Py.Utf8

namespace Redis

theorem deadlineMember_inj {token token' raw raw' : Bytes} (h : token.length = token'.length)
    (he : deadlineMember token raw = deadlineMember token' raw') : token = token' ∧ raw = raw' := by
  obtain ⟨ht, hr⟩ := List.append_inj he h
  exact ⟨ht, (List.cons.inj hr).2⟩

theorem deadlineMember_drop {token : Bytes} (h : token.length = 32) (raw : Bytes) : (deadlineMember token raw).drop 33 = raw := by
  unfold deadlineMember
  rw [List.drop_append, h, List.drop_of_length_le (by omega)]
  rfl

theorem deadlineMember_take {token : Bytes} (h : token.length = 32) (raw : Bytes) : (deadlineMember token raw).take 32 = token := by
  unfold deadlineMember
  rw [List.take_append, h, List.take_of_length_le (by omega)]
  simp

/-- A sweep gives back what is not empty. -/
theorem deadlineMember_given {token : Bytes} (h : token.length = 32) (raw : Bytes) :
    (34 ≤ (deadlineMember token raw).length ∧ (deadlineMember token raw)[32]? = some 58) ↔ raw ≠ [] := by
  unfold deadlineMember
  rw [List.getElem?_append_right (by omega), List.length_append, h]
  cases raw with
  | nil => simp
  | cons b raw =>
    simp only [List.length_cons, Nat.sub_self, List.getElem?_cons_zero, and_true, ne_eq, reduceCtorEq, not_false_eq_true, iff_true]
    omega

/-- A settle of a reservation that is gone changes nothing. -/
theorem settleScript_stale {processing deadlines : Str} {token raw : Bytes} {target : Option (Str × Bytes)} {k k' : Keyspace}
    (h : settleScript processing deadlines token raw target k = (false, k')) : k' = k := by
  unfold settleScript Keyspace.zrem at h
  split at h
  · cases target <;> cases h
  · next heq =>
    split at heq
    · cases heq
    · cases heq
      cases h
      rfl

end Redis

/-- The reservations of a queue, each a token with its value. -/
abbrev Reservations := Lease.Ledger Bytes Bytes

namespace Reservations

/-- What a settle writes, if it is for the queue. -/
def deliver (queue : Str) (target : Option (Str × Bytes)) (g : Reservations) : Reservations :=
  match target with
  | some (target, body) => if target = queue then g.offer body else g
  | none => g

/-- A member of the deadlines that a sweep takes. An empty value does not go back. -/
def sweep (g : Reservations) (member : Bytes) : Reservations :=
  if member.drop 33 = [] then g.strand (member.take 32, member.drop 33) else g.expire (member.take 32, member.drop 33)

end Reservations

namespace RedisTransport

/-- The keys of a queue hold what the ledger says. -/
structure Refines (T : RedisTransport) (queue : Str) (k : Keyspace) (g : Reservations) : Prop where
  ready : (k.lists queue : Multiset Bytes) = g.ready
  processing : (k.lists (T.processing queue) : Multiset Bytes) = (g.leased + g.stranded).map Prod.snd
  deadlines : (k.members (T.deadlines queue) : Multiset Bytes) = g.leased.map fun l => Redis.deadlineMember l.1 l.2
  tokens : ∀ l ∈ g.leased, l.1.length = 32
  stranded : ∀ l ∈ g.stranded, l.2 = []
  conserved : Lease.Conserved g

namespace Refines

variable {T : RedisTransport} {queue : Str} {k k' : Keyspace} {g : Reservations} {token raw : Bytes}

theorem mem_members (h : Refines T queue k g) (ht : token.length = 32) :
    Redis.deadlineMember token raw ∈ k.members (T.deadlines queue) ↔ (token, raw) ∈ g.leased := by
  rw [← Multiset.mem_coe, h.deadlines, Multiset.mem_map]
  constructor
  · rintro ⟨⟨token', raw'⟩, hl, he⟩
    obtain ⟨rfl, rfl⟩ := Redis.deadlineMember_inj ((h.tokens _ hl).trans ht.symm) he
    exact hl
  · exact fun hl => ⟨_, hl, rfl⟩

theorem nodup_members (h : Refines T queue k g) : (k.members (T.deadlines queue)).Nodup := by
  rw [← Multiset.coe_nodup, h.deadlines]
  refine Multiset.Nodup.map_on (fun l hl l' hl' he => ?_) (Multiset.Nodup.of_map _ h.conserved.nodup_leased)
  obtain ⟨ht, hr⟩ := Redis.deadlineMember_inj ((h.tokens _ hl).trans (h.tokens _ hl').symm) he
  exact Prod.ext ht hr

theorem mem_processing (h : Refines T queue k g) (hl : (token, raw) ∈ g.leased) : raw ∈ k.lists (T.processing queue) := by
  rw [← Multiset.mem_coe, h.processing]
  exact Multiset.mem_map_of_mem Prod.snd (Multiset.mem_add.mpr (.inl hl))

/-- Other keys may change. -/
theorem congr (h : Refines T queue k g) (hready : k'.lists queue = k.lists queue)
    (hprocessing : k'.lists (T.processing queue) = k.lists (T.processing queue))
    (hdeadlines : k'.zsets (T.deadlines queue) = k.zsets (T.deadlines queue)) : Refines T queue k' g := by
  refine ⟨hready ▸ h.ready, hprocessing ▸ h.processing, ?_, h.tokens, h.stranded, h.conserved⟩
  unfold Keyspace.members
  rw [hdeadlines]
  exact h.deadlines

theorem offer (h : Refines T queue k g) (hne : T.processing queue ≠ queue) (value : Bytes) :
    Refines T queue (k.rpush queue [value]) (g.offer value) := by
  refine ⟨?_, ?_, h.deadlines, h.tokens, h.stranded, h.conserved.offer value⟩
  · rw [Keyspace.rpush_lists, if_pos rfl, ← Multiset.coe_add, h.ready, Multiset.coe_singleton]
    exact Multiset.add_comm _ _
  · rw [Keyspace.rpush_lists, if_neg hne]
    exact h.processing

theorem processing_erase (h : Refines T queue k g) (hl : (token, raw) ∈ g.leased) :
    ((k.lists (T.processing queue)).erase raw : Multiset Bytes) = (g.leased.erase (token, raw) + g.stranded).map Prod.snd := by
  obtain ⟨rest, hrest⟩ := Multiset.exists_cons_of_mem hl
  have hcons := Multiset.coe_eq_coe.mpr (List.perm_cons_erase (h.mem_processing hl))
  rw [h.processing, hrest, Multiset.cons_add, Multiset.map_cons, ← Multiset.cons_coe, Multiset.cons_inj_right] at hcons
  rw [hrest, Multiset.erase_cons_head, hcons]

theorem members_erase (h : Refines T queue k g) (hl : (token, raw) ∈ g.leased) :
    ((k.members (T.deadlines queue)).erase (Redis.deadlineMember token raw) : Multiset Bytes) =
      (g.leased.erase (token, raw)).map fun l => Redis.deadlineMember l.1 l.2 := by
  obtain ⟨rest, hrest⟩ := Multiset.exists_cons_of_mem hl
  have hcons := Multiset.coe_eq_coe.mpr (List.perm_cons_erase ((h.mem_members (h.tokens _ hl)).mpr hl))
  rw [h.deadlines, hrest, Multiset.map_cons, ← Multiset.cons_coe, Multiset.cons_inj_right] at hcons
  rw [hrest, Multiset.erase_cons_head, hcons]

/-! ### The scripts -/

theorem reserve (h : Refines T queue k g) (hne : T.processing queue ≠ queue) (ht : token.length = 32)
    (hfresh : token ∉ g.leases.map Prod.fst) {score : Keyspace.Score}
    (hrun : Redis.reserveScript queue (T.processing queue) (T.deadlines queue) score token k = (some raw, k')) :
    Refines T queue k' (g.lease token raw) := by
  unfold Redis.reserveScript Keyspace.lpop at hrun
  cases hlist : k.lists queue with
  | nil =>
    rw [hlist] at hrun
    cases hrun
  | cons value rest =>
    rw [hlist] at hrun
    cases hrun
    have hready : g.ready = raw ::ₘ (rest : Multiset Bytes) := by rw [← h.ready, hlist]; rfl
    have hnew : Redis.deadlineMember token raw ∉ k.members (T.deadlines queue) := fun hm =>
      hfresh (Multiset.mem_map.mpr ⟨_, Multiset.mem_add.mpr (.inl (Multiset.mem_add.mpr (.inl (Multiset.mem_add.mpr (.inl
        ((h.mem_members ht).mp hm)))))), rfl⟩)
    refine ⟨?_, ?_, ?_, ?_, h.stranded, h.conserved.lease (hready ▸ Multiset.mem_cons_self _ _) hfresh⟩
    · rw [Keyspace.zadd_lists, Keyspace.rpush_lists, if_neg (Ne.symm hne), Keyspace.setList_lists, if_pos rfl]
      show _ = g.ready.erase raw
      rw [hready, Multiset.erase_cons_head]
    · rw [Keyspace.zadd_lists, Keyspace.rpush_lists, if_pos rfl, Keyspace.setList_lists, if_neg hne, ← Multiset.coe_add, h.processing,
        Multiset.coe_singleton, Multiset.add_comm, Multiset.singleton_add]
      show _ = ((token, raw) ::ₘ g.leased + g.stranded).map Prod.snd
      rw [Multiset.cons_add, Multiset.map_cons]
    · have hperm := Keyspace.members_zadd (k := ((k.setList queue rest).rpush (T.processing queue) [raw])) score hnew
      rw [Multiset.coe_eq_coe.mpr hperm]
      show _ = ((token, raw) ::ₘ g.leased).map _
      rw [Multiset.map_cons, ← h.deadlines]
      rfl
    · intro l hl
      rcases Multiset.mem_cons.mp hl with rfl | hl
      · exact ht
      · exact h.tokens l hl

theorem idle {score : Keyspace.Score}
    (hrun : Redis.reserveScript queue (T.processing queue) (T.deadlines queue) score token k = (none, k')) : k' = k := by
  unfold Redis.reserveScript Keyspace.lpop at hrun
  cases hlist : k.lists queue with
  | nil =>
    rw [hlist] at hrun
    cases hrun
    rfl
  | cons value rest =>
    rw [hlist] at hrun
    cases hrun

/-- A settle writes if and only if its reservation is there. -/
theorem settles_iff (h : Refines T queue k g) (ht : token.length = 32) (target : Option (Str × Bytes)) :
    (Redis.settleScript (T.processing queue) (T.deadlines queue) token raw target k).1 = true ↔ (token, raw) ∈ g.leased := by
  rw [← h.mem_members ht, ← Keyspace.hasMember_iff_mem]
  unfold Redis.settleScript Keyspace.zrem
  by_cases hm : k.hasMember (T.deadlines queue) (Redis.deadlineMember token raw) = true
  · rw [if_pos hm]
    cases target <;> exact iff_of_true rfl hm
  · rw [if_neg hm]
    exact iff_of_false Bool.false_ne_true hm

theorem settle (h : Refines T queue k g) (hne : T.processing queue ≠ queue) (ht : token.length = 32)
    {target : Option (Str × Bytes)} (htarget : ∀ t ∈ target, t.1 ≠ T.processing queue)
    (hrun : Redis.settleScript (T.processing queue) (T.deadlines queue) token raw target k = (true, k')) :
    (token, raw) ∈ g.leased ∧ Refines T queue k' (Reservations.deliver queue target (g.settle (token, raw))) := by
  have hl : (token, raw) ∈ g.leased := (h.settles_iff ht target).mp (congrArg Prod.fst hrun)
  refine ⟨hl, ?_⟩
  have hmember : k.zrem (T.deadlines queue) (Redis.deadlineMember token raw) =
      (true, (k.zrem (T.deadlines queue) (Redis.deadlineMember token raw)).2) := by
    have := Keyspace.hasMember_iff_mem.mpr ((h.mem_members ht).mpr hl)
    unfold Keyspace.zrem
    rw [if_pos this]
  have htaken : Refines T queue ((k.zrem (T.deadlines queue) (Redis.deadlineMember token raw)).2.lrem (T.processing queue) raw).2
      (g.settle (token, raw)) := by
    refine ⟨?_, ?_, ?_, fun l hl => h.tokens l (Multiset.mem_of_mem_erase hl), h.stranded, h.conserved.settle hl⟩
    · rw [Keyspace.lrem_lists, if_neg (Ne.symm hne), Keyspace.zrem_lists]
      exact h.ready
    · rw [Keyspace.lrem_lists, if_pos rfl, Keyspace.zrem_lists]
      exact h.processing_erase hl
    · have hsame : ((k.zrem (T.deadlines queue) (Redis.deadlineMember token raw)).2.lrem (T.processing queue) raw).2.members
          (T.deadlines queue) = (k.members (T.deadlines queue)).erase (Redis.deadlineMember token raw) := by
        rw [← Keyspace.members_zrem h.nodup_members]
        unfold Keyspace.members
        rw [Keyspace.lrem_zsets]
      rw [hsame]
      exact h.members_erase hl
  unfold Redis.settleScript at hrun
  rw [hmember] at hrun
  dsimp only at hrun
  rcases target with _ | ⟨target, body⟩
  · cases hrun
    exact htaken
  · cases hrun
    have htarget : target ≠ T.processing queue := htarget _ rfl
    unfold Reservations.deliver
    dsimp only
    by_cases hq : target = queue
    · rw [if_pos hq, hq]
      exact htaken.offer hne body
    · rw [if_neg hq]
      refine htaken.congr ?_ ?_ rfl
      · rw [Keyspace.rpush_lists, if_neg (Ne.symm hq)]
      · rw [Keyspace.rpush_lists, if_neg (Ne.symm htarget)]

/-- A member is a lease. -/
theorem lease_of_member (h : Refines T queue k g) {member : Bytes} (hm : member ∈ k.members (T.deadlines queue)) :
    ∃ token raw, (token, raw) ∈ g.leased ∧ token.length = 32 ∧ member = Redis.deadlineMember token raw := by
  rw [← Multiset.mem_coe, h.deadlines, Multiset.mem_map] at hm
  obtain ⟨⟨token, raw⟩, hl, rfl⟩ := hm
  exact ⟨token, raw, hl, h.tokens _ hl, rfl⟩

/-- What a sweep does with a member: an empty value stays in the processing list. -/
theorem sweepMember_eq (h : Refines T queue k g) {member : Bytes} (hm : member ∈ k.members (T.deadlines queue)) :
    Redis.sweepMember queue (T.processing queue) (T.deadlines queue) k member =
      if member.drop 33 = [] then (k.zrem (T.deadlines queue) member).2
      else (((k.lrem (T.processing queue) (member.drop 33)).2.rpush queue [member.drop 33]).zrem (T.deadlines queue) member).2 := by
  obtain ⟨token, raw, hl, ht, rfl⟩ := h.lease_of_member hm
  unfold Redis.sweepMember
  dsimp only
  rw [Redis.deadlineMember_drop ht]
  by_cases hraw : raw = []
  · rw [if_neg (mt (Redis.deadlineMember_given ht raw).mp (not_not.mpr hraw)), if_pos hraw]
  · have hlrem : k.lrem (T.processing queue) raw = (true, (k.lrem (T.processing queue) raw).2) := by
      unfold Keyspace.lrem
      rw [if_pos (h.mem_processing hl)]
    rw [if_pos ((Redis.deadlineMember_given ht raw).mpr hraw), if_neg hraw, hlrem]

/-- One member of a sweep. -/
theorem sweepMember (h : Refines T queue k g) (hne : T.processing queue ≠ queue) {member : Bytes}
    (hm : member ∈ k.members (T.deadlines queue)) :
    Refines T queue (Redis.sweepMember queue (T.processing queue) (T.deadlines queue) k member) (Reservations.sweep g member) ∧
      (Redis.sweepMember queue (T.processing queue) (T.deadlines queue) k member).members (T.deadlines queue) =
        (k.members (T.deadlines queue)).erase member ∧
      (Redis.sweepMember queue (T.processing queue) (T.deadlines queue) k member).lists queue =
        k.lists queue ++ [member.drop 33].filter (· ≠ []) ∧
      (Reservations.sweep g member).leases = g.leases := by
  rw [h.sweepMember_eq hm]
  obtain ⟨token, raw, hl, ht, rfl⟩ := h.lease_of_member hm
  have htokens : ∀ l ∈ g.leased.erase (token, raw), l.1.length = 32 := fun l hl => h.tokens l (Multiset.mem_of_mem_erase hl)
  unfold Reservations.sweep
  rw [Redis.deadlineMember_drop ht, Redis.deadlineMember_take ht]
  by_cases hraw : raw = []
  · rw [if_pos hraw, if_pos hraw]
    have hmembers : (k.zrem (T.deadlines queue) (Redis.deadlineMember token raw)).2.members (T.deadlines queue) = _ :=
      Keyspace.members_zrem h.nodup_members
    refine ⟨⟨?_, ?_, ?_, htokens, fun l hl' => ?_, h.conserved.strand hl⟩, hmembers, ?_, Lease.Ledger.leases_strand hl⟩
    · rw [Keyspace.zrem_lists]
      exact h.ready
    · rw [Keyspace.zrem_lists, h.processing]
      show _ = (g.leased.erase (token, raw) + (token, raw) ::ₘ g.stranded).map Prod.snd
      rw [Multiset.add_cons, ← Multiset.cons_add, Multiset.cons_erase hl]
    · rw [hmembers]
      exact h.members_erase hl
    · rcases Multiset.mem_cons.mp hl' with rfl | hl'
      · exact hraw
      · exact h.stranded l hl'
    · rw [Keyspace.zrem_lists, hraw]
      simp
  · rw [if_neg hraw, if_neg hraw]
    have hmembers : (((k.lrem (T.processing queue) raw).2.rpush queue [raw]).zrem (T.deadlines queue)
        (Redis.deadlineMember token raw)).2.members (T.deadlines queue) =
          (k.members (T.deadlines queue)).erase (Redis.deadlineMember token raw) := by
      have hsame : ((k.lrem (T.processing queue) raw).2.rpush queue [raw]).members (T.deadlines queue) =
          k.members (T.deadlines queue) := by
        unfold Keyspace.members
        rw [Keyspace.rpush_zsets, Keyspace.lrem_zsets]
      rw [Keyspace.members_zrem (hsame ▸ h.nodup_members), hsame]
    have hlists : (((k.lrem (T.processing queue) raw).2.rpush queue [raw]).zrem (T.deadlines queue)
        (Redis.deadlineMember token raw)).2.lists queue = k.lists queue ++ [raw] := by
      rw [Keyspace.zrem_lists, Keyspace.rpush_lists, if_pos rfl, Keyspace.lrem_lists, if_neg (Ne.symm hne)]
    refine ⟨⟨?_, ?_, ?_, htokens, h.stranded, h.conserved.expire hl⟩, hmembers, ?_, Lease.Ledger.leases_expire hl⟩
    · rw [hlists, ← Multiset.coe_add, h.ready, Multiset.coe_singleton]
      exact Multiset.add_comm _ _
    · rw [Keyspace.zrem_lists, Keyspace.rpush_lists, if_neg hne, Keyspace.lrem_lists, if_pos rfl]
      exact h.processing_erase hl
    · rw [hmembers]
      exact h.members_erase hl
    · rw [hlists]
      simp [hraw]

/-- A sweep of some of the members. -/
theorem sweepMembers (h : Refines T queue k g) (hne : T.processing queue ≠ queue) {due : List Bytes} (hnodup : due.Nodup)
    (hdue : ∀ member ∈ due, member ∈ k.members (T.deadlines queue)) :
    Refines T queue (due.foldl (Redis.sweepMember queue (T.processing queue) (T.deadlines queue)) k)
      (due.foldl Reservations.sweep g) ∧
      (due.foldl (Redis.sweepMember queue (T.processing queue) (T.deadlines queue)) k).lists queue =
        k.lists queue ++ (due.map (List.drop 33)).filter (· ≠ []) ∧
      (due.foldl Reservations.sweep g).leases = g.leases := by
  induction due generalizing k g with
  | nil => exact ⟨h, (List.append_nil _).symm, rfl⟩
  | cons member due ih =>
    obtain ⟨hfirst, hrest⟩ := List.nodup_cons.mp hnodup
    obtain ⟨hstep, hmembers, hlists, hleases⟩ := h.sweepMember hne (hdue member List.mem_cons_self)
    obtain ⟨hrefines, hready, hleases'⟩ := ih hstep hrest fun m hm => by
      rw [hmembers, List.Nodup.mem_erase_iff h.nodup_members]
      exact ⟨fun he => hfirst (he ▸ hm), hdue m (List.mem_cons_of_mem _ hm)⟩
    refine ⟨hrefines, ?_, hleases'.trans hleases⟩
    rw [List.foldl_cons, hready, hlists, List.append_assoc, ← List.filter_append, List.map_cons, List.singleton_append]

theorem due_sublist (k : Keyspace) (key : Str) (now : Int) (batch : Option Nat) :
    (k.zrangebyscore key now batch).Sublist (k.members key) := by
  have hdue : (((k.zsets key).filter fun entry => decide (entry.2 ≤ (now : Keyspace.Score))).map Prod.fst).Sublist (k.members key) :=
    List.filter_sublist.map _
  unfold Keyspace.zrangebyscore
  cases batch with
  | none => exact hdue
  | some n => exact (List.take_sublist n _).trans hdue

theorem sweep (h : Refines T queue k g) (hne : T.processing queue ≠ queue) (now : Int) (batch : Option Nat) :
    Refines T queue (Redis.sweepScript queue (T.processing queue) (T.deadlines queue) now batch k)
      ((k.zrangebyscore (T.deadlines queue) now batch).foldl Reservations.sweep g) ∧
      (Redis.sweepScript queue (T.processing queue) (T.deadlines queue) now batch k).lists queue =
        k.lists queue ++ ((k.zrangebyscore (T.deadlines queue) now batch).map (List.drop 33)).filter (· ≠ []) ∧
      ((k.zrangebyscore (T.deadlines queue) now batch).foldl Reservations.sweep g).leases = g.leases :=
  h.sweepMembers hne (h.nodup_members.sublist (due_sublist _ _ _ _)) fun _ hm => (due_sublist _ _ _ _).subset hm

theorem empty (T : RedisTransport) (queue : Str) : Refines T queue .empty .empty :=
  ⟨rfl, rfl, rfl, fun _ hl => absurd hl (Multiset.notMem_zero _), fun _ hl => absurd hl (Multiset.notMem_zero _), .empty⟩

/-- A value that is not empty is on a list of the queue, or settled. -/
theorem values (h : Refines T queue k g) :
    g.offered.filter (· ≠ []) =
      (k.lists queue + k.lists (T.processing queue) + g.settled.map Prod.snd : Multiset Bytes).filter (· ≠ []) := by
  rw [h.ready, h.processing, h.conserved.values, Multiset.map_add, Multiset.map_add, Multiset.map_add, Multiset.add_assoc g.ready,
    Multiset.add_assoc _ (g.settled.map _), Multiset.add_comm (g.settled.map _), ← Multiset.add_assoc _ _ (g.settled.map _)]

/-- A reserved value that is not empty has a deadline. -/
theorem reserved_members (h : Refines T queue k g) :
    (k.lists (T.processing queue) : Multiset Bytes).filter (· ≠ []) =
      (((k.members (T.deadlines queue)).map (List.drop 33) : List Bytes) : Multiset Bytes).filter (· ≠ []) := by
  have hstranded : (g.stranded.map Prod.snd).filter (· ≠ []) = 0 := by
    refine Multiset.filter_eq_nil.mpr fun v hv => ?_
    obtain ⟨l, hl, rfl⟩ := Multiset.mem_map.mp hv
    exact not_not.mpr (h.stranded l hl)
  have hmembers : (((k.members (T.deadlines queue)).map (List.drop 33) : List Bytes) : Multiset Bytes) = g.leased.map Prod.snd := by
    rw [← Multiset.map_coe, h.deadlines, Multiset.map_map]
    exact Multiset.map_congr rfl fun l hl => Redis.deadlineMember_drop (h.tokens l hl) l.2
  rw [h.processing, hmembers, Multiset.map_add, Multiset.filter_add, hstranded, Multiset.add_zero]

end Refines

/-! ## Runs -/

/-- One script of a worker on `queue`, at whatever time its clock shows. A worker that stops between two scripts
leaves the rest out. No two reservations draw the same token. -/
inductive LegacyStep (T : RedisTransport) (queue : Str) : Keyspace × Reservations → Keyspace × Reservations → Prop
  | publish (value : Bytes) (k : Keyspace) (g : Reservations) : LegacyStep T queue (k, g) (k.rpush queue [value], g.offer value)
  | sweep (now : Int) (batch : Option Nat) (k : Keyspace) (g : Reservations) :
    LegacyStep T queue (k, g) (Redis.sweepScript queue (T.processing queue) (T.deadlines queue) now batch k,
      (k.zrangebyscore (T.deadlines queue) now batch).foldl Reservations.sweep g)
  | reserve {score : Keyspace.Score} {token raw : Bytes} {k k' : Keyspace} {g : Reservations} (ht : token.length = 32)
    (hfresh : token ∉ g.leases.map Prod.fst)
    (hrun : Redis.reserveScript queue (T.processing queue) (T.deadlines queue) score token k = (some raw, k')) :
    LegacyStep T queue (k, g) (k', g.lease token raw)
  | idle {score : Keyspace.Score} {token : Bytes} {k k' : Keyspace} {g : Reservations}
    (hrun : Redis.reserveScript queue (T.processing queue) (T.deadlines queue) score token k = (none, k')) :
    LegacyStep T queue (k, g) (k', g)
  /-- `ack`, `redeliver` and `dead_letter`, of a live reservation or of a stale one. -/
  | settle {token raw : Bytes} {target : Option (Str × Bytes)} {settled : Bool} {k k' : Keyspace} {g : Reservations}
    (ht : token.length = 32) (htarget : ∀ t ∈ target, t.1 ≠ T.processing queue)
    (hrun : Redis.settleScript (T.processing queue) (T.deadlines queue) token raw target k = (settled, k')) :
    LegacyStep T queue (k, g) (k', if settled then Reservations.deliver queue target (g.settle (token, raw)) else g)
  /-- Whatever is done with other keys. -/
  | other {k k' : Keyspace} {g : Reservations} (hready : k'.lists queue = k.lists queue)
    (hprocessing : k'.lists (T.processing queue) = k.lists (T.processing queue))
    (hdeadlines : k'.zsets (T.deadlines queue) = k.zsets (T.deadlines queue)) : LegacyStep T queue (k, g) (k', g)

variable {T : RedisTransport} {queue : Str}

theorem LegacyStep.refines {p p' : Keyspace × Reservations} (hstep : LegacyStep T queue p p') (hne : T.processing queue ≠ queue)
    (h : Refines T queue p.1 p.2) : Refines T queue p'.1 p'.2 := by
  cases hstep with
  | publish value k g => exact h.offer hne value
  | sweep now batch k g => exact (h.sweep hne now batch).1
  | reserve ht hfresh hrun => exact h.reserve hne ht hfresh hrun
  | idle hrun =>
    cases Refines.idle hrun
    exact h
  | @settle token raw target settled k k' g ht htarget hrun =>
    cases settled with
    | true => exact (h.settle hne ht htarget hrun).2
    | false =>
      cases Redis.settleScript_stale hrun
      exact h
  | other hready hprocessing hdeadlines => exact h.congr hready hprocessing hdeadlines

theorem refines_of_run (hne : T.processing queue ≠ queue) {p p' : Keyspace × Reservations}
    (hrun : Relation.ReflTransGen (LegacyStep T queue) p p') (h : Refines T queue p.1 p.2) : Refines T queue p'.1 p'.2 := by
  induction hrun with
  | refl => exact h
  | tail _ hstep ih => exact hstep.refines hne ih

/-- In the legacy layout no interleaving of the scripts loses a message that is not empty, or settles one reservation
twice. A settle of a reservation that is gone changes nothing, and a sweep pushes the values whose deadline lapsed to the
end of the queue, the earliest first. -/
theorem legacy_conserves (hne : T.processing queue ≠ queue) {k : Keyspace} {g : Reservations}
    (hrun : Relation.ReflTransGen (LegacyStep T queue) (.empty, .empty) (k, g)) :
    g.offered.filter (· ≠ []) =
      (k.lists queue + k.lists (T.processing queue) + g.settled.map Prod.snd : Multiset Bytes).filter (· ≠ []) ∧
    (k.lists (T.processing queue) : Multiset Bytes).filter (· ≠ []) =
      (((k.members (T.deadlines queue)).map (List.drop 33) : List Bytes) : Multiset Bytes).filter (· ≠ []) ∧
    (g.settled.map Prod.fst).Nodup ∧
    (∀ (token raw : Bytes) (target : Option (Str × Bytes)), token.length = 32 →
      ((Redis.settleScript (T.processing queue) (T.deadlines queue) token raw target k).1 = true ↔ (token, raw) ∈ g.leased)) ∧
    (∀ (token raw : Bytes) (target : Option (Str × Bytes)),
      (Redis.settleScript (T.processing queue) (T.deadlines queue) token raw target k).1 = false →
        (Redis.settleScript (T.processing queue) (T.deadlines queue) token raw target k).2 = k) ∧
    ∀ now batch, (Redis.sweepScript queue (T.processing queue) (T.deadlines queue) now batch k).lists queue =
      k.lists queue ++ ((k.zrangebyscore (T.deadlines queue) now batch).map (List.drop 33)).filter (· ≠ []) := by
  have h : Refines T queue k g := refines_of_run hne hrun (.empty T queue)
  refine ⟨h.values, h.reserved_members, h.conserved.nodup_settled, fun token raw target ht => h.settles_iff ht target, ?_,
    fun now batch => (h.sweep hne now batch).2.1⟩
  intro token raw target hfalse
  exact Redis.settleScript_stale (Prod.ext hfalse rfl)

/-- The token of 32 zeros. -/
def zeros : Bytes := List.replicate 32 48

/-- A value is published and reserved. -/
theorem legacy_conserves_orders : ∃ k : Keyspace, k.lists orders = [] ∧
    (k.lists (legacyRedis.processing orders) : Multiset Bytes).filter (· ≠ []) =
      (((k.members (legacyRedis.deadlines orders)).map (List.drop 33) : List Bytes) : Multiset Bytes).filter (· ≠ []) := by
  have hpublish : LegacyStep legacyRedis orders (.empty, .empty) (_, _) := .publish [49] .empty .empty
  have hrun : Redis.reserveScript orders (legacyRedis.processing orders) (legacyRedis.deadlines orders) ⊤ zeros
      (Keyspace.empty.rpush orders [[49]]) = (some [49], _) := rfl
  have hreserve : LegacyStep legacyRedis orders (_, Lease.Ledger.empty.offer [49]) (_, _) :=
    .reserve rfl (Multiset.notMem_zero _) hrun
  refine ⟨_, ?_, (legacy_conserves (by decide) (.tail (.single hpublish) hreserve)).2.1⟩
  decide

/-! ## The methods of the transport -/

theorem publish_scripted (hT : T.laravelCompat = false) (body : Str) (s : RedisServer) (g : Reservations) :
    Scripted (LegacyStep T queue) (T.publish queue body) s g := by
  unfold publish
  refine .lift_bind fun bytes _ => ?_
  rw [hT, if_neg Bool.false_ne_true]
  exact ⟨_, .single (.publish bytes s.keys g)⟩

/-- The token of a handle, as `secrets` makes it. -/
def HasToken (m : ReceivedMessage RedisHandle) : Prop :=
  ∀ handle, m.handle = .legacy handle → ∀ token, encodeEscape handle.token = .ok token → token.length = 32

theorem settle_scripted {m : ReceivedMessage RedisHandle} (hm : HasToken m) {target : Option (Str × Str)}
    (htarget : ∀ t ∈ target, t.1 ≠ T.processing m.queue) (s : RedisServer) (g : Reservations) :
    Scripted (LegacyStep T m.queue) (T.settle m target) s g := by
  unfold settle
  split
  · exact ⟨g, .refl⟩
  · next handle hhandle =>
    refine .lift_bind fun token htoken => .lift_bind fun raw _ => ?_
    rcases target with _ | ⟨target, body⟩
    · exact ⟨_, .single (.settle (hm handle hhandle token htoken) (fun t ht => absurd ht (Option.not_mem_none t)) rfl)⟩
    · refine .lift_bind fun bytes _ => ?_
      have htarget : ∀ t ∈ some (target, bytes), t.1 ≠ T.processing m.queue := fun t ht => by
        cases ht
        exact htarget _ rfl
      have hrun : ∀ k, Redis.settleScript (T.processing m.queue) (T.deadlines m.queue) token raw (some (target, bytes)) k =
        (_, _) := fun k => Prod.eta _
      exact ⟨_, .single (.settle (hm handle hhandle token htoken) htarget (hrun s.keys))⟩

theorem ack_scripted (hT : T.laravelCompat = false) {m : ReceivedMessage RedisHandle} (hm : HasToken m) (s : RedisServer)
    (g : Reservations) : Scripted (LegacyStep T m.queue) (T.ack m) s g := by
  unfold ack
  rw [hT, if_neg Bool.false_ne_true]
  exact .bind_pure _ (settle_scripted hm (fun t ht => absurd ht (Option.not_mem_none t)) s g)

variable [Interpreter]

theorem redeliver_scripted (hT : T.laravelCompat = false) {m : ReceivedMessage RedisHandle} (hm : HasToken m)
    (hne : T.processing m.queue ≠ m.queue) (body : Str) (delay : Float64) (s : RedisServer) (g : Reservations) :
    Scripted (LegacyStep T m.queue) (T.redeliver m body delay) s g := by
  unfold redeliver
  rw [hT, if_neg Bool.false_ne_true]
  refine .lift_bind fun value _ => .bind_pure _ (settle_scripted hm (fun t ht => ?_) s g)
  cases ht
  exact Ne.symm hne

theorem deadLetter_scripted (hT : T.laravelCompat = false) {m : ReceivedMessage RedisHandle} (hm : HasToken m) {target : Str}
    (hne : target ≠ T.processing m.queue) (body : Str) (s : RedisServer) (g : Reservations) :
    Scripted (LegacyStep T m.queue) (T.deadLetter m target body) s g := by
  unfold deadLetter writeDeadLetter
  rw [hT, if_neg Bool.false_ne_true]
  refine .bind_pure _ (.lift_bind fun value _ => settle_scripted hm (fun t ht => ?_) s g)
  cases ht
  exact hne

omit [Interpreter] in
/-- A token has 32 digits. -/
theorem tokenHex_length {drawn : Nat} {token : Bytes} (h : encodeEscape (T.tokenHex drawn) = .ok token) : token.length = 32 := by
  rw [encodeEscape_length (fun c hc => ?_) h]
  · exact hexText_length 32 _
  · obtain ⟨i, -, rfl⟩ := List.mem_map.mp hc
    have := (Json.digitChar_range (n := T.random drawn / 16 ^ i % 16) (Nat.mod_lt _ (by omega))).2
    omega

/-- A pop sweeps and reserves, with a token that no other reservation had. -/
theorem popLegacy_scripted (hne : T.processing queue ≠ queue) {s : RedisServer} {g : Reservations} (h : Refines T queue s.keys g)
    (hfresh : ∀ token, encodeEscape (T.tokenHex s.drawn) = .ok token → token ∉ g.leases.map Prod.fst) :
    Scripted (LegacyStep T queue) (T.popLegacy queue) s g := by
  obtain ⟨swept, hsweep, hleases⟩ : ∃ swept, LegacyStep T queue (s.keys, g) (T.sweep queue s, swept) ∧ swept.leases = g.leases :=
    ⟨_, .sweep s.now T.batch s.keys g, (h.sweep hne s.now T.batch).2.2⟩
  obtain ⟨token, htoken⟩ := tokenHex_encodes T s.drawn
  unfold Scripted popLegacy
  rw [Act.bind_run, Act.modify_run]
  dsimp only
  rw [Act.bind_run, Act.get_run]
  dsimp only
  rw [Act.bind_run, Act.modify_run]
  dsimp only
  rw [Act.bind_run, htoken, Act.lift_run]
  dsimp only
  rw [Act.bind_run]
  unfold eval
  dsimp only
  cases hrun : Redis.reserveScript queue (T.processing queue) (T.deadlines queue) (T.deadlineScore s.now) token (T.sweep queue s) with
  | mk r k =>
    dsimp only
    cases r with
    | none => exact ⟨_, .tail (.single hsweep) (.idle hrun)⟩
    | some raw =>
      have hreserve : LegacyStep T queue (T.sweep queue s, swept) (k, Lease.Ledger.lease swept token raw) :=
        .reserve (tokenHex_length htoken) (hleases.symm ▸ hfresh token htoken) hrun
      refine ⟨Lease.Ledger.lease swept token raw, .tail (.single hsweep) ?_⟩
      dsimp only
      rw [Act.bind_run, Act.lift_run]
      cases legacyMessage queue (decodeEscape raw) (T.tokenHex s.drawn) <;> exact hreserve

end RedisTransport

end BabelQueue
