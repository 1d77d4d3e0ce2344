import BabelQueue.Outbox.HandOff

/-!
# What a drain leaves pending

Progress is judged by the oldest `batchSize` pending rows.

* `nextIds`: the ids that a pass leaves pending, when each row is always accepted or never.
* `FewRefused`: fewer than a batch of refused rows before the last pending row; a pass keeps it
  (`fewRefused_nextIds`).
* `drain_drains_iff`: a drain that stops by itself leaves nothing but rows it was refused exactly when
  there are few refused rows.
-/

namespace BabelQueue

open Py Py.Json

/-! ## Batches of ids -/

section Batch

variable (accepts : Str → Bool) (batch : Nat)

/-- The ids that stay pending after a pass over the first `batch` of them. -/
def nextIds (ids : List Str) : List Str := (ids.take batch).filter (fun id => !accepts id) ++ ids.drop batch

/-- Fewer than `batch` of the ids before the last one are refused. -/
def FewRefused (ids : List Str) : Prop := ids.dropLast.countP (fun id => !accepts id) < batch

variable {accepts batch} {ids : List Str}

theorem fewRefused_of_length_le (hb : 1 ≤ batch) (h : ids.length ≤ batch) : FewRefused accepts batch ids := by
  have hle : ids.dropLast.countP (fun id => !accepts id) ≤ ids.dropLast.length := List.countP_le_length
  rw [List.length_dropLast] at hle
  unfold FewRefused
  omega

/-- A pass does not change whether there are few refused rows. -/
theorem fewRefused_nextIds (hb : 1 ≤ batch) : FewRefused accepts batch (nextIds accepts batch ids) ↔ FewRefused accepts batch ids := by
  by_cases hlen : ids.length ≤ batch
  · have hdrop : ids.drop batch = [] := List.drop_eq_nil_iff.mpr hlen
    have hnext : (nextIds accepts batch ids).length ≤ batch := by
      rw [nextIds, hdrop, List.append_nil]
      exact le_trans (List.length_filter_le _ _) (by rw [List.length_take]; omega)
    exact ⟨fun _ => fewRefused_of_length_le hb hlen, fun _ => fewRefused_of_length_le hb hnext⟩
  · have hdrop : ids.drop batch ≠ [] := fun h => hlen (List.drop_eq_nil_iff.mp h)
    have hsplit : ids.dropLast = ids.take batch ++ (ids.drop batch).dropLast := by
      rw [← List.dropLast_append_of_ne_nil hdrop, List.take_append_drop]
    rw [FewRefused, FewRefused, hsplit, nextIds, List.dropLast_append_of_ne_nil hdrop, List.countP_append,
      List.countP_append, List.countP_filter]
    simp

/-- Where a whole batch is refused, there are few refused rows only when there is no other. -/
theorem fewRefused_iff_of_refused (hb : 1 ≤ batch) (h : ∀ id ∈ ids.take batch, accepts id = false) :
    FewRefused accepts batch ids ↔ ids.drop batch = [] := by
  constructor
  · intro hfew
    by_contra hdrop
    have hlen : ¬ ids.length ≤ batch := fun h => hdrop (List.drop_eq_nil_iff.mpr h)
    have hsplit : ids.dropLast = ids.take batch ++ (ids.drop batch).dropLast := by
      rw [← List.dropLast_append_of_ne_nil hdrop, List.take_append_drop]
    have hall : (ids.take batch).countP (fun id => !accepts id) = (ids.take batch).length :=
      List.countP_eq_length.mpr fun id hid => by rw [h id hid]; rfl
    rw [FewRefused, hsplit, List.countP_append, hall, List.length_take] at hfew
    omega
  · intro hdrop
    exact fewRefused_of_length_le hb (List.drop_eq_nil_iff.mp hdrop)

/-- Publishing what a batch has accepted leaves `nextIds`. -/
theorem filter_not_mem_eq_nextIds (hn : ids.Nodup) :
    (ids.filter fun id => id ∉ (ids.take batch).filter accepts) = nextIds accepts batch ids := by
  have hdisj : ∀ id ∈ ids.drop batch, id ∉ ids.take batch := fun id hd ht =>
    (List.disjoint_take_drop hn le_rfl) ht hd
  conv_lhs => rw [← List.take_append_drop batch ids]
  rw [List.filter_append, List.take_append_drop, nextIds]
  congr 1
  · exact List.filter_congr fun id hid => by simp [hid]
  · exact List.filter_eq_self.mpr fun id hid => by simp [hdisj id hid]

theorem nodup_take_of_sublist {ids ids' : List Str} (hs : ids'.Sublist ids) (hn : ids.Nodup) {n : Nat} {id : Str}
    (h : id ∈ ids.take n) (h' : id ∈ ids') : id ∈ ids'.take n := by
  induction hs generalizing n with
  | slnil => cases h'
  | @cons l₁ l₂ a hs ih =>
    obtain ⟨hnot, hn⟩ := List.nodup_cons.mp hn
    cases n with
    | zero => simp at h
    | succ n =>
      rw [List.take_succ_cons, List.mem_cons] at h
      rcases h with rfl | h
      · exact absurd (hs.subset h') hnot
      · exact (List.take_subset_take_left _ (Nat.le_succ n)) (ih hn h h')
  | @cons_cons l₁ l₂ a hs ih =>
    obtain ⟨hnot, hn⟩ := List.nodup_cons.mp hn
    cases n with
    | zero => simp at h
    | succ n =>
      rw [List.take_succ_cons, List.mem_cons] at h ⊢
      rcases h with rfl | h
      · exact .inl rfl
      · refine .inr (ih hn h ((List.mem_cons.mp h').resolve_left ?_))
        rintro rfl
        exact hnot (List.mem_of_mem_take h)

end Batch

/-! ## One pass -/

/-- The ids of the rows that are not published, oldest first. -/
def pendingIds (store : InMemoryOutboxStore) : List Str := Dict.keys (store.rows.filter fun p => !p.2.published)

/-- The rows are the same, and so is what is published of them. -/
def SameMarks (store store' : InMemoryOutboxStore) : Prop :=
  store'.rows.keys = store.rows.keys ∧
    ∀ k, (store'.rows.get? k).map OutboxRow.published = (store.rows.get? k).map OutboxRow.published

namespace InMemoryOutboxStore

variable {store : InMemoryOutboxStore} {f : OutboxRow → OutboxRow}

theorem keys_update (id : Str) : (store.update id f).rows.keys = store.rows.keys := by
  unfold update
  split
  · next row h =>
    rw [Dict.keys_set, if_pos]
    by_contra hk
    rw [Dict.get?_eq_none_iff.mpr hk] at h
    cases h
  · rfl

theorem sameMarks_markFailed (id error : Str) : SameMarks store (store.markFailed id error) := by
  refine ⟨keys_update id, fun k => ?_⟩
  rw [markFailed, get?_update]
  split
  · rw [Option.map_map]; rfl
  · rfl

theorem keys_markPublished (ids : List Str) : (store.markPublished ids).rows.keys = store.rows.keys := by
  unfold markPublished
  induction ids generalizing store with
  | nil => rfl
  | cons id ids ih => rw [List.foldl_cons, ih, keys_update]

/-- The pending ids, by looking each row up. -/
theorem pendingIds_eq (hp : store.rows.Proper) :
    pendingIds store = store.rows.keys.filter fun k => ((store.rows.get? k).map OutboxRow.published) = some false := by
  unfold pendingIds Dict.keys
  rw [List.filter_map]
  congr 1
  refine List.filter_congr fun p hm => ?_
  rw [Function.comp_apply, Dict.get?_of_mem hp hm]
  cases hpub : p.2.published <;> simp [hpub]

theorem pendingIds_of_sameMarks {store' : InMemoryOutboxStore} (hp : store.rows.Proper) (h : SameMarks store store') :
    pendingIds store' = pendingIds store := by
  have hp' : store'.rows.Proper := by rw [Dict.Proper, h.1]; exact hp
  rw [pendingIds_eq hp, pendingIds_eq hp', h.1]
  exact List.filter_congr fun k _ => by rw [h.2]

theorem pendingIds_markPublished (hp : store.rows.Proper) (ids : List Str) :
    pendingIds (store.markPublished ids) = (pendingIds store).filter fun k => k ∉ ids := by
  have hp' : (store.markPublished ids).rows.Proper := by rw [Dict.Proper, keys_markPublished]; exact hp
  rw [pendingIds_eq hp, pendingIds_eq hp', keys_markPublished, List.filter_filter]
  refine List.filter_congr fun k _ => ?_
  rw [get?_markPublished]
  cases store.rows.get? k with
  | none => simp
  | some row => simp [Bool.and_comm]

/-- The first pending rows, as records. -/
theorem fetchFrom_eq (limit : Int) (records : List OutboxRecord) (rows : Dict OutboxRow) (hlimit : (records.length : Int) < limit) :
    fetchFrom limit records rows = records ++
      ((rows.filter fun p => !p.2.published).take (limit.toNat - records.length)).map fun p => p.2.record p.1 := by
  induction rows generalizing records with
  | nil => simp [fetchFrom]
  | cons p rows ih =>
    obtain ⟨id, row⟩ := p
    rw [fetchFrom]
    cases hpub : row.published with
    | true => simp [hpub, ih records hlimit]
    | false =>
      have hlen : (records ++ [row.record id]).length = records.length + 1 := by simp
      obtain ⟨m, hm⟩ : ∃ m, limit.toNat - records.length = m + 1 := ⟨limit.toNat - records.length - 1, by omega⟩
      by_cases hfull : limit ≤ (records ++ [row.record id]).length
      · rw [if_neg (by simp), if_pos hfull, hm, show m = 0 by omega]
        simp [hpub]
      · rw [if_neg (by simp), if_neg hfull, ih _ (by omega), hlen, show limit.toNat - (records.length + 1) = m by omega, hm]
        simp [hpub]

end InMemoryOutboxStore

section Pass

variable {δ : Type} [LinearOrder δ] [Zero δ] [Mul δ] [NatCast δ] {answer : Nat → Option PyExc} {relay : OutboxRelay δ}

/-- Each row is always accepted, or always refused. -/
def Steady (accepts : Str → Bool) (calls : List PublishCall) : Prop := ∀ c ∈ calls, c.accepted = accepts c.row

theorem Steady.accepted_rows {accepts : Str → Bool} {calls : List PublishCall} (h : Steady accepts calls) :
    (calls.filter PublishCall.accepted).map PublishCall.row = (calls.map PublishCall.row).filter accepts := by
  rw [List.filter_map]
  congr 1
  exact List.filter_congr fun c hc => h c hc

/-- A record that the relay gets past: its call, which is caught if it raises. -/
theorem flushRecord_ok {record : OutboxRecord} {w w' : OutboxWorld δ} {b : Bool}
    (h : relay.flushRecord answer record w = (.ok b, w')) :
    ∃ c, w'.calls = w.calls ++ [c] ∧ c.row = record.id ∧ b = c.accepted ∧ SameMarks w.store w'.store := by
  cases hans : answer w.calls.length with
  | none =>
    have hpub : OutboxRelay.publish answer record w =
        (.ok (), { w with calls := w.calls ++ [⟨record.id, record.queue, record.body, none⟩] }) := by
      rw [OutboxRelay.publish, hans]; rfl
    have hrun : relay.flushRecord answer record w =
        (.ok true, { w with calls := w.calls ++ [⟨record.id, record.queue, record.body, none⟩] }) :=
      Act.tryExcept_run_ok (Act.bind_run_ok hpub)
    rw [hrun] at h
    cases h
    exact ⟨_, rfl, rfl, rfl, rfl, fun _ => rfl⟩
  | some e =>
    have hpub : OutboxRelay.publish answer record w =
        (.error e, { w with calls := w.calls ++ [⟨record.id, record.queue, record.body, some e⟩] }) := by
      rw [OutboxRelay.publish, hans]; rfl
    obtain ⟨slept, hsleep⟩ := sleep_run (relay.backoffFor record.attempts)
      ⟨w.store.markFailed record.id (OutboxRelay.reason e),
        w.calls ++ [⟨record.id, record.queue, record.body, some e⟩], w.slept⟩
    have hexcept : e.isAny [.exception] = true := by
      by_contra hno
      have hrun := (Act.tryExcept_run_error (Act.bind_run_error hpub)).trans (if_neg hno) |>.symm.trans h
      cases hrun
    have hrun : relay.flushRecord answer record w =
        (.ok false, ⟨w.store.markFailed record.id (OutboxRelay.reason e),
          w.calls ++ [⟨record.id, record.queue, record.body, some e⟩], slept⟩) := by
      refine (Act.tryExcept_run_error (Act.bind_run_error hpub)).trans ?_
      rw [if_pos hexcept, Act.bind_run_ok (Act.modify_run _ _), Act.bind_run_ok hsleep]
      rfl
    rw [hrun] at h
    cases h
    exact ⟨_, rfl, rfl, rfl, InMemoryOutboxStore.sameMarks_markFailed _ _⟩

theorem flushRecords_ok {records : List OutboxRecord} {ids ids' : List Str} {failed failed' : Nat} {w w' : OutboxWorld δ}
    (h : relay.flushRecords answer records ids failed w = (.ok (ids', failed'), w')) :
    ∃ new, w'.calls = w.calls ++ new ∧ new.map PublishCall.row = records.map OutboxRecord.id ∧
      ids' = ids ++ (new.filter PublishCall.accepted).map PublishCall.row ∧ SameMarks w.store w'.store := by
  induction records generalizing ids failed w with
  | nil =>
    cases h
    exact ⟨[], by simp, rfl, by simp, rfl, fun _ => rfl⟩
  | cons record records ih =>
    rw [OutboxRelay.flushRecords] at h
    obtain ⟨b, w₁, hrun, h⟩ := Act.of_bind_run_ok h
    obtain ⟨c, hcalls, hrow, rfl, hsame⟩ := flushRecord_ok hrun
    cases hacc : c.accepted with
    | true =>
      rw [hacc, if_pos rfl] at h
      obtain ⟨new, hcalls', hmap, hids, hsame'⟩ := ih h
      exact ⟨c :: new, by rw [hcalls', hcalls]; simp, by simp [hrow, hmap], by simp [hids, hacc, hrow],
        hsame'.1.trans hsame.1, fun k => (hsame'.2 k).trans (hsame.2 k)⟩
    | false =>
      rw [hacc, if_neg (by simp)] at h
      obtain ⟨new, hcalls', hmap, hids, hsame'⟩ := ih h
      exact ⟨c :: new, by rw [hcalls', hcalls]; simp, by simp [hrow, hmap], by simp [hids, hacc],
        hsame'.1.trans hsame.1, fun k => (hsame'.2 k).trans (hsame.2 k)⟩

/-- A pass calls the transport for the first batch of the pending rows, and leaves `nextIds` of them. -/
theorem flush_ok {w w' : OutboxWorld δ} {result : OutboxRelayResult} (hp : w.store.rows.Proper) (hb : 1 ≤ relay.batchSize)
    (h : relay.flush answer w = (.ok result, w')) :
    ∃ new, w'.calls = w.calls ++ new ∧ new.map PublishCall.row = (pendingIds w.store).take relay.batchSize.toNat ∧
      w'.store.rows.Proper ∧ result.published = new.countP PublishCall.accepted ∧
      ∀ accepts, Steady accepts new →
        pendingIds w'.store = nextIds accepts relay.batchSize.toNat (pendingIds w.store) := by
  have hfetch : (w.store.fetchUnpublished relay.batchSize).map OutboxRecord.id =
      (pendingIds w.store).take relay.batchSize.toNat := by
    rw [InMemoryOutboxStore.fetchUnpublished, InMemoryOutboxStore.fetchFrom_eq _ _ _ (by simp; omega)]
    simp [pendingIds, Dict.keys, OutboxRow.record, Function.comp_def, List.map_take]
  have hnodup : (pendingIds w.store).Nodup := hp.sublist (List.filter_sublist.map _)
  unfold OutboxRelay.flush at h
  obtain ⟨_, _, ⟨⟩, h⟩ := Act.of_bind_run_ok h
  obtain ⟨⟨ids, failed⟩, w₁, hrun, h⟩ := Act.of_bind_run_ok h
  obtain ⟨_, _, ⟨⟩, h⟩ := Act.of_bind_run_ok h
  cases h
  obtain ⟨new, hcalls, hmap, hids, hsame⟩ := flushRecords_ok hrun
  rw [List.nil_append] at hids
  have hp₁ : w₁.store.rows.Proper := by rw [Dict.Proper, hsame.1]; exact hp
  have hmark : (if ids = [] then w₁ else { w₁ with store := w₁.store.markPublished ids }) =
      { w₁ with store := w₁.store.markPublished ids } := by
    split
    · next e => rw [e]; rfl
    · rfl
  beta_reduce
  rw [hmark]
  refine ⟨new, hcalls, hmap.trans hfetch, ?_, by rw [hids, List.length_map, List.countP_eq_length_filter], ?_⟩
  · rw [Dict.Proper, InMemoryOutboxStore.keys_markPublished]
    exact hp₁
  · intro accepts hsteady
    rw [InMemoryOutboxStore.pendingIds_markPublished hp₁, InMemoryOutboxStore.pendingIds_of_sameMarks hp hsame, hids,
      hsteady.accepted_rows, hmap, hfetch, filter_not_mem_eq_nextIds hnodup]

/-! ## A drain -/

variable (relay answer) in
/-- How many passes a drain makes that may make `passes`. -/
def passesMade : Nat → OutboxWorld δ → Nat
  | 0, _ => 0
  | passes + 1, w =>
    match relay.flush answer w with
    | (.ok result, w') => if result.published = 0 then 1 else passesMade passes w' + 1
    | (.error _, _) => 1

/-- The passes that `drain` may make. -/
def ceiling (maxPasses : Int) : Nat := if maxPasses > 0 then maxPasses.toNat else defaultDrainCeiling

variable (relay answer) in
/-- Passes one after the other, up to the first that publishes nothing. -/
inductive Drained : OutboxWorld δ → OutboxWorld δ → Prop
  | stop {w w' : OutboxWorld δ} {result : OutboxRelayResult} (h : relay.flush answer w = (.ok result, w'))
      (hz : result.published = 0) : Drained w w'
  | next {w w₁ w' : OutboxWorld δ} {result : OutboxRelayResult} (h : relay.flush answer w = (.ok result, w₁))
      (hd : Drained w₁ w') : Drained w w'

theorem drained_of_drainPasses {passes : Nat} {total result : OutboxRelayResult} {w w' : OutboxWorld δ}
    (h : relay.drainPasses answer passes total w = (.ok result, w')) (hp : passesMade answer relay passes w < passes) :
    Drained answer relay w w' := by
  induction passes generalizing total w with
  | zero => exact absurd hp (Nat.not_lt_zero _)
  | succ passes ih =>
    rw [OutboxRelay.drainPasses] at h
    obtain ⟨r, w₁, hrun, h⟩ := Act.of_bind_run_ok h
    rw [passesMade, hrun] at hp
    dsimp only at hp
    by_cases hz : r.published = 0
    · rw [if_pos hz] at h
      cases h
      exact .stop hrun hz
    · rw [if_neg hz] at h hp
      exact .next hrun (ih h (by omega))

/-- After a drain, from its first pass on: the first batch of the pending rows is refused, the rows
that it called for and that are pending are in it, and there are as few refused rows as before. -/
structure Stuck (accepts : Str → Bool) (batch : Nat) (w w' : OutboxWorld δ) (new : List PublishCall) : Prop where
  proper : w'.store.rows.Proper
  older : (pendingIds w'.store).Sublist (pendingIds w.store)
  refused : ∀ id ∈ (pendingIds w'.store).take batch, accepts id = false ∧ ∃ c ∈ new, c.row = id
  called : ∀ c ∈ new, c.row ∈ pendingIds w'.store → c.row ∈ (pendingIds w'.store).take batch
  few : FewRefused accepts batch (pendingIds w'.store) ↔ FewRefused accepts batch (pendingIds w.store)

theorem nextIds_sublist (accepts : Str → Bool) (batch : Nat) (ids : List Str) : (nextIds accepts batch ids).Sublist ids := by
  have h := (List.filter_sublist (l := ids.take batch) (p := fun id => !accepts id)).append (List.Sublist.refl (ids.drop batch))
  rwa [List.take_append_drop] at h

theorem pendingIds_nodup {store : InMemoryOutboxStore} (hp : store.rows.Proper) : (pendingIds store).Nodup :=
  hp.sublist (List.filter_sublist.map _)

theorem Drained.stuck {w w' : OutboxWorld δ} (h : Drained answer relay w w') (hp : w.store.rows.Proper)
    (hb : 1 ≤ relay.batchSize) :
    ∃ new, w'.calls = w.calls ++ new ∧ ∀ accepts, Steady accepts new → Stuck accepts relay.batchSize.toNat w w' new := by
  have hbatch : 1 ≤ relay.batchSize.toNat := by omega
  induction h with
  | @stop w w' result hrun hz =>
    obtain ⟨new, hcalls, hmap, hp', hpub, hnext⟩ := flush_ok hp hb hrun
    refine ⟨new, hcalls, fun accepts hsteady => ?_⟩
    have hrefused : ∀ id ∈ (pendingIds w.store).take relay.batchSize.toNat, accepts id = false := by
      intro id hid
      rw [← hmap] at hid
      obtain ⟨c, hc, rfl⟩ := List.mem_map.mp hid
      have hcount := List.countP_eq_zero.mp (hpub.symm.trans hz) c hc
      rw [← hsteady c hc]
      simpa using hcount
    have hsame : pendingIds w'.store = pendingIds w.store := by
      have hfilter : ((pendingIds w.store).take relay.batchSize.toNat).filter (fun id => !accepts id) =
          (pendingIds w.store).take relay.batchSize.toNat :=
        List.filter_eq_self.mpr fun id hid => by rw [hrefused id hid]; rfl
      rw [hnext accepts hsteady, nextIds, hfilter, List.take_append_drop]
    refine ⟨hp', ?_, ?_, ?_, ?_⟩ <;> rw [hsame]
    · intro id hid
      refine ⟨hrefused id hid, ?_⟩
      rw [← hmap] at hid
      exact List.mem_map.mp hid
    · intro c hc _
      rw [← hmap]
      exact List.mem_map_of_mem hc
  | @next w w₁ w' result hrun _ ih =>
    obtain ⟨new₁, hcalls₁, hmap, hp₁, -, hnext⟩ := flush_ok hp hb hrun
    obtain ⟨new₂, hcalls₂, hstuck⟩ := ih hp₁
    refine ⟨new₁ ++ new₂, by rw [hcalls₂, hcalls₁, List.append_assoc], fun accepts hsteady => ?_⟩
    have hpend := hnext accepts fun c hc => hsteady c (List.mem_append_left _ hc)
    have hs := hstuck accepts fun c hc => hsteady c (List.mem_append_right _ hc)
    have holder : (pendingIds w'.store).Sublist (pendingIds w.store) :=
      hs.older.trans (hpend ▸ nextIds_sublist accepts _ _)
    refine ⟨hs.proper, holder, fun id hid => ?_, fun c hc hmem => ?_, ?_⟩
    · obtain ⟨hno, c, hc, hrow⟩ := hs.refused id hid
      exact ⟨hno, c, List.mem_append_right _ hc, hrow⟩
    · rcases List.mem_append.mp hc with hc | hc
      · have htake : c.row ∈ (pendingIds w.store).take relay.batchSize.toNat := hmap ▸ List.mem_map_of_mem hc
        exact nodup_take_of_sublist holder (pendingIds_nodup hp) htake hmem
      · exact hs.called c hc hmem
    · rw [hs.few, hpend, fewRefused_nextIds hbatch]

/-- Every row that the transport accepts is published, and every other pending row was refused. -/
structure DrainedAll (accepts : Str → Bool) (w : OutboxWorld δ) (new : List PublishCall) : Prop where
  published : ∀ id row, w.store.rows.get? id = some row → accepts id = true → row.published = true
  refused : ∀ id row, w.store.rows.get? id = some row → row.published = false → ∃ c ∈ new, c.row = id ∧ c.accepted = false

theorem mem_pendingIds {store : InMemoryOutboxStore} (hp : store.rows.Proper) {id : Str} :
    id ∈ pendingIds store ↔ ∃ row, store.rows.get? id = some row ∧ row.published = false := by
  rw [InMemoryOutboxStore.pendingIds_eq hp, List.mem_filter, decide_eq_true_iff, Option.map_eq_some_iff]
  refine ⟨And.right, fun h => ⟨?_, h⟩⟩
  obtain ⟨row, hrow, -⟩ := h
  by_contra hk
  rw [Dict.get?_eq_none_iff.mpr hk] at hrow
  cases hrow

/-- A drain that stops before its ceiling leaves nothing but rows it was refused exactly when fewer than
a batch of the rows before the last pending one are refused. -/
theorem drain_drains_iff {w w' : OutboxWorld δ} {maxPasses : Int} {result : OutboxRelayResult} {accepts : Str → Bool}
    {new : List PublishCall} (hp : w.store.rows.Proper) (hb : 1 ≤ relay.batchSize)
    (hrun : relay.drain answer maxPasses w = (.ok result, w'))
    (hceiling : passesMade answer relay (ceiling maxPasses) w < ceiling maxPasses)
    (hcalls : w'.calls = w.calls ++ new) (hsteady : Steady accepts new) :
    DrainedAll accepts w' new ↔ FewRefused accepts relay.batchSize.toNat (pendingIds w.store) := by
  obtain ⟨new', hcalls', hstuck⟩ := (drained_of_drainPasses hrun hceiling).stuck hp hb
  obtain rfl : new' = new := List.append_cancel_left (hcalls'.symm.trans hcalls)
  have hs := hstuck accepts hsteady
  rw [← hs.few, fewRefused_iff_of_refused (by omega) fun id hid => (hs.refused id hid).1]
  constructor
  · intro hall
    refine List.eq_nil_iff_forall_not_mem.mpr fun id hid => ?_
    have hpend : id ∈ pendingIds w'.store := List.mem_of_mem_drop hid
    obtain ⟨row, hrow, hpub⟩ := (mem_pendingIds hs.proper).mp hpend
    obtain ⟨c, hc, rfl, -⟩ := hall.refused id row hrow hpub
    exact List.disjoint_take_drop (pendingIds_nodup hs.proper) le_rfl (hs.called c hc hpend) hid
  · intro hdrop
    have htake : (pendingIds w'.store).take relay.batchSize.toNat = pendingIds w'.store := by
      have hsplit := List.take_append_drop relay.batchSize.toNat (pendingIds w'.store)
      rwa [hdrop, List.append_nil] at hsplit
    have hrefused := hs.refused
    rw [htake] at hrefused
    refine ⟨fun id row hrow hacc => ?_, fun id row hrow hpub => ?_⟩
    · by_contra hpub
      have hno := (hrefused id ((mem_pendingIds hs.proper).mpr ⟨row, hrow, by simpa using hpub⟩)).1
      rw [hacc] at hno
      cases hno
    · obtain ⟨hno, c, hc, rfl⟩ := hrefused id ((mem_pendingIds hs.proper).mpr ⟨row, hrow, hpub⟩)
      exact ⟨c, hc, rfl, by rw [hsteady c hc, hno]⟩

end Pass

/-- Two rows, of which only the second is accepted. -/
def refusedFirst : OutboxWorld Nat :=
  ⟨⟨[(str "ob-1", ⟨str "a", str "q", 0, false, []⟩), (str "ob-2", ⟨str "b", str "q", 0, false, []⟩)], 2⟩, [], []⟩

theorem drain_drains_iff_batch_two :
    DrainedAll (· = str "ob-2")
        ((⟨2, 0, 0⟩ : OutboxRelay Nat).drain (fun n => if n = 1 then none else some ⟨.valueError, []⟩) 0 refusedFirst).2
        [⟨str "ob-1", str "q", str "a", some ⟨.valueError, []⟩⟩, ⟨str "ob-2", str "q", str "b", none⟩,
          ⟨str "ob-1", str "q", str "a", some ⟨.valueError, []⟩⟩] ↔
      FewRefused (· = str "ob-2") 2 [str "ob-1", str "ob-2"] := by
  have hrun : (⟨2, 0, 0⟩ : OutboxRelay Nat).drain (fun n => if n = 1 then none else some ⟨.valueError, []⟩) 0 refusedFirst =
      (.ok ⟨1, 2⟩, _) := Prod.ext rfl rfl
  exact drain_drains_iff (show List.Nodup _ by decide) (by decide) hrun (by decide) rfl
    (by simp [Steady, PublishCall.accepted])

/-- With batches of one row, the drain stops before the second row. -/
theorem drain_stops_early :
    ∃ result new, ((⟨1, 0, 0⟩ : OutboxRelay Nat).drain (fun _ => some ⟨.valueError, []⟩) 0 refusedFirst).1 = .ok result ∧
      passesMade (fun _ => some ⟨.valueError, []⟩) (⟨1, 0, 0⟩ : OutboxRelay Nat) (ceiling 0) refusedFirst < ceiling 0 ∧
      ((⟨1, 0, 0⟩ : OutboxRelay Nat).drain (fun _ => some ⟨.valueError, []⟩) 0 refusedFirst).2.calls = refusedFirst.calls ++ new ∧
      Steady (· = str "ob-2") new ∧
      ¬ DrainedAll (· = str "ob-2")
        ((⟨1, 0, 0⟩ : OutboxRelay Nat).drain (fun _ => some ⟨.valueError, []⟩) 0 refusedFirst).2 new := by
  refine ⟨⟨0, 1⟩, [⟨str "ob-1", str "q", str "a", some ⟨.valueError, []⟩⟩], rfl, by decide, rfl,
    by simp [Steady, PublishCall.accepted], fun h => ?_⟩
  have hpub := h.published (str "ob-2") ⟨str "b", str "q", 0, false, []⟩ rfl (by simp)
  cases hpub

end BabelQueue
