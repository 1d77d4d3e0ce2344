import BabelQueue.Outbox
import Mathlib.Algebra.Order.Ring.Rat

/-!
# The relay hands every row off once

* `Ledger marked w`: the rows against the calls of the transport, while the rows of `marked` are
  accepted and not marked yet.
* `flushRecords_spec`, `flush_spec`, `drain_spec`: what a batch, a flush and a drain do to the ledger.
* `relay_hands_off`: the ledger of every sequence of calls, with the tallies of the next flush or drain.
-/

namespace BabelQueue

open Py Py.Json

def PublishCall.accepted (c : PublishCall) : Bool := c.raised.isNone

/-- The accepted calls for a row. -/
def acceptedOf (id : Str) (calls : List PublishCall) : List PublishCall :=
  calls.filter fun c => c.row = id && c.accepted

/-- The failed calls for a row. -/
def failedOf (id : Str) (calls : List PublishCall) : List PublishCall :=
  calls.filter fun c => c.row = id && !c.accepted

/-- What `write` stored of each row. -/
def storedRows (store : InMemoryOutboxStore) : Dict (Str × Str) :=
  store.rows.mapValues fun row => (row.queue, row.body)

/-! ## The store -/

namespace InMemoryOutboxStore

variable {store : InMemoryOutboxStore} {f : OutboxRow → OutboxRow}

theorem get?_update (id k : Str) :
    (store.update id f).rows.get? k = if k = id then (store.rows.get? k).map f else store.rows.get? k := by
  unfold update
  split
  · next row h =>
    rw [Dict.get?_set]
    by_cases e : k = id
    · rw [if_pos e, if_pos e, e, h]; rfl
    · rw [if_neg e, if_neg e]
  · next h =>
    by_cases e : k = id
    · rw [if_pos e, e, h]; rfl
    · rw [if_neg e]

theorem sequence_update (id : Str) : (store.update id f).sequence = store.sequence := by
  unfold update
  split <;> rfl

/-- An update that keeps the queue and the body keeps what was stored. -/
theorem storedRows_update (id : Str) (hf : ∀ row, (f row).queue = row.queue ∧ (f row).body = row.body) :
    storedRows (store.update id f) = storedRows store := by
  unfold update
  split
  · next row h =>
    simp only [storedRows, Dict.mapValues_set, hf row]
    exact Dict.set_of_get? (by rw [Dict.get?_mapValues, h]; rfl)
  · rfl

theorem storedRows_markFailed (id error : Str) : storedRows (store.markFailed id error) = storedRows store :=
  storedRows_update id fun _ => ⟨rfl, rfl⟩

theorem storedRows_markPublished (ids : List Str) : storedRows (store.markPublished ids) = storedRows store := by
  unfold markPublished
  induction ids generalizing store with
  | nil => rfl
  | cons id ids ih =>
    rw [List.foldl_cons, ih]
    exact storedRows_update id fun _ => ⟨rfl, rfl⟩

theorem sequence_markPublished (ids : List Str) : (store.markPublished ids).sequence = store.sequence := by
  unfold markPublished
  induction ids generalizing store with
  | nil => rfl
  | cons id ids ih => rw [List.foldl_cons, ih, sequence_update]

theorem get?_markPublished (ids : List Str) (k : Str) :
    (store.markPublished ids).rows.get? k =
      (store.rows.get? k).map fun row => { row with published := row.published || decide (k ∈ ids) } := by
  unfold markPublished
  induction ids generalizing store with
  | nil => simp only [List.foldl_nil, List.not_mem_nil, decide_false, Bool.or_false]; exact Option.map_id'.symm
  | cons id ids ih =>
    rw [List.foldl_cons, ih, get?_update]
    by_cases e : k = id
    · cases store.rows.get? k <;> simp [e]
    · cases store.rows.get? k <;> simp [e]

/-- The records are those of some of the pending rows, in the order of the rows. -/
theorem fetchFrom_spec (limit : Int) (records : List OutboxRecord) (rows : Dict OutboxRow) :
    ∃ l : Dict OutboxRow, l.Sublist rows ∧ (∀ p ∈ l, p.2.published = false) ∧
      fetchFrom limit records rows = records ++ l.map fun p => p.2.record p.1 := by
  induction rows generalizing records with
  | nil => exact ⟨[], List.Sublist.refl _, by simp, by simp [fetchFrom]⟩
  | cons p rows ih =>
    obtain ⟨id, row⟩ := p
    rw [fetchFrom]
    split
    · obtain ⟨l, hl, hp, h⟩ := ih records
      exact ⟨l, hl.cons _, hp, h⟩
    · next hpub =>
      have hpub : row.published = false := by simpa using hpub
      split
      · exact ⟨[(id, row)], by simp, by simpa using hpub, by simp⟩
      · obtain ⟨l, hl, hp, h⟩ := ih (records ++ [row.record id])
        exact ⟨(id, row) :: l, hl.cons_cons _, by simpa [hpub] using hp, by rw [h]; simp⟩

end InMemoryOutboxStore

/-! ## The ledger -/

section Ledger

variable {δ : Type}

/-- The rows and the calls agree. The rows of `marked` are accepted, and not marked yet. -/
structure Ledger (marked : List Str) (w : OutboxWorld δ) : Prop where
  distinct : w.store.rows.Proper
  /-- The ids that come are new. -/
  numbered : ∀ id ∈ w.store.rows.keys, ∃ n ≤ w.store.sequence, id = str "ob-" ++ intText n
  /-- Every call is for a row, with what the row holds. -/
  known : ∀ c ∈ w.calls, (storedRows w.store).get? c.row = some (c.queue, c.body)
  /-- A row is accepted once if it is marked, or about to be, and never otherwise. -/
  accepted : ∀ id row, w.store.rows.get? id = some row →
    (acceptedOf id w.calls).length = if row.published ∨ id ∈ marked then 1 else 0
  attempts : ∀ id row, w.store.rows.get? id = some row → (failedOf id w.calls).length = row.attempts
  /-- An accepted row is not published again. -/
  settled : w.calls.Pairwise fun c c' => c.accepted = true → c'.row ≠ c.row

/-- A record that is due to be published. -/
structure Due (marked : List Str) (store : InMemoryOutboxStore) (record : OutboxRecord) : Prop where
  stored : (storedRows store).get? record.id = some (record.queue, record.body)
  pending : ∀ row, store.rows.get? record.id = some row → row.published = false
  unmarked : record.id ∉ marked

theorem keys_storedRows (store : InMemoryOutboxStore) : (storedRows store).keys = store.rows.keys :=
  Dict.keys_mapValues _ _

variable {marked : List Str} {w : OutboxWorld δ} {record : OutboxRecord}

/-- A call of the row `id`, appended. -/
theorem acceptedOf_append (id : Str) (calls : List PublishCall) (c : PublishCall) :
    acceptedOf id (calls ++ [c]) = acceptedOf id calls ++ if c.row = id ∧ c.accepted = true then [c] else [] := by
  rw [acceptedOf, List.filter_append]
  congr 1
  by_cases h : c.row = id ∧ c.accepted = true
  · simp [h.1, h.2]
  · rw [if_neg h]; simpa using h

theorem failedOf_append (id : Str) (calls : List PublishCall) (c : PublishCall) :
    failedOf id (calls ++ [c]) = failedOf id calls ++ if c.row = id ∧ c.accepted = false then [c] else [] := by
  rw [failedOf, List.filter_append]
  congr 1
  by_cases h : c.row = id ∧ c.accepted = false
  · simp [h.1, h.2]
  · rw [if_neg h]; simpa using h

/-- A call of a due record keeps accepted rows settled. -/
theorem Ledger.settled_snoc (h : Ledger marked w) (hd : Due marked w.store record) {c : PublishCall}
    (hc : c.row = record.id) : (w.calls ++ [c]).Pairwise fun c c' => c.accepted = true → c'.row ≠ c.row := by
  refine List.pairwise_append.mpr ⟨h.settled, by simp, fun c' hc' c'' hc'' hacc e => ?_⟩
  rw [List.mem_singleton.mp hc'', hc] at e
  have hstored := hd.stored
  rw [storedRows, Dict.get?_mapValues] at hstored
  obtain ⟨row, hrow, -⟩ := Option.map_eq_some_iff.mp hstored
  have hnone := h.accepted record.id row hrow
  rw [if_neg (by simp [hd.pending row hrow, hd.unmarked]), List.length_eq_zero_iff] at hnone
  have : c' ∈ acceptedOf record.id w.calls := List.mem_filter.mpr ⟨hc', by simp [e, hacc]⟩
  rw [hnone] at this
  cases this

/-- An accepted call. -/
theorem Ledger.accept (h : Ledger marked w) (hd : Due marked w.store record) :
    Ledger (marked ++ [record.id])
      { w with calls := w.calls ++ [⟨record.id, record.queue, record.body, none⟩] } where
  distinct := h.distinct
  numbered := h.numbered
  known c hc := by
    rcases List.mem_append.mp hc with hc | hc
    · exact h.known c hc
    · rw [List.mem_singleton.mp hc]; exact hd.stored
  accepted id row hr := by
    have hid := h.accepted id row hr
    rw [acceptedOf_append]
    by_cases e : record.id = id
    · have hpub := hd.pending row (e ▸ hr)
      have hun : id ∉ marked := e ▸ hd.unmarked
      rw [hpub] at hid ⊢
      simp only [Bool.false_eq_true, false_or, if_neg hun] at hid
      simp [e, hid, PublishCall.accepted]
    · simp [e, hid, Ne.symm e]
  attempts id row hr := by
    rw [failedOf_append, if_neg (by simp [PublishCall.accepted]), List.append_nil]
    exact h.attempts id row hr
  settled := h.settled_snoc hd rfl

/-- A failed call, with its row marked failed. -/
theorem Ledger.fail (h : Ledger marked w) (hd : Due marked w.store record) (e : PyExc) (error : Str) (slept : List δ) :
    Ledger marked ⟨w.store.markFailed record.id error, w.calls ++ [⟨record.id, record.queue, record.body, some e⟩],
      slept⟩ := by
  have hget : ∀ k, (w.store.update record.id fun row =>
        { row with attempts := row.attempts + 1, error := error }).rows.get? k =
      if k = record.id then
        (w.store.rows.get? k).map fun row => { row with attempts := row.attempts + 1, error := error }
      else w.store.rows.get? k := fun k => InMemoryOutboxStore.get?_update record.id k
  have hkeys : (w.store.markFailed record.id error).rows.keys = w.store.rows.keys := by
    rw [← keys_storedRows, InMemoryOutboxStore.storedRows_markFailed, keys_storedRows]
  refine ⟨?_, ?_, ?_, ?_, ?_, h.settled_snoc hd rfl⟩
  · rw [Dict.Proper, hkeys]; exact h.distinct
  · rw [hkeys, InMemoryOutboxStore.markFailed, InMemoryOutboxStore.sequence_update]; exact h.numbered
  · intro c hc
    rw [InMemoryOutboxStore.storedRows_markFailed]
    rcases List.mem_append.mp hc with hc | hc
    · exact h.known c hc
    · rw [List.mem_singleton.mp hc]; exact hd.stored
  · intro id row hr
    rw [acceptedOf_append, if_neg (by simp [PublishCall.accepted]), List.append_nil]
    rw [InMemoryOutboxStore.markFailed, hget] at hr
    split at hr
    · obtain ⟨row', hr', rfl⟩ := Option.map_eq_some_iff.mp hr
      exact h.accepted id row' hr'
    · exact h.accepted id row hr
  · intro id row hr
    rw [failedOf_append]
    rw [InMemoryOutboxStore.markFailed, hget] at hr
    by_cases e : id = record.id
    · rw [if_pos e] at hr
      obtain ⟨row', hr', rfl⟩ := Option.map_eq_some_iff.mp hr
      rw [if_pos ⟨e.symm, rfl⟩, List.length_append, h.attempts id row' hr']
      rfl
    · rw [if_neg e] at hr
      rw [if_neg (by simp [Ne.symm e]), List.append_nil, h.attempts id row hr]

/-- The marks catch up. -/
theorem Ledger.mark (h : Ledger marked w) : Ledger [] { w with store := w.store.markPublished marked } := by
  have hkeys : (w.store.markPublished marked).rows.keys = w.store.rows.keys := by
    rw [← keys_storedRows, InMemoryOutboxStore.storedRows_markPublished, keys_storedRows]
  refine ⟨?_, ?_, ?_, ?_, ?_, h.settled⟩
  · rw [Dict.Proper, hkeys]; exact h.distinct
  · rw [hkeys, InMemoryOutboxStore.sequence_markPublished]; exact h.numbered
  · rw [InMemoryOutboxStore.storedRows_markPublished]; exact h.known
  · intro id row hr
    rw [InMemoryOutboxStore.get?_markPublished] at hr
    obtain ⟨row', hr', rfl⟩ := Option.map_eq_some_iff.mp hr
    rw [h.accepted id row' hr']
    simp
  · intro id row hr
    rw [InMemoryOutboxStore.get?_markPublished] at hr
    obtain ⟨row', hr', rfl⟩ := Option.map_eq_some_iff.mp hr
    exact h.attempts id row' hr'

theorem Ledger.row_mem (h : Ledger marked w) {c : PublishCall} (hc : c ∈ w.calls) : c.row ∈ w.store.rows.keys := by
  rw [← keys_storedRows]
  by_contra hn
  have := h.known c hc
  rw [Dict.get?_eq_none_iff.mpr hn] at this
  cases this

/-- The id of the next row. -/
def nextId (store : InMemoryOutboxStore) : Str := str "ob-" ++ intText (store.sequence + 1 : Nat)

theorem Ledger.nextId_not_mem (h : Ledger marked w) : nextId w.store ∉ w.store.rows.keys := by
  intro hmem
  obtain ⟨n, hn, e⟩ := h.numbered _ hmem
  have hd : digits (w.store.sequence + 1) = digits n := List.append_cancel_left e
  have := congrArg natOfDigits hd
  simp only [natOfDigits_digits] at this
  omega

/-- A row comes in. -/
theorem Ledger.insert (h : Ledger [] w) (encoded queue : Str) :
    Ledger [] { w with store :=
      ⟨w.store.rows.set (nextId w.store) ⟨encoded, queue, 0, false, []⟩, w.store.sequence + 1⟩ } := by
  have hnew := h.nextId_not_mem
  have hcalls : ∀ c ∈ w.calls, c.row ≠ nextId w.store := fun c hc e => hnew (e ▸ h.row_mem hc)
  refine ⟨h.distinct.set _ _, ?_, ?_, ?_, ?_, h.settled⟩
  · intro id hid
    rw [Dict.keys_set, if_neg hnew] at hid
    rcases List.mem_append.mp hid with hid | hid
    · obtain ⟨n, hn, e⟩ := h.numbered id hid
      exact ⟨n, Nat.le_succ_of_le hn, e⟩
    · exact ⟨_, le_rfl, List.mem_singleton.mp hid⟩
  · intro c hc
    rw [storedRows, Dict.mapValues_set, Dict.get?_set_of_ne _ _ (hcalls c hc)]
    exact h.known c hc
  · intro id row hr
    rw [Dict.get?_set] at hr
    split at hr
    · next e =>
      cases hr
      have : acceptedOf id w.calls = [] := List.filter_eq_nil_iff.mpr fun c hc => by simp [e, hcalls c hc]
      simp [this]
    · exact h.accepted id row hr
  · intro id row hr
    rw [Dict.get?_set] at hr
    split at hr
    · next e =>
      cases hr
      have : failedOf id w.calls = [] := List.filter_eq_nil_iff.mpr fun c hc => by simp [e, hcalls c hc]
      simp [this]
    · exact h.attempts id row hr

/-- A number is used up without a row. -/
theorem Ledger.skip (h : Ledger [] w) : Ledger [] { w with store := { w.store with sequence := w.store.sequence + 1 } } :=
  ⟨h.distinct, fun id hid => (h.numbered id hid).imp fun _ hn => ⟨Nat.le_succ_of_le hn.1, hn.2⟩, h.known, h.accepted,
    h.attempts, h.settled⟩

end Ledger

/-! ## Flushing -/

section Flush

variable {δ : Type} [LinearOrder δ] [Zero δ] [Mul δ] [NatCast δ] {answer : Nat → Option PyExc} {relay : OutboxRelay δ}

/-- The calls of some passes over the rows: each has the oldest rows first, and the tally counts them. -/
structure Tallied (rows : List Str) (passes : List (List PublishCall)) (result : OutboxRelayResult) : Prop where
  oldest_first : ∀ pass ∈ passes, (pass.map PublishCall.row).Sublist rows
  published : result.published = passes.flatten.countP PublishCall.accepted
  failed : result.failed = passes.flatten.countP fun c => !c.accepted

/-- What a relay did: the new calls, the store's rows as they were stored, and the ledger. -/
structure Relayed (marked : List Str) (w w' : OutboxWorld δ) (new : List PublishCall) : Prop where
  calls : w'.calls = w.calls ++ new
  stored : storedRows w'.store = storedRows w.store
  ledger : Ledger marked w'

/-- Whatever a call raises, `flush` catches. -/
def Catchable (answer : Nat → Option PyExc) : Prop := ∀ n e, answer n = some e → e.isException = true

omit [Mul δ] [NatCast δ] in
theorem sleep_run (seconds : δ) (w : OutboxWorld δ) :
    ∃ slept, OutboxRelay.sleep seconds w = (.ok (), { w with slept }) := by
  unfold OutboxRelay.sleep
  split
  · exact ⟨_, rfl⟩
  · exact ⟨_, rfl⟩

variable (relay) in
/-- One record: a call, and what follows from the answer. -/
theorem flushRecord_spec (ha : Catchable answer) {marked : List Str} {w : OutboxWorld δ} {record : OutboxRecord}
    (h : Ledger marked w) (hd : Due marked w.store record) :
    ∃ c w', c.row = record.id ∧ relay.flushRecord answer record w = (.ok c.accepted, w') ∧
      Relayed (if c.accepted then marked ++ [record.id] else marked) w w' [c] ∧
      ∀ id, id ≠ record.id → w'.store.rows.get? id = w.store.rows.get? id := by
  cases hans : answer w.calls.length with
  | none =>
    have hpub : OutboxRelay.publish answer record w =
        (.ok (), { w with calls := w.calls ++ [⟨record.id, record.queue, record.body, none⟩] }) := by
      rw [OutboxRelay.publish, hans]; rfl
    refine ⟨⟨record.id, record.queue, record.body, none⟩,
      { w with calls := w.calls ++ [⟨record.id, record.queue, record.body, none⟩] }, rfl, ?_,
      ⟨rfl, rfl, h.accept hd⟩, fun _ _ => rfl⟩
    exact Act.tryExcept_run_ok (Act.bind_run_ok hpub)
  | some e =>
    have hpub : OutboxRelay.publish answer record w =
        (.error e, { w with calls := w.calls ++ [⟨record.id, record.queue, record.body, some e⟩] }) := by
      rw [OutboxRelay.publish, hans]; rfl
    obtain ⟨slept, hsleep⟩ := sleep_run (relay.backoffFor record.attempts)
      ⟨w.store.markFailed record.id (OutboxRelay.reason e),
        w.calls ++ [⟨record.id, record.queue, record.body, some e⟩], w.slept⟩
    refine ⟨⟨record.id, record.queue, record.body, some e⟩,
      ⟨w.store.markFailed record.id (OutboxRelay.reason e), _, slept⟩, rfl, ?_,
      ⟨rfl, InMemoryOutboxStore.storedRows_markFailed _ _, h.fail hd e _ _⟩, fun id hid => ?_⟩
    · refine (Act.tryExcept_run_error (Act.bind_run_error hpub)).trans ?_
      rw [if_pos (by rw [isAny_exception]; exact ha _ _ hans), Act.bind_run_ok (Act.modify_run _ _),
        Act.bind_run_ok hsleep]
      rfl
    · exact (InMemoryOutboxStore.get?_update _ _).trans (if_neg hid)

omit [LinearOrder δ] [Zero δ] [Mul δ] [NatCast δ] in
/-- The records that are left stay due. -/
theorem Due.next {marked marked' : List Str} {w w' : OutboxWorld δ} {new : List PublishCall} {record record' : OutboxRecord}
    (hd : Due marked w.store record') (hr : Relayed marked' w w' new) (hne : record'.id ≠ record.id)
    (hm : ∀ id ∈ marked', id ∈ marked ∨ id = record.id)
    (hrows : ∀ id, id ≠ record.id → w'.store.rows.get? id = w.store.rows.get? id) : Due marked' w'.store record' where
  stored := hr.stored ▸ hd.stored
  pending row h := hd.pending row (hrows _ hne ▸ h)
  unmarked hmem := (hm _ hmem).elim hd.unmarked hne

variable (relay) in
theorem flushRecords_spec (ha : Catchable answer) {records : List OutboxRecord} {marked : List Str} (failed : Nat)
    {w : OutboxWorld δ} (h : Ledger marked w) (hids : (records.map OutboxRecord.id).Nodup)
    (hd : ∀ record ∈ records, Due marked w.store record) :
    ∃ ids new w', relay.flushRecords answer records marked failed w =
        (.ok (marked ++ ids, failed + new.countP fun c => !c.accepted), w') ∧
      new.map PublishCall.row = records.map OutboxRecord.id ∧ ids.length = new.countP PublishCall.accepted ∧
      Relayed (marked ++ ids) w w' new := by
  induction records generalizing marked failed w with
  | nil =>
    refine ⟨[], [], w, by simp [OutboxRelay.flushRecords], rfl, rfl, ⟨by simp, rfl, ?_⟩⟩
    rw [List.append_nil]; exact h
  | cons record records ih =>
    obtain ⟨hnot, hids⟩ := List.nodup_cons.mp hids
    obtain ⟨c, w₁, hrow, hrun, hr, hrows⟩ := flushRecord_spec relay ha h (hd record List.mem_cons_self)
    have hne : ∀ record' ∈ records, record'.id ≠ record.id := fun record' hm e => hnot (e ▸ List.mem_map_of_mem hm)
    rw [OutboxRelay.flushRecords, Act.bind_run_ok hrun]
    cases hacc : c.accepted with
    | true =>
      rw [hacc, if_pos rfl] at hr
      rw [if_pos rfl]
      obtain ⟨ids, new, w', hrun', hmap, hlen, hr'⟩ := ih failed hr.ledger hids fun record' hm =>
        (hd record' (List.mem_cons_of_mem _ hm)).next hr (hne record' hm) (by simp) hrows
      refine ⟨record.id :: ids, c :: new, w', ?_, by rw [List.map_cons, hmap, hrow, List.map_cons], ?_, ?_⟩
      · simpa [hacc] using hrun'
      · simp [hlen, hacc]
      · exact ⟨by rw [hr'.calls, hr.calls]; simp, hr'.stored.trans hr.stored, by simpa using hr'.ledger⟩
    | false =>
      rw [hacc, if_neg (by simp)] at hr
      rw [if_neg (by simp)]
      obtain ⟨ids, new, w', hrun', hmap, hlen, hr'⟩ := ih (failed + 1) hr.ledger hids fun record' hm =>
        (hd record' (List.mem_cons_of_mem _ hm)).next hr (hne record' hm) (fun _ => .inl) hrows
      refine ⟨ids, c :: new, w', ?_, by rw [List.map_cons, hmap, hrow, List.map_cons], by simp [hlen, hacc], ?_⟩
      · rw [hrun', List.countP_cons_of_pos (by simp [hacc]), Nat.add_assoc, Nat.add_comm 1]
      · exact ⟨by rw [hr'.calls, hr.calls]; simp, hr'.stored.trans hr.stored, hr'.ledger⟩

variable (relay) in
/-- A flush from a ledger in order. -/
theorem flush_spec (ha : Catchable answer) {w : OutboxWorld δ} (h : Ledger [] w) :
    ∃ new w' result, relay.flush answer w = (.ok result, w') ∧ Relayed [] w w' new ∧
      Tallied w.store.rows.keys [new] result := by
  obtain ⟨l, hl, hpend, hfetch⟩ := InMemoryOutboxStore.fetchFrom_spec relay.batchSize [] w.store.rows
  rw [List.nil_append] at hfetch
  have hkeys : (l.map fun p => p.2.record p.1).map OutboxRecord.id = l.keys := by
    simp [Dict.keys, OutboxRow.record, Function.comp_def]
  have hsub : l.keys.Sublist w.store.rows.keys := hl.map _
  have hdue : ∀ record ∈ l.map fun p => p.2.record p.1, Due [] w.store record := by
    intro record hm
    obtain ⟨p, hp, rfl⟩ := List.mem_map.mp hm
    have hget : w.store.rows.get? p.1 = some p.2 := Dict.get?_of_mem h.distinct (hl.subset hp)
    refine ⟨?_, fun row hr => ?_, by simp⟩
    · rw [storedRows, Dict.get?_mapValues]
      simp [OutboxRow.record, hget]
    · rw [OutboxRow.record, hget] at hr
      cases hr
      exact hpend p hp
  obtain ⟨ids, new, w₁, hrun, hmap, hlen, hr⟩ := flushRecords_spec relay ha 0 h
    (hkeys ▸ h.distinct.sublist hsub) hdue
  rw [List.nil_append] at hrun hr
  have hmark : (if ids = [] then w₁ else { w₁ with store := w₁.store.markPublished ids }) =
      { w₁ with store := w₁.store.markPublished ids } := by
    split
    · next e => rw [e]; rfl
    · rfl
  refine ⟨new, { w₁ with store := w₁.store.markPublished ids }, ⟨ids.length, new.countP fun c => !c.accepted⟩, ?_,
    ⟨hr.calls, ?_, hr.ledger.mark⟩, ⟨?_, by simpa using hlen, by simp⟩⟩
  · unfold OutboxRelay.flush InMemoryOutboxStore.fetchUnpublished
    rw [Act.bind_run_ok (Act.get_run w), hfetch, Act.bind_run_ok hrun]
    dsimp only
    rw [Act.bind_run_ok (Act.modify_run _ _), hmark, Act.pure_run, Nat.zero_add]
  · exact (InMemoryOutboxStore.storedRows_markPublished ids).trans hr.stored
  · intro pass hpass
    rw [List.mem_singleton.mp hpass, hmap, hkeys]
    exact hsub

variable (relay) in
theorem drainPasses_spec (ha : Catchable answer) {w : OutboxWorld δ} (h : Ledger [] w) (n : Nat)
    (total : OutboxRelayResult) :
    ∃ passes w' result, relay.drainPasses answer n total w =
        (.ok ⟨total.published + result.published, total.failed + result.failed⟩, w') ∧
      Relayed [] w w' passes.flatten ∧ Tallied w.store.rows.keys passes result := by
  induction n generalizing w total with
  | zero => exact ⟨[], w, ⟨0, 0⟩, rfl, ⟨by simp, rfl, h⟩, ⟨by simp, rfl, rfl⟩⟩
  | succ n ih =>
    obtain ⟨new, w₁, result, hrun, hr, ht⟩ := flush_spec relay ha h
    rw [OutboxRelay.drainPasses, Act.bind_run_ok hrun]
    by_cases hz : result.published = 0
    · rw [if_pos hz]
      exact ⟨[new], w₁, result, rfl, by simpa using hr, ht⟩
    · rw [if_neg hz]
      obtain ⟨passes, w', result', hrun', hr', ht'⟩ := ih hr.ledger
        ⟨total.published + result.published, total.failed + result.failed⟩
      have hrows : w₁.store.rows.keys = w.store.rows.keys := by
        rw [← keys_storedRows, hr.stored, keys_storedRows]
      refine ⟨new :: passes, w', ⟨result.published + result'.published, result.failed + result'.failed⟩, ?_,
        ⟨by rw [hr'.calls, hr.calls]; simp, hr'.stored.trans hr.stored, hr'.ledger⟩, ⟨?_, ?_, ?_⟩⟩
      · rw [hrun', Nat.add_assoc, Nat.add_assoc]
      · intro pass hpass
        rcases List.mem_cons.mp hpass with rfl | hpass
        · exact ht.oldest_first _ (by simp)
        · exact hrows ▸ ht'.oldest_first _ hpass
      · have := ht.published
        simp only [List.flatten_cons, List.flatten_nil, List.append_nil] at this
        rw [List.flatten_cons, List.countP_append, ← this, ht'.published]
      · have := ht.failed
        simp only [List.flatten_cons, List.flatten_nil, List.append_nil] at this
        rw [List.flatten_cons, List.countP_append, ← this, ht'.failed]

variable (relay) in
/-- A drain from a ledger in order. -/
theorem drain_spec (ha : Catchable answer) {w : OutboxWorld δ} (h : Ledger [] w) (maxPasses : Int) :
    ∃ passes w' result, relay.drain answer maxPasses w = (.ok result, w') ∧ Relayed [] w w' passes.flatten ∧
      Tallied w.store.rows.keys passes result := by
  obtain ⟨passes, w', result, hrun, hr, ht⟩ := drainPasses_spec relay ha h
    (if maxPasses > 0 then maxPasses.toNat else defaultDrainCeiling) ⟨0, 0⟩
  refine ⟨passes, w', result, ?_, hr, ht⟩
  unfold OutboxRelay.drain
  rw [hrun]
  simp

end Flush

/-! ## Sequences of calls -/

section Run

variable [Interpreter]

/-- What `write` leaves: no row, or a new row with the encoded envelope. -/
theorem write_cases (envelope : Dict Json) (store : InMemoryOutboxStore) :
    (∃ e, Outbox.write envelope store = (.error e, store) ∨
      Outbox.write envelope store = (.error e, { store with sequence := store.sequence + 1 })) ∨
    ∃ encoded, encode envelope = .ok encoded ∧ Outbox.write envelope store = (.ok (nextId store),
      ⟨store.rows.set (nextId store) ⟨encoded, Outbox.queueOf envelope, 0, false, []⟩, store.sequence + 1⟩) := by
  unfold Outbox.write
  cases henc : encode envelope with
  | error e => exact .inl ⟨e, .inl (Act.bind_run_error (Act.lift_run _ _))⟩
  | ok encoded =>
    rw [Act.bind_run_ok (Act.lift_run _ _)]
    unfold InMemoryOutboxStore.save
    rw [Act.bind_run_ok (Act.modify_run _ _), Act.bind_run_ok (Act.get_run _)]
    cases hnum : intStr (store.sequence + 1 : Nat) with
    | error e =>
      exact .inl ⟨e, .inr (Act.bind_run_error (Act.lift_run _ _))⟩
    | ok number =>
      obtain rfl := (intStr_eq_ok_iff.mp hnum).2
      exact .inr ⟨encoded, rfl, (Act.bind_run_ok (Act.lift_run _ _)).trans rfl⟩

variable {δ : Type} [LinearOrder δ] [Zero δ] [Mul δ] [NatCast δ] {answer : Nat → Option PyExc}

theorem OutboxOp.step_spec (ha : Catchable answer) {r : OutboxRun δ} (h : Ledger [] r.world)
    (hw : storedRows r.world.store = r.written) (op : OutboxOp δ) :
    Ledger [] (op.step answer r).world ∧ storedRows (op.step answer r).world.store = (op.step answer r).written := by
  cases op with
  | write envelope =>
    unfold OutboxOp.step
    rcases write_cases envelope r.world.store with ⟨e, hrun | hrun⟩ | ⟨encoded, henc, hrun⟩
    · simp only [hrun]; exact ⟨h, hw⟩
    · simp only [hrun]; exact ⟨h.skip, hw⟩
    · simp only [hrun, henc]
      refine ⟨h.insert encoded _, ?_⟩
      have hnew : nextId r.world.store ∉ (storedRows r.world.store).keys := by
        rw [keys_storedRows]; exact h.nextId_not_mem
      rw [storedRows, Dict.mapValues_set, ← hw]
      exact Dict.set_of_not_mem hnew _
  | flush relay =>
    obtain ⟨new, w', result, hrun, hr, -⟩ := flush_spec relay ha h
    unfold OutboxOp.step
    simp only [hrun]
    exact ⟨hr.ledger, hr.stored.trans hw⟩
  | drain relay maxPasses =>
    obtain ⟨passes, w', result, hrun, hr, -⟩ := drain_spec relay ha h maxPasses
    unfold OutboxOp.step
    simp only [hrun]
    exact ⟨hr.ledger, hr.stored.trans hw⟩

theorem runOutbox_spec (ha : Catchable answer) (ops : List (OutboxOp δ)) :
    Ledger [] (runOutbox answer ops).world ∧
      storedRows (runOutbox answer ops).world.store = (runOutbox answer ops).written := by
  have hinit : Ledger [] (OutboxRun.init : OutboxRun δ).world :=
    ⟨List.nodup_nil, by rintro id ⟨⟩, by rintro c ⟨⟩, by rintro id row ⟨⟩, by rintro id row ⟨⟩,
      List.Pairwise.nil⟩
  rw [runOutbox]
  exact List.foldlRecOn (motive := fun r : OutboxRun δ => Ledger [] r.world ∧ storedRows r.world.store = r.written)
    ops _ ⟨hinit, rfl⟩ fun r hr op _ => OutboxOp.step_spec ha hr.1 hr.2 op

/-- The rows and what the transport saw of them. -/
structure HandedOff (r : OutboxRun δ) : Prop where
  distinct : r.written.Proper
  /-- A row is accepted at most once, and then as it was written. -/
  once : ∀ id queue body, (id, queue, body) ∈ r.written →
    acceptedOf id r.world.calls = [] ∨ acceptedOf id r.world.calls = [⟨id, queue, body, none⟩]
  /-- Nothing but rows is published. -/
  known : ∀ c ∈ r.world.calls, (c.row, c.queue, c.body) ∈ r.written
  /-- The rows in the store are the rows that were written. -/
  stored : storedRows r.world.store = r.written
  /-- A row is marked when it is accepted. -/
  published : ∀ id row, r.world.store.rows.get? id = some row →
    (row.published = true ↔ ∃ c ∈ r.world.calls, c.row = id ∧ c.raised = none)
  /-- A row counts its failed calls. -/
  attempts : ∀ id row, r.world.store.rows.get? id = some row → row.attempts = (failedOf id r.world.calls).length
  /-- No call for a row follows its accepted one: a row whose call failed was pending, and stays so. -/
  settled : r.world.calls.Pairwise fun c c' => c.accepted = true → c'.row ≠ c.row

omit [Interpreter] in
theorem acceptedOf_eq_nil_iff {id : Str} {calls : List PublishCall} :
    acceptedOf id calls = [] ↔ ¬ ∃ c ∈ calls, c.row = id ∧ c.raised = none := by
  simp [acceptedOf, PublishCall.accepted, List.filter_eq_nil_iff]

omit [Interpreter] [LinearOrder δ] [Zero δ] [Mul δ] [NatCast δ] in
theorem handedOff_of_ledger {r : OutboxRun δ} (h : Ledger [] r.world) (hw : storedRows r.world.store = r.written) :
    HandedOff r := by
  have hproper : r.written.Proper := by rw [← hw, Dict.Proper, keys_storedRows]; exact h.distinct
  have hlen : ∀ id row, r.world.store.rows.get? id = some row →
      (acceptedOf id r.world.calls).length = if row.published = true then 1 else 0 := by
    intro id row hr
    rw [h.accepted id row hr]
    simp
  refine ⟨hproper, fun id queue body hm => ?_, fun c hc => ?_, hw, fun id row hr => ?_, fun id row hr => ?_, h.settled⟩
  · have hget : (storedRows r.world.store).get? id = some (queue, body) := by
      rw [hw]; exact Dict.get?_of_mem hproper hm
    have hget' := hget
    rw [storedRows, Dict.get?_mapValues] at hget'
    obtain ⟨row, hrow, -⟩ := Option.map_eq_some_iff.mp hget'
    have := hlen id row hrow
    split at this
    · obtain ⟨c, hc⟩ := List.length_eq_one_iff.mp this
      have hmem : c ∈ acceptedOf id r.world.calls := by rw [hc]; simp
      obtain ⟨hcalls, hp⟩ := List.mem_filter.mp hmem
      simp only [Bool.and_eq_true, decide_eq_true_eq, PublishCall.accepted, Option.isNone_iff_eq_none] at hp
      have hknown := h.known c hcalls
      rw [hp.1, hget] at hknown
      simp only [Option.some.injEq, Prod.mk.injEq] at hknown
      obtain ⟨c_row, c_queue, c_body, c_raised⟩ := c
      obtain ⟨rfl, rfl⟩ := hp
      obtain ⟨rfl, rfl⟩ := hknown
      exact .inr hc
    · exact .inl (List.eq_nil_of_length_eq_zero this)
  · rw [← hw]
    exact Dict.mem_of_get? (h.known c hc)
  · have := hlen id row hr
    rw [← not_iff_not, ← acceptedOf_eq_nil_iff, ← List.length_eq_zero_iff, this]
    simp
  · exact (h.attempts id row hr).symm

/-- In every sequence of calls, with a transport that raises as it likes, every row is handed off at
most once and verbatim; and whichever relay comes next returns the tally of its own calls. -/
theorem relay_hands_off (ha : Catchable answer) (ops : List (OutboxOp δ)) :
    HandedOff (runOutbox answer ops) ∧
    (∀ relay : OutboxRelay δ, ∃ new w' result, relay.flush answer (runOutbox answer ops).world = (.ok result, w') ∧
      w'.calls = (runOutbox answer ops).world.calls ++ new ∧
      Tallied (runOutbox answer ops).written.keys [new] result) ∧
    ∀ (relay : OutboxRelay δ) (maxPasses : Int), ∃ passes w' result,
      relay.drain answer maxPasses (runOutbox answer ops).world = (.ok result, w') ∧
      w'.calls = (runOutbox answer ops).world.calls ++ passes.flatten ∧
      Tallied (runOutbox answer ops).written.keys passes result := by
  obtain ⟨h, hw⟩ := runOutbox_spec ha ops
  have hkeys : (runOutbox answer ops).written.keys = (runOutbox answer ops).world.store.rows.keys := by
    rw [← hw, keys_storedRows]
  rw [hkeys]
  refine ⟨handedOff_of_ledger h hw, fun relay => ?_, fun relay maxPasses => ?_⟩
  · obtain ⟨new, w', result, hrun, hr, ht⟩ := flush_spec relay ha h
    exact ⟨new, w', result, hrun, hr.calls, ht⟩
  · obtain ⟨passes, w', result, hrun, hr, ht⟩ := drain_spec relay ha h maxPasses
    exact ⟨passes, w', result, hrun, hr.calls, ht⟩

end Run

section CPython

attribute [local instance] cpython

/-- Two rows, a flush with a failure and a drain. -/
theorem relay_hands_off_twice : HandedOff (runOutbox (δ := ℚ) (fun n => if n = 1 then some ⟨.valueError, []⟩ else none)
    [.write [(str "job", .str (str "a"))], .write [(str "job", .str (str "b"))], .flush ⟨1, 1 / 20, 5⟩,
      .drain ⟨100, 1 / 20, 5⟩ 0]) :=
  (relay_hands_off (fun n e h => by
    split at h
    · cases h; decide
    · cases h) _).1

end CPython

end BabelQueue
