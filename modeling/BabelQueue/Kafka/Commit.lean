import BabelQueue.Kafka.Books
import BabelQueue.Kafka.Settle

/-!
# Commits never pass a record that is not settled

The calls of `KafkaTransport` over a broker, in every order.

* `ack_spec`, `rewind_spec`, `pop_spec`, `popBatch_spec`, `redeliver_spec`: what each method does to `Accounts`.
* `Calls`: a run of calls, with the records that were acked.
* `commits_safe`: what holds of the committed offsets in each state of a run.
-/

namespace BabelQueue.Kafka.KafkaTransport

open Py

section Invariant

variable {logs : Logs} {start base : TopicPartition → Int} {A : List Effect → Message → Prop} {s : Polling Broker}
  {q : Str} {m : ReceivedMessage Handle}

/-! ## The methods -/

/-- The invariant holds, and the records in flight are those of `B`. -/
def At (logs : Logs) (start base : TopicPartition → Int) (A : List Effect → Message → Prop) (B : Str → List Handle)
    (s : Polling Broker) : Prop :=
  Accounts logs start base A s ∧ s.pending = B

/-- What is in flight without the handle. -/
def without (B : Str → List Handle) (q : Str) (h : Handle) : Str → List Handle :=
  Function.update B q ((B q).filter fun h' => h'.serial ≠ h.serial)

variable {B : Str → List Handle}

theorem At.clients (h : At logs start base A B s) {b : Broker} (hs : Accounts logs start base A { s with clients := b }) :
    At logs start base A B { s with clients := b } := ⟨hs, h.2⟩

theorem At.quiet (h : At logs start base A B s) :
    At logs start base A B { s with clients := { s.clients with calls := s.clients.calls + 1 } } :=
  h.clients (h.1.quiet rfl rfl rfl rfl)

theorem commit_commits {gone : List Handle} {top : Handle} (htop : top ∈ highest gone) :
    Commits s gone (Broker.commit top.record s.clients).2 := by
  unfold Broker.commit
  rw [Act.bind_run_ok (show Broker.ask s.clients = (.ok _, _) from rfl)]
  cases hraises : (s.clients.replies s.clients.calls).raises with
  | none => exact ⟨rfl, .inr ⟨top, htop, rfl, rfl, rfl⟩⟩
  | some e =>
    dsimp only
    rw [Act.bind_run_ok (Act.modify_run _ _), Act.raise_run]
    split
    · exact ⟨rfl, .inr ⟨top, htop, rfl, rfl, rfl⟩⟩
    · exact ⟨rfl, .inl ⟨rfl, rfl, .inl rfl⟩⟩

theorem commit_raises {record : Message} {b b' : Broker} {e : PyExc} (h : Broker.commit record b = (.error e, b')) :
    e.isException = true := by
  unfold Broker.commit at h
  rw [Act.bind_run_ok (show Broker.ask b = (.ok _, _) from rfl)] at h
  cases hraises : (b.replies b.calls).raises with
  | none =>
    rw [hraises] at h
    cases h
  | some x =>
    rw [hraises] at h
    dsimp only at h
    rw [Act.bind_run_ok (Act.modify_run _ _), Act.raise_run] at h
    cases h
    exact x.2

theorem ack_spec (hgrows : Grows A) (hh : m.handle ∈ B m.queue) :
    Triple (fun s => At logs start base A B s ∧ A s.clients.effects m.handle.record)
      (ack (Broker.clients logs) m) (fun _ => At logs start base A (without B m.queue m.handle))
      fun e s => e.isException = true ∧ At logs start base A (without B m.queue m.handle) s := by
  rintro s ⟨⟨hs, rfl⟩, hA⟩
  have hrun : ack (Broker.clients logs) m s =
      commitTop (Broker.clients logs) m.queue (highest (s.covered m.queue m.handle)) (s.settle m.queue m.handle) := rfl
  rw [hrun]
  cases htop : highest (s.covered m.queue m.handle) with
  | none => exact ⟨hs.settle hgrows hh hA ⟨rfl, .inl ⟨rfl, rfl, .inr ⟨List.argmax_eq_none.mp htop, rfl⟩⟩⟩, rfl⟩
  | some top =>
    have hdone := hs.settle hgrows hh hA (commit_commits htop)
    unfold commitTop Polling.call
    dsimp only [Polling.settle, Polling.setBooks, Broker.clients]
    cases hcommit : Broker.commit top.record s.clients with
    | mk r b =>
      rw [hcommit] at hdone
      cases r with
      | ok _ => exact ⟨hdone, rfl⟩
      | error e => exact ⟨commit_raises hcommit, hdone, rfl⟩

theorem rewind_spec (hh : m.handle ∈ B m.queue) :
    Triple (At logs start base A B) (rewind (Broker.clients logs) m)
      (fun _ => At logs start base A (Function.update B m.queue (keptBefore m.handle.place m.handle.offset (B m.queue))))
      fun _ _ => False := by
  rintro s ⟨hs, rfl⟩
  exact ⟨hs.rewind hh, rfl⟩

/-! ### What a pop gives up -/

theorem nodup_eraseDups {α : Type} [DecidableEq α] (l : List α) : l.eraseDups.Nodup := by
  induction l using List.reverseRecOn with
  | nil => simp
  | append_singleton l x ih =>
    rw [List.eraseDups_append]
    by_cases hx : x ∈ l
    · simpa [List.removeAll, hx] using ih
    · have hlast : ([x].removeAll l).eraseDups = [x] := by simp [List.removeAll, hx, List.eraseDups_cons]
      rw [hlast, List.nodup_append]
      refine ⟨ih, List.nodup_singleton x, fun y hy z hz => ?_⟩
      rintro rfl
      exact hx (List.mem_singleton.mp hz ▸ List.mem_eraseDups.mp hy)

/-- Each partition in flight once, with its lowest handle. -/
structure Lowest (pending : List Handle) (l : List (TopicPartition × Handle)) : Prop where
  once : l.Pairwise fun e e' => e.1 ≠ e'.1
  lowest : ∀ e ∈ l, e.2 ∈ pending ∧ e.2.place = e.1 ∧ ∀ z ∈ pending, z.place = e.1 → e.2.offset ≤ z.offset
  all : ∀ z ∈ pending, ∃ e ∈ l, e.1 = z.place

theorem lowestOf_lowest (pending : List Handle) : Lowest pending (lowestOf pending) := by
  have hmem : ∀ e ∈ lowestOf pending, lowest (pending.filter fun h => h.place = e.1) = some e.2 := by
    intro e he
    obtain ⟨p, -, he⟩ := List.mem_filterMap.mp he
    obtain ⟨h, hh, rfl⟩ := Option.map_eq_some_iff.mp he
    exact hh
  refine ⟨?_, fun e he => ?_, fun z hz => ?_⟩
  · unfold lowestOf
    refine (List.nodup_iff_pairwise_ne.mp (nodup_eraseDups _)).filterMap _ fun p p' hne e he e' he' => ?_
    obtain ⟨h, -, rfl⟩ := Option.map_eq_some_iff.mp he
    obtain ⟨h', -, rfl⟩ := Option.map_eq_some_iff.mp he'
    exact hne
  · have hmin := hmem e he
    have hin := List.argmin_mem hmin
    rw [List.mem_filter, decide_eq_true_eq] at hin
    refine ⟨hin.1, hin.2, fun z hz hp => ?_⟩
    exact List.le_of_mem_argmin (List.mem_filter.mpr ⟨hz, by simpa using hp⟩) hmin
  · cases hmin : lowest (pending.filter fun h => h.place = z.place) with
    | none =>
      have : z ∈ pending.filter fun h => h.place = z.place := List.mem_filter.mpr ⟨hz, by simp⟩
      rw [List.argmin_eq_none.mp hmin] at this
      cases this
    | some h =>
      refine ⟨(z.place, h), List.mem_filterMap.mpr ⟨z.place, ?_, ?_⟩, rfl⟩
      · exact List.mem_eraseDups.mpr (List.mem_map.mpr ⟨z, hz, rfl⟩)
      · rw [hmin]
        rfl

/-- What is left once the first partition is given up. -/
theorem Lowest.tail {pending : List Handle} {p : TopicPartition} {h : Handle} {l : List (TopicPartition × Handle)}
    (hl : Lowest pending ((p, h) :: l)) : Lowest (keptBefore p h.offset pending) l := by
  obtain ⟨hfirst, honce⟩ := List.pairwise_cons.mp hl.once
  obtain ⟨-, -, hmin⟩ := hl.lowest _ List.mem_cons_self
  refine ⟨honce, fun e he => ?_, fun z hz => ?_⟩
  · obtain ⟨hin, hplace, hle⟩ := hl.lowest e (List.mem_cons_of_mem _ he)
    refine ⟨List.mem_filter.mpr ⟨hin, ?_⟩, hplace, fun z hz => hle z (List.mem_of_mem_filter hz)⟩
    have hne : e.2.place ≠ p := hplace ▸ (hfirst e he).symm
    simp [hne]
  · obtain ⟨hz, hkept⟩ := List.mem_filter.mp hz
    rw [Bool.or_eq_true, decide_eq_true_eq, decide_eq_true_eq] at hkept
    obtain ⟨e, he, hplace⟩ := hl.all z hz
    rcases List.mem_cons.mp he with rfl | he
    · -- nothing of the partition is below its lowest handle
      have := hmin z hz hplace.symm
      rcases hkept with hkept | hkept
      · exact absurd hplace.symm hkept
      · exact absurd hkept (not_lt.mpr this)
    · exact ⟨e, he, hplace⟩

theorem rewindLowest_spec (l : List (TopicPartition × Handle)) :
    Triple (fun s => At logs start base A B s ∧ Lowest (B q) l) (rewindLowest (Broker.clients logs) q l)
      (fun _ => At logs start base A (Function.update B q [])) fun _ _ => False := by
  induction l generalizing B with
  | nil =>
    refine Triple.pure () fun s hs => ?_
    have hnil : B q = [] := by
      refine List.eq_nil_iff_forall_not_mem.mpr fun z hz => ?_
      obtain ⟨e, he, -⟩ := hs.2.all z hz
      cases he
    rw [← hnil, Function.update_eq_self]
    exact hs.1
  | cons e l ih =>
    obtain ⟨p, h⟩ := e
    rintro s ⟨⟨hs, rfl⟩, hl⟩
    obtain ⟨hh, hp, -⟩ := hl.lowest _ List.mem_cons_self
    obtain rfl : h.place = p := hp
    have htail := @ih (Function.update s.pending q (keptBefore h.place h.offset (s.pending q)))
    rw [Function.update_self, Function.update_idem] at htail
    exact htail { s.setBooks q (keptBefore h.place h.offset (s.pending q)) (keptBefore h.place h.offset (s.settled q)) with
      clients := Broker.seek h.place h.offset s.clients } ⟨⟨hs.rewind hh, rfl⟩, hl.tail⟩

/-- Nothing of the queue is in flight once what was abandoned is taken back. -/
theorem rewindAbandoned_spec : Triple (At logs start base A B) (rewindAbandoned (Broker.clients logs) q)
    (fun _ => At logs start base A (Function.update B q [])) fun _ _ => False := by
  rintro s ⟨hs, rfl⟩
  refine (rewindLowest_spec (lowestOf (s.pending q))).bind (fun _ => Triple.modify _ fun s' hs' => ?_) s
    ⟨⟨hs, rfl⟩, lowestOf_lowest _⟩
  have hnil : s'.pending q = [] := by rw [hs'.2, Function.update_self]
  have hsame : s'.setBooks q [] (s'.settled q) = s' := by
    unfold Polling.setBooks
    rw [← hnil, Function.update_eq_self, Function.update_eq_self]
  rw [hsame]
  exact hs'

/-! ### What a pop hands out -/

section Interpreter

variable [Interpreter]

/-- The client gives header values as bytes. -/
def BytesLogs (logs : Logs) : Prop := ∀ p, ∀ m ∈ logs.records p, BytesHeaders m.headers

theorem received_isOk (queue : Str) {record : Message} (h : BytesHeaders record.headers) : ∃ m, received queue record = .ok m := by
  have hdeclared : ∀ raw, declaredVersion record.headers = some raw → ∃ b, raw = .bytes b := by
    generalize record.headers = headers at h
    induction headers with
    | nil => exact fun _ h => nomatch h
    | cons e headers ih =>
      intro raw hraw
      rw [declaredVersion] at hraw
      split at hraw
      · exact h e List.mem_cons_self raw hraw
      · exact ih (fun e he => h e (List.mem_cons_of_mem _ he)) raw hraw
  unfold received
  cases hv : (unsupportedSchemaVersion record.headers).map truncateDeclaredVersion with
  | none =>
    dsimp only
    split
    · exact ⟨_, rfl⟩
    · exact ⟨_, rfl⟩
  | some version =>
    obtain ⟨text, htext, rfl⟩ := Option.map_eq_some_iff.mp hv
    unfold unsupportedSchemaVersion at htext
    obtain ⟨raw, hraw, htext⟩ := Option.bind_eq_some_iff.mp htext
    obtain ⟨b, rfl⟩ := hdeclared raw hraw
    have htext : Utf8.decodeReplace b = text := by
      split at htext
      · cases htext
      · exact Option.some.inj htext
    have henc : Encodable text := htext ▸ fun c hc => Utf8.not_isSurrogate_of_decodeReplace hc
    have htrunc : Encodable (truncateDeclaredVersion text) := by
      unfold truncateDeclaredVersion
      split
      · exact henc
      · exact Encodable.append (fun c hc => henc c (List.mem_of_mem_take hc)) (encodable_str "...")
    have hquote : ∃ quoted, quote (truncateDeclaredVersion text) = .ok quoted :=
      isOk_bind (encodable_iff.mp htrunc) fun _ => ⟨_, rfl⟩
    exact isOk_bind hquote fun _ => ⟨_, rfl⟩

theorem received_handle {queue : Str} {record : Message} {m : ReceivedMessage Message} (h : received queue record = .ok m) :
    m.handle = record := by
  unfold received at h
  split at h
  · obtain ⟨_, -, h⟩ := bind_eq_ok.mp h
    cases h
    rfl
  · split at h <;> cases h <;> rfl

/-- The delivery is that of its record. -/
def OfRecord (q : Str) (m : ReceivedMessage Handle) : Prop := m.queue = q ∧ received q m.handle.record = .ok (withRecord m)

/-- The deliveries come on top of what is in flight. -/
def Handed (logs : Logs) (start base : TopicPartition → Int) (A : List Effect → Message → Prop) (B : Str → List Handle) (q : Str)
    (batch : List (ReceivedMessage Handle)) (s : Polling Broker) : Prop :=
  At logs start base A (Function.update B q (B q ++ batch.map ReceivedMessage.handle)) s ∧ ∀ m ∈ batch, OfRecord q m

theorem handed_nil : Handed logs start base A B q [] s ↔ At logs start base A B s := by
  unfold Handed
  rw [List.map_nil, List.append_nil, Function.update_eq_self]
  exact and_iff_left fun _ h => nomatch h

/-- After a poll: a record that is the next one of its partition, or nothing. -/
def PolledFrom (logs : Logs) (start base : TopicPartition → Int) (A : List Effect → Message → Prop) (B : Str → List Handle) (q : Str)
    (r : Option Polled) (s : Polling Broker) : Prop :=
  match r with
  | some (.record m) => ∃ s₀ p, At logs start base A B s₀ ∧ Broker.next? logs q s₀.clients p = some m ∧
      s = { s₀ with clients := Broker.seek m.place (m.offset + 1) s₀.clients }
  | _ => At logs start base A B s

omit [Interpreter] in
theorem poll_spec : Triple (At logs start base A B) (Polling.call (Broker.poll logs q)) (PolledFrom logs start base A B q)
    fun e s => e.isException = true ∧ At logs start base A B s := by
  intro s hs
  unfold Polling.call Broker.poll
  rw [Act.bind_run_ok (show Broker.ask s.clients = (.ok _, _) from rfl), Act.bind_run_ok (Act.get_run _)]
  cases (s.clients.replies s.clients.calls).raises with
  | some e => exact ⟨e.2, hs.quiet⟩
  | none =>
    dsimp only
    cases hnext : (s.clients.replies s.clients.calls).deliver.bind
        (Broker.next? logs q { s.clients with calls := s.clients.calls + 1 }) with
    | none =>
      cases (s.clients.replies s.clients.calls).error
      · exact hs.quiet
      · exact hs.quiet
    | some m =>
      obtain ⟨p, -, hp⟩ := Option.bind_eq_some_iff.mp hnext
      exact ⟨_, p, hs.quiet, hp, rfl⟩

theorem pollOne_spec (hbytes : BytesLogs logs) :
    Triple (At logs start base A B) (pollOne (Broker.clients logs) q)
      (fun r => Handed logs start base A B q r.toList) fun e s => e.isException = true ∧ At logs start base A B s := by
  refine poll_spec.bind fun r => ?_
  rcases r with _ | m | _
  · exact Triple.pure none fun s hs => handed_nil.mpr hs
  · rintro s ⟨s₀, p, ⟨hs, rfl⟩, hnext, rfl⟩
    have hmem : m ∈ logs.records p := by
      unfold Broker.next? at hnext
      split at hnext
      · exact (Log.next?_mem hnext).1
      · cases hnext
    obtain ⟨r, hr⟩ := received_isOk q (hbytes p m hmem)
    dsimp only
    rw [Act.bind_run_ok (Act.get_run _), Act.bind_run_ok (Act.modify_run _ _), Act.bind_run_ok (by rw [Act.lift_run, hr]),
      Act.bind_run_ok (Act.modify_run _ _), Act.pure_run]
    refine ⟨⟨hs.take hnext, rfl⟩, fun d hd => ?_⟩
    obtain rfl : d = withHandle r ⟨m, s₀.polled⟩ := by simpa using hd
    have hrecord : withRecord (withHandle r ⟨m, s₀.polled⟩) = r := by
      unfold withRecord withHandle
      rw [← received_handle hr]
    refine ⟨(received_fields hr).1, ?_⟩
    rw [hrecord]
    exact hr
  · exact Triple.pure none fun s hs => handed_nil.mpr hs

theorem pop_spec (hbytes : BytesLogs logs) :
    Triple (At logs start base A B) (pop (Broker.clients logs) q)
      (fun r => Handed logs start base A (Function.update B q []) q r.toList)
      fun _ => At logs start base A (Function.update B q []) :=
  (rewindAbandoned_spec.conseq (fun _ => id) (fun _ _ => id) fun _ _ h => h.elim).bind fun _ =>
    (pollOne_spec hbytes).conseq (fun _ => id) (fun _ _ => id) fun _ _ h => h.2

theorem popUpTo_spec (hbytes : BytesLogs logs) (batch : List (ReceivedMessage Handle)) (n : Nat) :
    Triple (Handed logs start base A B q batch) (popUpTo (Broker.clients logs) q batch n)
      (fun r => Handed logs start base A B q r) fun _ => At logs start base A B := by
  induction n generalizing batch with
  | zero => exact Triple.pure batch fun s hs => hs
  | succ n ih =>
    rw [popUpTo]
    refine Triple.of_state fun s₀ hs₀ => ?_
    have hpoll : Triple (· = s₀) (pollOne (Broker.clients logs) q)
        (fun r => Handed logs start base A B q (batch ++ r.toList))
        fun e s => e.isException = true ∧ Handed logs start base A B q batch s := by
      refine (pollOne_spec hbytes).conseq (fun s hs => hs ▸ hs₀.1) (fun r s hr => ?_) fun _ s hs => ⟨hs.1, hs.2, hs₀.2⟩
      obtain ⟨hat, hof⟩ := hr
      rw [Function.update_self, Function.update_idem, List.append_assoc, ← List.map_append] at hat
      exact ⟨hat, fun m hm => (List.mem_append.mp hm).elim (hs₀.2 m) (hof m)⟩
    refine Triple.bind (hpoll.tryExcept (fun e _ => ?_) fun e s he hs => ?_) fun r => ?_
    · split
      · next hnil =>
        rw [List.isEmpty_iff.mp hnil]
        exact Triple.raise e fun s hs => handed_nil.mp hs.2
      · refine Triple.pure none fun s hs => ?_
        rw [Option.toList_none, List.append_nil]
        exact hs.2
    · rw [isAny_exception, hs.1] at he
      cases he
    · cases r with
      | none =>
        refine Triple.pure batch fun s hs => ?_
        rwa [Option.toList_none, List.append_nil] at hs
      | some m => exact ih (batch ++ [m])

theorem popBatch_spec (hbytes : BytesLogs logs) (n : Nat) :
    Triple (At logs start base A B) (popBatch (Broker.clients logs) q n)
      (fun r => Handed logs start base A (Function.update B q []) q r)
      fun _ => At logs start base A (Function.update B q []) :=
  (rewindAbandoned_spec.conseq (fun _ => id) (fun _ _ => id) fun _ _ h => h.elim).bind fun _ =>
    (popUpTo_spec hbytes [] n).pre fun _ => handed_nil.mpr

/-! ### What is written -/

/-- A write of which the call returns was confirmed. -/
theorem produceConfirmed_run (logs : Logs) (T : KafkaTransport) (topic : Str) (args : RecordArgs) (s : Polling Broker) :
    ∃ r confirmed, T.produceConfirmed (Broker.clients logs) topic args s =
      (r, { s with clients := Broker.take ⟨topic, args, confirmed⟩ { s.clients with calls := s.clients.calls + 1 } }) ∧
        ∀ a, r = .ok a → confirmed = true := by
  unfold produceConfirmed
  rw [Act.bind_run]
  unfold Polling.call
  dsimp only [Broker.clients]
  unfold Broker.produce
  rw [Act.bind_run_ok (show Broker.ask s.clients = (.ok _, _) from rfl), Act.bind_run_ok (Act.modify_run _ _)]
  cases (s.clients.replies s.clients.calls).raises with
  | some e => exact ⟨_, _, rfl, fun _ h => by cases h⟩
  | none =>
    dsimp only
    rw [Act.pure_run]
    dsimp only
    rcases (s.clients.replies s.clients.calls).report with _ | _ | error
    · exact ⟨_, _, rfl, fun _ h => by cases h⟩
    · exact ⟨_, _, rfl, fun _ _ => by decide⟩
    · exact ⟨_, _, rfl, fun _ h => by cases h⟩

theorem redeliver_spec (T : KafkaTransport) (hgrows : Grows A) (hh : m.handle ∈ B m.queue) (body : Str)
    (hcopy : ∀ topic args, redeliverArgs T.tiers (withRecord m) body = .ok (topic, args) → ∀ es,
      .write ⟨topic, args, true⟩ ∈ es → A es m.handle.record) :
    Triple (At logs start base A B) (T.redeliver (Broker.clients logs) m body)
      (fun _ => At logs start base A (without B m.queue m.handle)) fun _ => At logs start base A B := by
  intro s hs
  unfold redeliver
  rw [Act.bind_run, Act.lift_run]
  cases hargs : redeliverArgs T.tiers (withRecord m) body with
  | error e => exact hs
  | ok r =>
    obtain ⟨topic, args⟩ := r
    dsimp only
    obtain ⟨r, confirmed, hrun, hconfirmed⟩ := produceConfirmed_run logs T topic args s
    have hwritten := hs.clients (hs.quiet.1.write hgrows ⟨topic, args, confirmed⟩)
    rw [Act.bind_run, hrun]
    cases r with
    | error e => exact hwritten
    | ok _ =>
      obtain rfl := hconfirmed _ rfl
      refine (Triple.tryExcept (ack_spec hgrows hh) (fun e _ => Triple.pure () fun _ h => h.2) fun e s he h => ?_) _ ⟨hwritten, ?_⟩
      · rw [isAny_exception, h.1] at he
        cases he
      · exact hcopy topic args hargs _ (List.mem_append_right _ List.mem_cons_self)

theorem publishSettle_run (logs : Logs) (T : KafkaTransport) (queue body : Str) (route : RouteUrn) (key : Option Bytes) (s : Polling Broker) :
    (∃ e, T.publishSettle (Broker.clients logs) queue body route key s = (.error e, s)) ∨
    ∃ r args confirmed, settleArgs queue body route key [] (s.clients.times s.clients.calls) = .ok args ∧
      T.publishSettle (Broker.clients logs) queue body route key s =
        (r, { s with clients := Broker.take ⟨queue, args, confirmed⟩ { s.clients with calls := s.clients.calls + 1 } }) ∧
      ∀ a, r = .ok a → confirmed = true := by
  unfold publishSettle
  rw [Act.bind_run_ok (Act.get_run s), Act.bind_run, Act.lift_run]
  have hnow : (Broker.clients logs).now s.clients = s.clients.times s.clients.calls := rfl
  rw [hnow]
  cases hargs : settleArgs queue body route key [] (s.clients.times s.clients.calls) with
  | error e => exact .inl ⟨e, rfl⟩
  | ok args =>
    obtain ⟨r, confirmed, hrun, hconfirmed⟩ := produceConfirmed_run logs T queue args s
    exact .inr ⟨r, args, confirmed, rfl, hrun, hconfirmed⟩

theorem publishSettle_spec (T : KafkaTransport) (hgrows : Grows A) (queue body : Str) (route : RouteUrn) (key : Option Bytes) :
    Triple (At logs start base A B) (T.publishSettle (Broker.clients logs) queue body route key)
      (fun _ => At logs start base A B) fun _ => At logs start base A B := by
  rw [Triple.after_iff]
  intro s hs
  rcases publishSettle_run logs T queue body route key s with ⟨e, hrun⟩ | ⟨r, args, confirmed, -, hrun, -⟩
  · rw [hrun]
    exact hs
  · rw [hrun]
    exact hs.clients (hs.quiet.1.write hgrows _)

theorem publish_spec (hgrows : Grows A) (queue body : Str) :
    Triple (At logs start base A B) (publish (Broker.clients logs) queue body)
      (fun _ => At logs start base A B) fun _ => At logs start base A B := by
  refine Triple.bind (Q := fun _ => At logs start base A B) (Triple.lift _ (fun _ _ _ h => h) fun _ _ _ h => h) fun args => ?_
  rw [Triple.after_iff]
  intro s hs
  have hwritten := hs.clients (hs.quiet.1.write hgrows ⟨queue, args, false⟩)
  unfold Polling.call
  dsimp only [Broker.clients]
  unfold Broker.send
  rw [Act.bind_run_ok (show Broker.ask s.clients = (.ok _, _) from rfl), Act.bind_run_ok (Act.modify_run _ _)]
  cases (s.clients.replies s.clients.calls).raises <;> exact hwritten

/-! ## Runs -/

/-- The transport, with what a run did so far. -/
structure Session where
  state : Polling Broker
  /-- The deliveries of each queue that were handed out, and neither settled nor taken back. -/
  flying : Str → List (ReceivedMessage Handle)
  acked : List Message

namespace Session

def handles (x : Session) : Str → List Handle := fun q => (x.flying q).map ReceivedMessage.handle

/-- The deliveries of the queue are now `batch`. -/
def setFlying (x : Session) (q : Str) (batch : List (ReceivedMessage Handle)) : Str → List (ReceivedMessage Handle) :=
  Function.update x.flying q batch

/-- The deliveries of the queue without one. -/
def settled (x : Session) (m : ReceivedMessage Handle) : Str → List (ReceivedMessage Handle) :=
  x.setFlying m.queue ((x.flying m.queue).filter fun d => d.handle.serial ≠ m.handle.serial)

/-- The deliveries of the queue before one. -/
def before (x : Session) (m : ReceivedMessage Handle) : Str → List (ReceivedMessage Handle) :=
  x.setFlying m.queue
    ((x.flying m.queue).filter fun d => d.handle.place ≠ m.handle.place || d.handle.offset < m.handle.offset)

/-- A call. An ack, a rewind and a redeliver are of a delivery in flight; a pop takes back all that are in
flight on its queue, and a rewind those from its record on. -/
inductive Step (T : KafkaTransport) (logs : Logs) (x : Session) : Session → Prop
  | pop (q : Str) {r s} (h : pop (Broker.clients logs) q x.state = (r, s)) :
    Step T logs x ⟨s, x.setFlying q (r.toOption.join.toList), x.acked⟩
  | popBatch (q : Str) (n : Nat) {r s} (h : popBatch (Broker.clients logs) q n x.state = (r, s)) :
    Step T logs x ⟨s, x.setFlying q (r.toOption.getD []), x.acked⟩
  | ack {m r s} (hm : m ∈ x.flying m.queue) (h : ack (Broker.clients logs) m x.state = (r, s)) :
    Step T logs x ⟨s, x.settled m, m.handle.record :: x.acked⟩
  | rewind {m r s} (hm : m ∈ x.flying m.queue) (h : rewind (Broker.clients logs) m x.state = (r, s)) :
    Step T logs x ⟨s, x.before m, x.acked⟩
  | parked {m body s} (hm : m ∈ x.flying m.queue) (h : T.redeliver (Broker.clients logs) m body x.state = (.ok (), s)) :
    Step T logs x ⟨s, x.settled m, x.acked⟩
  | unparked {m body e s} (hm : m ∈ x.flying m.queue) (h : T.redeliver (Broker.clients logs) m body x.state = (.error e, s)) :
    Step T logs x ⟨s, x.flying, x.acked⟩
  | publish (queue body : Str) {r s} (h : publish (Broker.clients logs) queue body x.state = (r, s)) :
    Step T logs x ⟨s, x.flying, x.acked⟩
  | publishSettle (queue body : Str) (route : RouteUrn) (key : Option Bytes) {r s}
      (h : T.publishSettle (Broker.clients logs) queue body route key x.state = (r, s)) :
    Step T logs x ⟨s, x.flying, x.acked⟩
  /-- The process ends, and another one takes its place. -/
  | restart : Step T logs x ⟨x.state.restart, fun _ => [], x.acked⟩

/-- A new object, whose broker answers with `replies`. -/
def init (replies : Nat → Reply) (times : Nat → { t : Int // t.natAbs < 2 ^ 63 }) (start : TopicPartition → Int) : Session :=
  ⟨⟨fun _ => [], fun _ => [], 0, Broker.init replies times start⟩, fun _ => [], []⟩

end Session

/-- The write is a copy of the record on a retry tier. -/
def RetryCopy (T : KafkaTransport) (record : Message) (w : Write) : Prop :=
  ∃ queue m body, received queue record = .ok m ∧ redeliverArgs T.tiers m body = .ok (w.topic, w.args)

/-- The record was acked, or a copy of it is confirmed. -/
def Settled (T : KafkaTransport) (acked : List Message) (es : List Effect) (record : Message) : Prop :=
  record ∈ acked ∨ ∃ w, .write w ∈ es ∧ w.confirmed = true ∧ RetryCopy T record w

theorem settled_grows (T : KafkaTransport) (acked : List Message) : Grows (Settled T acked) := by
  rintro es es' record (h | ⟨w, hw, h⟩)
  · exact .inl h
  · exact .inr ⟨w, List.mem_append_left _ hw, h⟩

/-- The invariant of a run: the books are what the run says. -/
structure Session.Keeps (T : KafkaTransport) (logs : Logs) (start base : TopicPartition → Int) (x : Session) : Prop where
  books : At logs start base (Settled T x.acked) x.handles x.state
  records : ∀ q, ∀ m ∈ x.flying q, OfRecord q m

namespace Session

variable {x y : Session} {T : KafkaTransport}

omit [Interpreter] in
theorem handles_setFlying (q : Str) (batch : List (ReceivedMessage Handle)) (s : Polling Broker) (acked : List Message) :
    handles ⟨s, x.setFlying q batch, acked⟩ = Function.update x.handles q (batch.map ReceivedMessage.handle) := by
  funext q'
  unfold handles setFlying
  dsimp only
  by_cases hq : q' = q
  · subst hq
    rw [Function.update_self, Function.update_self]
  · rw [Function.update_of_ne hq, Function.update_of_ne hq]

omit [Interpreter] in
theorem mem_handles {m : ReceivedMessage Handle} (hm : m ∈ x.flying m.queue) : m.handle ∈ x.handles m.queue :=
  List.mem_map_of_mem hm

omit [Interpreter] in
theorem handles_settled (m : ReceivedMessage Handle) (s : Polling Broker) (acked : List Message) :
    handles ⟨s, x.settled m, acked⟩ = without x.handles m.queue m.handle := by
  unfold settled without
  rw [handles_setFlying]
  congr 1
  unfold handles
  rw [List.filter_map]
  rfl

omit [Interpreter] in
theorem handles_before (m : ReceivedMessage Handle) (s : Polling Broker) (acked : List Message) :
    handles ⟨s, x.before m, acked⟩ =
      Function.update x.handles m.queue (keptBefore m.handle.place m.handle.offset (x.handles m.queue)) := by
  unfold before
  rw [handles_setFlying]
  congr 1
  unfold handles keptBefore
  rw [List.filter_map]
  rfl

theorem records_setFlying {q : Str} {batch : List (ReceivedMessage Handle)} (hx : ∀ q, ∀ m ∈ x.flying q, OfRecord q m)
    (hb : ∀ m ∈ batch, OfRecord q m) : ∀ q', ∀ m ∈ x.setFlying q batch q', OfRecord q' m := by
  intro q' m hm
  unfold setFlying at hm
  by_cases hq : q' = q
  · subst hq
    rw [Function.update_self] at hm
    exact hb m hm
  · rw [Function.update_of_ne hq] at hm
    exact hx q' m hm

/-- What was handed out is in flight. -/
theorem Keeps.handed {q : Str} {batch : List (ReceivedMessage Handle)} {s : Polling Broker} (hx : x.Keeps T logs start base)
    (h : Handed logs start base (Settled T x.acked) (Function.update x.handles q []) q batch s) :
    Keeps T logs start base ⟨s, x.setFlying q batch, x.acked⟩ := by
  obtain ⟨hat, hof⟩ := h
  rw [Function.update_self, List.nil_append, Function.update_idem] at hat
  exact ⟨by rwa [handles_setFlying], records_setFlying hx.records hof⟩

/-- A call keeps the invariant. -/
theorem Step.keeps (hbytes : BytesLogs logs) (hs : Step T logs x y) (hx : x.Keeps T logs start base) :
    y.Keeps T logs start base := by
  have hgrows := settled_grows T x.acked
  have hsub : ∀ (m : ReceivedMessage Handle) q, ∀ d ∈ (x.flying m.queue).filter q, OfRecord m.queue d := fun m q d hd =>
    hx.records m.queue d (List.mem_of_mem_filter hd)
  cases hs with
  | @pop q r s h =>
    cases r with
    | ok r => exact hx.handed ((pop_spec hbytes).ok hx.books h)
    | error e =>
      exact hx.handed (handed_nil.mpr ((pop_spec hbytes).error hx.books h))
  | @popBatch q n r s h =>
    cases r with
    | ok r => exact hx.handed ((popBatch_spec hbytes n).ok hx.books h)
    | error e => exact hx.handed (handed_nil.mpr ((popBatch_spec hbytes n).error hx.books h))
  | @ack m r s hm h =>
    have hmono : At logs start base (Settled T (m.handle.record :: x.acked)) x.handles x.state :=
      ⟨hx.books.1.mono fun es record hr => hr.imp_left (List.mem_cons_of_mem _), hx.books.2⟩
    have hspec : Triple (fun s => At logs start base (Settled T (m.handle.record :: x.acked)) x.handles s ∧
        Settled T (m.handle.record :: x.acked) s.clients.effects m.handle.record) (KafkaTransport.ack (Broker.clients logs) m) _ _ :=
      ack_spec (settled_grows T _) (mem_handles hm)
    have hacked : At logs start base (Settled T (m.handle.record :: x.acked)) (without x.handles m.queue m.handle) s := by
      cases r with
      | ok _ => exact hspec.ok ⟨hmono, .inl List.mem_cons_self⟩ h
      | error e => exact (hspec.error ⟨hmono, .inl List.mem_cons_self⟩ h).2
    exact ⟨by rwa [handles_settled], records_setFlying hx.records (hsub m _)⟩
  | @rewind m r s hm h =>
    refine ⟨?_, records_setFlying hx.records (hsub m _)⟩
    rw [handles_before]
    cases r with
    | ok _ => exact (rewind_spec (mem_handles hm)).ok hx.books h
    | error e => exact ((rewind_spec (mem_handles hm)).error hx.books h).elim
  | @parked m body s hm h =>
    refine ⟨?_, records_setFlying hx.records (hsub m _)⟩
    rw [handles_settled]
    refine (redeliver_spec T hgrows (mem_handles hm) body fun topic args hargs es hw => ?_).ok hx.books h
    exact .inr ⟨_, hw, rfl, _, _, _, (hx.records _ m hm).2, hargs⟩
  | @unparked m body e s hm h =>
    refine ⟨?_, hx.records⟩
    refine (redeliver_spec T hgrows (mem_handles hm) body fun topic args hargs es hw => ?_).error hx.books h
    exact .inr ⟨_, hw, rfl, _, _, _, (hx.records _ m hm).2, hargs⟩
  | @publish queue body r s h =>
    refine ⟨?_, hx.records⟩
    cases r with
    | ok _ => exact (publish_spec hgrows queue body).ok hx.books h
    | error e => exact (publish_spec hgrows queue body).error hx.books h
  | @publishSettle queue body route key r s h =>
    refine ⟨?_, hx.records⟩
    cases r with
    | ok _ => exact (publishSettle_spec T hgrows queue body route key).ok hx.books h
    | error e => exact (publishSettle_spec T hgrows queue body route key).error hx.books h
  | restart => exact ⟨⟨hx.books.1.restart, rfl⟩, fun _ _ h => nomatch h⟩

/-- A run keeps the invariant. -/
theorem keeps_run (hbytes : BytesLogs logs) (h : Relation.ReflTransGen (Step T logs) x y) (hx : x.Keeps T logs start base) :
    y.Keeps T logs start base := by
  induction h with
  | refl => exact hx
  | tail _ hstep ih => exact hstep.keeps hbytes ih

theorem keeps_init (replies : Nat → Reply) (times : Nat → { t : Int // t.natAbs < 2 ^ 63 }) :
    (init replies times start).Keeps T logs start start :=
  ⟨⟨Accounts.init logs start _ replies times, rfl⟩, fun _ _ h => nomatch h⟩

end Session

/-- What holds of the committed offsets. -/
structure CommitSafe (T : KafkaTransport) (logs : Logs) (start : TopicPartition → Int) (x : Session) : Prop where
  /-- A committed offset does not pass a record that is not settled. -/
  passed : ∀ p, ∀ record ∈ logs.records p, start p ≤ record.offset → record.offset < x.state.clients.committed p →
    Settled T x.acked x.state.clients.effects record
  /-- A retry copy was confirmed before the commit. -/
  before : ∀ es m es', x.state.clients.effects = es ++ .commit m :: es' →
    ∀ record ∈ logs.records m.place, start m.place ≤ record.offset → record.offset ≤ m.offset → Settled T x.acked es record
  flying : ∀ q, ∀ m ∈ x.flying q, x.state.clients.committed m.handle.place ≤ m.handle.offset
  read : ∀ p, start p ≤ x.state.clients.committed p ∧ x.state.clients.committed p ≤ x.state.clients.position p
  /-- What was read and is not committed is in one of the books. -/
  books : x.state.clients.missed = false → ∀ p, ∀ record ∈ logs.records p, x.state.clients.committed p ≤ record.offset →
    record.offset < x.state.clients.position p →
      record ∈ recordsAt (x.state.pending p.topic) p ∨ record ∈ recordsAt (x.state.settled p.topic) p
  /-- With nothing in flight, what was read is committed. -/
  idle : x.state.clients.missed = false → ∀ p, (∀ m ∈ x.flying p.topic, m.handle.place ≠ p) → ∀ record ∈ logs.records p,
    record.offset < x.state.clients.position p → record.offset < x.state.clients.committed p

theorem Session.Keeps.safe {x : Session} {T : KafkaTransport} (h : x.Keeps T logs start base) : CommitSafe T logs start x := by
  obtain ⟨⟨hs, hbooks⟩, -⟩ := h
  refine ⟨fun p record hr hstart hlt => (hs.sound p).accounted hr hstart hlt, hs.commits, fun q m hm => ?_,
    fun p => ⟨(hs.sound p).begins, (hs.sound p).reach⟩, fun hm p => hs.exact hm p, fun hm p hidle record hr hlt => ?_⟩
  · have hpending : m.handle ∈ x.state.pending q := by
      rw [hbooks]
      exact List.mem_map_of_mem hm
    exact ((hs.sound m.handle.place).flying _ (hs.mem_flying hpending)).2.1
  · refine (hs.sound p).committed_of_idle (hs.exact hm p) (fun y hy => ?_) hr hlt
    obtain ⟨h, hh, -, hp⟩ := hy
    rw [hbooks] at hh
    obtain ⟨m, hm, rfl⟩ := List.mem_map.mp hh
    exact hidle m hm hp

/-- In every run of the calls, in which what is acked or taken back is in flight, no commit passes a record
that is not settled, and none goes back. -/
theorem commits_safe (T : KafkaTransport) (hbytes : BytesLogs logs) {replies : Nat → Reply}
    {times : Nat → { t : Int // t.natAbs < 2 ^ 63 }} {x y : Session}
    (hx : Relation.ReflTransGen (Session.Step T logs) (Session.init replies times start) x)
    (hy : Relation.ReflTransGen (Session.Step T logs) x y) :
    CommitSafe T logs start y ∧ ∀ p, x.state.clients.committed p ≤ y.state.clients.committed p := by
  have hkx := Session.keeps_run hbytes hx (Session.keeps_init replies times)
  have hky := Session.keeps_run hbytes hy ⟨⟨hkx.books.1.rebase, hkx.books.2⟩, hkx.records⟩
  exact ⟨hky.safe, hky.books.1.above⟩

end Interpreter

end Invariant

section CPython

attribute [local instance] cpython

/-- One record of a later schema version. -/
def laterLogs : Logs where
  records p := if p = ⟨str "orders", 0⟩ then [laterSurrogate] else []
  ordered p := by
    split
    · exact List.pairwise_singleton _ _
    · exact List.Pairwise.nil
  placed p m hm := by
    split at hm
    · next hp =>
      obtain rfl := List.mem_singleton.mp hm
      exact hp.symm
    · cases hm
  named p hp := by
    split at hp
    · next h =>
      subst h
      exact ⟨by decide, by decide, List.all_eq_true.mp (by decide +kernel)⟩
    · exact absurd rfl hp

theorem bytesLogs_later : BytesLogs laterLogs := by
  intro p m hm e he value hv
  have hm : m ∈ if p = ⟨str "orders", 0⟩ then [laterSurrogate] else [] := hm
  split at hm
  · obtain rfl := List.mem_singleton.mp hm
    obtain rfl := List.mem_singleton.mp he
    exact ⟨_, (Option.some.inj hv).symm⟩
  · cases hm

/-- A transport with a tier of one second. -/
def tiered : KafkaTransport := ⟨⟨[1000], by simp, List.pairwise_singleton _ _⟩, str "10.0"⟩

/-- A new object, over a broker that hands out what it has and confirms what it is given. -/
def fresh : Session :=
  Session.init (fun _ => ⟨some ⟨str "orders", 0⟩, false, none, false, some none⟩) (fun _ => ⟨0, by decide⟩) fun _ => 0

/-- A pop of that record. -/
theorem later_pop_safe : ∃ y, Session.Step tiered laterLogs fresh y ∧ CommitSafe tiered laterLogs (fun _ => 0) y ∧
    ∀ p, fresh.state.clients.committed p ≤ y.state.clients.committed p := by
  have hstep : Session.Step tiered laterLogs fresh _ := .pop (str "orders") rfl
  exact ⟨_, hstep, commits_safe tiered bytesLogs_later .refl (.single hstep)⟩

end CPython

end BabelQueue.Kafka.KafkaTransport
