import BabelQueue.Kafka.Partitions

/-!
# Re-injection loses and reorders nothing

`RetryReinjector` over partition logs, in every run.

* `Moves`: the invariant. Of a partition, the records from the start up to the position are some whose
  write is confirmed, followed by the held ones.
* `releaseHeld_spec`, `accept_spec`: what the deque and the position do.
* `reinjector_safe`: what the invariant says of the committed offset, the deque and the writes.
-/

namespace BabelQueue.Kafka

open Py

/-- A write of the record is confirmed. -/
def Confirmed (sent : List Sent) (m : Message) : Prop := ∃ x ∈ sent, x.source = m ∧ x.confirmed = true

theorem Confirmed.append {sent : List Sent} {m : Message} (h : Confirmed sent m) (more : List Sent) :
    Confirmed (sent ++ more) m := by
  obtain ⟨x, hx, hm⟩ := h
  exact ⟨x, List.mem_append_left more hx, hm⟩

/-- What the invariant reads. -/
structure View where
  waiting : Waiting
  position : TopicPartition → Int
  committed : TopicPartition → Int
  sent : List Sent

namespace View

/-- The records that a partition holds. -/
def held (v : View) (p : TopicPartition) : List Message := (v.waiting.held p).map Prod.fst

def put (v : View) (p : TopicPartition) (ms : List (Message × ℚ)) : View := { v with waiting := v.waiting.put p ms }

def seek (v : View) (p : TopicPartition) (offset : Int) : View :=
  { v with position := Function.update v.position p offset }

def commit (v : View) (m : Message) : View :=
  { v with committed := Function.update v.committed m.place (m.offset + 1) }

/-- The call of `produce` for a record. -/
def produce (v : View) (m : Message) (confirmed : Bool) : View :=
  { v with sent := v.sent ++ [⟨m, RetryReinjector.target m, RetryReinjector.moved m, confirmed⟩] }

end View

theorem confirmed_produce (v : View) (m : Message) : Confirmed (v.produce m true).sent m :=
  ⟨_, List.mem_append_right _ List.mem_cons_self, rfl, rfl⟩

def Reinjecting.view (s : Reinjecting Partitions) : View :=
  ⟨s.waiting, s.clients.position, s.clients.committed, s.clients.sent⟩

/-- The invariant, of logs that were read up to `start` before. -/
structure Moves (logs : Logs) (start : TopicPartition → Int) (v : View) : Prop where
  reach : ∀ p, start p ≤ v.position p
  split : ∀ p, ∃ done, Log.window Message.offset (logs.records p) (start p) (v.position p) = done ++ v.held p ∧
    ∀ m ∈ done, Confirmed v.sent m
  committed : ∀ p, ∀ m ∈ logs.records p, start p ≤ m.offset → m.offset < v.committed p → Confirmed v.sent m
  order : ∀ xs x ys, v.sent = xs ++ x :: ys → x.confirmed = true → ∀ m ∈ logs.records x.source.place,
    start x.source.place ≤ m.offset → m.offset < x.source.offset → Confirmed xs m
  sources : ∀ x ∈ v.sent, x.source ∈ logs.records x.source.place ∧ start x.source.place ≤ x.source.offset ∧
    x.produced = RetryReinjector.moved x.source

namespace Moves

variable {logs : Logs} {start : TopicPartition → Int} {v : View} {p : TopicPartition} {m : Message} {due : ℚ}
  {rest : List (Message × ℚ)}

theorem held_eq (hh : v.waiting.held p = (m, due) :: rest) : v.held p = m :: rest.map Prod.fst := by
  rw [View.held, hh]
  rfl

/-- The first held record, and what is before it. -/
theorem head (h : Moves logs start v) (hh : v.waiting.held p = (m, due) :: rest) :
    m ∈ logs.records p ∧ m.place = p ∧ start p ≤ m.offset ∧ m.offset < v.position p ∧
      ∀ m' ∈ logs.records p, start p ≤ m'.offset → m'.offset < m.offset → Confirmed v.sent m' := by
  obtain ⟨done, hw, hdone⟩ := h.split p
  rw [held_eq hh] at hw
  have hm : m ∈ Log.window Message.offset (logs.records p) (start p) (v.position p) := by
    rw [hw]
    exact List.mem_append_right done List.mem_cons_self
  obtain ⟨hmem, hlo, hhi⟩ := Log.mem_window.mp hm
  refine ⟨hmem, logs.placed p m hmem, hlo, hhi, fun m' hm' h1 h2 => hdone m' ?_⟩
  rw [← Log.window_before (logs.ordered p) hw]
  exact Log.mem_window.mpr ⟨hm', h1, h2⟩

/-- A write of the first held record. -/
theorem produce (h : Moves logs start v) (hh : v.waiting.held p = (m, due) :: rest) (confirmed : Bool) :
    Moves logs start (v.produce m confirmed) := by
  obtain ⟨hmem, hp, hlo, -, hbefore⟩ := h.head hh
  subst hp
  refine ⟨h.reach, fun q => ?_, fun q m' hm' h1 h2 => (h.committed q m' hm' h1 h2).append _, ?_, fun x hx => ?_⟩
  · obtain ⟨done, hw, hdone⟩ := h.split q
    exact ⟨done, hw, fun m' hm' => (hdone m' hm').append _⟩
  · intro xs x ys hsplit hx m' hm' h1 h2
    unfold View.produce at hsplit
    rcases List.eq_nil_or_concat ys with rfl | ⟨ys, y, rfl⟩
    · obtain ⟨rfl, hlast⟩ := List.append_inj' hsplit rfl
      cases hlast
      exact hbefore m' hm' h1 h2
    · have hsplit' : v.sent = xs ++ x :: ys := by
        rw [List.concat_eq_append, ← List.cons_append, ← List.append_assoc] at hsplit
        exact (List.append_inj' hsplit rfl).1
      exact h.order xs x ys hsplit' hx m' hm' h1 h2
  · rcases List.mem_append.mp hx with hx | hx
    · exact h.sources x hx
    · obtain rfl := List.mem_singleton.mp hx
      exact ⟨hmem, hlo, rfl⟩

/-- The first held record, when it is written, is taken from the deque. -/
theorem pop (h : Moves logs start v) (hh : v.waiting.held p = (m, due) :: rest) (hm : Confirmed v.sent m) :
    Moves logs start (v.put p rest) := by
  refine ⟨h.reach, fun q => ?_, h.committed, h.order, h.sources⟩
  obtain ⟨done, hw, hdone⟩ := h.split q
  by_cases hq : q = p
  · subst hq
    rw [held_eq hh] at hw
    refine ⟨done ++ [m], ?_, fun m' hm' => ?_⟩
    · show Log.window Message.offset (logs.records q) (start q) (v.position q) = _
      rw [hw, View.held, View.put, Waiting.held_put, if_pos rfl]
      simp
    · rcases List.mem_append.mp hm' with hm' | hm'
      · exact hdone m' hm'
      · rw [List.mem_singleton.mp hm']
        exact hm
  · refine ⟨done, ?_, hdone⟩
    rw [View.held, View.put, Waiting.held_put, if_neg hq]
    exact hw

/-- The first held record, when it is written, is committed. -/
theorem commit (h : Moves logs start v) (hh : v.waiting.held p = (m, due) :: rest) (hm : Confirmed v.sent m) :
    Moves logs start (v.commit m) := by
  obtain ⟨hmem, hp, -, -, hbefore⟩ := h.head hh
  subst hp
  refine ⟨h.reach, h.split, fun q m' hm' h1 h2 => ?_, h.order, h.sources⟩
  by_cases hq : q = m.place
  · subst hq
    simp only [View.commit, Function.update_self] at h2
    rcases lt_or_eq_of_le (Int.lt_add_one_iff.mp h2) with hlt | heq
    · exact hbefore m' hm' h1 hlt
    · rw [(logs.ordered m.place).eq_of_key hm' hmem heq]
      exact hm
  · simp only [View.commit, Function.update_of_ne hq] at h2
    exact h.committed q m' hm' h1 h2

/-- The partition is given back at the first held record, and the deque is dropped. -/
theorem rewind (h : Moves logs start v) (hh : v.waiting.held p = (m, due) :: rest) :
    Moves logs start ((v.seek p m.offset).put p []) := by
  obtain ⟨-, -, hlo, -, -⟩ := h.head hh
  refine ⟨fun q => ?_, fun q => ?_, h.committed, h.order, h.sources⟩
  · by_cases hq : q = p
    · subst hq
      simpa [View.put, View.seek] using hlo
    · simpa [View.put, View.seek, Function.update_of_ne hq] using h.reach q
  · obtain ⟨done, hw, hdone⟩ := h.split q
    refine ⟨done, ?_, hdone⟩
    by_cases hq : q = p
    · subst hq
      rw [held_eq hh] at hw
      simpa [View.held, View.put, View.seek, Waiting.held_put] using Log.window_before (logs.ordered q) hw
    · simpa [View.held, View.put, View.seek, Waiting.held_put, Function.update_of_ne hq, hq] using hw

/-- A record that a poll returns is held behind the others. -/
theorem hold (h : Moves logs start v) (hm : Log.next? Message.offset (logs.records p) (v.position p) = some m) (due : ℚ) :
    Moves logs start ((v.seek p (m.offset + 1)).put p (v.waiting.held p ++ [(m, due)])) := by
  obtain ⟨hmem, hlo⟩ := Log.next?_mem hm
  have hreach := h.reach p
  refine ⟨fun q => ?_, fun q => ?_, h.committed, h.order, h.sources⟩
  · by_cases hq : q = p
    · subst hq
      simp only [View.put, View.seek, Function.update_self]
      omega
    · simpa [View.put, View.seek, Function.update_of_ne hq] using h.reach q
  · obtain ⟨done, hw, hdone⟩ := h.split q
    refine ⟨done, ?_, hdone⟩
    by_cases hq : q = p
    · subst hq
      have hnext := Log.window_next (logs.ordered q) hreach hm
      rw [hw, List.append_assoc] at hnext
      simpa [View.held, View.put, View.seek, Waiting.held_put] using hnext
    · simpa [View.held, View.put, View.seek, Waiting.held_put, Function.update_of_ne hq, hq] using hw

/-- An empty deque is deleted. -/
theorem drop (h : Moves logs start v) (hh : v.waiting.held p = []) :
    Moves logs start { v with waiting := v.waiting.drop p } := by
  refine ⟨h.reach, fun q => ?_, h.committed, h.order, h.sources⟩
  obtain ⟨done, hw, hdone⟩ := h.split q
  refine ⟨done, ?_, hdone⟩
  rw [View.held, Waiting.held_drop]
  by_cases hq : q = p
  · rw [if_pos hq, hw, hq, View.held, hh]
  · rw [if_neg hq]
    exact hw

/-- At the start nothing is read. -/
theorem init (logs : Logs) (start : TopicPartition → Int) : Moves logs start ⟨[], start, start, []⟩ where
  reach _ := le_rfl
  split p := ⟨[], by simp [View.held, Waiting.held], fun _ h => (nomatch h)⟩
  committed _ _ _ h1 h2 := absurd h2 (not_lt.mpr h1)
  order xs x ys h := by simp at h
  sources _ h := nomatch h

end Moves

/-! ## The clients -/

variable {logs : Logs} {r : RetryReinjector} {P Q R : View → Prop}

/-- Only the tier topics are subscribed, and `P` holds. -/
def At (r : RetryReinjector) (P : View → Prop) (s : Reinjecting Partitions) : Prop :=
  (∀ topic ∈ s.clients.topics, topic ∈ r.topics) ∧ P s.view

/-- An `Exception`, and `P` holds. -/
def Fails (r : RetryReinjector) (P : View → Prop) (e : PyExc) (s : Reinjecting Partitions) : Prop :=
  e.isException = true ∧ At r P s

theorem ask_run (b : Partitions) :
    Partitions.ask b = (.ok (b.answers b.calls), { b with calls := b.calls + 1 }) := rfl

theorem faulty_run (f : Partitions → Partitions) (b : Partitions) :
    Partitions.faulty f b =
      if (b.answers b.calls).raises then
        (.error Partitions.clientError,
          if (b.answers b.calls).lands then f { b with calls := b.calls + 1 } else { b with calls := b.calls + 1 })
      else (.ok (), f { b with calls := b.calls + 1 }) := by
  unfold Partitions.faulty
  rw [Act.bind_run_ok (ask_run b)]
  split <;> rfl

/-- A call that may raise, and may take effect then. -/
theorem faulty_spec {f : Partitions → Partitions} (hf : ∀ s, At r P s → At r P { s with clients := f s.clients }) :
    Triple (At r P) (onClients (Partitions.faulty f)) (fun _ => At r P) (Fails r P) := by
  intro s hs
  have hcalls : At r P { s with clients := { s.clients with calls := s.clients.calls + 1 } } := hs
  have hdone := hf _ hcalls
  unfold onClients
  rw [faulty_run]
  by_cases hraises : (s.clients.answers s.clients.calls).raises = true
  · rw [if_pos hraises]
    refine ⟨by decide, ?_⟩
    by_cases hlands : (s.clients.answers s.clients.calls).lands = true
    · simpa only [if_pos hlands] using hdone
    · simpa only [if_neg hlands] using hcalls
  · rw [if_neg hraises]
    exact hdone

theorem consumer_spec : Triple (At r P) (r.consumer (Partitions.clients logs)) (fun _ => At r P) (Fails r P) := by
  refine Triple.bind (Triple.get (Q := fun _ => At r P) fun _ hs => hs) fun s => ?_
  split
  · exact Triple.pure () fun _ hs => hs
  · exact Triple.bind (faulty_spec fun s hs => ⟨fun _ ht => ht, hs.2⟩) fun _ => Triple.modify _ fun _ hs => hs

/-- A call after which `P` holds in any case, with its exceptions caught. -/
theorem attempted_spec {call : Act (Reinjecting Partitions) Unit} (h : Triple (At r P) call (fun _ => At r P) (Fails r P)) :
    Triple (At r P) (RetryReinjector.attempted call) (fun _ => At r P) fun _ _ => False := by
  refine Triple.tryExcept h (fun e _ => Triple.pure () fun _ hs => hs.2) fun e s he hs => ?_
  rw [isAny_exception, hs.1] at he
  cases he

theorem resume_spec (p : TopicPartition) :
    Triple (At r P) (r.resume (Partitions.clients logs) p) (fun _ => At r P) fun _ _ => False :=
  attempted_spec (Triple.bind consumer_spec fun _ => faulty_spec fun _ hs => hs)

theorem nowMs_spec : Triple (At r P) (RetryReinjector.nowMs (Partitions.clients logs)) (fun _ => At r P) (Fails r P) :=
  Triple.bind (Q := fun _ => At r P) (fun _ hs => hs) fun _ => Triple.pure _ fun _ hs => hs

theorem commit_spec {m : Message} (h : ∀ v, P v → P (v.commit m)) :
    Triple (At r P) (r.commit (Partitions.clients logs) m) (fun _ => At r P) (Fails r P) :=
  Triple.bind consumer_spec fun _ => faulty_spec fun s hs => ⟨hs.1, h s.view hs.2⟩

theorem produce_run (m : Message) (target : Str) (produced : Produced) (b : Partitions) :
    Partitions.produce m target produced b =
      (if (b.answers b.calls).raises then .error Partitions.clientError else .ok (b.answers b.calls).report,
        { b with
          calls := b.calls + 1
          sent := b.sent ++ [⟨m, target, produced, !(b.answers b.calls).raises && decide ((b.answers b.calls).report = some none)⟩] }) := by
  unfold Partitions.produce
  rw [Act.bind_run_ok (ask_run b), Act.bind_run_ok (Act.modify_run _ _)]
  split <;> rfl

/-- A record is given to the producer: its write is confirmed, or the call raises. -/
theorem reinject_spec {m : Message} (hok : ∀ v, P v → Q (v.produce m true)) (hfail : ∀ v, P v → R (v.produce m false)) :
    Triple (At r P) (RetryReinjector.reinject (Partitions.clients logs) m) (fun _ => At r Q) (Fails r R) := by
  rintro s ⟨ht, hp⟩
  have hokay := hok _ hp
  have hfailed := hfail _ hp
  unfold RetryReinjector.reinject
  rw [Act.bind_run, onClients, show (Partitions.clients logs).produce = Partitions.produce from rfl, produce_run]
  cases hraises : (s.clients.answers s.clients.calls).raises with
  | true => exact ⟨by decide, ht, hfailed⟩
  | false =>
    rcases (s.clients.answers s.clients.calls).report with _ | _ | error
    · exact ⟨rfl, ht, hfailed⟩
    · exact ⟨ht, hokay⟩
    · exact ⟨rfl, ht, hfailed⟩

/-- The partition is sought back to the record, and resumed. -/
theorem rewind_spec {m : Message} (h : ∀ v, P v → Q (v.seek m.place m.offset)) :
    Triple (At r P) (r.rewind (Partitions.clients logs) m) (fun _ => At r Q) (Fails r P) := by
  refine Triple.bind consumer_spec fun _ => Triple.bind (Q := fun _ => At r Q) ?_ fun _ =>
    (resume_spec m.place).conseq (fun _ => id) (fun _ _ => id) fun _ _ => False.elim
  exact Triple.tryExcept (E := fun _ _ => False) (fun s hs => ⟨hs.1, h s.view hs.2⟩) (fun _ _ _ hs => hs.elim)
    fun _ _ _ hs => hs.elim

/-! ## A run -/

section Run

variable {start : TopicPartition → Int}

/-- The loop over one deque keeps the invariant. -/
theorem releaseHeld_spec (now : ℚ) (p : TopicPartition) (held : List (Message × ℚ)) :
    Triple (At r fun v => Moves logs start v ∧ v.waiting.held p = held)
      (r.releaseHeld (Partitions.clients logs) now p held) (fun _ => At r (Moves logs start)) (Fails r (Moves logs start)) := by
  induction held with
  | nil => exact Triple.pure _ fun s hs => ⟨hs.1, hs.2.1⟩
  | cons head held ih =>
    obtain ⟨m, due⟩ := head
    rw [RetryReinjector.releaseHeld]
    split
    · refine Triple.bind (Q := fun failed s => if failed then At r (Moves logs start) s else At r (fun v =>
        Moves logs start v ∧ v.waiting.held p = (m, due) :: held ∧ Confirmed v.sent m) s) ?_ fun failed => ?_
      · refine Triple.tryExcept (E := Fails r fun v => Moves logs start v ∧ v.waiting.held p = (m, due) :: held)
          (Triple.bind (reinject_spec (Q := fun v => Moves logs start v ∧ v.waiting.held p = (m, due) :: held ∧
            Confirmed v.sent m) (fun v hv => ⟨hv.1.produce hv.2 true, hv.2, confirmed_produce v m⟩)
            fun v hv => ⟨hv.1.produce hv.2 false, hv.2⟩) fun _ => Triple.pure false fun s hs => by simpa using hs)
          (fun e _ => ?_) fun e s he hs => ?_
        · -- The write failed: the partition is rewound, and the deque is dropped.
          have hrewind : Triple (At r fun v => Moves logs start v ∧ v.waiting.held p = (m, due) :: held)
              (r.rewind (Partitions.clients logs) m) (fun _ => At r fun v => Moves logs start (v.put p []))
              (Fails r (Moves logs start)) := by
            refine (rewind_spec fun v hv => ?_).conseq (fun _ => id) (fun _ _ => id) fun e s hs => ⟨hs.1, hs.2.1, hs.2.2.1⟩
            have := hv.1.rewind hv.2
            rwa [(hv.1.head hv.2).2.1]
          refine (Triple.bind hrewind fun _ => ?_).pre fun s hs => hs.2
          exact Triple.bind (Triple.modify (Q := fun _ => At r (Moves logs start)) _ fun s hs => hs) fun _ =>
            Triple.pure true fun s hs => hs
        · rw [isAny_exception, hs.1] at he
          cases he
      · cases failed with
        | true => exact Triple.pure _ fun s hs => hs
        | false =>
          -- The write is confirmed: the record is committed and taken from the deque.
          refine Triple.bind (Q := fun _ => At r fun v => Moves logs start v ∧ v.waiting.held p = (m, due) :: held ∧
            Confirmed v.sent m) ((commit_spec fun v hv => ⟨hv.1.commit hv.2.1 hv.2.2, hv.2⟩).conseq (fun _ => id)
            (fun _ _ => id) fun e s hs => ⟨hs.1, hs.2.1, hs.2.2.1⟩) fun _ => ?_
          refine Triple.bind (Triple.modify (Q := fun _ => At r fun v => Moves logs start v ∧ v.waiting.held p = held)
            _ fun s hs => ⟨hs.1, hs.2.1.pop hs.2.2.1 hs.2.2.2, by simp [Reinjecting.view, Waiting.held_put]⟩) fun _ => ?_
          exact Triple.bind ih fun _ => Triple.pure _ fun s hs => hs
    · exact Triple.pure _ fun s hs => ⟨hs.1, hs.2.1⟩

theorem dropEmpty_spec (p : TopicPartition) (rewound : Bool) :
    Triple (At r (Moves logs start)) (r.dropEmpty (Partitions.clients logs) p rewound) (fun _ => At r (Moves logs start))
      (Fails r (Moves logs start)) := by
  refine Triple.bind (Q := fun s s' => At r (Moves logs start) s' ∧ s' = s) (Triple.get fun s hs => ⟨hs, rfl⟩) fun s => ?_
  split
  · next hempty =>
    refine Triple.bind (Triple.modify (Q := fun _ => At r (Moves logs start)) _ ?_) fun _ => ?_
    · rintro _ ⟨hs, rfl⟩
      exact ⟨hs.1, hs.2.drop hempty⟩
    · split
      · exact Triple.pure () fun _ hs => hs
      · exact (resume_spec p).conseq (fun _ => id) (fun _ _ => id) fun _ _ => False.elim
  · exact Triple.pure () fun _ hs => hs.1

/-- The loop over the partitions keeps the invariant. -/
theorem releaseAll_spec (now : ℚ) (ps : List TopicPartition) :
    Triple (At r (Moves logs start)) (r.releaseAll (Partitions.clients logs) now ps) (fun _ => At r (Moves logs start))
      (Fails r (Moves logs start)) := by
  induction ps with
  | nil => exact Triple.pure _ fun _ hs => hs
  | cons p ps ih =>
    rw [RetryReinjector.releaseAll]
    refine Triple.bind (Q := fun s s' => At r (Moves logs start) s' ∧ s' = s) (Triple.get fun s hs => ⟨hs, rfl⟩) fun s => ?_
    refine Triple.bind ((releaseHeld_spec now p (s.waiting.held p)).pre ?_) fun released => ?_
    · rintro _ ⟨hs, rfl⟩
      exact ⟨hs.1, hs.2, rfl⟩
    · exact Triple.bind (dropEmpty_spec p _) fun _ => Triple.bind ih fun _ => Triple.pure _ fun _ hs => hs

theorem releaseDue_spec :
    Triple (At r (Moves logs start)) (r.releaseDue (Partitions.clients logs)) (fun _ => At r (Moves logs start))
      (Fails r (Moves logs start)) :=
  Triple.bind nowMs_spec fun now => Triple.bind (Triple.get (Q := fun _ => At r (Moves logs start)) fun _ hs => hs) fun s =>
    releaseAll_spec now _

/-- The topic of a tier has a delay. -/
theorem tierMs_of_mem {topic : Str} (h : topic ∈ r.topics) (ht : TopicName topic) :
    ∃ ms, r.tiers.tierMs topic = .ok (some ms) := by
  obtain ⟨work, hw, hmem⟩ := List.mem_flatMap.mp h
  obtain ⟨n, hn, rfl⟩ := List.mem_map.mp hmem
  obtain ⟨h1, h2⟩ := List.mem_range'_1.mp hn
  obtain ⟨k, rfl⟩ : ∃ k, n = k + 1 := ⟨n - 1, by omega⟩
  exact ⟨_, r.tiers.tierMs_retryTopic (r.named work hw) (by omega) ht⟩

/-- The record of a poll is held. -/
theorem accept_spec {m : Message} (hm : TopicName m.place.topic) (hr : m.place.topic ∈ r.topics) :
    Triple (At r fun v => ∀ due, Moves logs start (v.put m.place (v.waiting.held m.place ++ [(m, due)])))
      (r.accept (Partitions.clients logs) m) (fun _ => At r (Moves logs start)) (Fails r (Moves logs start)) := by
  obtain ⟨ms, hms⟩ := tierMs_of_mem hr hm
  unfold RetryReinjector.accept
  refine Triple.bind (Q := fun tier s => tier = some ms ∧ At r (fun v => ∀ due, Moves logs start
    (v.put m.place (v.waiting.held m.place ++ [(m, due)]))) s) (Triple.lift _ ?_ ?_) fun tier => ?_
  · intro tier s he hs
    rw [hms] at he
    cases he
    exact ⟨rfl, hs⟩
  · intro e s he
    rw [hms] at he
    cases he
  · refine Triple.of_state fun s₀ hs => ?_
    obtain ⟨rfl, hs⟩ := hs
    have hlater : Triple (At r fun v => ∀ due, Moves logs start (v.put m.place (v.waiting.held m.place ++ [(m, due)])))
        (RetryReinjector.nowMs (Partitions.clients logs)) (fun _ => At r fun v => ∀ due, Moves logs start
          (v.put m.place (v.waiting.held m.place ++ [(m, due)]))) fun _ _ => False :=
      Triple.bind (Q := fun _ => At r fun v => ∀ due, Moves logs start
        (v.put m.place (v.waiting.held m.place ++ [(m, due)]))) (fun _ hs => hs) fun _ => Triple.pure _ fun _ hs => hs
    refine (Triple.bind (hlater.conseq (fun _ => id) (fun _ _ => id) fun _ _ => False.elim) fun now => ?_).pre
      fun s h => h ▸ hs
    refine Triple.bind (Triple.modify (Q := fun _ => At r (Moves logs start)) _ fun s hs => ⟨hs.1, hs.2 _⟩) fun _ => ?_
    exact (attempted_spec (Triple.bind consumer_spec fun _ => faulty_spec fun _ hs => hs)).conseq (fun _ => id)
      (fun _ _ => id) fun _ _ => False.elim

/-- After a poll: the record of a tier topic is to be held, or nothing has changed. -/
def PolledAt (r : RetryReinjector) (logs : Logs) (start : TopicPartition → Int) (polled : Option Polled)
    (s : Reinjecting Partitions) : Prop :=
  match polled with
  | some (.record m) => TopicName m.place.topic ∧ m.place.topic ∈ r.topics ∧
      At r (fun v => ∀ due, Moves logs start (v.put m.place (v.waiting.held m.place ++ [(m, due)]))) s
  | _ => At r (Moves logs start) s

theorem poll_spec (wait : ℚ) :
    Triple (At r (Moves logs start)) (onClients (Partitions.poll logs wait)) (PolledAt r logs start)
      (Fails r (Moves logs start)) := by
  rintro s ⟨ht, hmoves⟩
  unfold onClients Partitions.poll
  rw [Act.bind_run_ok (ask_run _), Act.bind_run_ok (Act.get_run _)]
  cases (s.clients.answers s.clients.calls).raises with
  | true => exact ⟨by decide, ht, hmoves⟩
  | false =>
    cases hnext : (s.clients.answers s.clients.calls).deliver.bind
      (Partitions.available logs { s.clients with calls := s.clients.calls + 1 }) with
    | none =>
      cases (s.clients.answers s.clients.calls).error
      · exact ⟨ht, hmoves⟩
      · exact ⟨ht, hmoves⟩
    | some m =>
      obtain ⟨p, -, hp⟩ := Option.bind_eq_some_iff.mp hnext
      unfold Partitions.available at hp
      split at hp
      · next hread =>
        obtain ⟨hmem, -⟩ := Log.next?_mem hp
        obtain rfl := logs.placed p m hmem
        exact ⟨logs.named _ (List.ne_nil_of_mem hmem), ht _ hread.1, ht, hmoves.hold hp⟩
      · cases hp

theorem acceptPolled_spec (polled : Option Polled) :
    Triple (PolledAt r logs start polled) (r.acceptPolled (Partitions.clients logs) polled)
      (fun _ => At r (Moves logs start)) (Fails r (Moves logs start)) := by
  rcases polled with _ | m | _
  · exact Triple.pure () fun _ hs => hs
  · exact Triple.of_state fun s hs => (accept_spec hs.1 hs.2.1).pre fun s' h => h ▸ hs.2.2
  · exact Triple.pure () fun _ hs => hs

theorem pollWait_spec (wait : ℚ) :
    Triple (At r P) (RetryReinjector.pollWait (Partitions.clients logs) wait) (fun _ => At r P) fun _ => At r P := by
  refine Triple.bind (Triple.get (Q := fun _ => At r P) fun _ hs => hs) fun s => ?_
  split
  · exact Triple.pure _ fun _ hs => hs
  · refine Triple.bind (Q := fun _ => At r P) (Triple.lift _ (fun _ _ _ hs => hs) fun _ _ _ hs => hs) fun dues => ?_
    exact Triple.bind (Q := fun _ => At r P) (fun _ hs => hs) fun _ => Triple.pure _ fun _ hs => hs

/-- A call keeps the invariant. -/
theorem runOnce_spec (timeout : Option ℚ) :
    Triple (At r (Moves logs start)) (r.runOnce (Partitions.clients logs) timeout) (fun _ => At r (Moves logs start))
      fun _ => At r (Moves logs start) := by
  have hdrop : ∀ (e : PyExc) s, Fails r (Moves logs start) e s → At r (Moves logs start) s := fun _ _ hs => hs.2
  refine Triple.bind (consumer_spec.conseq (fun _ => id) (fun _ _ => id) hdrop) fun _ => ?_
  refine Triple.bind (pollWait_spec _) fun wait => ?_
  refine Triple.bind ((poll_spec wait).conseq (fun _ => id) (fun _ _ => id) hdrop) fun polled => ?_
  exact Triple.bind ((acceptPolled_spec polled).conseq (fun _ => id) (fun _ _ => id) hdrop) fun _ =>
    releaseDue_spec.conseq (fun _ => id) (fun _ _ => id) hdrop

/-- A run keeps the invariant. -/
theorem run_moves (timeouts : List (Option ℚ)) {s : Reinjecting Partitions} (h : At r (Moves logs start) s) :
    At r (Moves logs start) (r.run (Partitions.clients logs) timeouts s) := by
  induction timeouts generalizing s with
  | nil => exact h
  | cons timeout timeouts ih =>
    have hstep := runOnce_spec (r := r) timeout s h
    refine ih ?_
    revert hstep
    rcases r.runOnce (Partitions.clients logs) timeout s with ⟨_ | _, _⟩ <;> exact id

/-- The offsets of the confirmed writes of a partition's records. -/
def confirmedOffsets (sent : List Sent) (p : TopicPartition) : List Int :=
  (sent.filter fun x => x.confirmed && x.source.place = p).map fun x => x.source.offset

/-- Nothing is lost, and nothing is reordered. -/
structure Safe (logs : Logs) (start : TopicPartition → Int) (v : View) : Prop where
  /-- The committed offset is behind every record whose write is not confirmed. -/
  committed : ∀ p, ∀ m ∈ logs.records p, start p ≤ m.offset → m.offset < v.committed p → Confirmed v.sent m
  ascending : ∀ p, Log.Ordered Message.offset (v.held p)
  /-- The deque has every polled record from the first unconfirmed one on. -/
  complete : ∀ p, ∀ m ∈ logs.records p, start p ≤ m.offset → m.offset < v.position p →
    (∃ m' ∈ logs.records p, start p ≤ m'.offset ∧ m'.offset ≤ m.offset ∧ ¬ Confirmed v.sent m') → m ∈ v.held p
  /-- The first confirmed writes are in the order of the offsets. -/
  inOrder : ∀ p, (confirmedOffsets v.sent p).eraseDups.Pairwise (· < ·)
  content : ∀ x ∈ v.sent, x.source ∈ logs.records x.source.place ∧ x.produced.value = x.source.value ∧
    x.produced.key = x.source.key ∧ x.produced.headers = x.source.headers.filter fun h =>
      h.1.decode ∉ [delayHeader, originalTopicHeader]

theorem Moves.inTurn {v : View} (h : Moves logs start v) (p : TopicPartition) :
    Log.InTurn (confirmedOffsets v.sent p) := by
  intro xs offset ys hsplit y hy hlt
  obtain ⟨l₁, l₂, hl, rfl, hl₂⟩ := List.map_eq_append_iff.mp hsplit
  obtain ⟨x, l₃, rfl, rfl, -⟩ := List.map_eq_cons_iff.mp hl₂
  obtain ⟨s₁, s₂, hs, rfl, hs₂⟩ := List.filter_eq_append_iff.mp hl
  obtain ⟨t₁, t₂, rfl, ht₁, hx, -⟩ := List.filter_eq_cons_iff.mp hs₂
  obtain ⟨hxc, rfl⟩ : x.confirmed = true ∧ x.source.place = p := by simpa using hx
  obtain ⟨z, hz, rfl⟩ := List.mem_map.mp hy
  obtain ⟨hzmem, hz⟩ := List.mem_filter.mp hz
  obtain ⟨-, hplace⟩ : z.confirmed = true ∧ z.source.place = x.source.place := by simpa using hz
  obtain ⟨hrec, hlo, -⟩ := h.sources z hzmem
  rw [hplace] at hrec hlo
  -- The write of the smaller offset is before `x`, and not among those passed over.
  obtain ⟨w, hw, hws, hwc⟩ := h.order (s₁ ++ t₁) x t₂ (by rw [hs, List.append_assoc]) hxc z.source hrec hlo hlt
  rcases List.mem_append.mp hw with hw | hw
  · refine List.mem_map.mpr ⟨w, List.mem_filter.mpr ⟨hw, ?_⟩, by rw [hws]⟩
    simp [hwc, hws, hplace]
  · exact absurd (ht₁ w hw) (by simp [hwc, hws, hplace])

theorem Moves.safe {v : View} (h : Moves logs start v) : Safe logs start v where
  committed := h.committed
  ascending p := by
    obtain ⟨done, hw, -⟩ := h.split p
    have : Log.Ordered Message.offset (done ++ v.held p) := hw ▸ (logs.ordered p).window
    exact (List.pairwise_append.mp this).2.1
  complete p m hm h1 h2 := by
    rintro ⟨m', hm', h1', hle, hnot⟩
    obtain ⟨done, hw, hdone⟩ := h.split p
    have hord : Log.Ordered Message.offset (done ++ v.held p) := hw ▸ (logs.ordered p).window
    have hin : ∀ x ∈ logs.records p, start p ≤ x.offset → x.offset < v.position p → x ∈ done ∨ x ∈ v.held p := by
      intro x hx hlo hhi
      exact List.mem_append.mp (hw ▸ Log.mem_window.mpr ⟨hx, hlo, hhi⟩)
    refine (hin m hm h1 h2).resolve_left fun hmd => ?_
    rcases hin m' hm' h1' (by omega) with hm'd | hm'h
    · exact hnot (hdone m' hm'd)
    · have := (List.pairwise_append.mp hord).2.2 m hmd m' hm'h
      omega
  inOrder p := (h.inTurn p).eraseDups
  content x hx := by
    obtain ⟨hmem, -, hp⟩ := h.sources x hx
    rw [hp]
    exact ⟨hmem, rfl, rfl, rfl⟩

/-- In every run of the re-inject consumer, whatever the polls return, whatever raises, whatever becomes of
the writes and whatever the clock says, nothing is lost and nothing is reordered. -/
theorem reinjector_safe (r : RetryReinjector) (logs : Logs) (start : TopicPartition → Int) (answers : Nat → Answer)
    (timeouts : List (Option ℚ)) :
    Safe logs start (r.run (Partitions.clients logs) timeouts ⟨[], false, Partitions.init answers start⟩).view :=
  (run_moves timeouts ⟨by simp [Partitions.init], Moves.init logs start⟩).2.safe

end Run

end BabelQueue.Kafka
