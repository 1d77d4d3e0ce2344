import Mathlib.Tactic.Linarith
import Mathlib.Tactic.NormNum
import BabelQueue.Kafka.Partitions
import BabelQueue.Kafka.Produce

/-!
# Delays

When a parked record is written to its work topic. Times are milliseconds of one clock that never goes back.

* `Timed`, `Timed.clients`: clients that may do anything, and note when `produce` is called.
* `Parked type topic args now m`: `m` is the record of a write at the time `now`.
* `Honours r m due`: in no run of the re-inject consumer is `m` written before `due`.
* `Timely`: the timestamp of a parked record leaves it its delay.
* `delays_honoured_iff`: the delays are honoured of exactly the timely records.
-/

namespace BabelQueue.Kafka

open Py Py.Json

/-! ## Clients with a clock -/

/-- What a call of a client finds. -/
structure Moment where
  /-- Seconds. -/
  now : ℚ
  raises : Bool
  polled : Option Polled
  report : Report

/-- The calls so far, and the records that were written with the milliseconds of the writes. -/
structure Timed where
  calls : Nat
  writes : List (Message × ℚ)

namespace Timed

variable (moments : Nat → Moment)

def next : Act Timed Moment := fun b => (.ok (moments b.calls), { b with calls := b.calls + 1 })

def call : Act Timed Unit := do
  let a ← next moments
  if a.raises then Act.raise Partitions.clientError else pure ()

def clients : RetryClients Timed where
  subscribe _ := call moments
  poll _ := do
    let a ← next moments
    if a.raises then Act.raise Partitions.clientError else pure a.polled
  pause _ := call moments
  resume _ := call moments
  seek _ _ := call moments
  commit _ := call moments
  produce m _ _ := do
    let a ← next moments
    Act.modify fun b => { b with writes := b.writes ++ [(m, a.now * 1000)] }
    if a.raises then Act.raise Partitions.clientError else pure a.report
  clock := do
    let a ← next moments
    pure a.now

end Timed

/-! ## Parked records -/

/-- The type of the timestamps of a topic. -/
inductive TimestampType
  | createTime
  | logAppendTime

/-- The timestamp of a stored record: that of the producer, when it gives one, or the time of the write. -/
def TimestampType.stored (type : TimestampType) (passed : Option Int) (written : Int) : Option (Int × Option Int) :=
  match type with
  | createTime => some (1, some (passed.getD written))
  | logAppendTime => some (2, some written)

/-- A write at the time `now` stored the record `m`. -/
structure Parked (type : TimestampType) (topic : Str) (args : RecordArgs) (now : Int) (m : Message) : Prop where
  named : TopicName topic
  topic : m.place.topic = topic
  value : m.value = some args.value
  key : m.key = args.key
  headers : m.headers = args.headers.map fun h => (.text h.1, some (.bytes h.2))
  timestamp : ∃ written, now ≤ written ∧ m.timestamp = type.stored args.timestamp written

/-- The clock does not go back, and `m` is polled after it was parked. -/
structure After (parked : Int) (m : Message) (moments : Nat → Moment) : Prop where
  monotone : ∀ i j, i ≤ j → (moments i).now ≤ (moments j).now
  polled : ∀ k, (moments k).polled = some (.record m) → (parked : ℚ) ≤ (moments k).now * 1000

/-- `m` is never written before `due`. -/
def Honours (r : RetryReinjector) (parked : Int) (m : Message) (due : Int) : Prop :=
  ∀ moments timeouts, After parked m moments →
    ∀ w ∈ (r.run (Timed.clients moments) timeouts ⟨[], false, ⟨0, []⟩⟩).clients.writes, w.1 = m → (due : ℚ) ≤ w.2

section Interpreter

variable [Interpreter]

/-- `publish_delayed`, with `_produce_confirmed` as a parameter. -/
def publishDelayed {σ : Type} (produceConfirmed : Str → RecordArgs → Act σ Unit) (tiers : Tiers) (queue body : Str)
    (delayMs : Int) : Act σ Unit := do
  let (topic, args) ← Act.lift (delayedArgs tiers queue body delayMs)
  produceConfirmed topic args

/-- The producer passes no timestamp that is too old for the delay. -/
def Timely (type : TimestampType) (body : Str) (now tierMs delayMs : Int) : Prop :=
  type = .createTime → ∀ env t, parseEnvelope body = .ok env → createdAt env = some t →
    t < 0 ∨ delayMs ≤ 0 ∨ now + delayMs ≤ t + tierMs

end Interpreter

/-! ## When a record is due -/

theorem le_targetTime {recordMs : Option Int} {tierMs now delayMs : Int} (hd : delayMs ≤ tierMs)
    (hr : ∀ t ∈ recordMs, delayMs ≤ 0 ∨ now + delayMs ≤ t + tierMs) {nowMs : ℚ} (hn : (now : ℚ) ≤ nowMs) :
    ((now + delayMs : Int) : ℚ) ≤ targetTime recordMs tierMs nowMs := by
  have htier : ((now + delayMs : Int) : ℚ) ≤ nowMs + tierMs := by
    have : (delayMs : ℚ) ≤ tierMs := by exact_mod_cast hd
    push_cast
    linarith
  cases recordMs with
  | none => exact htier
  | some t =>
    refine le_min ?_ htier
    rcases hr t rfl with h0 | hle
    · refine le_max_of_le_right ?_
      have : (delayMs : ℚ) ≤ 0 := by exact_mod_cast h0
      push_cast
      linarith
    · refine le_max_of_le_left ?_
      exact_mod_cast hle

/-! ## Runs -/

section Run

variable {r : RetryReinjector} {moments : Nat → Moment} {parked : Int} {m : Message} {due : Int}

/-- Neither the deques nor the writes have `m` too early. -/
structure Kept (m : Message) (due : Int) (s : Reinjecting Timed) : Prop where
  held : ∀ p, ∀ h ∈ s.waiting.held p, h.1 = m → (due : ℚ) ≤ h.2
  writes : ∀ w ∈ s.clients.writes, w.1 = m → (due : ℚ) ≤ w.2

/-- It is `t` or later, and `m` is kept. -/
def Since (moments : Nat → Moment) (m : Message) (due : Int) (t : ℚ) (s : Reinjecting Timed) : Prop :=
  t ≤ (moments s.clients.calls).now * 1000 ∧ Kept m due s

theorem next_run (b : Timed) : Timed.next moments b = (.ok (moments b.calls), { b with calls := b.calls + 1 }) := rfl

section Clock

variable (h : After parked m moments) (t : ℚ)

include h

theorem since_next {s : Reinjecting Timed} (hs : Since moments m due t s) :
    Since moments m due t { s with clients := { s.clients with calls := s.clients.calls + 1 } } := by
  have := h.monotone s.clients.calls (s.clients.calls + 1) (Nat.le_succ _)
  exact ⟨by dsimp only; linarith [hs.1], hs.2.held, hs.2.writes⟩

theorem call_spec : Triple (Since moments m due t) (onClients (Timed.call moments)) (fun _ => Since moments m due t)
    fun _ => Since moments m due t := by
  intro s hs
  have hnext := since_next h t hs
  unfold onClients Timed.call
  rw [Act.bind_run_ok (next_run _)]
  by_cases hraises : (moments s.clients.calls).raises = true
  · rw [if_pos hraises]
    exact hnext
  · rw [if_neg hraises]
    exact hnext

theorem consumer_since : Triple (Since moments m due t) (r.consumer (Timed.clients moments)) (fun _ => Since moments m due t)
    fun _ => Since moments m due t := by
  refine Triple.bind (Triple.get (Q := fun _ => Since moments m due t) fun _ hs => hs) fun s => ?_
  split
  · exact Triple.pure () fun _ hs => hs
  · exact Triple.bind (call_spec h t) fun _ => Triple.modify _ fun _ hs => ⟨hs.1, hs.2.held, hs.2.writes⟩

omit h in
theorem attempted_since {t : ℚ} {call : Act (Reinjecting Timed) Unit}
    (hc : Triple (Since moments m due t) call (fun _ => Since moments m due t) fun _ => Since moments m due t) :
    Triple (Since moments m due t) (RetryReinjector.attempted call) (fun _ => Since moments m due t)
      fun _ => Since moments m due t :=
  Triple.tryExcept hc (fun _ _ => Triple.pure () fun _ hs => hs) fun _ _ _ hs => hs

theorem consumer_call : Triple (Since moments m due t)
    (do
      r.consumer (Timed.clients moments)
      onClients (Timed.call moments))
    (fun _ => Since moments m due t) fun _ => Since moments m due t :=
  Triple.bind (consumer_since h t) fun _ => call_spec h t

/-- The clock shows `t` or later, and it does not go back. -/
theorem nowMs_since : Triple (Since moments m due t) (RetryReinjector.nowMs (Timed.clients moments))
    (fun now s => t ≤ now ∧ Since moments m due now s) fun _ => Since moments m due t := by
  intro s hs
  have := h.monotone s.clients.calls (s.clients.calls + 1) (Nat.le_succ _)
  refine ⟨hs.1, ?_, hs.2.held, hs.2.writes⟩
  show (moments s.clients.calls).now * 1000 ≤ (moments (s.clients.calls + 1)).now * 1000
  linarith

/-- A record is held until it is due. -/
theorem accept_since {m' : Message} (hm' : m' = m → (parked : ℚ) ≤ t)
    (hdue : ∀ tierMs now, r.tiers.tierMs m.place.topic = .ok (some tierMs) → (parked : ℚ) ≤ now →
      (due : ℚ) ≤ targetTime m.recordMs tierMs now) :
    Triple (Since moments m due t) (r.accept (Timed.clients moments) m') (fun _ => Since moments m due t)
      fun _ => Since moments m due t := by
  refine Triple.bind (Q := fun tier s => r.tiers.tierMs m'.place.topic = .ok tier ∧ Since moments m due t s)
    (Triple.lift _ (fun _ _ ht hs => ⟨ht, hs⟩) fun _ _ _ hs => hs) fun tier => ?_
  cases tier with
  | none => exact (consumer_call h t).pre fun _ hs => hs.2
  | some tierMs =>
    refine Triple.bind (Q := fun now s => (r.tiers.tierMs m'.place.topic = .ok (some tierMs) ∧ t ≤ now) ∧ Since moments m due t s)
      ?_ fun now => ?_
    · refine Triple.of_state fun s hs => ?_
      refine ((nowMs_since h t).pre fun s' hs' => hs' ▸ hs.2).conseq (fun _ => id) ?_ fun _ _ hs => hs
      rintro now s' ⟨hle, hnow, hkept⟩
      exact ⟨⟨hs.1, hle⟩, by linarith, hkept⟩
    refine Triple.bind (Q := fun _ => Since moments m due t) (Triple.modify _ ?_) fun _ => attempted_since (consumer_call h t)
    rintro s ⟨⟨htier, hle⟩, hs⟩
    refine ⟨hs.1, fun p => ?_, hs.2.writes⟩
    dsimp only
    rw [Waiting.held_put]
    split
    · next hp =>
      subst hp
      intro e he hem
      rcases List.mem_append.mp he with he | he
      · exact hs.2.held _ e he hem
      · obtain rfl := List.mem_singleton.mp he
        obtain rfl : m' = m := hem
        exact hdue tierMs now htier (by linarith [hm' rfl])
    · exact hs.2.held p

theorem resume_since (p : TopicPartition) : Triple (Since moments m due t) (r.resume (Timed.clients moments) p)
    (fun _ => Since moments m due t) fun _ => Since moments m due t :=
  attempted_since (consumer_call h t)

theorem rewind_since (m' : Message) : Triple (Since moments m due t) (r.rewind (Timed.clients moments) m')
    (fun _ => Since moments m due t) fun _ => Since moments m due t := by
  refine Triple.bind (consumer_since h t) fun _ => Triple.bind (Q := fun _ => Since moments m due t) ?_ fun _ => resume_since h t _
  refine Triple.tryExcept (call_spec h t) (fun e _ => ?_) fun _ _ _ hs => hs
  exact Triple.bind (resume_since h t _) fun _ => Triple.raise _ fun _ hs => hs

/-- A record is written at `t` or later. -/
theorem reinject_since {m' : Message} (hm' : m' = m → (due : ℚ) ≤ t) :
    Triple (Since moments m due t) (RetryReinjector.reinject (Timed.clients moments) m') (fun _ => Since moments m due t)
      fun _ => Since moments m due t := by
  refine Triple.bind (Q := fun _ => Since moments m due t) (fun s hs => ?_) fun report => ?_
  · have hwritten : Since moments m due t { s with clients :=
        ⟨s.clients.calls + 1, s.clients.writes ++ [(m', (moments s.clients.calls).now * 1000)]⟩ } := by
      refine ⟨(since_next h t hs).1, hs.2.held, fun w hw hwm => ?_⟩
      rcases List.mem_append.mp hw with hw | hw
      · exact hs.2.writes w hw hwm
      · obtain rfl := List.mem_singleton.mp hw
        exact (hm' hwm).trans hs.1
    have hrun : (Timed.clients moments).produce m' (RetryReinjector.target m') (RetryReinjector.moved m') s.clients =
        (if (moments s.clients.calls).raises then .error Partitions.clientError else .ok (moments s.clients.calls).report,
          ⟨s.clients.calls + 1, s.clients.writes ++ [(m', (moments s.clients.calls).now * 1000)]⟩) := by
      show (Timed.next moments >>= _) s.clients = _
      rw [Act.bind_run_ok (next_run _), Act.bind_run_ok (Act.modify_run _ _)]
      split <;> rfl
    unfold onClients
    rw [hrun]
    by_cases hraises : (moments s.clients.calls).raises = true
    · rw [if_pos hraises]
      exact hwritten
    · rw [if_neg hraises]
      exact hwritten
  · rcases report with _ | _ | error
    · exact Triple.raise _ fun _ hs => hs
    · exact Triple.pure _ fun _ hs => hs
    · exact Triple.raise _ fun _ hs => hs

omit h in
theorem since_put {t : ℚ} {s : Reinjecting Timed} (hs : Since moments m due t s) {p : TopicPartition} {held : List (Message × ℚ)}
    (hh : ∀ e ∈ held, e.1 = m → (due : ℚ) ≤ e.2) : Since moments m due t { s with waiting := s.waiting.put p held } := by
  refine ⟨hs.1, fun q => ?_, hs.2.writes⟩
  dsimp only
  rw [Waiting.held_put]
  split
  · exact hh
  · exact hs.2.held q

/-- The due records of a deque. -/
theorem releaseHeld_since (p : TopicPartition) (held : List (Message × ℚ)) (hh : ∀ e ∈ held, e.1 = m → (due : ℚ) ≤ e.2) :
    Triple (Since moments m due t) (r.releaseHeld (Timed.clients moments) t p held) (fun _ => Since moments m due t)
      fun _ => Since moments m due t := by
  induction held with
  | nil => exact Triple.pure _ fun _ hs => hs
  | cons e held ih =>
    obtain ⟨m', due'⟩ := e
    have htail : ∀ e ∈ held, e.1 = m → (due : ℚ) ≤ e.2 := fun e he => hh e (List.mem_cons_of_mem _ he)
    rw [RetryReinjector.releaseHeld]
    split
    · next hle =>
      refine Triple.bind (Q := fun _ => Since moments m due t) ?_ fun failed => ?_
      · refine Triple.tryExcept (Triple.bind (reinject_since h t fun hm' => ?_) fun _ => Triple.pure _ fun _ hs => hs)
          (fun e _ => ?_) fun _ _ _ hs => hs
        · exact (hh _ List.mem_cons_self hm').trans hle
        · exact Triple.bind (rewind_since h t m') fun _ => Triple.bind (Q := fun _ => Since moments m due t)
            (Triple.modify _ fun _ hs => since_put hs (by simp)) fun _ => Triple.pure _ fun _ hs => hs
      · split
        · exact Triple.pure _ fun _ hs => hs
        · refine Triple.bind (Triple.bind (consumer_since h t) fun _ => call_spec h t) fun _ =>
            Triple.bind (Q := fun _ => Since moments m due t) (Triple.modify _ fun _ hs => since_put hs htail) fun _ => ?_
          exact Triple.bind (ih htail) fun _ => Triple.pure _ fun _ hs => hs
    · exact Triple.pure _ fun _ hs => hs

theorem dropEmpty_since (p : TopicPartition) (rewound : Bool) :
    Triple (Since moments m due t) (r.dropEmpty (Timed.clients moments) p rewound) (fun _ => Since moments m due t)
      fun _ => Since moments m due t := by
  refine Triple.bind (Triple.get (Q := fun _ => Since moments m due t) fun _ hs => hs) fun s => ?_
  split
  · refine Triple.bind (Q := fun _ => Since moments m due t) (Triple.modify _ fun s hs => ?_) fun _ => ?_
    · refine ⟨hs.1, fun q => ?_, hs.2.writes⟩
      dsimp only
      rw [Waiting.held_drop]
      split
      · exact fun _ he => (by cases he)
      · exact hs.2.held q
    · split
      · exact Triple.pure _ fun _ hs => hs
      · exact resume_since h t p
  · exact Triple.pure _ fun _ hs => hs

theorem releaseAll_since (ps : List TopicPartition) :
    Triple (Since moments m due t) (r.releaseAll (Timed.clients moments) t ps) (fun _ => Since moments m due t)
      fun _ => Since moments m due t := by
  induction ps with
  | nil => exact Triple.pure _ fun _ hs => hs
  | cons p ps ih =>
    refine Triple.bind (Q := fun s' s => s' = s ∧ Since moments m due t s) (Triple.get fun _ hs => ⟨rfl, hs⟩) fun s' => ?_
    refine Triple.of_state fun s₀ hs₀ => ?_
    obtain ⟨rfl, hs⟩ := hs₀
    refine Triple.pre (P := Since moments m due t) ?_ fun _ he => he ▸ hs
    refine Triple.bind (releaseHeld_since h t p _ (hs.2.held p)) fun written => ?_
    exact Triple.bind (dropEmpty_since h t p written.2) fun _ => Triple.bind ih fun _ => Triple.pure _ fun _ hs => hs

end Clock

variable (h : After parked m moments)
  (hdue : ∀ tierMs now, r.tiers.tierMs m.place.topic = .ok (some tierMs) → (parked : ℚ) ≤ now →
    (due : ℚ) ≤ targetTime m.recordMs tierMs now)

include h hdue

/-- A poll, and what is due after it. -/
theorem runOnce_kept (timeout : Option ℚ) :
    Triple (Kept m due) (r.runOnce (Timed.clients moments) timeout) (fun _ => Kept m due) fun _ => Kept m due := by
  refine Triple.of_state fun s₀ hs₀ => ?_
  have hstart : Since moments m due ((moments s₀.clients.calls).now * 1000) s₀ := ⟨le_rfl, hs₀⟩
  generalize (moments s₀.clients.calls).now * 1000 = t at hstart
  have hmain : Triple (Since moments m due t) (r.runOnce (Timed.clients moments) timeout)
      (fun _ => Kept m due) fun _ => Kept m due := by
    refine Triple.bind ((consumer_since h t).conseq (fun _ => id) (fun _ _ => id) fun _ _ hs => hs.2) fun _ => ?_
    refine Triple.bind (Q := fun _ => Since moments m due t) ?_ fun wait => ?_
    · refine Triple.bind (Triple.get (Q := fun _ => Since moments m due t) fun _ hs => hs) fun s => ?_
      split
      · exact Triple.pure _ fun _ hs => hs
      · refine Triple.bind (Triple.lift _ (fun _ _ _ hs => hs) fun _ _ _ hs => hs.2) fun dues => ?_
        exact Triple.bind (Q := fun _ => Since moments m due t) (fun s hs => since_next h t hs) fun _ =>
          Triple.pure _ fun _ hs => hs
    refine Triple.bind (Q := fun polled s => ∃ t, Since moments m due t s ∧ (polled = some (.record m) → (parked : ℚ) ≤ t))
      (fun s hs => ?_) fun polled => ?_
    · have hnext := (since_next h _ (show Since moments m due ((moments s.clients.calls).now * 1000) s from ⟨le_rfl, hs.2⟩))
      have hrun : (Timed.clients moments).poll wait s.clients =
          (if (moments s.clients.calls).raises then .error Partitions.clientError else .ok (moments s.clients.calls).polled,
            { s.clients with calls := s.clients.calls + 1 }) := by
        show (Timed.next moments >>= _) s.clients = _
        rw [Act.bind_run_ok (next_run _)]
        split <;> rfl
      unfold onClients
      rw [hrun]
      by_cases hraises : (moments s.clients.calls).raises = true
      · rw [if_pos hraises]
        exact hnext.2
      · rw [if_neg hraises]
        exact ⟨_, hnext, h.polled _⟩
    refine Triple.of_state fun s₁ hs₁ => ?_
    obtain ⟨t₁, hs₁, hpolled⟩ := hs₁
    refine Triple.bind (Q := fun _ => Since moments m due t₁) ?_ fun _ => ?_
    · refine Triple.pre (P := Since moments m due t₁) ?_ fun _ he => he ▸ hs₁
      rcases polled with _ | m' | _
      · exact Triple.pure _ fun _ hs => hs
      · refine (accept_since h t₁ (fun hm' => hpolled (by rw [hm'])) hdue).conseq (fun _ => id) (fun _ _ => id) fun _ _ hs => hs.2
      · exact Triple.pure _ fun _ hs => hs
    · refine Triple.bind ((nowMs_since h t₁).conseq (fun _ => id) (fun now s hs => hs.2) fun _ _ hs => hs.2) fun now => ?_
      refine Triple.bind (Triple.get (Q := fun _ => Since moments m due now) fun _ hs => hs) fun s => ?_
      exact (releaseAll_since h now _).conseq (fun _ => id) (fun _ _ hs => hs.2) fun _ _ hs => hs.2
  exact hmain.pre fun _ he => he ▸ hstart

theorem run_kept (timeouts : List (Option ℚ)) {s : Reinjecting Timed} (hs : Kept m due s) :
    Kept m due (r.run (Timed.clients moments) timeouts s) := by
  induction timeouts generalizing s with
  | nil => exact hs
  | cons timeout timeouts ih =>
    have hstep := runOnce_kept h hdue timeout s hs
    refine ih ?_
    revert hstep
    rcases r.runOnce (Timed.clients moments) timeout s with ⟨_ | _, _⟩ <;> exact id

end Run

/-- A record that is due late enough is never written too early. -/
theorem honours_of_targetTime {r : RetryReinjector} {parked : Int} {m : Message} {due : Int}
    (hdue : ∀ tierMs now, r.tiers.tierMs m.place.topic = .ok (some tierMs) → (parked : ℚ) ≤ now →
      (due : ℚ) ≤ targetTime m.recordMs tierMs now) : Honours r parked m due := by
  intro moments timeouts h w hw
  have hinit : Kept m due (⟨[], false, ⟨0, []⟩⟩ : Reinjecting Timed) := ⟨fun _ _ he => (by cases he), fun _ hw => (by cases hw)⟩
  exact (run_kept h hdue timeouts hinit).writes w hw

/-! ## An early write -/

/-- Nothing raises, each poll returns `m`, and the clock shows `first`, and `second` from the fifth call on. -/
def earlyMoments (m : Message) (first second : ℚ) (k : Nat) : Moment :=
  ⟨(if k < 4 then first else second) / 1000, false, some (.record m), some none⟩

/-- One call of `run_once` holds `m` and writes it. -/
theorem early_write (r : RetryReinjector) {m : Message} {tierMs : Int} {first second : ℚ}
    (ht : r.tiers.tierMs m.place.topic = .ok (some tierMs)) (hle : targetTime m.recordMs tierMs first ≤ second) :
    (m, second) ∈ (r.run (Timed.clients (earlyMoments m first second)) [none] ⟨[], false, ⟨0, []⟩⟩).clients.writes := by
  have h₁ : first / 1000 * 1000 = first := div_mul_cancel₀ first (by norm_num)
  have h₂ : second / 1000 * 1000 = second := div_mul_cancel₀ second (by norm_num)
  simp [RetryReinjector.run, RetryReinjector.runOnce, RetryReinjector.consumer, RetryReinjector.pollWait, Timed.clients,
    RetryReinjector.acceptPolled, RetryReinjector.accept, RetryReinjector.nowMs, RetryReinjector.releaseDue,
    RetryReinjector.releaseAll, RetryReinjector.attempted, onClients, Timed.call, Timed.next, earlyMoments, Act.bind_run, Act.get,
    Act.modify, Act.lift, Act.tryExcept, ht, hle, h₁, h₂, RetryReinjector.releaseHeld, RetryReinjector.reinject, RetryReinjector.commit,
    RetryReinjector.dropEmpty, RetryReinjector.resume, Waiting.put, Waiting.held, Waiting.drop]

/-! ## The records that keep their delay -/

/-- A record of a tier is never written too early exactly when its timestamp is late enough. -/
theorem honours_iff {r : RetryReinjector} {m : Message} {tierMs parked delayMs : Int}
    (ht : r.tiers.tierMs m.place.topic = .ok (some tierMs)) (hd : delayMs ≤ tierMs) :
    Honours r parked m (parked + delayMs) ↔ ∀ t ∈ m.recordMs, delayMs ≤ 0 ∨ parked + delayMs ≤ t + tierMs := by
  constructor
  · intro h t hrec
    by_contra hearly
    obtain ⟨hpos, hlt⟩ := not_or.mp hearly
    have hfirst : (parked : ℚ) ≤ max ((t + tierMs : Int) : ℚ) parked := le_max_right _ _
    have hle : targetTime m.recordMs tierMs parked ≤ max ((t + tierMs : Int) : ℚ) parked := by
      rw [Option.mem_def.mp hrec]
      exact (min_le_left _ _).trans (by push_cast; exact le_rfl)
    have hafter : After parked m (earlyMoments m parked (max ((t + tierMs : Int) : ℚ) parked)) := by
      constructor
      · intro i j hij
        unfold earlyMoments
        dsimp only
        split <;> split
        · exact le_rfl
        · linarith
        · omega
        · exact le_rfl
      · intro k _
        unfold earlyMoments
        dsimp only
        rw [div_mul_cancel₀ _ (by norm_num)]
        split
        · exact le_rfl
        · exact hfirst
    have hdue := h _ _ hafter _ (early_write r ht hle) rfl
    have hlate : max ((t + tierMs : Int) : ℚ) parked < ((parked + delayMs : Int) : ℚ) :=
      max_lt (by exact_mod_cast by omega) (by exact_mod_cast by omega)
    exact absurd hdue (not_le.mpr hlate)
  · intro h
    refine honours_of_targetTime fun tierMs' now ht' hnow => ?_
    rw [ht] at ht'
    cases ht'
    exact le_targetTime hd h hnow

/-- Only a timestamp that the producer passed can be too early. -/
theorem Parked.recordMs_iff {type : TimestampType} {topic : Str} {args : RecordArgs} {parked : Int} {m : Message}
    (h : Parked type topic args parked m) {tierMs delayMs : Int} (hd : delayMs ≤ tierMs) :
    (∀ t ∈ m.recordMs, delayMs ≤ 0 ∨ parked + delayMs ≤ t + tierMs) ↔
      (type = .createTime → ∀ t, args.timestamp = some t → t < 0 ∨ delayMs ≤ 0 ∨ parked + delayMs ≤ t + tierMs) := by
  obtain ⟨written, hw, hm⟩ := h.timestamp
  have hlate : ∀ kind, kind ≠ 0 → m.timestamp = some (kind, some written) →
      ∀ t ∈ m.recordMs, delayMs ≤ 0 ∨ parked + delayMs ≤ t + tierMs := by
    intro kind hkind hm t ht
    unfold Message.recordMs at ht
    rw [hm] at ht
    simp only [if_neg hkind, Option.mem_def, Option.filter_eq_some_iff, Option.some.injEq] at ht
    omega
  cases type with
  | logAppendTime => exact iff_of_true (hlate 2 (by decide) hm) fun h => by cases h
  | createTime =>
    cases hpassed : args.timestamp with
    | none =>
      rw [hpassed] at hm
      exact iff_of_true (hlate 1 (by decide) hm) fun _ t h => by cases h
    | some passed =>
      rw [hpassed] at hm
      unfold Message.recordMs
      rw [hm]
      simp only [TimestampType.stored, Option.getD_some, one_ne_zero, if_false, Option.mem_def, Option.filter_eq_some_iff,
        Option.some.injEq, forall_true_left, decide_eq_true_eq, and_imp]
      constructor
      · rintro h t rfl
        by_cases h0 : passed < 0
        · exact .inl h0
        · exact .inr (h passed rfl (by omega))
      · rintro h t rfl h0
        exact (h passed rfl).resolve_left (by omega)

section Interpreter

variable [Interpreter]

theorem parsed_of_decoded {body : Str} {envelope : Dict Json} (h : decodeLenient body = .ok envelope) :
    ∃ env, parseEnvelope body = .ok env := by
  rcases body_cases body with hover | ⟨d, hl⟩ | ⟨hparse, -, -⟩
  · obtain ⟨e, he⟩ := decodeLenient_error_iff.mpr hover
    rw [h] at he
    cases he
  · exact ⟨d, parseEnvelope_obj hl⟩
  · exact ⟨[], hparse⟩

/-- The record of a tier, for a body whose `created_at` is that of `body`. -/
theorem parked_honours_iff {r : RetryReinjector} {work : Str} (hwork : work ∈ r.workTopics) {n : Nat} {tierMs : Int}
    (hn : r.tiers.ms[n]? = some tierMs) {delayMs : Int} (hd : delayMs ≤ tierMs) {body : Str} {env : Dict Json}
    (he : parseEnvelope body = .ok env) {args : RecordArgs} {type : TimestampType} {parked : Int} {m : Message}
    (hm : Parked type (retryTopic work (n + 1)) args parked m) (ht : args.timestamp = createdAt env) :
    Honours r parked m (parked + delayMs) ↔ Timely type body parked tierMs delayMs := by
  obtain ⟨hlt, rfl⟩ := List.getElem?_eq_some_iff.mp hn
  have htier : r.tiers.tierMs m.place.topic = .ok (some r.tiers.ms[n]) := by
    rw [hm.topic]
    exact r.tiers.tierMs_retryTopic (r.named work hwork) hlt hm.named
  rw [honours_iff htier hd, hm.recordMs_iff hd, ht]
  unfold Timely
  constructor
  · intro h hct env' t he' hc
    rw [he] at he'
    cases he'
    exact h hct t hc
  · exact fun h hct t hc => h hct env t he hc

/-- What is parked is written after its delay, unless the timestamp that is passed with it, the `created_at` of
its body, is too old. -/
theorem delays_honoured_iff (r : RetryReinjector) :
    (∀ (m : ReceivedMessage Message) (body topic : Str) (args : RecordArgs), m.queue ∈ r.workTopics →
      redeliverArgs r.tiers m body = .ok (topic, args) →
      ∃ n tierMs, r.tiers.ms[n]? = some tierMs ∧ topic = retryTopic m.queue (n + 1) ∧
        ∀ type parked record, Parked type topic args parked record →
          (Honours r parked record (parked + tierMs) ↔ Timely type body parked tierMs tierMs)) ∧
    (∀ (queue body topic : Str) (delayMs : Int) (args : RecordArgs), queue ∈ r.workTopics →
      delayedArgs r.tiers queue body delayMs = .ok (topic, args) →
      ∃ n tierMs, r.tiers.ms[n]? = some tierMs ∧ topic = retryTopic queue (n + 1) ∧ delayMs ≤ tierMs ∧
        (∀ t ∈ r.tiers.ms, delayMs ≤ t → tierMs ≤ t) ∧
        ∀ type parked record, Parked type topic args parked record →
          (Honours r parked record (parked + delayMs) ↔ Timely type body parked tierMs delayMs)) ∧
    ∀ (queue body : Str) (delayMs : Int), (∀ t ∈ r.tiers.ms, t < delayMs) →
      ∀ (σ : Type) (produceConfirmed : Str → RecordArgs → Act σ Unit) (s : σ),
        ∃ e, publishDelayed produceConfirmed r.tiers queue body delayMs s = (.error e, s) := by
  refine ⟨fun m body topic args hq h => ?_, fun queue body topic delayMs args hq h => ?_, fun queue body delayMs h σ produce s => ?_⟩
  · obtain ⟨before, n, tierMs, text, record, headers, -, -, hn, htext, hrecord, -, rfl⟩ := redeliverArgs_spec h
    obtain ⟨args, attempts, delay, original, hr, rfl, -, -, -, rfl⟩ := tierRecord_spec hrecord
    obtain ⟨env', -, -, he', hts, -⟩ := recordArgs_strict hr
    obtain ⟨envelope, hdec, -⟩ := withAttempts_ok htext
    obtain ⟨env, he⟩ := parsed_of_decoded hdec
    refine ⟨n, tierMs, hn, rfl, fun type parked m hm => ?_⟩
    exact parked_honours_iff hq hn le_rfl he hm (hts.trans (createdAt_withAttempts htext he he'))
  · obtain ⟨n, tierMs, hn, hd, hmin, hrecord⟩ := delayedArgs_spec h
    obtain ⟨args, attempts, delay, original, hr, rfl, -, -, -, rfl⟩ := tierRecord_spec hrecord
    obtain ⟨env, -, -, he, hts, -⟩ := recordArgs_strict hr
    exact ⟨n, tierMs, hn, rfl, hd, hmin, fun type parked m hm => parked_honours_iff hq hn hd he hm hts⟩
  · obtain ⟨e, he⟩ : ∃ e, delayedArgs r.tiers queue body delayMs = .error e := delayedArgs_uncovered h
    refine ⟨e, ?_⟩
    unfold publishDelayed
    rw [he]
    rfl

end Interpreter

section CPython

attribute [local instance] cpython

/-- A re-inject consumer of one work topic, with one tier of five seconds. -/
def ordersReinjector : RetryReinjector where
  workTopics := [str "orders"]
  tiers := ⟨[5000], by decide, by decide⟩
  pollInterval := 1
  named := by
    intro work hwork
    obtain rfl := List.mem_singleton.mp hwork
    exact ⟨by decide, by decide, List.all_eq_true.mp (by decide +kernel)⟩

/-- An envelope that was made at the second 1. -/
def agedBody (attempts : String) : Str :=
  str "\x7b\"job\":\"urn:x\",\"trace_id\":\"t\",\"data\":\x7b\x7d,\"meta\":\x7b\"id\":\"1\",\"queue\":\"orders\"," ++
    str "\"lang\":\"python\",\"schema_version\":1,\"created_at\":1000\x7d,\"attempts\":" ++ str attempts ++ str "\x7d"

/-- The delivery of that envelope. -/
def agedDelivery : ReceivedMessage Message :=
  ⟨agedBody "0", str "orders", ⟨⟨str "orders", 0⟩, 0, none, none, [], none⟩, [], .plain [], none, 0⟩

/-- The record that is stored for the arguments of a write. -/
def storedRecord (args : RecordArgs) : Message where
  place := ⟨str "orders.retry.1", 0⟩
  offset := 0
  value := some args.value
  key := args.key
  headers := args.headers.map fun h => (.text h.1, some (.bytes h.2))
  timestamp := some (1, some 1000)

theorem aged_args : ∃ args, redeliverArgs ordersReinjector.tiers agedDelivery (agedBody "0") = .ok (str "orders.retry.1", args) ∧
    args.timestamp = some 1000 := by
  have h : (redeliverArgs ordersReinjector.tiers agedDelivery (agedBody "0")).map (fun r => (r.1, r.2.timestamp)) =
      .ok (str "orders.retry.1", some 1000) := by decide +kernel
  obtain ⟨⟨topic, args⟩, hargs, heq⟩ := map_eq_ok.mp h
  obtain ⟨rfl, hts⟩ := Prod.mk.inj heq
  exact ⟨args, hargs, hts⟩

theorem aged_record_honoured_iff : ∃ args, ∃ n tierMs, ordersReinjector.tiers.ms[n]? = some tierMs ∧
    str "orders.retry.1" = retryTopic (str "orders") (n + 1) ∧
      ∀ type parked record, Parked type (str "orders.retry.1") args parked record →
        (Honours ordersReinjector parked record (parked + tierMs) ↔ Timely type (agedBody "0") parked tierMs tierMs) := by
  obtain ⟨args, hargs, -⟩ := aged_args
  exact ⟨args, (delays_honoured_iff ordersReinjector).1 agedDelivery _ _ args List.mem_cons_self hargs⟩

/-- An envelope made at the second 1 and parked for five seconds at the second 1000 is written at once. -/
theorem aged_record_at_once : envelopeViolation (agedBody "0") = .ok none ∧ ∃ args, redeliverArgs ordersReinjector.tiers agedDelivery (agedBody "0") =
      .ok (str "orders.retry.1", args) ∧
    Parked .createTime (str "orders.retry.1") args 1000000 (storedRecord args) ∧
    ∃ moments, After 1000000 (storedRecord args) moments ∧
      (storedRecord args, 1000000) ∈
        (ordersReinjector.run (Timed.clients moments) [none] ⟨[], false, ⟨0, []⟩⟩).clients.writes := by
  obtain ⟨args, hargs, hts⟩ := aged_args
  refine ⟨by decide +kernel, args, hargs, ⟨⟨by decide, by decide, List.all_eq_true.mp (by decide +kernel)⟩, rfl, rfl, rfl, rfl, 1000000, le_rfl, ?_⟩,
    earlyMoments (storedRecord args) 1000000 1000000, ⟨?_, ?_⟩, early_write ordersReinjector
      (show ordersReinjector.tiers.tierMs (str "orders.retry.1") = .ok (some 5000) by decide +kernel) ?_⟩
  · rw [hts]
    rfl
  · intro i j _
    simp [earlyMoments]
  · intro k _
    norm_num [earlyMoments]
  · show targetTime (some 1000) 5000 1000000 ≤ 1000000
    norm_num [targetTime]

end CPython

end BabelQueue.Kafka
