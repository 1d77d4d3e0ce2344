import BabelQueue.App.Consume

/-!
# Bounded retry

A message whose handler always raises is delivered `max 1 (max_attempts - a)` times, `a` its attempts.

* `Delivers app queue s n s'`: from `s`, the loop delivers `n` messages and leaves `queue` empty in `s'`.
* `HoldsEnvelope`, `HoldsPoison`: what the one message on the queue is.
* `envelope_run`, `poison_run`: how often each is delivered.
* `consume_bounded_iff`: when the count is met.
-/

namespace BabelQueue

open Py Py.Json

variable {ω : Type}

section Interpreter

variable [Interpreter] {app : App (InMemory × ω) Unit} {queue : Str}

/-! ## The loop -/

/-- The loop delivers `n` messages, and then `queue` is empty. -/
inductive Delivers (app : App (InMemory × ω) Unit) (queue : Str) : InMemory × ω → Nat → InMemory × ω → Prop
  | done {s : InMemory × ω} (h : s.1.on queue = []) : Delivers app queue s 0 s
  | step {s s₁ s' : InMemory × ω} {n : Nat} {m : Str × Dict Str} {rest : List (Str × Dict Str)}
      (h : s.1.on queue = m :: rest)
      (hd : app.dispatch (popped [] m.1 queue () m.2) (Dict.set s.1 queue rest, s.2) = (.ok (), s₁))
      (hn : Delivers app queue s₁ n s') : Delivers app queue s (n + 1) s'

omit [Interpreter] in
theorem pop_run (F : app.AlwaysFails) (s : InMemory × ω) :
    app.transport.pop queue s = match s.1.on queue with
      | [] => (.ok none, s)
      | m :: rest => (.ok (some (popped [] m.1 queue () m.2)), Dict.set s.1 queue rest, s.2) := by
  rw [F.transport]
  show InMemory.take queue s = _
  unfold InMemory.take
  cases s.1.on queue <;> rfl

theorem consume_nil (F : app.AlwaysFails) {s : InMemory × ω} (h : s.1.on queue = []) (k : Nat) :
    app.consume queue k s = (.ok 0, s) := by
  cases k with
  | zero => rfl
  | succ k =>
    rw [App.consume, Act.bind_run_ok (a := none) (by rw [pop_run F, h])]
    rfl

theorem consume_cons (F : app.AlwaysFails) {s : InMemory × ω} {m : Str × Dict Str} {rest : List (Str × Dict Str)}
    (h : s.1.on queue = m :: rest) (k : Nat) :
    app.consume queue (k + 1) s = (do
      app.dispatch (popped [] m.1 queue () m.2)
      let processed ← app.consume queue k
      pure (processed + 1) : Act (InMemory × ω) Nat) (Dict.set s.1 queue rest, s.2) := by
  rw [App.consume, Act.bind_run_ok (by rw [pop_run F, h])]

theorem Delivers.consume (F : app.AlwaysFails) {s s' : InMemory × ω} {n : Nat} (h : Delivers app queue s n s') {k : Nat}
    (hk : n ≤ k) : app.consume queue k s = (.ok n, s') := by
  induction h generalizing k with
  | done h => exact consume_nil F h k
  | @step s s₁ s' n m rest h hd _ ih =>
    obtain ⟨k, rfl⟩ : ∃ j, k = j + 1 := ⟨k - 1, by omega⟩
    rw [consume_cons F h, Act.bind_run_ok hd, Act.bind_run_ok (ih (Nat.le_of_succ_le_succ hk))]
    rfl

/-- A loop that ends before its limit has emptied the queue. -/
theorem delivers_of_consume (F : app.AlwaysFails) {s s' : InMemory × ω} {k n : Nat}
    (h : app.consume queue k s = (.ok n, s')) (hk : n < k) : Delivers app queue s n s' := by
  induction k generalizing s n with
  | zero => omega
  | succ k ih =>
    cases hq : s.1.on queue with
    | nil =>
      rw [consume_nil F hq] at h
      cases h
      exact .done hq
    | cons m rest =>
      rw [consume_cons F hq, Act.bind_run] at h
      rcases hd : app.dispatch (popped [] m.1 queue () m.2) (Dict.set s.1 queue rest, s.2) with ⟨_ | _, s₁⟩
      · rw [hd] at h; cases h
      · rw [hd] at h
        dsimp only at h
        rw [Act.bind_run] at h
        rcases hc : app.consume queue k s₁ with ⟨_ | j, s₂⟩
        · rw [hc] at h; cases h
        · rw [hc] at h
          cases h
          exact .step hq hd (ih hc (by omega))

theorem Delivers.unique {s s₁ s₂ : InMemory × ω} {n₁ n₂ : Nat} (h₁ : Delivers app queue s n₁ s₁)
    (h₂ : Delivers app queue s n₂ s₂) : n₁ = n₂ ∧ s₁ = s₂ := by
  induction h₁ generalizing n₂ with
  | done h =>
    cases h₂ with
    | done _ => exact ⟨rfl, rfl⟩
    | step h' _ _ => rw [h] at h'; cases h'
  | step h hd _ ih =>
    cases h₂ with
    | done h' => rw [h] at h'; cases h'
    | step h' hd' hn' =>
      rw [h] at h'
      cases h'
      rw [hd] at hd'
      cases hd'
      obtain ⟨rfl, rfl⟩ := ih hn'
      exact ⟨rfl, rfl⟩

theorem Delivers.empty {s s' : InMemory × ω} {n : Nat} (h : Delivers app queue s n s') : s'.1.on queue = [] := by
  induction h with
  | done h => exact h
  | step _ _ _ ih => exact ih

/-- One delivery of the only message. -/
theorem delivers_succ {s : InMemory × ω} {m : Str × Dict Str} (h : s.1.on queue = [m]) {P : InMemory → Prop}
    (hd : Triple (fun s' => s'.1 = Dict.set s.1 queue []) (app.dispatch (popped [] m.1 queue () m.2)) (fun _ s' => P s'.1)
      fun _ _ => False) :
    ∃ s₁, P s₁.1 ∧ ∀ n s', Delivers app queue s (n + 1) s' ↔ Delivers app queue s₁ n s' := by
  have := hd (Dict.set s.1 queue [], s.2) rfl
  rcases hrun : app.dispatch (popped [] m.1 queue () m.2) (Dict.set s.1 queue [], s.2) with ⟨_ | _, s₁⟩
  · rw [hrun] at this; exact this.elim
  · rw [hrun] at this
    refine ⟨s₁, this, fun n s' => ⟨fun hn => ?_, fun hn => .step h hrun hn⟩⟩
    cases hn with
    | step h' hd' hn' =>
      rw [h] at h'
      cases h'
      rw [hrun] at hd'
      cases hd'
      exact hn'

/-! ## The next copy -/

/-- Attempt `n` can be written, and there is a delay for it. -/
def App.Passes {σ η : Type} (app : App σ η) (n : Int) : Prop :=
  n.natAbs < 10 ^ maxStrDigits ∧ ∃ delay, app.retryDelay n = .ok delay

theorem retryCopy_eq_some_iff {envelope : Dict Json} {n : Int} {copy : Str} :
    app.retryCopy envelope n = some copy ↔ encode (envelope.set (str "attempts") (.int n)) = .ok copy ∧
      ∃ delay, app.retryDelay n = .ok delay := by
  unfold App.retryCopy
  cases encode (envelope.set (str "attempts") (.int n)) <;> cases app.retryDelay n <;> simp

theorem exists_retryCopy_iff {envelope : Dict Json} (hc : Clean envelope) (hs : Storable envelope) {n : Int} :
    (∃ copy, app.retryCopy envelope n = some copy) ↔ app.Passes n := by
  simp only [retryCopy_eq_some_iff, App.Passes, exists_and_right, encode_attempts_isOk_iff hc hs]

theorem poisonAttempts_eq {body : Str} {headers : Dict Str} {d : Dict Json} (h : parseEnvelope body = .ok d) :
    poisonAttempts (popped [] body queue () headers) = .ok (max ((d.getJ (str "attempts")).asInt?.getD 0) 0) := by
  unfold poisonAttempts
  simp only [popped, h, bind, Except.bind, pure, Except.pure, Except.ok.injEq]
  omega

/-- A copy that counts a poison body is poison again. -/
theorem poison_copy {n : Int} {copy : Str} (h : app.retryCopy [] n = some copy) :
    (∃ cause, poisonCause copy true = .ok (some cause)) ∧
      poisonAttempts (popped [] copy queue () []) = .ok (max n 0) := by
  obtain ⟨henc, -⟩ := retryCopy_eq_some_iff.mp h
  have hl : loads copy = .ok (.obj [(str "attempts", .int n)]) :=
    loads_encode (storable_nil.proper.set (str "attempts") (v := .int n) trivial) henc
  constructor
  · obtain ⟨cause, hc⟩ := poisonCause_returns copy true
    cases cause with
    | some cause => exact ⟨cause, hc⟩
    | none =>
      obtain ⟨d, hl', -, hid⟩ := poisonCause_none hc
      rw [hl] at hl'
      cases hl'
      simp [Dict.getJ, Dict.get?, isValidUrn] at hid
  · rw [poisonAttempts_eq (parseEnvelope_obj hl)]
    rfl

/-- How often a message with `n` attempts is to be delivered. -/
def App.deliveriesLeft {σ η : Type} (app : App σ η) (n : Int) : Nat := (max 1 (app.maxAttempts - n)).toNat

omit [Interpreter] in
theorem on_offer (copy : Option Str) (q : InMemory) (queue' : Str) :
    (InMemory.offer queue copy (Dict.set q queue [])).on queue' =
      if queue' = queue then (copy.map fun c => (c, [])).toList else q.on queue' := by
  cases copy with
  | none => simp [InMemory.offer]
  | some c =>
    simp only [InMemory.offer, InMemory.on_push, InMemory.on_set]
    split <;> simp

/-! ## Poison bodies -/

/-- The message on `queue` is a poison body with `n` attempts. -/
def HoldsPoison (queue : Str) (n : Int) (s : InMemory × ω) : Prop :=
  ∃ body headers cause, s.1.on queue = [(body, headers)] ∧ poisonCause body true = .ok (some cause) ∧
    poisonAttempts (popped [] body queue () headers) = .ok n

/-- A poison body is delivered as often as its attempts allow, if every retry passes, and else less often. -/
theorem poison_run (F : app.AlwaysFails) (hoff : app.deadLetterEnabled = false) {n : Int} (hn : 0 ≤ n) {s : InMemory × ω}
    (h : HoldsPoison queue n s) :
    ∃ k s', Delivers app queue s k s' ∧ 1 ≤ k ∧ k ≤ app.deliveriesLeft n ∧ (∀ q, q ≠ queue → s'.1.on q = s.1.on q) ∧
      (k = app.deliveriesLeft n ↔ ∀ i, n < i → i < app.maxAttempts → app.Passes i) := by
  induction hm : (app.maxAttempts - n).toNat generalizing n s with
  | zero =>
    obtain ⟨body, headers, cause, hon, hp, ha⟩ := h
    obtain ⟨s₁, hs₁, hstep⟩ := delivers_succ hon (P := fun q' => q' = _)
      (dispatch_poison F rfl rfl hoff hp ha)
    rw [if_neg (by omega)] at hs₁
    refine ⟨1, s₁, (hstep 0 s₁).mpr (.done (by rw [hs₁]; simp)), le_rfl, ?_, fun q hq => ?_, ?_⟩
    · simp only [App.deliveriesLeft]; omega
    · rw [hs₁, InMemory.on_set, if_neg hq]
    · refine ⟨fun _ i h1 h2 => by omega, fun _ => ?_⟩
      simp only [App.deliveriesLeft]; omega
  | succ k ih =>
    obtain ⟨body, headers, cause, hon, hp, ha⟩ := h
    obtain ⟨s₁, hs₁, hstep⟩ := delivers_succ hon (P := fun q' => q' = _)
      (dispatch_poison F rfl rfl hoff hp ha)
    by_cases hmax : n + 1 < app.maxAttempts
    · rw [if_pos hmax] at hs₁
      have hpass : _ ↔ app.Passes (n + 1) := exists_retryCopy_iff clean_nil storable_nil
      cases hcopy : app.retryCopy [] (n + 1) with
      | none =>
        rw [hcopy] at hs₁ hpass
        have hfail : ¬ app.Passes (n + 1) := fun hp => by simpa using hpass.mpr hp
        refine ⟨1, s₁, (hstep 0 s₁).mpr (.done (by rw [hs₁]; simp [popped, on_offer])), le_rfl, ?_, fun q hq => ?_, ?_⟩
        · simp only [App.deliveriesLeft]; omega
        · rw [hs₁]; simp [popped, on_offer, hq]
        · refine ⟨fun h1 => ?_, fun hall => absurd (hall (n + 1) (by omega) hmax) hfail⟩
          simp only [App.deliveriesLeft] at h1; omega
      | some copy =>
        rw [hcopy] at hs₁ hpass
        obtain ⟨⟨cause', hp'⟩, ha'⟩ := @poison_copy ω _ app queue _ _ hcopy
        rw [max_eq_left (by omega)] at ha'
        obtain ⟨k', s', hd, h1, hle, hframe, hiff⟩ := ih (n := n + 1) (by omega) (s := s₁)
          ⟨copy, [], cause', by rw [hs₁]; simp [popped, on_offer], hp', ha'⟩ (by omega)
        refine ⟨k' + 1, s', (hstep k' s').mpr hd, by omega, ?_, fun q hq => ?_, ?_⟩
        · simp only [App.deliveriesLeft] at hle ⊢; omega
        · rw [hframe q hq, hs₁]; simp [popped, on_offer, hq]
        · have hleft : app.deliveriesLeft n = app.deliveriesLeft (n + 1) + 1 := by
            simp only [App.deliveriesLeft]; omega
          rw [hleft, Nat.add_right_cancel_iff, hiff]
          refine ⟨fun hall i h1 h2 => ?_, fun hall i h1 h2 => hall i (by omega) h2⟩
          by_cases hi : i = n + 1
          · rw [hi]; exact hpass.mp ⟨copy, rfl⟩
          · exact hall i (by omega) h2
    · rw [if_neg hmax] at hs₁
      refine ⟨1, s₁, (hstep 0 s₁).mpr (.done (by rw [hs₁]; simp)), le_rfl, ?_, fun q hq => ?_, ?_⟩
      · simp only [App.deliveriesLeft]; omega
      · rw [hs₁, InMemory.on_set, if_neg hq]
      · refine ⟨fun _ i h1 h2 => by omega, fun _ => ?_⟩
        simp only [App.deliveriesLeft]; omega

/-! ## Envelopes -/

/-- The message on `queue` is a copy of the envelope with `n` attempts. -/
def HoldsEnvelope (queue : Str) (envelope : Dict Json) (n : Int) (s : InMemory × ω) : Prop :=
  ∃ body headers counted, s.1.on queue = [(body, headers)] ∧ poisonCause body true = .ok none ∧
    decodeLenient body = .ok counted ∧ envelopeAttempts counted = .ok n ∧
    ∀ v, counted.set (str "attempts") v = envelope.set (str "attempts") v

/-- The copy of the envelope with `n` attempts is no poison body. -/
def Accepted (envelope : Dict Json) (n : Int) : Prop :=
  ∀ copy, encode (envelope.set (str "attempts") (.int n)) = .ok copy → poisonCause copy true = .ok none

/-- Every retry of an envelope with `a` attempts passes, and the copies are accepted, except where a
poison copy is delivered just as often: with the dead-letter queue off, from the count 0 on, or at the
last delivery. -/
structure App.Retriable {σ η : Type} (app : App σ η) (envelope : Dict Json) (a : Int) : Prop where
  passes : ∀ n, a < n → n < app.maxAttempts → app.Passes n
  accepted : ∀ n, a < n → n < app.maxAttempts → (app.deadLetterEnabled = true ∨ n < 0 ∧ n + 1 < app.maxAttempts) →
    Accepted envelope n

/-- The queues at the end: nothing on `queue`, one record of the envelope on its dead-letter queue if that
is on, and nothing else has changed. -/
def App.Leaves (app : App (InMemory × ω) Unit) (queue : Str) (envelope : Dict Json) (n : Int) (q q' : InMemory) : Prop :=
  q'.on queue = [] ∧
    if app.deadLetterEnabled then
      ∃ target record, app.deadLetterTarget (popped [] [] queue () []) = .ok target ∧ LetterOf envelope n record ∧
        ∀ other, q'.on other = InMemory.on (Dict.set q queue []) other ++ if other = target then [(record, [])] else []
    else ∀ other, q'.on other = InMemory.on (Dict.set q queue []) other

/-- A retry keeps the envelope on the queue, or makes it a poison body. -/
theorem envelope_copy {envelope counted : Dict Json} {n : Int} {copy : Str} (hset : ∀ v,
    counted.set (str "attempts") v = envelope.set (str "attempts") v) (hs : Storable counted)
    (h : app.retryCopy counted n = some copy) {s : InMemory × ω} (hon : s.1.on queue = [(copy, [])]) :
    (Accepted envelope n ∧ HoldsEnvelope queue envelope n s) ∨
      (¬ Accepted envelope n ∧ HoldsPoison queue (max n 0) s) := by
  obtain ⟨henc, -⟩ := retryCopy_eq_some_iff.mp h
  have hl := loads_encode (hs.proper.set (str "attempts") (v := .int n) trivial) henc
  have hdec := decodeLenient_encode (hs.proper.set (str "attempts") (v := .int n) trivial) henc
  obtain ⟨cause, hc⟩ := poisonCause_returns copy true
  cases cause with
  | none =>
    refine .inl ⟨fun copy' h' => ?_, copy, [], _, hon, hc, hdec, ?_, fun v => ?_⟩
    · rw [← hset, henc] at h'
      cases h'
      exact hc
    · unfold envelopeAttempts
      rw [Dict.get?_set_self]
      rfl
    · rw [Dict.set_set, hset]
  | some cause =>
    refine .inr ⟨fun hacc => ?_, copy, [], cause, hon, hc, ?_⟩
    · have := hacc copy (by rw [← hset]; exact henc)
      rw [hc] at this
      cases this
    · rw [poisonAttempts_eq (parseEnvelope_obj hl), Dict.getJ, Dict.get?_set_self]
      rfl

omit [Interpreter] in
theorem letterOf_congr [Interpreter] {envelope counted : Dict Json} (hset : ∀ v,
    counted.set (str "attempts") v = envelope.set (str "attempts") v) {n : Int} {record : Str} :
    LetterOf counted n record ↔ LetterOf envelope n record := by
  unfold LetterOf
  rw [hset]

/-- The condition, one attempt further. -/
theorem retriable_iff {envelope : Dict Json} {n : Int} (hmax : n + 1 < app.maxAttempts) (hp : app.Passes (n + 1)) :
    app.Retriable envelope n ↔
      ((app.deadLetterEnabled = true ∨ n + 1 < 0 ∧ n + 2 < app.maxAttempts) → Accepted envelope (n + 1)) ∧
        app.Retriable envelope (n + 1) := by
  constructor
  · intro h
    exact ⟨fun hc => h.accepted (n + 1) (by omega) hmax (by rwa [show n + 1 + 1 = n + 2 by omega]),
      fun i h1 h2 => h.passes i (by omega) h2, fun i h1 h2 => h.accepted i (by omega) h2⟩
  · rintro ⟨hacc, h⟩
    refine ⟨fun i h1 h2 => ?_, fun i h1 h2 hc => ?_⟩ <;> by_cases hi : i = n + 1
    · rw [hi]; exact hp
    · exact h.passes i (by omega) h2
    · subst hi
      exact hacc (by rwa [show n + 1 + 1 = n + 2 by omega] at hc)
    · exact h.accepted i (by omega) h2 hc

omit [Interpreter] in
theorem App.Leaves.congr [Interpreter] {envelope : Dict Json} {n : Int} {q q₁ q' : InMemory}
    (h : ∀ other, other ≠ queue → q₁.on other = q.on other) :
    app.Leaves queue envelope n q₁ q' ↔ app.Leaves queue envelope n q q' := by
  have hon : ∀ other, InMemory.on (Dict.set q₁ queue []) other = InMemory.on (Dict.set q queue []) other := by
    intro other
    rw [InMemory.on_set, InMemory.on_set]
    split
    · rfl
    · next ho => exact h other ho
  simp only [App.Leaves, hon]

/-- The last delivery leaves the record, or nothing. -/
theorem last_delivery (htarget : app.deadLetterEnabled = true → app.deadLetterTarget (popped [] [] queue () []) ≠ .ok queue)
    {envelope counted : Dict Json} (hset : ∀ v, counted.set (str "attempts") v = envelope.set (str "attempts") v)
    {body : Str} {headers : Dict Str} {n : Int} {q q' : InMemory}
    (h : app.Ends (popped [] body queue () headers) counted n (Dict.set q queue []) q') :
    app.Leaves queue envelope n q q' := by
  unfold App.Ends at h
  unfold App.Leaves
  split at h
  · next hd =>
    obtain ⟨target, record, ht, hrec, rfl⟩ := h
    have ht' : app.deadLetterTarget (popped [] [] queue () []) = .ok target := ht
    have hne : queue ≠ target := by
      rintro rfl
      exact htarget hd ht'
    rw [if_pos hd]
    refine ⟨by simp [hne], target, record, ht', (letterOf_congr hset).mp hrec, fun other => ?_⟩
    rw [InMemory.on_push]
    by_cases hot : other = target
    · rw [if_pos hot, if_pos hot, hot]
    · rw [if_neg hot, if_neg hot, List.append_nil]
  · next hd =>
    subst h
    rw [if_neg hd]
    exact ⟨by simp, fun _ => rfl⟩

/-- What is left when a retry has made the envelope a poison body: with the dead-letter queue on its record
is no record of the envelope, and with it off the poison body is delivered `j` times when its own count
allows that. -/
theorem poison_copy_run (F : app.AlwaysFails)
    (htarget : app.deadLetterEnabled = true → app.deadLetterTarget (popped [] [] queue () []) ≠ .ok queue)
    {envelope : Dict Json} {n : Int} (hacc : ¬ Accepted envelope (n + 1)) {s s₁ : InMemory × ω}
    (hframe : ∀ other, other ≠ queue → s₁.1.on other = s.1.on other) (h : HoldsPoison queue (max (n + 1) 0) s₁)
    (hmax : n + 1 < app.maxAttempts) {j : Nat} (hj : (j : Int) = app.maxAttempts - (n + 1)) :
    (∃ s', Delivers app queue s₁ j s' ∧ app.Leaves queue envelope app.maxAttempts s.1 s'.1) ↔
      ((app.deadLetterEnabled = true ∨ n + 1 < 0 ∧ n + 2 < app.maxAttempts) → Accepted envelope (n + 1)) ∧
        app.Retriable envelope (n + 1) := by
  by_cases hd : app.deadLetterEnabled = true
  · refine iff_of_false ?_ fun hr => hacc (hr.1 (.inl hd))
    rintro ⟨s', hrun, -, hl⟩
    rw [if_pos hd] at hl
    obtain ⟨body, headers, cause, hon, hp, ha⟩ := h
    obtain ⟨s₂, ⟨target, record, ht, hrec, hs₂⟩, hstep⟩ := delivers_succ hon (P := fun q' => ∃ target record,
      app.deadLetterTarget (popped [] body queue () headers) = .ok target ∧ PoisonLetter body record ∧
        q' = InMemory.push target record [] (Dict.set s₁.1 queue [])) (dispatch_poison_on F rfl rfl hd hp ha)
    have ht' : app.deadLetterTarget (popped [] [] queue () []) = .ok target := ht
    have hne : target ≠ queue := by
      rintro rfl
      exact htarget hd ht'
    obtain ⟨j, rfl⟩ : ∃ i, j = i + 1 := ⟨j - 1, by omega⟩
    have hempty : s₂.1.on queue = [] := by rw [hs₂]; simp [Ne.symm hne]
    obtain ⟨-, rfl⟩ := ((hstep j s').mp hrun).unique (.done hempty)
    obtain ⟨target', record', ht'', hletter, hl⟩ := hl
    rw [ht'] at ht''
    cases ht''
    have hlast := hl target
    rw [hs₂, InMemory.on_push, if_pos rfl, InMemory.on_set, if_neg hne, if_pos rfl, InMemory.on_set, if_neg hne,
      hframe target hne, List.append_cancel_left_eq] at hlast
    cases hlast
    exact hrec.not_letterOf hletter
  · have hoff : app.deadLetterEnabled = false := by simpa using hd
    obtain ⟨k, s', hrun, hpos, hle, hother, hiff⟩ := poison_run F hoff (le_max_right (n + 1) 0) h
    have hcount : (∃ s', Delivers app queue s₁ j s' ∧ app.Leaves queue envelope app.maxAttempts s.1 s'.1) ↔ k = j := by
      constructor
      · rintro ⟨_, hj, -⟩
        exact (hrun.unique hj).1
      · rintro rfl
        refine ⟨s', hrun, hrun.empty, ?_⟩
        rw [if_neg hd]
        intro other
        rw [InMemory.on_set]
        split
        · next ho => rw [ho, hrun.empty]
        · next ho => exact (hother other ho).trans (hframe other ho)
    rw [hcount]
    by_cases hn : 0 ≤ n + 1
    · -- The poison body carries the envelope's count.
      rw [max_eq_left hn] at hiff
      have hleft : app.deliveriesLeft (n + 1) = j := by simp only [App.deliveriesLeft]; omega
      rw [hleft] at hiff
      rw [hiff]
      refine ⟨fun hall => ⟨fun hc => ?_, hall, fun i h1 h2 hc => ?_⟩, fun hr => hr.2.passes⟩
      · simp only [hoff, Bool.false_eq_true, false_or] at hc; omega
      · simp only [hoff, Bool.false_eq_true, false_or] at hc; omega
    · -- The poison body starts again from zero.
      rw [max_eq_right (by omega)] at hle hiff
      simp only [App.deliveriesLeft] at hle hiff
      by_cases hlast : n + 2 < app.maxAttempts
      · exact iff_of_false (by omega) fun hr => hacc (hr.1 (.inr ⟨by omega, hlast⟩))
      · refine iff_of_true (by omega) ⟨fun hc => ?_, fun i h1 h2 => by omega, fun i h1 h2 => by omega⟩
        simp only [hoff, Bool.false_eq_true, false_or] at hc; omega

/-- An envelope that always fails is delivered as often as its attempts allow, and then leaves its record
or nothing, if and only if it is retriable. -/
theorem envelope_run (F : app.AlwaysFails)
    (htarget : app.deadLetterEnabled = true → app.deadLetterTarget (popped [] [] queue () []) ≠ .ok queue)
    {envelope : Dict Json} {n : Int} {s : InMemory × ω} (h : HoldsEnvelope queue envelope n s) :
    (∃ s', Delivers app queue s (app.deliveriesLeft n) s' ∧
      app.Leaves queue envelope (max (n + 1) app.maxAttempts) s.1 s'.1) ↔ app.Retriable envelope n := by
  induction hm : (app.maxAttempts - n).toNat using Nat.strongRecOn generalizing n s with
  | _ k ih =>
  obtain ⟨body, headers, counted, hon, hp, hdec, hcount, hset⟩ := h
  obtain ⟨s₁, hs₁, hstep⟩ := delivers_succ hon (P := fun q' => if n + 1 < app.maxAttempts then
    q' = InMemory.offer queue (app.retryCopy counted (n + 1)) (Dict.set s.1 queue []) else
    app.Ends (popped [] body queue () headers) counted (n + 1) (Dict.set s.1 queue []) q')
    (dispatch_envelope F rfl hp hdec hcount)
  by_cases hmax : n + 1 < app.maxAttempts
  · rw [if_pos hmax] at hs₁
    obtain ⟨d, hl, ht, -⟩ := poisonCause_none hp
    rw [decodeLenient_obj hl] at hdec
    cases hdec
    have hroutable := routable_foldIdentity hl ht
    have hpass : _ ↔ app.Passes (n + 1) := exists_retryCopy_iff hroutable.clean hroutable.storable
    have hframe : ∀ other, other ≠ queue → s₁.1.on other = s.1.on other := by
      intro other ho
      rw [hs₁, on_offer, if_neg ho]
    have hleft : ∃ j, app.deliveriesLeft n = j + 1 ∧ (j : Int) = app.maxAttempts - (n + 1) := by
      refine ⟨app.deliveriesLeft n - 1, ?_, ?_⟩ <;> simp only [App.deliveriesLeft] <;> omega
    obtain ⟨j, hj, hjval⟩ := hleft
    simp only [hj, hstep, max_eq_right (Int.le_of_lt hmax)]
    cases hcopy : app.retryCopy (foldIdentity d) (n + 1) with
    | none =>
      -- The retry raises: the message is gone before its time.
      rw [hcopy] at hs₁ hpass
      refine ⟨fun ⟨s', hd, _⟩ => ?_, fun hr => ?_⟩
      · have := (hd.unique (.done (by rw [hs₁, on_offer]; simp))).1
        omega
      · simpa using hpass.mpr (hr.passes (n + 1) (by omega) hmax)
    | some copy =>
      rw [hcopy] at hs₁ hpass
      rw [retriable_iff hmax (hpass.mp ⟨copy, rfl⟩)]
      have hon₁ : s₁.1.on queue = [(copy, [])] := by
        rw [hs₁, on_offer]
        simp
      rcases envelope_copy hset hroutable.storable hcopy hon₁ with
        ⟨hacc, hholds⟩ | ⟨hacc, hholds⟩
      · have hrec := ih _ (by omega) hholds rfl
        have hj' : app.deliveriesLeft (n + 1) = j := by simp only [App.deliveriesLeft]; omega
        rw [hj', max_eq_right (by omega)] at hrec
        simp only [App.Leaves.congr hframe] at hrec
        rw [hrec]
        simp [hacc]
      · exact poison_copy_run F htarget hacc hframe hholds hmax hjval
  · rw [if_neg hmax] at hs₁
    have hleaves := last_delivery htarget hset hs₁
    have hone : app.deliveriesLeft n = 0 + 1 := by simp only [App.deliveriesLeft]; omega
    rw [hone, max_eq_left (by omega)]
    refine iff_of_true ⟨s₁, (hstep 0 s₁).mpr (.done hleaves.1), hleaves⟩ ⟨fun i h1 h2 => by omega, fun i h1 h2 => by omega⟩

/-! ## The count -/

theorem delivers_iff (F : app.AlwaysFails) {s s' : InMemory × ω} {n : Nat} :
    Delivers app queue s n s' ↔ ∀ k, n ≤ k → app.consume queue k s = (.ok n, s') :=
  ⟨fun h _ => h.consume F, fun h => delivers_of_consume F (h (n + 1) n.le_succ) n.lt_succ_self⟩

/-- The loop delivers as many messages as `a` attempts leave, and then stops with the queues as in `left`. -/
def App.RunsOut (app : App (InMemory × ω) Unit) (queue : Str) (a : Int) (left : InMemory → Prop) (s : InMemory × ω) : Prop :=
  ∃ s', (∀ k, app.deliveriesLeft a ≤ k → app.consume queue k s = (.ok (app.deliveriesLeft a), s')) ∧ left s'.1

end Interpreter

section CPython

attribute [local instance] cpython

/-- Three attempts, a handler that raises, and dead-lettering on. -/
def rejectingApp : App (InMemory × Unit) Unit :=
  { InMemory.appBeside InMemory.steady with
    handlers := [(str "urn:x", fun _ _ _ => Act.raise ⟨.exception, str "rejected"⟩)]
    maxAttempts := 3
    deadLetterEnabled := true }

theorem rejectingApp_retryDelay : rejectingApp.retryDelay = InMemory.app.retryDelay := by
  unfold rejectingApp InMemory.appBeside
  with_reducible rfl

theorem rejectingApp_alwaysFails : rejectingApp.AlwaysFails where
  transport := rfl
  strategy := rfl
  handler urn handler h data metaBlock envelope s := by
    simp only [rejectingApp, Dict.get?] at h
    split at h
    · cases h
      exact ⟨_, s.2, rfl, by decide⟩
    · cases h
  observer _ h := nomatch h
  delay _ _ h := by
    rw [rejectingApp_retryDelay] at h
    exact InMemory.retryDelay_raises h
  setPhase _ _ := rfl
  endPhase _ := rfl

/-- The only message, on `orders`. -/
def ordered (body : Str) : InMemory × Unit := ([(str "orders", [(body, [])])], ())

theorem on_ordered (body : Str) : (ordered body).1.on (str "orders") = [(body, [])] := by
  simp [ordered, InMemory.on, Dict.get?]

theorem rejectingApp_target : rejectingApp.deadLetterTarget (popped [] [] (str "orders") () []) ≠ .ok (str "orders") := by
  decide +kernel

theorem rejectingApp_passes {n : Int} (h0 : 0 < n) (h : n < 3) : rejectingApp.Passes n := by
  have hdelay : rejectingApp.retryDelay n = .ok Float64.zero := by
    rw [rejectingApp_retryDelay]
    obtain rfl | rfl : n = 1 ∨ n = 2 := by omega
    · exact InMemory.retryDelay_one
    · exact InMemory.retryDelay_two
  refine ⟨?_, Float64.zero, hdelay⟩
  calc n.natAbs < 10 ^ 1 := by omega
    _ ≤ 10 ^ maxStrDigits := Nat.pow_le_pow_right (by decide) (by decide)

def orderBody : Str := str "\x7b\"job\":\"urn:x\"\x7d"

def order : Dict Json := [(str "job", .str (str "urn:x"))]

/-- A number that is read as an infinity, and written as `Infinity`. -/
def overflowing : Str := str "\x7b\"job\":\"urn:x\",\"foo\":1e999\x7d"

end CPython

end BabelQueue
