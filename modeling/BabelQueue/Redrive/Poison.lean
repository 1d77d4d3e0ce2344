import BabelQueue.Redrive.Conserve

/-!
# Which messages a redrive gives back

On any transport; `RedriveTransport.logged` also writes down the publishes and the acks.

* `turns`: the turns of a run, one for each message, up to the first that raises.
* `Restored`: the turn publishes the body back to the dead-letter queue, and does nothing else.
* `Kept`: there is no envelope to replay, or it is not to be replayed, and the queue takes the body.
* `redrive_restores_iff`: the messages that a run restores, poison or not.
-/

namespace BabelQueue

open Py Py.Json

variable {σ η α : Type}

/-! ## A log of the calls -/

/-- A call on the transport that a turn may make. -/
inductive RedriveCall (η : Type)
  | publish (queue body : Str)
  | ack (m : ReceivedMessage η)

/-- A call that is not written down. -/
def unlogged (c : Act σ α) : Act (σ × List (RedriveCall η)) α := fun s => ((c s.1).1, (c s.1).2, s.2)

/-- A call that is written down. -/
def noted (call : RedriveCall η) (c : Act σ α) : Act (σ × List (RedriveCall η)) α := fun s =>
  ((c s.1).1, (c s.1).2, s.2 ++ [call])

/-- The transport, with a log of what is published and acked. -/
def RedriveTransport.logged (T : RedriveTransport σ η) : RedriveTransport (σ × List (RedriveCall η)) η where
  classifiesPoison := T.classifiesPoison
  retryTiersMs := T.retryTiersMs
  publish queue body := noted (.publish queue body) (T.publish queue body)
  pop queue := unlogged (T.pop queue)
  ack m := noted (.ack m) (T.ack m)
  publishRouted := T.publishRouted.map fun f queue body route => noted (.publish queue body) (f queue body route)
  publishSettle := T.publishSettle.map fun f queue body route key => noted (.publish queue body) (f queue body route key)
  redeliver := T.redeliver.map fun f m body delay => unlogged (f m body delay)
  deadLetter := T.deadLetter.map fun f m target record => unlogged (f m target record)
  rewind := T.rewind.map fun f m => unlogged (f m)
  abandon := T.abandon.map fun f m => unlogged (f m)
  deadLetterQueueName := T.deadLetterQueueName
  settleNative := T.settleNative.map fun f m a b => unlogged (f m a b)
  settleNativeDeadLetter := T.settleNativeDeadLetter.map fun f m a b => unlogged (f m a b)
  popBatch := T.popBatch.map fun f queue max => unlogged (f queue max)
  publishWithHeaders := T.publishWithHeaders.map fun f queue body headers => noted (.publish queue body) (f queue body headers)
  publishRedriven := T.publishRedriven.map fun f queue body headers route key =>
    noted (.publish queue body) (f queue body headers route key)

/-- The arguments of the run; `select` is no call on the transport. -/
def RedriveOptions.logged (o : RedriveOptions σ) : RedriveOptions (σ × List (RedriveCall η)) where
  toQueue := o.toQueue
  max := o.max
  dryRun := o.dryRun
  select := o.select.map fun select envelope => unlogged (select envelope)
  bypass := o.bypass

/-- The calls that restore a message. -/
def restoringCalls (dlq : Str) (m : ReceivedMessage η) : List (RedriveCall η) := [.publish dlq m.body, .ack m]

/-! ## The log of a run -/

theorem unlogged_pure (a : α) : (unlogged (pure a) : Act (σ × List (RedriveCall η)) α) = pure a := rfl

theorem unlogged_bind {β : Type} (c : Act σ α) (k : α → Act σ β) :
    (unlogged (c >>= k) : Act (σ × List (RedriveCall η)) β) = unlogged c >>= fun a => unlogged (k a) := by
  funext s
  cases h : c s.1 with
  | mk r s' => cases r <;> simp [unlogged, Act.bind_run, h]

theorem publishKeepingRoute_logged (T : RedriveTransport σ η) (queue body : Str) (route : RouteUrn) (key : Option Bytes) :
    publishKeepingRoute T.logged.toTransport queue body route key =
      noted (.publish queue body) (publishKeepingRoute T.toTransport queue body route key) := by
  unfold publishKeepingRoute RedriveTransport.logged
  cases T.publishSettle with
  | some f => rfl
  | none =>
    cases T.publishRouted with
    | none => rfl
    | some f => dsimp only [Option.map]; split <;> rfl

theorem drain_logged (T : RedriveTransport σ η) (dlq : Str) (max : Int) (fuel : Nat) (popped : List (ReceivedMessage η)) :
    drain T.logged.toTransport dlq max fuel popped = unlogged (drain T.toTransport dlq max fuel popped) := by
  induction fuel generalizing popped with
  | zero => rfl
  | succ fuel ih =>
    rw [drain, drain]
    split
    · rw [unlogged_bind]
      refine congrArg _ (funext fun m => ?_)
      cases m with
      | none => rfl
      | some m => exact ih _
    · rfl

theorem drained_logged (T : RedriveTransport σ η) (dlq : Str) (max : Int) (fuel : Nat) :
    drained T.logged dlq max fuel = unlogged (drained T dlq max fuel) := by
  unfold drained
  cases h : T.popBatch with
  | none =>
    have hl : T.logged.popBatch = none := by rw [RedriveTransport.logged, h]; rfl
    rw [hl]
    exact drain_logged T dlq max fuel []
  | some f =>
    have hl : T.logged.popBatch = some fun queue max => unlogged (f queue max) := by rw [RedriveTransport.logged, h]; rfl
    rw [hl]

/-- A message that is restored leaves its two calls in the log. -/
theorem restore_logged_iff {T : RedriveTransport σ η} {dlq : Str} {m : ReceivedMessage η} {s s' : σ}
    {log calls : List (RedriveCall η)} :
    restore T.logged.toTransport dlq m (s, log) = (.ok (), s', calls) ↔
      restore T.toTransport dlq m s = (.ok (), s') ∧ calls = log ++ restoringCalls dlq m := by
  unfold restore
  rw [publishKeepingRoute_logged, Act.bind_run, Act.bind_run, noted]
  cases publishKeepingRoute T.toTransport dlq m.body m.routeUrn m.key s with
  | mk r s₁ =>
    cases r with
    | error e => simp
    | ok u =>
      have hack : T.logged.toTransport.ack m = noted (.ack m) (T.toTransport.ack m) := rfl
      dsimp only
      rw [hack, noted]
      cases T.toTransport.ack m s₁ with
      | mk r s₂ =>
        simp only [Prod.mk.injEq, restoringCalls, List.append_assoc, List.cons_append, List.nil_append, and_assoc]
        refine and_congr_right fun _ => and_congr_right fun _ => eq_comm

/-! ## The turns -/

section Run

variable [Interpreter]

/-- One turn: the message, the state it starts from, how it ends, and its calls. -/
structure Turn (σ η : Type) where
  message : ReceivedMessage η
  before : σ
  result : Except PyExc RedriveItem
  calls : List (RedriveCall η)

/-- The turns of a batch, up to the first that raises. -/
def turns (T : RedriveTransport σ η) (dlq : Str) (o : RedriveOptions σ) :
    List (ReceivedMessage η × Option (Dict Json)) → σ → List (Turn σ η)
  | [], _ => []
  | (m, envelope) :: batch, s =>
    match replayOne T.logged dlq o.logged m envelope (s, []) with
    | (.ok item, s', calls) => ⟨m, s, .ok item, calls⟩ :: turns T dlq o batch s'
    | (.error e, _, calls) => [⟨m, s, .error e, calls⟩]

/-- The message is published back as it is, acked and counted as skipped, and nothing else happens. -/
def Restored (dlq : Str) (t : Turn σ η) : Prop :=
  ∃ item, t.result = .ok item ∧ item.redriven = false ∧ t.calls = restoringCalls dlq t.message

/-- The state in which a message of the run that starts from `s` is given back: there is nothing to
replay, or it is not chosen, or the run is dry. -/
inductive Spared (o : RedriveOptions σ) (m : ReceivedMessage η) (s : σ) : σ → Prop
  | undecoded (h : batchEnvelope m = .ok none) : Spared o m s s
  | nonNumeric {envelope : Dict Json} (h : batchEnvelope m = .ok (some envelope))
      (hr : m.routeUrn.text = nonNumericAttemptsRoute) : Spared o m s s
  | unchosen {envelope : Dict Json} {s' : σ} (h : batchEnvelope m = .ok (some envelope))
      (hr : m.routeUrn.text ≠ nonNumericAttemptsRoute) (hs : selected o envelope s = (.ok false, s')) : Spared o m s s'
  | dry {envelope : Dict Json} {s' : σ} (h : batchEnvelope m = .ok (some envelope))
      (hr : m.routeUrn.text ≠ nonNumericAttemptsRoute) (hs : selected o envelope s = (.ok true, s')) (hd : o.dryRun = true) :
      Spared o m s s'

/-- The message is to be given back, and the dead-letter queue takes it. -/
def Kept (T : RedriveTransport σ η) (dlq : Str) (o : RedriveOptions σ) (m : ReceivedMessage η) (s : σ) : Prop :=
  ∃ s' s'', Spared o m s s' ∧ restore T.toTransport dlq m s' = (.ok (), s'')

omit [Interpreter] in
theorem selected_logged (o : RedriveOptions σ) (envelope : Dict Json) :
    selected (o.logged : RedriveOptions (σ × List (RedriveCall η))) envelope = unlogged (selected o envelope) := by
  unfold selected RedriveOptions.logged
  cases o.select <;> rfl

omit [Interpreter] in
/-- A run that restores and returns an item. -/
theorem restore_pure_iff {T : RedriveTransport σ η} {dlq : Str} {m : ReceivedMessage η} {item : RedriveItem} {s : σ}
    (hitem : item.redriven = false) {r : Except PyExc RedriveItem} {w : σ × List (RedriveCall η)}
    (hrun : (do restore T.logged.toTransport dlq m; pure item : Act _ _) (s, []) = (r, w)) :
    (∃ item, r = .ok item ∧ item.redriven = false ∧ w.2 = restoringCalls dlq m) ↔
      ∃ s', restore T.toTransport dlq m s = (.ok (), s') := by
  rw [Act.bind_run] at hrun
  cases hres : restore T.logged.toTransport dlq m (s, []) with
  | mk r' w' =>
    rw [hres] at hrun
    cases r' with
    | error e =>
      cases hrun
      constructor
      · rintro ⟨_, h, -⟩; cases h
      · rintro ⟨s', h⟩
        rw [restore_logged_iff.mpr ⟨h, rfl⟩] at hres
        cases hres
    | ok u =>
      cases hrun
      obtain ⟨hrun', hcalls⟩ := restore_logged_iff.mp hres
      exact ⟨fun _ => ⟨_, hrun'⟩, fun _ => ⟨item, rfl, hitem, hcalls⟩⟩

theorem itemOf_not_redriven {dlq : Str} {envelope : Dict Json} {item : RedriveItem} (h : itemOf dlq envelope = .ok item) :
    item.redriven = false := by
  unfold itemOf at h
  obtain ⟨_, -, h⟩ := bind_eq_ok.mp h
  obtain ⟨_, -, h⟩ := bind_eq_ok.mp h
  obtain ⟨_, -, h⟩ := bind_eq_ok.mp h
  cases h
  rfl

theorem spared_none_iff {o : RedriveOptions σ} {m : ReceivedMessage η} {s s' : σ} (he : batchEnvelope m = .ok none) :
    Spared o m s s' ↔ s' = s := by
  refine ⟨fun h => ?_, fun h => h ▸ .undecoded he⟩
  cases h with
  | undecoded _ => rfl
  | nonNumeric _ _ => rfl
  | unchosen he' _ _ => rw [he] at he'; cases he'
  | dry he' _ _ _ => rw [he] at he'; cases he'

theorem spared_some_iff {o : RedriveOptions σ} {m : ReceivedMessage η} {envelope : Dict Json} {s s' : σ}
    (he : batchEnvelope m = .ok (some envelope)) :
    Spared o m s s' ↔ if m.routeUrn.text = nonNumericAttemptsRoute then s' = s
      else selected o envelope s = (.ok false, s') ∨ selected o envelope s = (.ok true, s') ∧ o.dryRun = true := by
  split
  · next hr =>
    refine ⟨fun h => ?_, fun h => h ▸ .nonNumeric he hr⟩
    cases h with
    | undecoded _ => rfl
    | nonNumeric _ _ => rfl
    | unchosen _ hr' _ => exact absurd hr hr'
    | dry _ hr' _ _ => exact absurd hr hr'
  · next hr =>
    constructor
    · intro h
      cases h with
      | undecoded he' => rw [he] at he'; cases he'
      | nonNumeric _ hr' => exact absurd hr' hr
      | unchosen he' _ hs => rw [he] at he'; cases he'; exact .inl hs
      | dry he' _ hs hd => rw [he] at he'; cases he'; exact .inr ⟨hs, hd⟩
    · rintro (hs | ⟨hs, hd⟩)
      · exact .unchosen he hr hs
      · exact .dry he hr hs hd

theorem itemOf_batchEnvelope (dlq : Str) {m : ReceivedMessage η} {envelope : Dict Json}
    (he : batchEnvelope m = .ok (some envelope)) : ∃ item, itemOf dlq envelope = .ok item := by
  unfold batchEnvelope at he
  split at he
  · cases he
  · exact itemOf_isOk dlq (decodedBody_some he).2.2

/-- One turn restores its message exactly when the message is kept. -/
theorem turn_restored_iff {T : RedriveTransport σ η} {dlq : Str} {o : RedriveOptions σ} {m : ReceivedMessage η}
    {envelope : Option (Dict Json)} {s : σ} {r : Except PyExc RedriveItem} {w : σ × List (RedriveCall η)}
    (he : batchEnvelope m = .ok envelope) (hrun : replayOne T.logged dlq o.logged m envelope (s, []) = (r, w)) :
    Restored dlq ⟨m, s, r, w.2⟩ ↔ Kept T dlq o m s := by
  unfold Restored Kept
  unfold replayOne at hrun
  cases envelope with
  | none =>
    rw [restore_pure_iff rfl hrun]
    simp only [spared_none_iff he, exists_and_left, exists_eq_left]
  | some envelope =>
    obtain ⟨item, hitem⟩ := itemOf_batchEnvelope dlq he
    simp only [spared_some_iff he]
    dsimp only at hrun
    by_cases hr : m.routeUrn.text = nonNumericAttemptsRoute
    · rw [if_pos hr] at hrun
      rw [restore_pure_iff rfl hrun]
      simp only [if_pos hr, exists_and_left, exists_eq_left]
    · rw [if_neg hr, hitem, Act.bind_run_ok (Act.lift_run _ _), selected_logged, Act.bind_run, unlogged] at hrun
      simp only [if_neg hr]
      cases hsel : selected o envelope s with
      | mk r' s₁ =>
        rw [hsel] at hrun
        cases r' with
        | error e =>
          cases hrun
          simp
        | ok chosen =>
          cases chosen with
          | false =>
            dsimp only at hrun
            rw [if_pos (show (!false) = true from rfl)] at hrun
            rw [restore_pure_iff (itemOf_not_redriven hitem) hrun]
            simp
          | true =>
            dsimp only at hrun
            rw [if_neg (show ¬ (!true) = true by simp)] at hrun
            by_cases hd : o.dryRun = true
            · have hd' : (o.logged : RedriveOptions (σ × List (RedriveCall η))).dryRun = true := hd
              rw [if_pos hd'] at hrun
              have hnot : ({ item with target := redriveTarget (o.logged : RedriveOptions (σ × List (RedriveCall η))).toQueue envelope } : RedriveItem).redriven = false :=
                (itemOf_not_redriven hitem :)
              rw [restore_pure_iff hnot hrun]
              simp [hd]
            · have hd' : ¬ (o.logged : RedriveOptions (σ × List (RedriveCall η))).dryRun = true := hd
              rw [if_neg hd'] at hrun
              have hredriven : ∀ item, r = .ok item → item.redriven = true := by
                rintro item rfl
                obtain ⟨bypassed, w₁, -, hrun⟩ := Act.of_bind_run_ok hrun
                obtain ⟨_, w₂, -, hrun⟩ := Act.of_bind_run_ok hrun
                cases hrun
                rfl
              constructor
              · rintro ⟨item, hok, hno, -⟩
                rw [hredriven item hok] at hno
                cases hno
              · rintro ⟨s', s'', h, -⟩
                simp [hd] at h

/-! ## The log only grows -/

/-- What a call writes down does not depend on the log. -/
def Framed (c : Act (σ × List (RedriveCall η)) α) : Prop :=
  ∀ s log, c (s, log) = ((c (s, [])).1, (c (s, [])).2.1, log ++ (c (s, [])).2.2)

namespace Framed

variable {c : Act (σ × List (RedriveCall η)) α}

omit [Interpreter] in
protected theorem pure (a : α) : Framed (pure a : Act (σ × List (RedriveCall η)) α) := fun s log => by
  simp [Act.pure_run]

omit [Interpreter] in
protected theorem lift (r : Except PyExc α) : Framed (Act.lift r : Act (σ × List (RedriveCall η)) α) := fun s log => by
  simp [Act.lift_run]

omit [Interpreter] in
protected theorem raise (e : PyExc) : Framed (Act.raise e : Act (σ × List (RedriveCall η)) α) := fun s log => by
  simp [Act.raise_run]

omit [Interpreter] in
theorem unlogged (c : Act σ α) : Framed (unlogged c : Act (σ × List (RedriveCall η)) α) := fun s log => by
  simp [BabelQueue.unlogged]

omit [Interpreter] in
theorem noted (call : RedriveCall η) (c : Act σ α) : Framed (noted call c) := fun s log => by
  simp [BabelQueue.noted]

omit [Interpreter] in
protected theorem bind {β : Type} {k : α → Act (σ × List (RedriveCall η)) β} (h : Framed c) (hk : ∀ a, Framed (k a)) :
    Framed (c >>= k) := by
  intro s log
  rw [Act.bind_run, Act.bind_run, h s log]
  cases hc : c (s, []) with
  | mk r w =>
    cases r with
    | error e => rfl
    | ok a =>
      dsimp only
      rw [hk a w.1 (log ++ w.2), hk a w.1 w.2, List.append_assoc]

omit [Interpreter] in
theorem tryExcept {cs : List ExcClass} {f : PyExc → Act (σ × List (RedriveCall η)) α} (h : Framed c)
    (hf : ∀ e, Framed (f e)) : Framed (Act.tryExcept c cs f) := by
  intro s log
  unfold Act.tryExcept
  rw [h s log]
  cases hc : c (s, []) with
  | mk r w =>
    cases r with
    | ok a => rfl
    | error e =>
      dsimp only
      split
      · rw [hf e w.1 (log ++ w.2), hf e w.1 w.2, List.append_assoc]
      · rfl

end Framed

variable {T : RedriveTransport σ η} {dlq : Str} {o : RedriveOptions σ}

omit [Interpreter] in
theorem restore_framed (m : ReceivedMessage η) : Framed (restore T.logged.toTransport dlq m) := by
  unfold restore
  rw [publishKeepingRoute_logged]
  exact (Framed.noted _ _).bind fun _ => Framed.noted _ _

omit [Interpreter] in
theorem publishRedriven_framed (queue body : Str) (bypass : Bool) (route : RouteUrn) (key : Option Bytes) :
    Framed (publishRedriven T.logged queue body bypass route key) := by
  unfold publishRedriven
  split
  · next f g h =>
    obtain ⟨f', -, rfl⟩ := Option.map_eq_some_iff.mp h
    exact (Framed.noted _ _).bind fun _ => Framed.pure _
  · next f h h' =>
    obtain ⟨f', -, rfl⟩ := Option.map_eq_some_iff.mp h
    exact (Framed.noted _ _).bind fun _ => Framed.pure _
  · rw [publishKeepingRoute_logged]
    exact (Framed.noted _ _).bind fun _ => Framed.pure _

theorem replayOne_framed (m : ReceivedMessage η) (envelope : Option (Dict Json)) :
    Framed (replayOne T.logged dlq o.logged m envelope) := by
  unfold replayOne
  cases envelope with
  | none => exact (restore_framed m).bind fun _ => Framed.pure _
  | some envelope =>
    dsimp only
    split
    · exact (restore_framed m).bind fun _ => Framed.pure _
    · rw [selected_logged]
      refine (Framed.lift _).bind fun item => (Framed.unlogged _).bind fun chosen => ?_
      split
      · exact (restore_framed m).bind fun _ => Framed.pure _
      split
      · exact (restore_framed m).bind fun _ => Framed.pure _
      · refine Framed.bind (Framed.tryExcept ?_ fun e => (restore_framed m).bind fun _ => Framed.raise e) fun bypassed =>
          (Framed.noted _ _).bind fun _ => Framed.pure _
        exact (Framed.lift _).bind fun copy => publishRedriven_framed _ _ _ _ _

/-! ## The run -/

theorem replay_turns {batch : List (ReceivedMessage η × Option (Dict Json))} {total : RedriveResult} {s : σ}
    {log : List (RedriveCall η)} {r : Except PyExc RedriveResult} {w : σ × List (RedriveCall η)}
    (h : replay T.logged dlq o.logged batch total (s, log) = (r, w)) :
    w.2 = log ++ (turns T dlq o batch s).flatMap Turn.calls ∧
      (turns T dlq o batch s).map Turn.message <+: batch.map Prod.fst ∧
      ∀ result, r = .ok result → (turns T dlq o batch s).map Turn.message = batch.map Prod.fst ∧
        ∃ items, (turns T dlq o batch s).map Turn.result = items.map .ok ∧ result.items = total.items ++ items ∧
          result.skipped = total.skipped + items.countP fun item => !item.redriven := by
  induction batch generalizing total s log with
  | nil =>
    cases h
    refine ⟨by simp [turns], by simp [turns], ?_⟩
    rintro result ⟨⟩
    exact ⟨rfl, [], rfl, by simp, by simp⟩
  | cons p batch ih =>
    obtain ⟨m, envelope⟩ := p
    rw [replay, Act.bind_run, replayOne_framed m envelope s log] at h
    cases hone : replayOne T.logged dlq o.logged m envelope (s, []) with
    | mk r₁ w₁ =>
      rw [hone] at h
      rw [turns, hone]
      cases r₁ with
      | error e =>
        cases h
        exact ⟨by simp, by simp, by rintro _ ⟨⟩⟩
      | ok item =>
        obtain ⟨hcalls, hprefix, hok⟩ := ih h
        dsimp only
        refine ⟨by rw [hcalls]; simp, by simpa using hprefix, fun result hr => ?_⟩
        obtain ⟨hmap, items, hres, hitems, hskip⟩ := hok result hr
        refine ⟨by simp [hmap], item :: items, by simp [hres], by rw [hitems]; simp [RedriveResult.add], ?_⟩
        rw [hskip, RedriveResult.add, List.countP_cons]
        cases item.redriven
        · simp; omega
        · simp

/-- Every turn of a run restores its message exactly when the message is kept. -/
theorem turns_restored_iff {batch : List (ReceivedMessage η × Option (Dict Json))}
    (hb : ∀ p ∈ batch, batchEnvelope p.1 = .ok p.2) {s : σ} {t : Turn σ η} (ht : t ∈ turns T dlq o batch s) :
    Restored dlq t ↔ Kept T dlq o t.message t.before := by
  induction batch generalizing s with
  | nil => cases ht
  | cons p batch ih =>
    obtain ⟨m, envelope⟩ := p
    rw [turns] at ht
    cases hone : replayOne T.logged dlq o.logged m envelope (s, []) with
    | mk r w =>
      have hturn := turn_restored_iff (hb _ List.mem_cons_self) hone
      rw [hone] at ht
      cases r with
      | error e =>
        rw [List.mem_singleton.mp ht]
        exact hturn
      | ok item =>
        rcases List.mem_cons.mp ht with rfl | ht
        · exact hturn
        · exact ih (fun p hp => hb p (List.mem_cons_of_mem _ hp)) ht

/-- A drained message that is not a poison record of the transport, with a body too deep to be read. -/
def Unreadable (m : ReceivedMessage η) : Prop := (∀ p, m.routeUrn ≠ .poison p) ∧ Overdeep m.body

theorem unreadable_iff {m : ReceivedMessage η} : Unreadable m ↔ ∃ e, batchEnvelope m = .error e := by
  unfold Unreadable batchEnvelope
  cases m.routeUrn with
  | poison p => simp
  | plain r => simp [decodedBody_error_iff]

theorem readBatch {ms : List (ReceivedMessage η)} (h : ∀ m ∈ ms, ¬ Unreadable m) :
    ∃ batch : List (ReceivedMessage η × Option (Dict Json)), batch.map Prod.fst = ms ∧
      (∀ p ∈ batch, batchEnvelope p.1 = .ok p.2) ∧
      (ms.mapM fun m => (batchEnvelope m).map fun envelope => (m, envelope)) = .ok batch := by
  induction ms with
  | nil => exact ⟨[], rfl, by simp, rfl⟩
  | cons m ms ih =>
    obtain ⟨batch, h1, h2, h3⟩ := ih fun m' hm => h m' (List.mem_cons_of_mem _ hm)
    cases he : batchEnvelope m with
    | error e => exact absurd (unreadable_iff.mpr ⟨e, he⟩) (h m List.mem_cons_self)
    | ok envelope =>
      refine ⟨(m, envelope) :: batch, by rw [List.map_cons, h1], List.forall_mem_cons.mpr ⟨he, h2⟩, ?_⟩
      rw [List.mapM_cons, he, h3]
      rfl

theorem unreadBatch {ms : List (ReceivedMessage η)} (h : ∃ m ∈ ms, Unreadable m) :
    ∃ e, (ms.mapM fun m => (batchEnvelope m).map fun envelope => (m, envelope)) = .error e := by
  induction ms with
  | nil => simp at h
  | cons m ms ih =>
    rw [List.mapM_cons]
    cases he : batchEnvelope m with
    | error e => exact ⟨e, rfl⟩
    | ok envelope =>
      have hm : ¬ Unreadable m := fun hu => by
        obtain ⟨e, he'⟩ := unreadable_iff.mp hu
        rw [he] at he'
        cases he'
      obtain ⟨e, he⟩ := ih (by simpa [hm] using h)
      exact ⟨e, by rw [he]; rfl⟩

/-- The calls of a run on the messages `ms`: its turns one after the other. A returned run has a turn and an
item for every message, and counts those that were not redriven as skipped. -/
structure Replayed (ms : List (ReceivedMessage η)) (ts : List (Turn σ η)) (r : Except PyExc RedriveResult)
    (calls : List (RedriveCall η)) : Prop where
  calls : calls = ts.flatMap Turn.calls
  messages : ts.map Turn.message <+: ms
  returned : ∀ result, r = .ok result → ts.map Turn.message = ms ∧ ts.map Turn.result = result.items.map .ok ∧
    result.skipped = result.items.countP fun item => !item.redriven

/-- With an unreadable message among the drained ones, the run raises and restores nothing. Otherwise it
takes its turns, and a message is restored in its turn exactly when it is kept. -/
theorem redrive_restores_iff (T : RedriveTransport σ η) (dlq : Str) (o : RedriveOptions σ) (fuel : Nat) {s s₁ : σ}
    {ms : List (ReceivedMessage η)} (hd : drained T dlq o.max fuel s = (.ok ms, s₁)) :
    ((∃ m ∈ ms, Unreadable m) → ∃ e, redrive T.logged dlq o.logged fuel (s, []) = (.error e, s₁, [])) ∧
      ((∀ m ∈ ms, ¬ Unreadable m) → ∃ batch : List (ReceivedMessage η × Option (Dict Json)),
        (ms.mapM fun m => (batchEnvelope m).map fun envelope => (m, envelope)) = .ok batch ∧
        Replayed ms (turns T dlq o batch s₁) (redrive T.logged dlq o.logged fuel (s, [])).1
          (redrive T.logged dlq o.logged fuel (s, [])).2.2 ∧
        ∀ t ∈ turns T dlq o batch s₁, Restored dlq t ↔ Kept T dlq o t.message t.before) := by
  have hdrained : drained T.logged dlq (o.logged : RedriveOptions (σ × List (RedriveCall η))).max fuel (s, []) =
      (.ok ms, s₁, []) := by
    rw [drained_logged, unlogged]
    exact congrArg (fun x : Except PyExc (List (ReceivedMessage η)) × σ => (x.1, x.2, [])) hd
  unfold redrive
  rw [Act.bind_run_ok hdrained]
  constructor
  · intro hu
    obtain ⟨e, he⟩ := unreadBatch hu
    exact ⟨e, by rw [he]; rfl⟩
  · intro hr
    obtain ⟨batch, hfst, hbatch, hmap⟩ := readBatch hr
    refine ⟨batch, hmap, ?_, fun t ht => turns_restored_iff hbatch ht⟩
    rw [hmap, Act.bind_run_ok (Act.lift_run _ _)]
    cases hrun : replay T.logged dlq o.logged batch ⟨0, 0, []⟩ (s₁, []) with
    | mk r w =>
      obtain ⟨hcalls, hprefix, hok⟩ := replay_turns hrun
      refine ⟨by simpa using hcalls, hfst ▸ hprefix, fun result hres => ?_⟩
      obtain ⟨hmsgs, items, hitems, hresult, hskip⟩ := hok result hres
      rw [List.nil_append] at hresult
      subst hresult
      exact ⟨hmsgs.trans hfst, hitems, by rw [hskip, Nat.zero_add]⟩

end Run

section CPython

attribute [local instance] cpython

/-- An envelope but for its `attempts`. -/
def malformedAttempts : Str := str "\x7b\"job\":\"urn:x\",\"meta\":\x7b\"queue\":\"orders\"\x7d,\"attempts\":\"x\"\x7d"

theorem redrive_restores_iff_malformed :
    ∃ batch : List (ReceivedMessage Unit × Option (Dict Json)),
      ([popped [] malformedAttempts (str "orders.dlq") () []].mapM fun m =>
        (batchEnvelope m).map fun envelope => (m, envelope)) = .ok batch ∧
      Replayed [popped [] malformedAttempts (str "orders.dlq") () []]
        (turns (InMemory.beside InMemory.steady) (str "orders.dlq") .default batch (([(str "orders.dlq", [])] : InMemory), ()))
        (redrive (InMemory.beside InMemory.steady).logged (str "orders.dlq") RedriveOptions.default.logged 2
          (([(str "orders.dlq", [(malformedAttempts, [])])], ()), [])).1
        (redrive (InMemory.beside InMemory.steady).logged (str "orders.dlq") RedriveOptions.default.logged 2
          (([(str "orders.dlq", [(malformedAttempts, [])])], ()), [])).2.2 ∧
      ∀ t ∈ turns (InMemory.beside InMemory.steady) (str "orders.dlq") .default batch (([(str "orders.dlq", [])] : InMemory), ()),
        Restored (str "orders.dlq") t ↔ Kept (InMemory.beside InMemory.steady) (str "orders.dlq") .default t.message t.before := by
  refine (redrive_restores_iff (InMemory.beside InMemory.steady) (str "orders.dlq") .default 2 rfl).2 ?_
  rintro m hm hu
  obtain rfl := List.mem_singleton.mp hm
  obtain ⟨e, he⟩ := unreadable_iff.mp hu
  have hok : (batchEnvelope (popped [] malformedAttempts (str "orders.dlq") () [])).toBool = true := by decide +kernel
  rw [he] at hok
  cases hok

/-- A malformed `attempts` is reset to `0`, and the message is delivered. -/
theorem redrive_replays_poison :
    (∃ cause, poisonCause malformedAttempts true = .ok (some cause)) ∧
      (redrive (InMemory.beside InMemory.steady) (str "orders.dlq") .default 2
        (([(str "orders.dlq", [(malformedAttempts, [])])] : InMemory), ())).2.1.on (str "orders") =
        [(str "\x7b\"job\":\"urn:x\",\"meta\":\x7b\"queue\":\"orders\"\x7d,\"attempts\":0\x7d", [])] := by
  refine ⟨?_, by decide +kernel⟩
  have hpoison : (poisonCause malformedAttempts true).toOption.join.isSome = true := by decide +kernel
  cases hp : poisonCause malformedAttempts true with
  | error e => rw [hp] at hpoison; cases hpoison
  | ok cause =>
    rw [hp] at hpoison
    obtain ⟨c, rfl⟩ := Option.isSome_iff_exists.mp hpoison
    exact ⟨c, rfl⟩

end CPython

end BabelQueue
