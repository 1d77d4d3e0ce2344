import BabelQueue.App.Settled
import BabelQueue.Transports.Beside

/-!
# What a redrive does with each message

On the in-memory transport a drained message is gone from the queue until it is published again.

* `Script`: the arguments of a run, with every answer of `select` and every fault of a publish.
* `Script.placed`: where the drained messages end up.
* `redrive_conserves_iff`: when no message is lost.
-/

namespace BabelQueue

open Py Py.Json

/-- A run: the keyword arguments, what `select` answers and which publishes raise. Both depend on
the number of publishes so far. -/
structure Script where
  toQueue : Option Str
  max : Int
  dryRun : Bool
  bypass : Bool
  answer : Option (Nat → Dict Json → Except PyExc Bool)
  fault : Nat → Option PyExc

/-- The keyword arguments of the run. -/
def Script.options (c : Script) : RedriveOptions (InMemory × Nat) where
  toQueue := c.toQueue
  max := c.max
  dryRun := c.dryRun
  bypass := c.bypass
  select := c.answer.map fun answer envelope => do
    let s ← Act.get
    Act.lift (answer s.2 envelope)

def Script.transport (c : Script) : RedriveTransport (InMemory × Nat) Unit := InMemory.beside (InMemory.counted c.fault)

/-- The messages that are drained, and those that stay. -/
def Script.split (c : Script) (ms : List (Str × Dict Str)) : List (Str × Dict Str) × List (Str × Dict Str) :=
  if c.max = 0 then (ms, []) else ms.splitAt c.max.toNat

/-- What is to be done with a message. -/
inductive Plan
  | keep
  | redrive (target copy : Str)
  | raises
  deriving DecidableEq

section Interpreter

variable [Interpreter]

/-- The plan of the `n`-th drained message. -/
def Script.plan (c : Script) (n : Nat) (body : Str) : Plan :=
  match decodedBody body with
  | .error _ => .raises
  | .ok none => .keep
  | .ok (some envelope) =>
    match c.answer.elim (.ok true) fun answer => answer n envelope with
    | .error _ => .raises
    | .ok false => .keep
    | .ok true =>
      if c.dryRun then .keep
      else
        match encode (resetEnvelope envelope) with
        | .error _ => .raises
        | .ok copy => .redrive (redriveTarget c.toQueue envelope) copy

/-- The headers of a redriven message. -/
def Script.headers (c : Script) : Dict Str := if c.bypass then [(headerReplayBypass, str "1")] else []

/-- Where the drained messages from the `n`-th on are published: a queue, a body and headers for each,
up to the first that raises. -/
def Script.placed (c : Script) (dlq : Str) : Nat → List Str → List (Str × Str × Dict Str)
  | _, [] => []
  | n, body :: bodies =>
    match c.plan n body with
    | .raises => []
    | .keep => (dlq, body, []) :: c.placed dlq (n + 1) bodies
    | .redrive target copy =>
      match c.fault n with
      | none => (target, copy, c.headers) :: c.placed dlq (n + 1) bodies
      | some e => if e.isException then [(dlq, body, [])] else []

/-- No publish back to the dead-letter queue raises: neither that of a message that is kept, nor the
one that follows a failed publish. -/
def Script.RestoresPass (c : Script) (n : Nat) (bodies : List Str) : Prop :=
  ∀ i body, bodies[i]? = some body →
    match c.plan (n + i) body with
    | .raises => True
    | .keep => c.fault (n + i) = none
    | .redrive _ _ => c.fault (n + i) ≠ none → c.fault (n + i + 1) = none

/-- No drained message disturbs the run: each can be read and `select` does not raise on it, no publish
raises but that of the last one, which then goes back to the queue, and no target is empty. -/
structure Script.Undisturbed (c : Script) (n : Nat) (bodies : List Str) : Prop where
  answers : ∀ i body, bodies[i]? = some body → c.plan (n + i) body ≠ .raises
  passes : ∀ i body target copy e, bodies[i]? = some body → c.plan (n + i) body = .redrive target copy →
    c.fault (n + i) = some e → i + 1 = bodies.length ∧ e.isException = true
  targets : ∀ i body target copy, bodies[i]? = some body → c.plan (n + i) body = .redrive target copy →
    c.fault (n + i) = none → target ≠ []

/-- Where a message of the queue may be after a run: still there, or redriven in reset form. -/
inductive Place (dlq : Str) (toQueue : Option Str) (body : Str) : Str × Str → Prop
  | kept : Place dlq toQueue body (dlq, body)
  | redriven {envelope : Dict Json} {copy : Str} (he : decodedBody body = .ok (some envelope))
      (hc : encode (resetEnvelope envelope) = .ok copy) (hne : redriveTarget toQueue envelope ≠ []) :
      Place dlq toQueue body (redriveTarget toQueue envelope, copy)

/-- Every message that was on `dlq` is in one place afterwards, and nothing else has changed. -/
def Conserved (dlq : Str) (toQueue : Option Str) (before after : InMemory) : Prop :=
  ∃ places : List (Str × Str), List.Forall₂ (fun m p => Place dlq toQueue m.1 p) (before.on dlq) places ∧
    ∀ queue, ((after.on queue).map Prod.fst).Perm
      ((if queue = dlq then [] else (before.on queue).map Prod.fst) ++
        (places.filter fun p => p.1 = queue).map Prod.snd)

/-! ## Envelopes of a dead-letter queue -/

theorem decodedBody_error_iff {raw : Str} : (∃ e, decodedBody raw = .error e) ↔ Overdeep raw := by
  rw [← decodeLenient_error_iff]
  unfold decodedBody
  cases decodeLenient raw with
  | error e => simp [bind, Except.bind]
  | ok d => simp [bind, Except.bind, pure, Except.pure]

/-- A redrivable envelope can be written, with no key that `encode` refuses. -/
theorem decodedBody_some {raw : Str} {envelope : Dict Json} (h : decodedBody raw = .ok (some envelope)) :
    decodeLenient raw = .ok envelope ∧ Clean envelope ∧ Storable envelope := by
  unfold decodedBody at h
  obtain ⟨d, hd, h⟩ := bind_eq_ok.mp h
  simp only [pure, Except.pure, Except.ok.injEq] at h
  split at h
  · cases h
  · cases h
    refine ⟨hd, ?_⟩
    unfold decodeLenient at hd
    cases hp : parseObject raw with
    | error e => rw [hp] at hd; cases hd
    | ok o =>
      rw [hp] at hd
      cases o with
      | none => cases hd; exact ⟨clean_nil, storable_nil⟩
      | some parsed =>
        cases hd
        exact ⟨clean_foldIdentity parsed, storable_foldIdentity (storable_of_loads (loads_of_parseObject hp))⟩

omit [Interpreter] in
theorem clean_erase {d : Dict Json} (h : Clean d) {key : Str} (hk : Plain key) : Clean (d.erase key) := by
  obtain ⟨h1, h2, h3⟩ := hk
  refine clean_of_eq h (Dict.get?_erase_of_ne _ (Ne.symm h1)) ?_ ?_
  · rw [Dict.getJ, Dict.get?_erase_of_ne _ (Ne.symm h2)]; rfl
  · rw [Dict.get?_erase_of_ne _ (Ne.symm h3)]; exact (clean_iff.mp h).2

theorem encode_reset_isOk {envelope : Dict Json} (hc : Clean envelope) (hs : Storable envelope) :
    ∃ copy, encode (resetEnvelope envelope) = .ok copy :=
  encode_isOk ((clean_erase hc (by simp [Plain])).set (by simp [Plain]) _)
    ((hs.erase _).set _ (writable_int.mpr (by simp)) trivial)

theorem textAt_isOk {d : Dict Json} {n : Nat} (h : Writable (n + 1) (.obj d)) (hn : n ≤ Interpreter.maxDepth) (key : Str) :
    ∃ s, textAt d key = .ok s := by
  unfold textAt
  cases hk : d.get? key with
  | none => exact ⟨[], rfl⟩
  | some v => exact toStr_isOk (h.get? hk) hn

omit [Interpreter] in
theorem mappingAt_writable {d : Dict Json} {n : Nat} (h : Writable (n + 1 + 1) (.obj d)) (key : Str) :
    Writable (n + 1) (.obj (mappingAt d key)) := by
  unfold mappingAt
  have hv := h.getJ key
  cases he : d.getJ key with
  | obj d' => rw [he] at hv; exact hv
  | _ => exact writable_obj.mpr ⟨n, rfl, by simp [asObj?]⟩

theorem itemOf_isOk (dlq : Str) {envelope : Dict Json} (h : Storable envelope) :
    ∃ item, itemOf dlq envelope = .ok item := by
  obtain ⟨n, hn⟩ := maxDepth_succ
  have hw := hn ▸ h.writable
  obtain ⟨id, h1⟩ := textAt_isOk (mappingAt_writable hw (str "meta")) (by omega) (str "id")
  obtain ⟨trace, h2⟩ := textAt_isOk hw (by omega) (str "trace_id")
  obtain ⟨reason, h3⟩ := textAt_isOk (mappingAt_writable hw (str "dead_letter")) (by omega) (str "reason")
  exact ⟨_, by unfold itemOf; rw [h1, h2, h3]; rfl⟩

/-! ## One turn -/

/-- The message of a `pop` from `dlq`. -/
abbrev drainedMessage (dlq : Str) (m : Str × Dict Str) : ReceivedMessage Unit := popped [] m.1 dlq () m.2

variable {c : Script} (dlq : Str)

omit [Interpreter] in
theorem restore_run (m : Str × Dict Str) {q : InMemory} {n : Nat} (h : c.fault n = none) :
    restore c.transport.toTransport dlq (drainedMessage dlq m) (q, n) = (.ok (), InMemory.push dlq m.1 [] q, n + 1) := by
  simp [restore, Script.transport, InMemory.beside, publishKeepingRoute, bind, InMemory.put, InMemory.counted, h, popped,
    pure]

omit [Interpreter] in
theorem publishRedriven_run (target copy : Str) (q : InMemory) (n : Nat) :
    publishRedriven c.transport target copy c.bypass (.plain []) none (q, n) =
      match c.fault n with
      | none => (.ok c.bypass, InMemory.push target copy c.headers q, n + 1)
      | some e => (.error e, q, n + 1) := by
  cases hb : c.bypass <;> cases hf : c.fault n <;>
    simp [publishRedriven, Script.transport, InMemory.beside, publishKeepingRoute, bind, InMemory.put, InMemory.counted,
      hf, hb, pure, Script.headers]

omit [Interpreter] in
theorem selected_run {envelope : Dict Json} (s : InMemory × Nat) :
    selected c.options envelope s = (c.answer.elim (.ok true) fun answer => answer s.2 envelope, s) := by
  unfold selected Script.options
  cases c.answer with
  | none => rfl
  | some answer => rfl

/-- The turn of an envelope, as far as `select` decides it. -/
theorem replayOne_some {m : Str × Dict Str} {envelope : Dict Json} (hs : Storable envelope) :
    ∃ item, ∀ q n, replayOne c.transport dlq c.options (drainedMessage dlq m) (some envelope) (q, n) =
      match c.answer.elim (.ok true) fun answer => answer n envelope with
      | .error e => (.error e, q, n)
      | .ok false => (do restore c.transport.toTransport dlq (drainedMessage dlq m); pure item : Act _ _) (q, n)
      | .ok true =>
        (if c.dryRun then do
          restore c.transport.toTransport dlq (drainedMessage dlq m)
          pure { item with target := redriveTarget c.toQueue envelope }
        else do
          let bypassed ← Act.tryExcept
            (do
              let copy ← Act.lift (encode (resetEnvelope envelope))
              publishRedriven c.transport (redriveTarget c.toQueue envelope) copy c.bypass (.plain []) none)
            [.exception] fun exc => do
              restore c.transport.toTransport dlq (drainedMessage dlq m)
              Act.raise exc
          c.transport.ack (drainedMessage dlq m)
          pure { item with target := redriveTarget c.toQueue envelope, bypassed := bypassed, redriven := true }
          : Act _ _) (q, n) := by
  obtain ⟨item, hi⟩ := itemOf_isOk dlq hs
  refine ⟨item, fun q n => ?_⟩
  have hr : (drainedMessage dlq m).routeUrn.text ≠ nonNumericAttemptsRoute := by
    simp [popped, RouteUrn.text, nonNumericAttemptsRoute, Py.str]
  unfold replayOne
  dsimp only
  rw [if_neg hr, hi, Act.bind_run_ok (Act.lift_run _ _)]
  have hsel : selected c.options envelope (q, n) = _ := selected_run (q, n)
  cases ha : c.answer.elim (.ok true) fun answer => answer n envelope with
  | error e =>
    rw [ha] at hsel
    rw [Act.bind_run_error hsel]
  | ok chosen =>
    rw [ha] at hsel
    rw [Act.bind_run_ok hsel]
    cases chosen <;> rfl

theorem turn_raises {m : Str × Dict Str} {env : Option (Dict Json)} (he : decodedBody m.1 = .ok env) {n : Nat}
    (hp : c.plan n m.1 = .raises) (q : InMemory) :
    ∃ e, replayOne c.transport dlq c.options (drainedMessage dlq m) env (q, n) = (.error e, q, n) := by
  unfold Script.plan at hp
  rw [he] at hp
  cases env with
  | none => cases hp
  | some envelope =>
    obtain ⟨-, hc, hs⟩ := decodedBody_some he
    obtain ⟨item, hrun⟩ := replayOne_some (c := c) dlq (m := m) hs
    rw [hrun]
    cases ha : c.answer.elim (.ok true) fun answer => answer n envelope with
    | error e => exact ⟨e, rfl⟩
    | ok chosen =>
      obtain ⟨copy, hcopy⟩ := encode_reset_isOk hc hs
      dsimp only at hp
      rw [ha, hcopy] at hp
      cases chosen with
      | false => cases hp
      | true => dsimp only at hp; split at hp <;> cases hp

theorem turn_keep {m : Str × Dict Str} {env : Option (Dict Json)} (he : decodedBody m.1 = .ok env) {n : Nat}
    (hp : c.plan n m.1 = .keep) (hf : c.fault n = none) (q : InMemory) :
    ∃ item, replayOne c.transport dlq c.options (drainedMessage dlq m) env (q, n) =
      (.ok item, InMemory.push dlq m.1 [] q, n + 1) := by
  unfold Script.plan at hp
  rw [he] at hp
  have hrestore := restore_run (c := c) dlq m (q := q) hf
  cases env with
  | none => exact ⟨_, Act.bind_run_ok hrestore⟩
  | some envelope =>
    obtain ⟨-, hc, hs⟩ := decodedBody_some he
    obtain ⟨item, hrun⟩ := replayOne_some (c := c) dlq (m := m) hs
    rw [hrun]
    cases ha : c.answer.elim (.ok true) fun answer => answer n envelope with
    | error e => dsimp only at hp; rw [ha] at hp; cases hp
    | ok chosen =>
      cases chosen with
      | false => exact ⟨_, Act.bind_run_ok hrestore⟩
      | true =>
        obtain ⟨copy, hcopy⟩ := encode_reset_isOk hc hs
        dsimp only at hp ⊢
        rw [ha, hcopy] at hp
        dsimp only at hp
        split at hp
        · next hd => rw [if_pos hd]; exact ⟨_, Act.bind_run_ok hrestore⟩
        · cases hp

/-- The plan of a message that is to be redriven. -/
theorem plan_redrive {n : Nat} {body target copy : Str} (hp : c.plan n body = .redrive target copy) :
    ∃ envelope, decodedBody body = .ok (some envelope) ∧ (c.answer.elim (.ok true) fun answer => answer n envelope) = .ok true ∧
      c.dryRun = false ∧ encode (resetEnvelope envelope) = .ok copy ∧ target = redriveTarget c.toQueue envelope := by
  unfold Script.plan at hp
  split at hp
  · cases hp
  · cases hp
  · next envelope he =>
    split at hp
    · cases hp
    · cases hp
    · next ha =>
      split at hp
      · cases hp
      · next hd =>
        split at hp
        · cases hp
        · next copy' hc => cases hp; exact ⟨envelope, he, ha, by simpa using hd, hc, rfl⟩

theorem turn_redrive {m : Str × Dict Str} {env : Option (Dict Json)} (he : decodedBody m.1 = .ok env) {n : Nat}
    {target copy : Str} (hp : c.plan n m.1 = .redrive target copy) (q : InMemory) :
    match c.fault n with
    | none => ∃ item, replayOne c.transport dlq c.options (drainedMessage dlq m) env (q, n) =
        (.ok item, InMemory.push target copy c.headers q, n + 1)
    | some e =>
      if e.isException then c.fault (n + 1) = none →
        replayOne c.transport dlq c.options (drainedMessage dlq m) env (q, n) =
          (.error e, InMemory.push dlq m.1 [] q, n + 1 + 1)
      else replayOne c.transport dlq c.options (drainedMessage dlq m) env (q, n) = (.error e, q, n + 1) := by
  obtain ⟨envelope, he', ha, hd, hc, ht⟩ := plan_redrive hp
  rw [he] at he'
  cases he'
  obtain ⟨-, -, hs⟩ := decodedBody_some he
  obtain ⟨item, hrun⟩ := replayOne_some (c := c) dlq (m := m) hs
  have hpub := publishRedriven_run (c := c) target copy q n
  have hblock : (do
      let copy ← Act.lift (encode (resetEnvelope envelope))
      publishRedriven c.transport (redriveTarget c.toQueue envelope) copy c.bypass (.plain []) none) (q, n) =
        publishRedriven c.transport target copy c.bypass (.plain []) none (q, n) := by
    rw [hc, ht]
    rfl
  rw [hrun, ha]
  simp only [hd, Bool.false_eq_true, if_false]
  cases hf : c.fault n with
  | none =>
    rw [hf] at hpub
    exact ⟨_, Act.bind_run_ok (Act.tryExcept_run_ok (hblock.trans hpub))⟩
  | some e =>
    rw [hf] at hpub
    have htry := @Act.tryExcept_run_error _ _ _ [.exception] (fun exc => do
      restore c.transport.toTransport dlq (drainedMessage dlq m)
      Act.raise exc) _ _ _ (hblock.trans hpub)
    rw [isAny_exception] at htry
    by_cases hx : e.isException = true
    · rw [if_pos hx] at htry
      simp only [hx, if_true]
      intro hn
      refine Act.bind_run_error (htry.trans ?_)
      exact Act.bind_run_ok (restore_run dlq m hn)
    · rw [if_neg hx] at htry
      simp only [hx]
      exact Act.bind_run_error htry

/-! ## The loop -/

/-- The messages published to `queue`. -/
def placedOn (queue : Str) (ps : List (Str × Str × Dict Str)) : List (Str × Dict Str) :=
  (ps.filter fun p => p.1 = queue).map Prod.snd

omit [Interpreter] in
theorem placedOn_cons (queue : Str) (p : Str × Str × Dict Str) (ps : List (Str × Str × Dict Str)) :
    placedOn queue (p :: ps) = (if queue = p.1 then [p.2] else []) ++ placedOn queue ps := by
  by_cases h : p.1 = queue
  · simp [placedOn, h]
  · simp [placedOn, h, Ne.symm h]

omit [Interpreter] in
theorem on_push_eq (q : InMemory) (queue : Str) (p : Str × Str × Dict Str) (ps : List (Str × Str × Dict Str)) :
    (InMemory.push p.1 p.2.1 p.2.2 q).on queue ++ placedOn queue ps = q.on queue ++ placedOn queue (p :: ps) := by
  rw [placedOn_cons, InMemory.on_push]
  split
  · next h => rw [h, List.append_assoc]
  · rfl

/-- The loop publishes what the script says, in order. -/
theorem replay_on (c : Script) (dlq : Str) {batch : List ((Str × Dict Str) × Option (Dict Json))}
    (hb : ∀ p ∈ batch, decodedBody p.1.1 = .ok p.2) {n : Nat}
    (hr : c.RestoresPass n (batch.map fun p => p.1.1))
    (q : InMemory) (result : RedriveResult) (queue : Str) :
    InMemory.on (replay c.transport dlq c.options (batch.map fun p => (drainedMessage dlq p.1, p.2)) result (q, n)).2.1 queue =
      q.on queue ++ placedOn queue (c.placed dlq n (batch.map fun p => p.1.1)) := by
  induction batch generalizing n q result with
  | nil => simp [replay, Script.placed, placedOn]
  | cons p batch ih =>
    obtain ⟨m, env⟩ := p
    have he := hb _ List.mem_cons_self
    have hhead := hr 0 m.1 rfl
    have htail := fun item q' => ih (fun p hp => hb p (List.mem_cons_of_mem _ hp)) (n := n + 1)
      (fun i body hi => by simpa [Nat.add_assoc, Nat.add_comm 1 i] using hr (i + 1) body (by simpa using hi))
      q' (result.add item)
    rw [List.map_cons, List.map_cons, replay, Script.placed]
    cases hp : c.plan n m.1 with
    | raises =>
      obtain ⟨e, hrun⟩ := turn_raises dlq he hp q
      rw [Act.bind_run_error hrun]
      simp [placedOn]
    | keep =>
      simp only [Nat.add_zero, hp] at hhead
      obtain ⟨item, hrun⟩ := turn_keep dlq he hp hhead q
      rw [Act.bind_run_ok hrun, htail]
      exact on_push_eq q queue (dlq, m.1, []) _
    | redrive target copy =>
      simp only [Nat.add_zero, hp] at hhead
      have hrun := turn_redrive dlq he hp q
      cases hf : c.fault n with
      | none =>
        rw [hf] at hrun
        obtain ⟨item, hrun⟩ := hrun
        rw [Act.bind_run_ok hrun, htail]
        exact on_push_eq q queue (target, copy, c.headers) _
      | some e =>
        rw [hf] at hrun
        dsimp only at hrun ⊢
        by_cases hx : e.isException = true
        · rw [if_pos hx] at hrun ⊢
          rw [Act.bind_run_error (hrun (hhead (by simp [hf])))]
          simpa [placedOn] using on_push_eq q queue (dlq, m.1, []) []
        · rw [if_neg hx] at hrun ⊢
          rw [Act.bind_run_error hrun]
          simp [placedOn]

/-! ## The drain -/

omit [Interpreter] in
/-- How many messages the drain takes, `popped` of them before. -/
theorem drain_run (max : Int) (n fuel : Nat) (popped : List (ReceivedMessage Unit)) (q : InMemory)
    (hf : (q.on dlq).length < fuel) :
    let k := if max = 0 then (q.on dlq).length else (max - popped.length).toNat
    ∃ q', drain c.transport.toTransport dlq max fuel popped (q, n) =
        (.ok (popped ++ ((q.on dlq).take k).map (drainedMessage dlq)), q', n) ∧
      ∀ queue, q'.on queue = if queue = dlq then (q.on dlq).drop k else q.on queue := by
  induction fuel generalizing popped q with
  | zero => omega
  | succ fuel ih =>
    intro k
    rw [drain]
    have htake : c.transport.pop = InMemory.take := rfl
    by_cases hmore : max = 0 ∨ (popped.length : Int) < max
    · rw [if_pos hmore, htake]
      cases hq : q.on dlq with
      | nil =>
        have hpop : InMemory.take dlq (q, n) = (.ok none, q, n) := by simp [InMemory.take, hq]
        refine ⟨q, by rw [Act.bind_run_ok hpop]; simp, fun queue => ?_⟩
        split
        · next h => rw [h, hq, List.drop_nil]
        · rfl
      | cons m rest =>
        have hpop : InMemory.take dlq (q, n) = (.ok (some (drainedMessage dlq m)), Dict.set q dlq rest, n) := by
          simp [InMemory.take, hq]
        have hrest : InMemory.on (Dict.set q dlq rest) dlq = rest := by simp
        obtain ⟨q', hrun, hon⟩ := ih (popped ++ [drainedMessage dlq m]) (Dict.set q dlq rest)
          (by rw [hrest]; rw [hq] at hf; simpa using hf)
        have hk : k = (if max = 0 then rest.length else (max - (popped ++ [drainedMessage dlq m]).length).toNat) + 1 := by
          simp only [k, hq, List.length_cons, List.length_append, List.length_nil]
          split <;> omega
        rw [hrest] at hrun hon
        refine ⟨q', ?_, fun queue => ?_⟩
        · rw [Act.bind_run_ok hpop, hk, List.take_succ_cons, List.map_cons]
          simpa using hrun
        · rw [hon queue, hk, List.drop_succ_cons, InMemory.on_set]
          split <;> rfl
    · have hk : k = 0 := by
        simp only [k]
        rw [if_neg (by omega)]
        omega
      rw [if_neg hmore, hk]
      refine ⟨q, by simp, fun queue => ?_⟩
      split
      · next h => rw [h, List.drop_zero]
      · rfl

omit [Interpreter] in
theorem drained_run {q : InMemory} {fuel : Nat} (hf : (q.on dlq).length < fuel) (n : Nat) :
    ∃ q', drained c.transport dlq c.max fuel (q, n) = (.ok ((c.split (q.on dlq)).1.map (drainedMessage dlq)), q', n) ∧
      ∀ queue, q'.on queue = if queue = dlq then (c.split (q.on dlq)).2 else q.on queue := by
  have h := drain_run (c := c) dlq c.max n fuel [] q hf
  have hd : drained c.transport dlq c.max fuel = drain c.transport.toTransport dlq c.max fuel [] := rfl
  rw [hd]
  unfold Script.split
  by_cases hm : c.max = 0
  · simpa [hm] using h
  · simpa [hm] using h

/-- The messages of a drained batch, with their envelopes. -/
theorem batch_isOk {ms : List (Str × Dict Str)} (h : ∀ m ∈ ms, ¬ Overdeep m.1) :
    ∃ envs : List ((Str × Dict Str) × Option (Dict Json)), envs.map Prod.fst = ms ∧
      (∀ p ∈ envs, decodedBody p.1.1 = .ok p.2) ∧
      ((ms.map (drainedMessage dlq)).mapM fun m => (batchEnvelope m).map fun envelope => (m, envelope)) =
        .ok (envs.map fun p => (drainedMessage dlq p.1, p.2)) := by
  induction ms with
  | nil => exact ⟨[], rfl, by simp, rfl⟩
  | cons m ms ih =>
    obtain ⟨envs, h1, h2, h3⟩ := ih fun m' hm => h m' (List.mem_cons_of_mem _ hm)
    have hm : ¬ ∃ e, decodedBody m.1 = .error e := by rw [decodedBody_error_iff]; exact h m List.mem_cons_self
    cases he : decodedBody m.1 with
    | error e => exact absurd ⟨e, he⟩ hm
    | ok env =>
      have hb : batchEnvelope (drainedMessage dlq m) = .ok env := he
      refine ⟨(m, env) :: envs, by rw [List.map_cons, h1], List.forall_mem_cons.mpr ⟨he, h2⟩, ?_⟩
      rw [List.map_cons, List.mapM_cons, hb, h3]
      rfl

theorem batch_error {ms : List (Str × Dict Str)} (h : ∃ m ∈ ms, Overdeep m.1) :
    ∃ e, ((ms.map (drainedMessage dlq)).mapM fun m => (batchEnvelope m).map fun envelope => (m, envelope)) = .error e := by
  induction ms with
  | nil => simp at h
  | cons m ms ih =>
    rw [List.map_cons, List.mapM_cons]
    by_cases hm : Overdeep m.1
    · obtain ⟨e, he⟩ := decodedBody_error_iff.mpr hm
      have hb : batchEnvelope (drainedMessage dlq m) = .error e := he
      exact ⟨e, by rw [hb]; rfl⟩
    · obtain ⟨e, he⟩ := ih (by simpa [hm] using h)
      cases hb : batchEnvelope (drainedMessage dlq m) with
      | error e' => exact ⟨e', rfl⟩
      | ok env => exact ⟨e, by rw [he]; rfl⟩

/-! ## The run -/

variable {dlq}

/-- The queues after a run whose bodies can all be read. -/
theorem redrive_on {q : InMemory} {fuel : Nat} (hf : (q.on dlq).length < fuel)
    (hread : ∀ m ∈ (c.split (q.on dlq)).1, ¬ Overdeep m.1)
    (hr : c.RestoresPass 0 ((c.split (q.on dlq)).1.map Prod.fst)) (queue : Str) :
    (redrive c.transport dlq c.options fuel (q, 0)).2.1.on queue =
      (if queue = dlq then (c.split (q.on dlq)).2 else q.on queue) ++
        placedOn queue (c.placed dlq 0 ((c.split (q.on dlq)).1.map Prod.fst)) := by
  obtain ⟨q', hdrain, hq'⟩ := drained_run (c := c) dlq hf 0
  obtain ⟨envs, hfst, hdec, hbatch⟩ := batch_isOk dlq hread
  unfold redrive
  have hmax : c.options.max = c.max := rfl
  rw [hmax, Act.bind_run_ok hdrain, hbatch, Act.bind_run_ok (Act.lift_run _ _)]
  have hbodies : (envs.map fun p => p.1.1) = (c.split (q.on dlq)).1.map Prod.fst := by rw [← hfst, List.map_map]; rfl
  rw [replay_on c dlq hdec (hbodies ▸ hr), hq', hbodies]

/-- A run with an over-deep body publishes nothing. -/
theorem redrive_on_overdeep {q : InMemory} {fuel : Nat} (hf : (q.on dlq).length < fuel)
    (hread : ∃ m ∈ (c.split (q.on dlq)).1, Overdeep m.1) (queue : Str) :
    (redrive c.transport dlq c.options fuel (q, 0)).2.1.on queue =
      if queue = dlq then (c.split (q.on dlq)).2 else q.on queue := by
  obtain ⟨q', hdrain, hq'⟩ := drained_run (c := c) dlq hf 0
  obtain ⟨e, hbatch⟩ := batch_error dlq hread
  unfold redrive
  have hmax : c.options.max = c.max := rfl
  rw [hmax, Act.bind_run_ok hdrain, hbatch, Act.bind_run_error (Act.lift_run _ _), hq']

omit [Interpreter] in
theorem split_append (c : Script) (ms : List (Str × Dict Str)) : (c.split ms).1 ++ (c.split ms).2 = ms := by
  unfold Script.split
  split
  · simp
  · rw [List.splitAt_eq]; exact List.take_append_drop _ _

/-! ## When nothing is lost -/

omit [Interpreter] in
/-- Pairs that agree queue by queue agree. -/
theorem perm_of_queues {l l' : List (Str × Str)}
    (h : ∀ queue, ((l.filter fun p => p.1 = queue).map Prod.snd).Perm ((l'.filter fun p => p.1 = queue).map Prod.snd)) :
    l.Perm l' := by
  have hcount : ∀ (l : List (Str × Str)) (p : Str × Str),
      ((l.filter fun p' => p'.1 = p.1).map Prod.snd).count p.2 = l.count p := by
    intro l p
    induction l with
    | nil => rfl
    | cons a l ih =>
      by_cases ha : a.1 = p.1
      · by_cases hb : a.2 = p.2
        · obtain rfl : a = p := Prod.ext ha hb
          simp [ih]
        · have : a ≠ p := fun e => hb (congrArg Prod.snd e)
          simp [ha, hb, ih, this]
      · have : a ≠ p := fun e => ha (congrArg Prod.fst e)
        simp [ha, ih, this]
  exact List.perm_iff_count.mpr fun p => by rw [← hcount l, ← hcount l', (h p.1).count_eq]

/-- No more messages are placed than there were. -/
theorem placed_length_le (n : Nat) (bodies : List Str) : (c.placed dlq n bodies).length ≤ bodies.length := by
  induction bodies generalizing n with
  | nil => simp [Script.placed]
  | cons body bodies ih =>
    rw [Script.placed]
    have := ih (n + 1)
    split
    · simp
    · simpa using this
    · split
      · simpa using this
      · split <;> simp

theorem undisturbed_nil (n : Nat) : c.Undisturbed n [] := ⟨by simp, by simp, by simp⟩

/-- A run is undisturbed when its first turn is, and then the rest. -/
theorem undisturbed_cons_iff {n : Nat} {body : Str} {bodies : List Str} :
    c.Undisturbed n (body :: bodies) ↔ c.plan n body ≠ .raises ∧
      (∀ target copy, c.plan n body = .redrive target copy →
        (∀ e, c.fault n = some e → bodies = [] ∧ e.isException = true) ∧ (c.fault n = none → target ≠ [])) ∧
      c.Undisturbed (n + 1) bodies := by
  have hi : ∀ i, n + (i + 1) = n + 1 + i := by omega
  constructor
  · intro h
    refine ⟨h.answers 0 body rfl, fun target copy hp => ⟨fun e hf => ?_, h.targets 0 body target copy rfl hp⟩, ?_, ?_, ?_⟩
    · obtain ⟨hl, hx⟩ := h.passes 0 body target copy e rfl hp hf
      exact ⟨by simpa using hl, hx⟩
    · intro i b hb
      rw [← hi]
      exact h.answers (i + 1) b hb
    · intro i b target copy e hb hp hf
      rw [← hi] at hp hf
      simpa using h.passes (i + 1) b target copy e hb hp hf
    · intro i b target copy hb hp hf
      rw [← hi] at hp hf
      exact h.targets (i + 1) b target copy hb hp hf
  · rintro ⟨h1, h2, h3⟩
    refine ⟨fun i b hb => ?_, fun i b target copy e hb hp hf => ?_, fun i b target copy hb hp hf => ?_⟩
    · cases i with
      | zero => cases hb; exact h1
      | succ i => rw [hi]; exact h3.answers i b hb
    · cases i with
      | zero =>
        cases hb
        obtain ⟨rfl, hx⟩ := (h2 target copy hp).1 e hf
        exact ⟨rfl, hx⟩
      | succ i =>
        rw [hi] at hp hf
        simpa using h3.passes i b target copy e hb hp hf
    · cases i with
      | zero => cases hb; exact (h2 target copy hp).2 hf
      | succ i =>
        rw [hi] at hp hf
        exact h3.targets i b target copy hb hp hf

/-- An undisturbed run places every message. -/
theorem Script.Undisturbed.places {n : Nat} {bodies : List Str} (h : c.Undisturbed n bodies) :
    List.Forall₂ (fun body p => Place dlq c.toQueue body (p.1, p.2.1)) bodies (c.placed dlq n bodies) := by
  induction bodies generalizing n with
  | nil => exact .nil
  | cons body bodies ih =>
    obtain ⟨h1, h2, h3⟩ := undisturbed_cons_iff.mp h
    rw [Script.placed]
    cases hp : c.plan n body with
    | raises => exact absurd hp h1
    | keep => exact .cons .kept (ih h3)
    | redrive target copy =>
      obtain ⟨envelope, he, -, -, hc, rfl⟩ := plan_redrive hp
      obtain ⟨hlast, hne⟩ := h2 _ copy hp
      cases hf : c.fault n with
      | none => exact .cons (.redriven he hc (hne hf)) (ih h3)
      | some e =>
        obtain ⟨rfl, hx⟩ := hlast e hf
        simp only [hx, if_true]
        exact .cons .kept .nil

/-- A run that places every message, and none on the queue without a name, is undisturbed. -/
theorem undisturbed_of_length {n : Nat} {bodies : List Str} (h : (c.placed dlq n bodies).length = bodies.length)
    (ht : ∀ p ∈ c.placed dlq n bodies, p.1 ≠ []) : c.Undisturbed n bodies := by
  induction bodies generalizing n with
  | nil => exact undisturbed_nil n
  | cons body bodies ih =>
    rw [Script.placed] at h ht
    rw [undisturbed_cons_iff]
    cases hp : c.plan n body with
    | raises => rw [hp] at h; cases h
    | keep =>
      rw [hp] at h ht
      exact ⟨by simp, by simp, ih (Nat.succ.inj h) fun p hp => ht p (List.mem_cons_of_mem _ hp)⟩
    | redrive target copy =>
      rw [hp] at h ht
      refine ⟨by simp, ?_⟩
      cases hf : c.fault n with
      | none =>
        rw [hf] at h ht
        refine ⟨fun t k hk => ⟨by simp, fun _ => ?_⟩, ih (Nat.succ.inj h) fun p hp => ht p (List.mem_cons_of_mem _ hp)⟩
        cases hk
        exact ht _ List.mem_cons_self
      | some e =>
        rw [hf] at h
        by_cases hx : e.isException = true
        · simp only [hx, if_true] at h
          obtain rfl : bodies = [] := List.eq_nil_of_length_eq_zero (Nat.succ.inj h).symm
          exact ⟨fun t k hk => ⟨fun e' he => by cases he; exact ⟨rfl, hx⟩, by simp⟩, undisturbed_nil _⟩
        · simp only [hx] at h
          cases h

theorem plan_overdeep {n : Nat} {body : Str} (h : Overdeep body) : c.plan n body = .raises := by
  obtain ⟨e, he⟩ := decodedBody_error_iff.mpr h
  unfold Script.plan
  rw [he]

/-- Where every message of the queue is after a run. -/
theorem redrive_places {q : InMemory} {fuel : Nat} (hf : (q.on dlq).length < fuel)
    (hr : c.RestoresPass 0 ((c.split (q.on dlq)).1.map Prod.fst)) :
    ∃ ps : List (Str × Str × Dict Str),
      (ps = c.placed dlq 0 ((c.split (q.on dlq)).1.map Prod.fst) ∨ ps = [] ∧ ∃ m ∈ (c.split (q.on dlq)).1, Overdeep m.1) ∧
      ∀ queue, ((InMemory.on (redrive c.transport dlq c.options fuel (q, 0)).2.1 queue).map Prod.fst).Perm
        ((if queue = dlq then [] else (q.on queue).map Prod.fst) ++
          (((ps.map fun p => (p.1, p.2.1)) ++ (c.split (q.on dlq)).2.map fun m => (dlq, m.1)).filter
            fun p => p.1 = queue).map Prod.snd) := by
  have hstay : ∀ (queue : Str) (ms : List (Str × Dict Str)), (((ms.map fun m => (dlq, m.1)).filter
      fun p => decide (p.1 = queue)).map Prod.snd) = if queue = dlq then ms.map Prod.fst else [] := by
    intro queue ms
    rw [List.filter_map, List.map_map]
    by_cases h : queue = dlq
    · simp [h, Function.comp_def]
    · simp [h, Ne.symm h, Function.comp_def]
  have hps : ∀ (queue : Str) (ps : List (Str × Str × Dict Str)), ((ps.map fun p => (p.1, p.2.1)).filter
      fun p => decide (p.1 = queue)).map Prod.snd = (placedOn queue ps).map Prod.fst := by
    intro queue ps
    simp [placedOn, List.filter_map, Function.comp_def]
  by_cases hread : ∃ m ∈ (c.split (q.on dlq)).1, Overdeep m.1
  · refine ⟨[], .inr ⟨rfl, hread⟩, fun queue => ?_⟩
    rw [redrive_on_overdeep hf hread, List.map_nil, List.nil_append, hstay]
    split <;> simp
  · refine ⟨_, .inl rfl, fun queue => ?_⟩
    rw [redrive_on hf (by simpa using hread) hr, List.filter_append, List.map_append, List.map_append, hps, hstay]
    split
    · rw [List.nil_append]; exact List.perm_append_comm
    · rw [List.append_nil]

omit c in
theorem named_of_places (hne : dlq ≠ []) {toQueue : Option Str} {ms : List (Str × Dict Str)} {places : List (Str × Str)}
    (h : List.Forall₂ (fun m p => Place dlq toQueue m.1 p) ms places) {p : Str × Str} (hp : p ∈ places) : p.1 ≠ [] := by
  induction h with
  | nil => cases hp
  | cons hplace _ ih =>
    rcases List.mem_cons.mp hp with rfl | hp
    · cases hplace with
      | kept => exact hne
      | redriven _ _ hne => exact hne
    · exact ih hp

/-- A run that loses nothing places every message. -/
theorem placed_of_conserved {q : InMemory} {fuel : Nat} (hf : (q.on dlq).length < fuel)
    (hr : c.RestoresPass 0 ((c.split (q.on dlq)).1.map Prod.fst))
    (h : Conserved dlq c.toQueue q (redrive c.transport dlq c.options fuel (q, 0)).2.1) :
    (c.placed dlq 0 ((c.split (q.on dlq)).1.map Prod.fst)).length = (c.split (q.on dlq)).1.length ∧
      (dlq ≠ [] → ∀ p ∈ c.placed dlq 0 ((c.split (q.on dlq)).1.map Prod.fst), p.1 ≠ []) := by
  obtain ⟨ps, hps, hon⟩ := redrive_places hf hr
  obtain ⟨places, hall, hperm⟩ := h
  have hsame : places.Perm _ := perm_of_queues fun queue =>
    (List.perm_append_left_iff _).mp ((hperm queue).symm.trans (hon queue))
  have hlen : ps.length = (c.split (q.on dlq)).1.length := by
    have h1 := hall.length_eq
    have h2 := hsame.length_eq
    rw [← split_append c (q.on dlq)] at h1
    simp only [List.length_append, List.length_map] at h1 h2
    omega
  rcases hps with rfl | ⟨rfl, m, hm, -⟩
  · refine ⟨hlen, fun hne p hp => ?_⟩
    have hmem : (p.1, p.2.1) ∈ places :=
      hsame.mem_iff.mpr (List.mem_append_left _ (List.mem_map_of_mem (f := fun p => (p.1, p.2.1)) hp))
    exact named_of_places hne hall hmem
  · rw [List.eq_nil_of_length_eq_zero hlen.symm] at hm
    cases hm

/-- A run that nothing disturbs loses nothing. -/
theorem Script.Undisturbed.conserved {q : InMemory} {fuel : Nat} (hf : (q.on dlq).length < fuel)
    (hr : c.RestoresPass 0 ((c.split (q.on dlq)).1.map Prod.fst))
    (h : c.Undisturbed 0 ((c.split (q.on dlq)).1.map Prod.fst)) :
    Conserved dlq c.toQueue q (redrive c.transport dlq c.options fuel (q, 0)).2.1 := by
  obtain ⟨ps, hps, hon⟩ := redrive_places hf hr
  rcases hps with rfl | ⟨-, m, hm, ho⟩
  · have hplaces : List.Forall₂ (fun m p => Place dlq c.toQueue m.1 p) (c.split (q.on dlq)).1
        ((c.placed dlq 0 ((c.split (q.on dlq)).1.map Prod.fst)).map fun p => (p.1, p.2.1)) := by
      rw [List.forall₂_map_right_iff]
      exact List.forall₂_map_left_iff.mp h.places
    have hstay : List.Forall₂ (fun m p => Place dlq c.toQueue m.1 p) (c.split (q.on dlq)).2 _ :=
      List.forall₂_map_right_iff.mpr (List.forall₂_same.mpr fun m _ => Place.kept)
    have hall := List.rel_append hplaces hstay
    dsimp only at hall
    rw [split_append c (q.on dlq)] at hall
    exact ⟨_, hall, hon⟩
  · obtain ⟨i, hi⟩ := List.mem_iff_getElem?.mp (List.mem_map_of_mem (f := Prod.fst) hm)
    exact absurd (plan_overdeep ho) (h.answers i _ hi)

/-- Nothing is lost if no drained message disturbs the run, and on a queue with a name only then. -/
theorem redrive_conserves_iff (c : Script) (dlq : Str) (q : InMemory) (fuel : Nat) (hf : (q.on dlq).length < fuel)
    (hr : c.RestoresPass 0 ((c.split (q.on dlq)).1.map Prod.fst)) :
    (dlq ≠ [] → (Conserved dlq c.toQueue q (redrive c.transport dlq c.options fuel (q, 0)).2.1 ↔
      c.Undisturbed 0 ((c.split (q.on dlq)).1.map Prod.fst))) ∧
    (c.Undisturbed 0 ((c.split (q.on dlq)).1.map Prod.fst) →
      Conserved dlq c.toQueue q (redrive c.transport dlq c.options fuel (q, 0)).2.1) := by
  refine ⟨fun hne => ⟨fun h => ?_, fun h => h.conserved hf hr⟩, fun h => h.conserved hf hr⟩
  obtain ⟨hlen, hnamed⟩ := placed_of_conserved hf hr h
  exact undisturbed_of_length (by simpa using hlen) (hnamed hne)

end Interpreter

section CPython

attribute [local instance] cpython

/-- Two envelopes on a dead-letter queue. -/
def twoLetters : InMemory :=
  [(str "orders.dlq", [(str "\x7b\"job\":\"urn:a\"\x7d", []), (str "\x7b\"job\":\"urn:b\"\x7d", [])])]

/-- A replay of everything to a sandbox; the `n`-th publish raises `fault n`. -/
def sandboxRun (fault : Nat → Option PyExc) : Script := ⟨some (str "sandbox"), 0, false, false, none, fault⟩

/-- The first publish raises. -/
def refusedRun : Script := sandboxRun fun n => if n = 0 then some ⟨.exception, str "refused"⟩ else none

theorem sandboxRun_conserves :
    Conserved (str "orders.dlq") (some (str "sandbox")) twoLetters
      (redrive (sandboxRun fun _ => none).transport (str "orders.dlq") (sandboxRun fun _ => none).options 3 (twoLetters, 0)).2.1 := by
  have h0 : (sandboxRun fun _ => none).plan 0 (str "\x7b\"job\":\"urn:a\"\x7d") =
      .redrive (str "sandbox") (str "\x7b\"job\":\"urn:a\",\"attempts\":0\x7d") := by decide +kernel
  have h1 : (sandboxRun fun _ => none).plan 1 (str "\x7b\"job\":\"urn:b\"\x7d") =
      .redrive (str "sandbox") (str "\x7b\"job\":\"urn:b\",\"attempts\":0\x7d") := by decide +kernel
  refine (redrive_conserves_iff (sandboxRun fun _ => none) (str "orders.dlq") twoLetters 3 (by decide +kernel)
    fun i body _ => ?_).2 ?_
  · split <;> simp [sandboxRun]
  · refine undisturbed_cons_iff.mpr ⟨by rw [h0]; simp, fun t k hk => ?_, undisturbed_cons_iff.mpr
      ⟨by rw [h1]; simp, fun t k hk => ?_, undisturbed_nil _⟩⟩
    · rw [h0] at hk
      cases hk
      exact ⟨fun e he => (nomatch he), fun _ => by decide +kernel⟩
    · rw [h1] at hk
      cases hk
      exact ⟨fun e he => (nomatch he), fun _ => by decide +kernel⟩

/-- The message of the refused publish goes back, and the second message is gone. -/
theorem refusedRun_loses :
    ¬ Conserved (str "orders.dlq") (some (str "sandbox")) twoLetters
      (redrive refusedRun.transport (str "orders.dlq") refusedRun.options 3 (twoLetters, 0)).2.1 := by
  intro h
  have hr : refusedRun.RestoresPass 0 ((refusedRun.split (twoLetters.on (str "orders.dlq"))).1.map Prod.fst) := by
    have h0 : refusedRun.plan 0 (str "\x7b\"job\":\"urn:a\"\x7d") ≠ .keep := by decide +kernel
    intro i body hi
    cases i with
    | zero =>
      cases hi
      split
      · trivial
      · next hp => exact absurd hp h0
      · simp [refusedRun, sandboxRun]
    | succ i => split <;> simp [refusedRun, sandboxRun]
  have hlen := (placed_of_conserved (by decide +kernel) hr h).1
  revert hlen
  decide +kernel

end CPython

end BabelQueue
