import BabelQueue.App.Consume
import BabelQueue.Kafka.Commit

/-!
# The runtime on Kafka loses no record

`dispatch` on `KafkaTransport` over a broker, beside a world that handlers keep.

* `Transport.beside`: a transport on a state with a world.
* `Serves app T logs`: an app on it. Its handlers may publish, and leave the books alone.
* `custody`: `dispatch` of a delivery in flight keeps the books, and acks only what is covered.
* `Serving.Step`: a pop with what is done about its delivery, and restarts.
* `loses_nothing`: what is committed was handled, or copied with a confirmed write, or falls under a drop
  rule.
-/

namespace BabelQueue

open Py

/-! ## Beside a world -/

section Beside

variable {σ η ω α : Type}

/-- A call, beside a world. -/
def beside (c : Act σ α) : Act (σ × ω) α := fun s => ((c s.1).1, (c s.1).2, s.2)

def Transport.beside (T : Transport σ η) : Transport (σ × ω) η where
  classifiesPoison := T.classifiesPoison
  retryTiersMs := T.retryTiersMs
  publish queue body := BabelQueue.beside (T.publish queue body)
  pop queue := BabelQueue.beside (T.pop queue)
  ack m := BabelQueue.beside (T.ack m)
  publishRouted := T.publishRouted.map fun c queue body route => BabelQueue.beside (c queue body route)
  publishSettle := T.publishSettle.map fun c queue body route key => BabelQueue.beside (c queue body route key)
  redeliver := T.redeliver.map fun c m body delay => BabelQueue.beside (c m body delay)
  deadLetter := T.deadLetter.map fun c m queue body => BabelQueue.beside (c m queue body)
  rewind := T.rewind.map fun c m => BabelQueue.beside (c m)
  abandon := T.abandon.map fun c m => BabelQueue.beside (c m)
  deadLetterQueueName := T.deadLetterQueueName
  settleNative := T.settleNative.map fun c m reason description => BabelQueue.beside (c m reason description)
  settleNativeDeadLetter :=
    T.settleNativeDeadLetter.map fun c m reason description => BabelQueue.beside (c m reason description)

variable {c : Act σ α}

theorem beside_spec {P : σ × ω → Prop} {Q : α → σ × ω → Prop} {E : PyExc → σ × ω → Prop}
    (h : ∀ w, Triple (fun s => P (s, w)) c (fun a s => Q a (s, w)) fun e s => E e (s, w)) : Triple P (beside c) Q E := by
  rintro ⟨s, w⟩ hp
  have hc := h w s hp
  unfold beside
  revert hc
  rcases c s with ⟨_ | _, _⟩ <;> exact id

/-- An event is added to what the trace was. -/
theorem record_state_spec {event : Except PyExc Unit → Event} {P : σ × Trace → Prop} {Q : α → σ × Trace → Prop}
    {E : PyExc → σ × Trace → Prop}
    (h : ∀ tr, Triple (fun s => P (s, tr)) c (fun a s => Q a (s, tr ++ [event (.ok ())]))
      fun e s => E e (s, tr ++ [event (.error e)])) : Triple P (record event c) Q E := by
  rintro ⟨s, tr⟩ hp
  have hc := h tr s hp
  unfold record
  revert hc
  rcases c s with ⟨_ | _, _⟩ <;> exact id

theorem silent_state_spec {P : σ × Trace → Prop} {Q : α → σ × Trace → Prop} {E : PyExc → σ × Trace → Prop}
    (h : ∀ tr, Triple (fun s => P (s, tr)) c (fun a s => Q a (s, tr)) fun e s => E e (s, tr)) : Triple P (silent c) Q E := by
  rintro ⟨s, tr⟩ hp
  have hc := h tr s hp
  unfold silent
  revert hc
  rcases c s with ⟨_ | _, _⟩ <;> exact id

end Beside

namespace Kafka.KafkaTransport

variable {logs : Logs} {start base : TopicPartition → Int} {A : List Effect → Message → Prop} {B : Str → List Handle}
  {s s' : Polling Broker}

/-! ## What handlers may do -/

/-- Nothing happened but writes. -/
structure OnlyWrites (s s' : Polling Broker) : Prop where
  pending : s'.pending = s.pending
  settled : s'.settled = s.settled
  polled : s'.polled = s.polled
  position : s'.clients.position = s.clients.position
  committed : s'.clients.committed = s.clients.committed
  missed : s'.clients.missed = s.clients.missed
  effects : ∃ ws : List Write, s'.clients.effects = s.clients.effects ++ ws.map Effect.write

theorem At.onlyWrites (hs : At logs start base A B s) (hgrows : Grows A) (h : OnlyWrites s s') : At logs start base A B s' := by
  obtain ⟨ws, hws⟩ := h.effects
  have hwritten : ∀ ws : List Write, Accounts logs start base A
      { s with clients := { s.clients with effects := s.clients.effects ++ ws.map Effect.write } } := by
    intro ws
    induction ws using List.reverseRecOn with
    | nil => simpa using hs.1
    | append_singleton ws w ih =>
      have := ih.write hgrows w
      unfold Broker.take at this
      simpa using this
  have hsame : s' = { { s with clients := { s.clients with effects := s.clients.effects ++ ws.map Effect.write } } with
      clients := s'.clients } := by
    obtain ⟨pending, settled, polled, clients⟩ := s'
    obtain ⟨rfl, rfl, rfl, -, -, -, -⟩ := h
    rfl
  rw [hsame]
  exact ⟨(hwritten ws).quiet h.position h.committed h.missed hws, hs.2⟩

section Interpreter

variable [Interpreter] {ω : Type}

/-- An app on the transport. -/
structure Serves (app : App (Polling Broker × ω) Handle) (T : KafkaTransport) (logs : Logs) : Prop where
  transport : app.transport = (T.transport (Broker.clients logs)).beside
  handler : ∀ urn handler, app.handlers.get? urn = some handler → ∀ data metaBlock envelope s,
    OnlyWrites s.1 (handler data metaBlock envelope s).2.1
  observer : ∀ observer ∈ app.deadLetterObserver, ∀ event s, OnlyWrites s.1 (observer event s).2.1
  setPhase : ∀ phase s, (app.setPhase phase s).1 = s.1
  endPhase : ∀ s, (app.endPhase s).1 = s.1

/-! ## What accounts for a record -/

/-- The write is a copy of the delivery: its retry on a tier, or a successor of it. -/
def Copy (app : App (Polling Broker × ω) Handle) (T : KafkaTransport) (m : ReceivedMessage Handle) (w : Write) : Prop :=
  (∃ body, Redelivery app m body ∧ redeliverArgs T.tiers (withRecord m) body = .ok (w.topic, w.args)) ∨
    ∃ body, ∃ now : Int, Successor app m w.topic body ∧ settleArgs w.topic body m.routeUrn m.key [] now = .ok w.args

/-- Why the delivery, whose dispatch has the trace `tr`, may be committed after the effects `es`. -/
def Cause (app : App (Polling Broker × ω) Handle) (T : KafkaTransport) (m : ReceivedMessage Handle) (tr : Trace)
    (es : List Effect) : Prop :=
  .handler (.ok ()) ∈ tr ∨ (∃ w, .write w ∈ es ∧ w.confirmed = true ∧ Copy app T m w) ∨ DropRule app m

variable {app : App (Polling Broker × ω) Handle} {T : KafkaTransport} {m : ReceivedMessage Handle} {tr tr' : Trace} {es : List Effect}

theorem Cause.mono (h : Cause app T m tr es) (htr : ∀ e ∈ tr, e ∈ tr') (more : List Effect) : Cause app T m tr' (es ++ more) := by
  rcases h with h | ⟨w, hw, h⟩ | h
  · exact .inl (htr _ h)
  · exact .inr (.inl ⟨w, List.mem_append_left _ hw, h⟩)
  · exact .inr (.inr h)

/-- What is accounted for in the dispatch of a delivery: what was, and its own record. -/
def During (app : App (Polling Broker × ω) Handle) (T : KafkaTransport) (m : ReceivedMessage Handle)
    (A : List Effect → Message → Prop) (tr : Trace) (es : List Effect) (record : Message) : Prop :=
  A es record ∨ record = m.handle.record ∧ Cause app T m tr es

theorem during_grows (hgrows : Grows A) : Grows (During app T m A tr) := by
  rintro es es' record (h | ⟨rfl, h⟩)
  · exact .inl (hgrows _ _ _ h)
  · exact .inr ⟨rfl, h.mono (fun _ => id) es'⟩

theorem During.append (tr : Trace) (e : Event) : ∀ es record, During app T m A tr es record → During app T m A (tr ++ [e]) es record := by
  rintro es record (h | ⟨rfl, h⟩)
  · exact .inl h
  · refine .inr ⟨rfl, ?_⟩
    simpa using h.mono (fun x hx => List.mem_append_left [e] hx) []

theorem At.during_append (h : At logs start base (During app T m A tr) B s) (e : Event) :
    At logs start base (During app T m A (tr ++ [e])) B s := ⟨h.1.mono (During.append tr e), h.2⟩

/-! ## Custody of a delivery in flight -/

/-- The delivery is in flight. -/
def Held (app : App (Polling Broker × ω) Handle) (T : KafkaTransport) (m : ReceivedMessage Handle) (logs : Logs)
    (start base : TopicPartition → Int) (A : List Effect → Message → Prop) (B : Str → List Handle)
    (s : (Polling Broker × ω) × Trace) : Prop := At logs start base (During app T m A s.2) B s.1.1

/-- It may be committed. -/
def Covered (app : App (Polling Broker × ω) Handle) (T : KafkaTransport) (m : ReceivedMessage Handle) (logs : Logs)
    (start base : TopicPartition → Int) (A : List Effect → Message → Prop) (B : Str → List Handle)
    (s : (Polling Broker × ω) × Trace) : Prop :=
  Held app T m logs start base A B s ∧ Cause app T m s.2 s.1.1.clients.effects

/-- The books are kept. -/
def Done (app : App (Polling Broker × ω) Handle) (T : KafkaTransport) (m : ReceivedMessage Handle) (logs : Logs)
    (start base : TopicPartition → Int) (A : List Effect → Message → Prop) (s : (Polling Broker × ω) × Trace) : Prop :=
  Accounts logs start base (During app T m A s.2) s.1.1

theorem Serves.publishFor (K : Serves app T logs) (queue body : Str) :
    app.publishFor m queue body = beside (T.publishSettle (Broker.clients logs) queue body m.routeUrn m.key) := by
  unfold App.publishFor publishKeepingRoute
  rw [K.transport]
  rfl

theorem classify_handler {r : App.Routing (Polling Broker × ω)} {handler : Handler (Polling Broker × ω)}
    (hr : app.classify m = .ok r) (hh : r.handler = some handler) : app.handlers.get? r.urn = some handler := by
  unfold App.classify at hr
  obtain ⟨cause, -, hr⟩ := bind_eq_ok.mp hr
  obtain ⟨envelope, -, hr⟩ := bind_eq_ok.mp hr
  obtain ⟨bodyUrn, -, hr⟩ := bind_eq_ok.mp hr
  cases hr
  exact (Option.ite_none_right_eq_some.mp hh).2

theorem redelivery_of_traced {body : Str} (h : Redelivery app.traced m body) : Redelivery app m body := by
  cases h with
  | verbatim => exact .verbatim
  | retry h ha hb => exact .retry (retryEnvelope_of_traced h) ha hb

/-- `dispatch` keeps the books, and acks only what may be committed. -/
theorem custody (K : Serves app T logs) (hgrows : Grows A) (hm : m.handle ∈ B m.queue) :
    Custody app.traced m (Held app T m logs start base A B) (Covered app T m logs start base A B)
      (Done app T m logs start base A) := by
  have hduring : ∀ tr, Grows (During app T m A tr) := fun tr => during_grows hgrows
  constructor
  case held_done => exact fun s hs => hs.1
  case setPhase_held =>
    intro p s hs
    have hsame : (app.traced.setPhase p s).1.1 = s.1.1 := K.setPhase p s.1
    unfold Held
    rw [hsame]
    exact hs
  case setPhase_covered =>
    intro p s hs
    have hsame : (app.traced.setPhase p s).1.1 = s.1.1 := K.setPhase p s.1
    unfold Covered Held
    rw [hsame]
    exact hs
  case endPhase =>
    intro s hs
    have hsame : (app.traced.endPhase s).1.1 = s.1.1 := K.endPhase s.1
    unfold Done
    rw [hsame]
    exact hs
  case drop => exact fun h s hs => ⟨hs, .inr (.inr (dropRule_of_traced h))⟩
  case handler =>
    intro r handler hr hh data metaBlock envelope
    rw [classify_traced] at hr
    obtain ⟨routing, hrouting, rfl⟩ := map_eq_ok.mp hr
    obtain ⟨handler, he, rfl⟩ := Option.map_eq_some_iff.mp hh
    have hget := classify_handler hrouting he
    refine record_state_spec fun tr s hs => ?_
    have hat := At.onlyWrites hs (hduring tr) (K.handler _ handler hget data metaBlock envelope s)
    revert hat
    rcases handler data metaBlock envelope s with ⟨_ | _, _⟩
    · exact fun hat => hat.during_append _
    · exact fun hat => ⟨hat.during_append _, .inl (List.mem_append_right _ List.mem_cons_self)⟩
  case publish =>
    intro queue body hsucc
    rw [publishFor_traced, K.publishFor]
    refine record_state_spec fun tr => beside_spec fun w s hs => ?_
    have hs : At logs start base (During app T m A tr) B s := hs
    rcases publishSettle_run logs T queue body m.routeUrn m.key s with
      ⟨e, hrun⟩ | ⟨r, args, confirmed, hargs, hrun, hconfirmed⟩
    · rw [hrun]
      exact hs.during_append _
    · rw [hrun]
      have hwritten := hs.clients (hs.quiet.1.write (hduring tr) ⟨queue, args, confirmed⟩)
      cases r with
      | error e => exact hwritten.during_append _
      | ok _ =>
        obtain rfl := hconfirmed _ rfl
        refine ⟨hwritten.during_append _, .inr (.inl ⟨⟨queue, args, true⟩, ?_, rfl, .inr ⟨body, _, successor_of_traced hsucc, hargs⟩⟩)⟩
        exact List.mem_append_right _ List.mem_cons_self
  case ack =>
    have hack : app.traced.transport.ack m = record .ack (app.transport.ack m) := rfl
    rw [hack, K.transport]
    refine record_state_spec fun tr => beside_spec fun w => ?_
    exact (ack_spec (hduring tr) hm).conseq (fun s hs => ⟨hs.1, .inr ⟨rfl, hs.2⟩⟩) (fun _ s hs => (hs.during_append _).1)
      fun _ s hs => (hs.2.during_append _).1
  case redeliver =>
    intro redeliver hr body delay hsucc
    simp only [App.traced, Transport.traced, Option.map_eq_some_iff] at hr
    obtain ⟨redeliver, hr, rfl⟩ := hr
    rw [K.transport] at hr
    cases hr
    refine record_state_spec fun tr => beside_spec fun w => ?_
    refine (redeliver_spec T (hduring tr) hm body fun topic args hargs es hw => ?_).conseq (fun s hs => hs)
      (fun _ s hs => (hs.during_append _).1) fun _ s hs => hs.during_append _
    exact .inr ⟨rfl, .inr (.inl ⟨_, hw, rfl, .inl ⟨body, redelivery_of_traced hsucc, hargs⟩⟩)⟩
  case write =>
    intro write hw
    simp only [App.traced, Transport.traced, K.transport] at hw
    cases hw
  case rewind =>
    intro rewind hr
    simp only [App.traced, Transport.traced, Option.map_eq_some_iff] at hr
    obtain ⟨rewind, hr, rfl⟩ := hr
    rw [K.transport] at hr
    cases hr
    refine record_state_spec fun tr => beside_spec fun w => ?_
    exact (rewind_spec hm).conseq (fun s hs => show At logs start base (During app T m A tr) B s from hs) (fun _ s hs => (hs.during_append _).1) fun _ _ hs => hs.elim
  case abandon =>
    intro abandon ha
    simp only [App.traced, Transport.traced, K.transport] at ha
    cases ha
  case native =>
    intro native hn
    simp only [App.traced, Transport.traced, K.transport] at hn
    cases hn
  case nativeDeadLetter =>
    intro native hn
    simp only [App.traced, Transport.traced, K.transport] at hn
    cases hn
  case observer =>
    intro observer ho event
    simp only [App.traced, Option.map_eq_some_iff] at ho
    obtain ⟨observer, ho, rfl⟩ := ho
    refine silent_state_spec fun tr s hs => ?_
    have hat := At.onlyWrites ⟨hs, rfl⟩ (hduring tr) (K.observer observer ho event s)
    revert hat
    rcases observer event s with ⟨_ | _, _⟩ <;> exact fun hat => hat.1

/-! ## Runs -/

/-- The state, and each delivery that was dispatched with its trace. -/
structure Serving (ω : Type) where
  state : Polling Broker × ω
  history : List (ReceivedMessage Handle × Trace)

/-- A pop, with what is done about the delivery. An interrupt may end it after the pop, and the process may
be replaced by another one. -/
inductive Serving.Step (app : App (Polling Broker × ω) Handle) (queue : Str) (x : Serving ω) : Serving ω → Prop
  | pop {r s} (h : app.transport.pop queue x.state = (r, s)) : Step app queue x ⟨s, x.history⟩
  | dispatch {m s₁ r s tr} (hpop : app.transport.pop queue x.state = (.ok (some m), s₁))
      (h : app.traced.dispatch m (s₁, []) = (r, s, tr)) : Step app queue x ⟨s, x.history ++ [(m, tr)]⟩
  | stop {m s₁ r s} (hpop : app.transport.pop queue x.state = (.ok (some m), s₁)) (h : app.releaseUnprocessed m s₁ = (r, s)) :
    Step app queue x ⟨s, x.history⟩
  | restart : Step app queue x ⟨(x.state.1.restart, x.state.2), x.history⟩

/-- The record was delivered, and there is a cause to commit it. -/
def Accounted (app : App (Polling Broker × ω) Handle) (T : KafkaTransport) (queue : Str)
    (history : List (ReceivedMessage Handle × Trace)) (es : List Effect) (record : Message) : Prop :=
  ∃ e ∈ history, e.1.handle.record = record ∧ OfRecord queue e.1 ∧ Cause app T e.1 e.2 es

variable {queue : Str} {history : List (ReceivedMessage Handle × Trace)} {x y : Serving ω}

theorem accounted_grows : Grows (Accounted app T queue history) := by
  rintro es es' record ⟨e, he, hr, hof, hcause⟩
  exact ⟨e, he, hr, hof, hcause.mono (fun _ => id) es'⟩

theorem Serves.pop (K : Serves app T logs) (hbytes : BytesLogs logs) :
    Triple (fun s => At logs start base A B s.1) (app.transport.pop queue)
      (fun (r : Option (ReceivedMessage Handle)) s => Handed logs start base A (Function.update B queue []) queue r.toList s.1)
      fun _ s => At logs start base A (Function.update B queue []) s.1 := by
  rw [K.transport]
  exact beside_spec fun _ => pop_spec hbytes

omit [Interpreter] in
theorem Handed.mem [Interpreter] (h : Handed logs start base A B queue [m] s) :
    m.handle ∈ Function.update B queue (B queue ++ [m.handle]) m.queue := by
  rw [(h.2 m List.mem_cons_self).1, Function.update_self]
  exact List.mem_append_right _ List.mem_cons_self

/-- A dispatch of what was popped. -/
theorem Serves.dispatch (K : Serves app T logs) {s₁ s : Polling Broker × ω} {r : Except PyExc Unit}
    (hs : Handed logs start base (Accounted app T queue history) B queue [m] s₁.1)
    (h : app.traced.dispatch m (s₁, []) = (r, s, tr)) :
    Accounts logs start base (Accounted app T queue (history ++ [(m, tr)])) s.1 := by
  have hm := hs.mem
  obtain ⟨hat, hof⟩ := hs
  have hgrows : Grows (Accounted app T queue history) := accounted_grows
  have C := @custody logs start base _ _ _ _ _ _ _ K hgrows hm
  have hheld : Held app T m logs start base (Accounted app T queue history) (Function.update B queue (B queue ++ [m.handle])) (s₁, []) :=
    ⟨hat.1.mono fun es record hr => .inl hr, hat.2⟩
  have hdone := C.dispatch (s₁, []) hheld
  rw [h] at hdone
  have hdone : Accounts logs start base (During app T m (Accounted app T queue history) tr) s.1 := by
    cases r with
    | ok _ => exact hdone
    | error e => exact hdone
  refine hdone.mono ?_
  rintro es record (⟨e, he, hr⟩ | ⟨rfl, hcause⟩)
  · exact ⟨e, List.mem_append_left _ he, hr⟩
  · exact ⟨_, List.mem_append_right _ List.mem_cons_self, rfl, hof m List.mem_cons_self, hcause⟩

/-- What was popped is given back. -/
theorem Serves.releaseUnprocessed (K : Serves app T logs) {s₁ s : Polling Broker × ω} {r : Except PyExc Unit}
    (hs : Handed logs start base A B queue [m] s₁.1) (h : app.releaseUnprocessed m s₁ = (r, s)) :
    Accounts logs start base A s.1 := by
  have hspec : Triple (fun s => At logs start base A (Function.update B queue (B queue ++ [m.handle])) s.1)
      (app.releaseUnprocessed m) (fun _ s => Accounts logs start base A s.1) fun _ s => Accounts logs start base A s.1 := by
    unfold App.releaseUnprocessed
    rw [K.transport]
    refine Triple.tryExcept (E := fun _ _ => False) (beside_spec fun w => ?_) (fun _ _ _ h => h.elim) fun _ _ _ h => h.elim
    exact (rewind_spec hs.mem).conseq (fun _ hs => hs) (fun _ _ hs => hs.1) fun _ _ => id
  cases r with
  | ok _ => exact hspec.ok hs.1 h
  | error e => exact hspec.error hs.1 h

/-- A step keeps the books. -/
theorem Serving.Step.keeps (K : Serves app T logs) (hbytes : BytesLogs logs) (hstep : Serving.Step app queue x y)
    (hx : Accounts logs start base (Accounted app T queue x.history) x.state.1) :
    Accounts logs start base (Accounted app T queue y.history) y.state.1 := by
  have hpopped : Triple (fun s => At logs start base (Accounted app T queue x.history) x.state.1.pending s.1)
      (app.transport.pop queue) _ _ := K.pop hbytes
  cases hstep with
  | @pop r s h =>
    cases r with
    | ok r => exact (hpopped.ok ⟨hx, rfl⟩ h).1.1
    | error e => exact (hpopped.error ⟨hx, rfl⟩ h).1
  | @dispatch m s₁ r s tr hpop h => exact K.dispatch (hpopped.ok ⟨hx, rfl⟩ hpop) h
  | @stop m s₁ r s hpop h => exact K.releaseUnprocessed (hpopped.ok ⟨hx, rfl⟩ hpop) h
  | restart => exact hx.restart

omit [Interpreter] in
/-- `consume` is a run of such steps. -/
theorem consume_steps [Interpreter] (app : App (Polling Broker × ω) Handle) (queue : Str) (n : Nat) (s : Polling Broker × ω)
    (history : List (ReceivedMessage Handle × Trace)) : ∃ history',
      Relation.ReflTransGen (Serving.Step app queue) ⟨s, history⟩ ⟨(app.consume queue n s).2, history'⟩ := by
  induction n generalizing s history with
  | zero => exact ⟨history, .refl⟩
  | succ n ih =>
    rw [App.consume, Act.bind_run]
    cases hpop : app.transport.pop queue s with
    | mk r s₁ =>
      rcases r with e | _ | m
      · exact ⟨history, .single (.pop hpop)⟩
      · exact ⟨history, .single (.pop hpop)⟩
      · obtain ⟨hresult, hstate⟩ := dispatch_traced app m s₁ []
        have hstep : Serving.Step app queue ⟨s, history⟩ ⟨(app.traced.dispatch m (s₁, [])).2.1,
          history ++ [(m, (app.traced.dispatch m (s₁, [])).2.2)]⟩ := .dispatch hpop rfl
        dsimp only
        rw [Act.bind_run]
        cases hdispatch : app.dispatch m s₁ with
        | mk r s₂ =>
          rw [hdispatch] at hstate
          rw [hstate] at hstep
          cases r with
          | error e => exact ⟨_, .single hstep⟩
          | ok _ =>
            obtain ⟨history', hrun⟩ := ih s₂ (history ++ [(m, (app.traced.dispatch m (s₁, [])).2.2)])
            refine ⟨history', .head hstep ?_⟩
            dsimp only
            rw [Act.bind_run]
            cases hconsume : app.consume queue n s₂ with
            | mk r s₃ =>
              rw [hconsume] at hrun
              cases r <;> exact hrun

end Interpreter

section CPython

attribute [local instance] cpython

/-- An app without handlers, on that transport. -/
def laterApp : App (Polling Broker × Unit) Handle where
  transport := (tiered.transport (Broker.clients laterLogs)).beside
  handlers := []
  onUnknownUrn := .fail
  maxAttempts := 3
  deadLetterEnabled := true
  deadLetterQueue := none
  deadLetterSuffix := none
  retryDelay _ := .ok Float64.zero
  unknownUrnReleaseDelay := Float64.zero
  deadLetterObserver := none
  now _ := ⟨0, epoch_in_range⟩
  setPhase _ := id
  endPhase := id

theorem laterApp_serves : Serves laterApp tiered laterLogs :=
  ⟨rfl, fun _ _ h => (nomatch h), fun _ h => (nomatch h), fun _ _ => rfl, fun _ => rfl⟩

end CPython

end Kafka.KafkaTransport

end BabelQueue
