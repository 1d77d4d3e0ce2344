import BabelQueue.App.Simulation
import BabelQueue.App.Trace
import BabelQueue.Py.Log
import BabelQueue.Pulsar

/-!
# Copies of a Pulsar message

`T.logged` is the transport with a log of every call of `send`.

* `Copy message copy`: `copy` is sent for a delivery of `message`, by a dispatch of some runtime or by a
  turn of some redrive. What a handler sends on its own is no copy.
* `dispatch_sent`: a dispatch sends what its trace publishes, under the route of the delivery.
* `replayOne_sends`: what a turn of `redrive` sends.
* `Copy.written`: a copy is written from a body under the route of the delivery.
-/

namespace BabelQueue

open Py Py.Json Pulsar

/-- The messages that are sent, each with its topic. -/
abbrev Sent := List (Str × Message)

variable {σ α : Type}

/-- The client, with a log of each call of `send`, also of one that raises. -/
def PulsarClient.logged (c : PulsarClient σ) : PulsarClient (σ × Sent) where
  send topic message := Act.logging (topic, message) (c.send topic message)
  receive topic := Act.aside (c.receive topic)
  acknowledge topic d := Act.aside (c.acknowledge topic d)
  negativeAcknowledge topic d := Act.aside (c.negativeAcknowledge topic d)

def PulsarTransport.logged (T : PulsarTransport σ) : PulsarTransport (σ × Sent) where
  client := T.client.logged
  topicPrefix := T.topicPrefix
  onRoutingMismatch := T.onRoutingMismatch.map fun hook propertyUrn bodyUrn envelope => Act.aside (hook propertyUrn bodyUrn envelope)

/-- The keyword arguments of a redrive, beside the log. -/
def RedriveOptions.aside (o : RedriveOptions σ) : RedriveOptions (σ × Sent) where
  toQueue := o.toQueue
  max := o.max
  dryRun := o.dryRun
  select := o.select.map fun select envelope => Act.aside (select envelope)
  bypass := o.bypass

section Interpreter

variable [Interpreter]

/-- The runtime of `app` on the transport `T`. -/
def App.on (app : App σ Pulsar.Delivery) (T : PulsarTransport σ) : App σ Pulsar.Delivery :=
  { app with transport := T.transport.toTransport }

/-- The runtime of `app` on the logged transport. -/
def App.sending (app : App σ Pulsar.Delivery) (T : PulsarTransport σ) : App (σ × Sent) Pulsar.Delivery where
  transport := T.logged.transport.toTransport
  handlers := app.handlers.mapValues fun handler data metaBlock envelope => Act.aside (handler data metaBlock envelope)
  onUnknownUrn := app.onUnknownUrn
  maxAttempts := app.maxAttempts
  deadLetterEnabled := app.deadLetterEnabled
  deadLetterQueue := app.deadLetterQueue
  deadLetterSuffix := app.deadLetterSuffix
  retryDelay := app.retryDelay
  unknownUrnReleaseDelay := app.unknownUrnReleaseDelay
  deadLetterObserver := app.deadLetterObserver.map fun observer event => Act.aside (observer event)
  now s := app.now s.1
  setPhase p s := (app.setPhase p s.1, s.2)
  endPhase s := (app.endPhase s.1, s.2)

/-- `copy` is sent for a delivery of `message`. -/
inductive Pulsar.Copy (message copy : Message) : Prop
  | dispatched {σ : Type} (T : PulsarTransport σ) (app : App σ Pulsar.Delivery) {queue topic : Str} {d : Pulsar.Delivery}
      {m : ReceivedMessage Pulsar.Delivery} {mismatch : Option Mismatch} {s : σ} (hd : d.message = message)
      (hm : received queue d = .ok (m, mismatch)) (h : (topic, copy) ∈ ((app.sending T).dispatch m (s, [])).2.2)
  | replayed {σ : Type} (T : PulsarTransport σ) (o : RedriveOptions σ) {queue topic : Str} {d : Pulsar.Delivery}
      {m : ReceivedMessage Pulsar.Delivery} {mismatch : Option Mismatch} {envelope : Option (Dict Json)} {s : σ}
      (hd : d.message = message) (hm : received queue d = .ok (m, mismatch)) (he : batchEnvelope m = .ok envelope)
      (h : (topic, copy) ∈ (replayOne T.logged.transport queue o.aside m envelope (s, [])).2.2)

/-! ## A dispatch -/

/-- A publish of the transport under a route, the empty one included. -/
theorem PulsarTransport.publishKeepingRoute_eq (T : PulsarTransport σ) (queue body : Str) (route : RouteUrn)
    (key : Option Bytes) :
    publishKeepingRoute T.transport.toTransport queue body route key = T.publishRouted queue body route.text := by
  unfold publishKeepingRoute transport publish
  dsimp only
  by_cases h : route.text = []
  · rw [h, if_neg (not_not.mpr rfl)]
  · rw [if_pos h]

/-- What is sent for an event of the trace. -/
def sentBy (T : PulsarTransport σ) (route : Str) : Event → Option (Str × Message)
  | .publish queue body _ => (routedMessage body route).toOption.map fun message => (T.topic queue, message)
  | _ => none

/-- The states of the traced runtime and of the logged one. -/
def SentBeside (T : PulsarTransport σ) (route : Str) (s : σ × Trace) (s' : σ × Sent) : Prop :=
  s' = (s.1, s.2.filterMap (sentBy T route))

section Dispatch

variable (app : App σ Pulsar.Delivery) (T : PulsarTransport σ) (m : ReceivedMessage Pulsar.Delivery) {route : Str}

/-- A call that sends nothing. -/
theorem record_sent {event : Except PyExc Unit → Event} (he : ∀ r, sentBy T route (event r) = none) (c : Act σ α) :
    Sim (SentBeside T route) (record event c) (Act.aside c) := by
  rintro ⟨s, tr⟩ _ rfl
  refine ⟨rfl, ?_⟩
  show ((c s).2, tr.filterMap (sentBy T route)) = ((c s).2, (tr ++ [_]).filterMap (sentBy T route))
  rw [List.filterMap_append, List.filterMap_cons_none (he _), List.filterMap_nil, List.append_nil]

theorem silent_sent (c : Act σ α) : Sim (SentBeside T route) (silent c) (Act.aside c) := by
  rintro ⟨s, tr⟩ _ rfl
  exact ⟨rfl, rfl⟩

theorem publishFor_sent (queue body : Str) :
    Sim (SentBeside T m.routeUrn.text) ((app.on T).traced.publishFor m queue body) ((app.sending T).publishFor m queue body) := by
  rw [publishFor_traced]
  show Sim _ (record _ (publishKeepingRoute T.transport.toTransport queue body m.routeUrn m.key))
    (publishKeepingRoute T.logged.transport.toTransport queue body m.routeUrn m.key)
  rw [T.publishKeepingRoute_eq, T.logged.publishKeepingRoute_eq]
  rintro ⟨s, tr⟩ _ rfl
  unfold record PulsarTransport.publishRouted
  rw [Act.bind_run, Act.bind_run, Act.lift_run, Act.lift_run]
  cases hr : routedMessage body m.routeUrn.text with
  | error e =>
    refine ⟨rfl, ?_⟩
    show (s, tr.filterMap _) = (s, (tr ++ [_]).filterMap _)
    rw [List.filterMap_append, List.filterMap_cons_none (by rw [sentBy, hr]; rfl), List.filterMap_nil, List.append_nil]
  | ok message =>
    refine ⟨rfl, ?_⟩
    show (_, tr.filterMap _ ++ [(T.topic queue, message)]) = (_, (tr ++ [_]).filterMap _)
    rw [List.filterMap_append, List.filterMap_cons_some (by rw [sentBy, hr]; rfl), List.filterMap_nil]
    rfl

theorem ackSettled_sent : Sim (SentBeside T route) ((app.on T).traced.ackSettled m) ((app.sending T).ackSettled m) :=
  Sim.tryExcept (record_sent T (fun _ => rfl) (T.transport.ack m)) fun _ => Sim.pure ()

theorem rewindUnsettled_sent :
    Sim (SentBeside T route) ((app.on T).traced.rewindUnsettled m) ((app.sending T).rewindUnsettled m) :=
  Sim.tryExcept (record_sent T (fun _ => rfl) (T.client.negativeAcknowledge (T.topic m.queue) m.handle)) fun _ => Sim.pure ()

theorem notifyDeadLetter_sent (event : DeadLetterEvent) :
    Sim (SentBeside T route) ((app.on T).traced.notifyDeadLetter event) ((app.sending T).notifyDeadLetter event) := by
  unfold App.notifyDeadLetter App.traced App.sending App.on
  dsimp only
  cases app.deadLetterObserver with
  | none => exact Sim.pure ()
  | some observer => exact Sim.tryExcept (silent_sent T _) fun _ => Sim.pure ()

theorem simulates_sent : (app.on T).traced.Simulates (SentBeside T m.routeUrn.text) (app.sending T) m where
  classifiesPoison := rfl
  onUnknownUrn := rfl
  maxAttempts := rfl
  deadLetterEnabled := rfl
  retryDelay := rfl
  unknownUrnReleaseDelay := rfl
  retryTiersUnavailable := rfl
  deadLetterTarget := rfl
  now := by rintro ⟨s, tr⟩ _ rfl; rfl
  setPhase := by rintro phase ⟨s, tr⟩ _ rfl; rfl
  endPhase := by rintro ⟨s, tr⟩ _ rfl; rfl
  handlers := by
    intro urn
    simp only [App.sending, App.traced, App.on, Dict.get?_mapValues]
    cases app.handlers.get? urn with
    | none => exact .none
    | some handler => exact .some fun _ _ _ => record_sent T (fun _ => rfl) _
  ackSettled := ackSettled_sent app T m
  release body delay :=
    Sim.bind (Sim.lift _) fun _ => Sim.bind (publishFor_sent app T m _ _) fun _ => ackSettled_sent app T m
  writeDeadLetter queue body sourceQueue reason :=
    Sim.bind (publishFor_sent app T m _ _) fun _ => Sim.bind (ackSettled_sent app T m) fun _ => notifyDeadLetter_sent app T _
  settleNative _ _ := Sim.pure false
  rewindUnsettled := rewindUnsettled_sent app T m
  abandonUnsettled := rewindUnsettled_sent app T m

/-- A dispatch sends what its trace publishes, under the route of the delivery. -/
theorem dispatch_sent (s : σ) :
    ((app.sending T).dispatch m (s, [])).2.2 =
      (((app.on T).traced.dispatch m) (s, [])).2.2.filterMap (sentBy T m.routeUrn.text) :=
  congrArg Prod.snd ((simulates_sent app T m).dispatch (s, []) (s, []) rfl).2

theorem mem_dispatch_sent {app : App σ Pulsar.Delivery} {T : PulsarTransport σ} {m : ReceivedMessage Pulsar.Delivery} {s : σ}
    {topic : Str} {copy : Message} (h : (topic, copy) ∈ ((app.sending T).dispatch m (s, [])).2.2) :
    ∃ queue body r, Event.publish queue body r ∈ ((app.on T).traced.dispatch m (s, [])).2.2 ∧
      routedMessage body m.routeUrn.text = .ok copy := by
  rw [dispatch_sent, List.mem_filterMap] at h
  obtain ⟨event, hevent, hsent⟩ := h
  cases event with
  | publish queue body r =>
    rw [sentBy, Option.map_eq_some_iff] at hsent
    obtain ⟨message, hmessage, heq⟩ := hsent
    obtain rfl : message = copy := congrArg Prod.snd heq
    refine ⟨queue, body, r, hevent, ?_⟩
    cases hr : routedMessage body m.routeUrn.text with
    | error e => rw [hr] at hmessage; cases hmessage
    | ok message => rw [hr] at hmessage; cases hmessage; rfl
  | _ => cases hsent

end Dispatch

/-! ## A turn of a redrive -/

/-- `copy` is written from `body`, under `route`. -/
def Pulsar.Writes (route body : Str) (copy : Message) : Prop :=
  routedMessage body route = .ok copy ∨ redrivenMessage body [(headerReplayBypass, str "1")] route = .ok copy

/-- What a turn may send for a delivery with that envelope. -/
def Pulsar.Replays (m : ReceivedMessage Pulsar.Delivery) (envelope : Option (Dict Json)) (copy : Message) : Prop :=
  routedMessage m.body m.routeUrn.text = .ok copy ∨
    ∃ decoded body, envelope = some decoded ∧ encode (resetEnvelope decoded) = .ok body ∧ Writes m.routeUrn.text body copy

section Replay

variable (T : PulsarTransport σ) {m : ReceivedMessage Pulsar.Delivery} {envelope : Option (Dict Json)}

theorem publishKeepingRoute_sends {P : Str × Message → Prop} {queue body : Str} {route : RouteUrn} (key : Option Bytes)
    (h : ∀ copy, routedMessage body route.text = .ok copy → P (T.topic queue, copy)) :
    Logs P (publishKeepingRoute T.logged.transport.toTransport queue body route key) := by
  rw [T.logged.publishKeepingRoute_eq]
  exact Logs.lift_bind fun copy hcopy => Logs.logging (h copy hcopy) _

theorem restore_sends (dlq : Str) :
    Logs (fun x => Replays m envelope x.2) (restore T.logged.transport.toTransport dlq m) :=
  (publishKeepingRoute_sends T m.key fun _ h => .inl h).bind fun _ => Logs.aside _

theorem publishRedriven_sends {decoded : Dict Json} {body : Str} (hb : encode (resetEnvelope decoded) = .ok body)
    (target : Str) (bypass : Bool) :
    Logs (fun x => Replays m (some decoded) x.2) (publishRedriven T.logged.transport target body bypass m.routeUrn m.key) := by
  have hreset : ∀ copy, Writes m.routeUrn.text body copy → Replays m (some decoded) copy := fun copy h =>
    .inr ⟨decoded, body, rfl, hb, h⟩
  unfold publishRedriven
  cases bypass with
  | true =>
    refine Logs.bind (Logs.lift_bind fun copy hcopy => ?_) fun _ => Logs.pure true
    exact Logs.logging (x := (T.topic target, copy)) (hreset copy (.inr hcopy)) _
  | false =>
    exact (publishKeepingRoute_sends T m.key fun copy h => hreset copy (.inl h)).bind fun _ => Logs.pure false

omit [Interpreter] in
theorem selected_sends {P : Str × Message → Prop} (o : RedriveOptions σ) (decoded : Dict Json) :
    Logs P (selected o.aside decoded) := by
  unfold selected RedriveOptions.aside
  cases o.select with
  | none => exact Logs.pure true
  | some select => exact Logs.aside _

/-- What a turn sends: the body as it was, or the copy in reset form. -/
theorem replayOne_sends (o : RedriveOptions σ) (dlq : Str) :
    Logs (fun x => Replays m envelope x.2) (replayOne T.logged.transport dlq o.aside m envelope) := by
  have hrestore : ∀ {β : Type} (k : Unit → Act (σ × Sent) β), (∀ u, Logs (fun x => Replays m envelope x.2) (k u)) →
      Logs (fun x => Replays m envelope x.2) (restore T.logged.transport.toTransport dlq m >>= k) :=
    fun _ hk => (restore_sends T dlq).bind hk
  unfold replayOne
  cases envelope with
  | none => exact hrestore _ fun _ => Logs.pure _
  | some decoded =>
    refine Logs.ite (fun _ => hrestore _ fun _ => Logs.pure _) fun _ => ?_
    refine (Logs.lift _).bind fun item => (selected_sends o decoded).bind fun chosen => ?_
    refine Logs.ite (fun _ => hrestore _ fun _ => Logs.pure _) fun _ => ?_
    refine Logs.ite (fun _ => hrestore _ fun _ => Logs.pure _) fun _ => ?_
    refine (Logs.tryExcept ?_ fun e => hrestore _ fun _ => Logs.raise e).bind fun _ => (Logs.aside _).bind fun _ => Logs.pure _
    exact Logs.lift_bind fun body hb => publishRedriven_sends T hb _ _

end Replay

/-! ## Copies -/

/-- A copy is written from a body, under the route of the delivery. -/
theorem Pulsar.Copy.written {message copy : Message} (h : Copy message copy) :
    ∃ queue d m mismatch body, d.message = message ∧ received queue d = .ok (m, mismatch) ∧ Writes m.routeUrn.text body copy := by
  cases h with
  | dispatched T app hd hm h =>
    obtain ⟨-, body, -, -, hbody⟩ := mem_dispatch_sent h
    exact ⟨_, _, _, _, body, hd, hm, .inl hbody⟩
  | replayed T o hd hm he h =>
    rcases (replayOne_sends T o _).of_run _ _ h with hbody | ⟨decoded, body, -, -, hbody⟩
    · exact ⟨_, _, _, _, _, hd, hm, .inl hbody⟩
    · exact ⟨_, _, _, _, body, hd, hm, hbody⟩

end Interpreter

end BabelQueue
