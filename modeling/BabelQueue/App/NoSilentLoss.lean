import BabelQueue.App.Trace

/-!
# No silent loss

`dispatch` acknowledges a delivery at most once, and only when the handler returned, when a
successor of it was published, or under a drop rule: for every transport, however its calls end.
-/

namespace BabelQueue

open Py Py.Json

variable {σ η : Type}

def Event.isAck : Event → Bool
  | .ack _ => true
  | _ => false

/-- No acknowledgement was attempted. -/
def Unacked (tr : Trace) : Prop := ∀ e ∈ tr, e.isAck = false

theorem Unacked.append {tr : Trace} (h : Unacked tr) {e : Event} (he : e.isAck = false) : Unacked (tr ++ [e]) := by
  intro x hx
  rcases List.mem_append.mp hx with hx | hx
  · exact h x hx
  · rw [List.mem_singleton.mp hx]; exact he

/-- One acknowledgement at most, and each one after a trace with `P`. -/
def AcksAfter (P : Trace → Prop) (tr : Trace) : Prop :=
  tr.countP Event.isAck ≤ 1 ∧ ∀ before r after, tr = before ++ .ack r :: after → P before

theorem Unacked.acksAfter {P : Trace → Prop} {tr : Trace} (h : Unacked tr) : AcksAfter P tr := by
  refine ⟨?_, ?_⟩
  · rw [List.countP_eq_zero.mpr (by simpa [Unacked] using h)]
    omega
  · rintro before r after rfl
    have := h (.ack r) (by simp)
    cases this

theorem Unacked.acksAfter_append {P : Trace → Prop} {tr : Trace} (h : Unacked tr) (hp : P tr) {r : Except PyExc Unit} :
    AcksAfter P (tr ++ [.ack r]) := by
  refine ⟨?_, ?_⟩
  · rw [List.countP_append, List.countP_eq_zero.mpr (by simpa [Unacked] using h)]
    simp [Event.isAck]
  · intro before r' after e
    rcases List.eq_nil_or_concat after with rfl | ⟨after, x, rfl⟩
    · rw [(List.append_inj' e rfl).1] at hp
      exact hp
    · rw [List.concat_eq_append, ← List.cons_append, ← List.append_assoc] at e
      have := h (.ack r') (by rw [(List.append_inj' e rfl).1]; simp)
      cases this

variable [Interpreter]

/-- Why a delivery may be acknowledged after the trace `tr`. -/
def Justified (app : App σ η) (m : ReceivedMessage η) (tr : Trace) : Prop :=
  .handler (.ok ()) ∈ tr ∨ (∃ queue body, Successor app m queue body ∧ .publish queue body (.ok ()) ∈ tr) ∨
    DropRule app m

/-! ## The traced app has the same successors and drop rules -/

theorem retryEnvelope_of_traced {app : App σ η} {m : ReceivedMessage η} {envelope : Dict Json}
    (h : RetryEnvelope app.traced m envelope) : RetryEnvelope app m envelope := by
  cases h with
  | decoded hg hc h => exact .decoded hg hc h
  | poisonRoute h => exact .poisonRoute h
  | poisonBody hc h => exact .poisonBody hc h

theorem successor_of_traced {app : App σ η} {m : ReceivedMessage η} {queue body : Str}
    (h : Successor app.traced m queue body) : Successor app m queue body := by
  cases h with
  | copy h hb =>
    cases h with
    | verbatim => exact .copy .verbatim hb
    | retry h ha hb' => exact .copy (.retry (retryEnvelope_of_traced h) ha hb') hb
  | deadLetter ht h =>
    refine .deadLetter ht ?_
    cases h with
    | raw => exact .raw
    | poison h => exact .poison h
    | annotated h hb =>
      refine .annotated ?_ hb
      rcases h with h | ⟨e, n, h, rfl⟩
      · exact .inl (retryEnvelope_of_traced h)
      · exact .inr ⟨e, n, retryEnvelope_of_traced h, rfl⟩

theorem dropRule_of_traced {app : App σ η} {m : ReceivedMessage η} (h : DropRule app.traced m) : DropRule app m := by
  cases h with
  | delete r hr hu hh =>
    rw [classify_traced] at hr
    cases hc : app.classify m with
    | error e => rw [hc] at hr; cases hr
    | ok r' =>
      rw [hc] at hr
      cases hr
      exact .delete r' hc hu (by simpa [App.Routing.traced] using hh)
  | exhausted h ha hn hd => exact .exhausted (retryEnvelope_of_traced h) ha hn hd
  | gated hg hd hs hs' =>
    exact .gated hg hd (by simpa [App.traced, Transport.traced] using hs)
      (by simpa [App.traced, Transport.traced] using hs')
  | tierless hp hd ht =>
    refine .tierless hp hd ?_
    unfold App.retryTiersUnavailable at ht ⊢
    simpa only [App.traced, Transport.traced, Option.isSome_map] using ht

/-! ## Custody on traces -/

/-- Acknowledgements come after a trace with `J`, when the drop rules, a handler that returned and a
published successor give `J`. -/
theorem custody_traced {app : App σ η} {m : ReceivedMessage η} {J : Trace → Prop}
    (hdrop : DropRule app m → ∀ tr, J tr)
    (hhandler : ∀ r handler, app.classify m = .ok r → r.handler = some handler → ∀ tr, J (tr ++ [.handler (.ok ())]))
    (hpublish : ∀ queue body, Successor app m queue body → ∀ tr, J (tr ++ [.publish queue body (.ok ())])) :
    Custody app.traced m (fun s => Unacked s.2) (fun s => Unacked s.2 ∧ J s.2) (fun s => AcksAfter J s.2) := by
  have keep : ∀ {α : Type} {event : Except PyExc Unit → Event} (c : Act σ α), (∀ r, (event r).isAck = false) →
      Triple (fun s : σ × Trace => Unacked s.2) (record event c)
        (fun _ s => Unacked s.2) (fun _ s => Unacked s.2) :=
    fun c he => record_spec (fun tr h => h.append (he _)) fun tr e h => h.append (he _)
  have leave : ∀ {α : Type} {event : Except PyExc Unit → Event} (c : Act σ α), (∀ r, (event r).isAck = false) →
      Triple (fun s : σ × Trace => Unacked s.2) (record event c)
        (fun _ s => AcksAfter J s.2) (fun _ s => AcksAfter J s.2) :=
    fun c he => (keep c he).conseq (fun _ => id) (fun _ _ => Unacked.acksAfter) fun _ _ => Unacked.acksAfter
  have settle : ∀ {α : Type} {event : Except PyExc Unit → Event} (c : Act σ α), (∀ r, (event r).isAck = false) →
      Triple (fun s : σ × Trace => Unacked s.2) (record event c)
        (fun _ s => AcksAfter J s.2) (fun _ s => Unacked s.2) :=
    fun c he => (keep c he).post fun _ _ => Unacked.acksAfter
  constructor
  case held_done => exact fun _ => Unacked.acksAfter
  case setPhase_held => exact fun _ _ h => h
  case setPhase_covered => exact fun _ _ h => h
  case endPhase => exact fun _ h => h
  case drop => exact fun h s hs => ⟨hs, hdrop (dropRule_of_traced h) s.2⟩
  case handler =>
    intro r handler hr hh data metaBlock envelope
    rw [classify_traced] at hr
    cases hc : app.classify m with
    | error e => rw [hc] at hr; cases hr
    | ok r' =>
    rw [hc] at hr
    cases hr
    obtain ⟨handler, he, rfl⟩ := Option.map_eq_some_iff.mp hh
    exact record_spec (p := Unacked) (q := fun tr => Unacked tr ∧ J tr) (x := Unacked)
      (fun tr h => ⟨h.append rfl, hhandler r' handler hc he tr⟩) fun tr e h => h.append rfl
  case publish =>
    intro queue body h
    rw [publishFor_traced]
    exact record_spec (q := fun tr => Unacked tr ∧ J tr)
      (fun tr hu => ⟨hu.append rfl, hpublish queue body (successor_of_traced h) tr⟩) fun tr e hu => hu.append rfl
  case ack =>
    exact record_spec (p := fun tr => Unacked tr ∧ J tr) (fun tr h => h.1.acksAfter_append h.2)
      fun tr e h => h.1.acksAfter_append h.2
  case redeliver =>
    intro redeliver hr body delay _
    simp only [App.traced, Transport.traced, Option.map_eq_some_iff] at hr
    obtain ⟨redeliver, -, rfl⟩ := hr
    exact settle _ fun _ => rfl
  case write =>
    intro write hw queue body _
    simp only [App.traced, Transport.traced, Option.map_eq_some_iff] at hw
    obtain ⟨write, -, rfl⟩ := hw
    exact settle _ fun _ => rfl
  case rewind =>
    intro rewind hr
    simp only [App.traced, Transport.traced, Option.map_eq_some_iff] at hr
    obtain ⟨rewind, -, rfl⟩ := hr
    exact leave _ fun _ => rfl
  case abandon =>
    intro abandon ha
    simp only [App.traced, Transport.traced, Option.map_eq_some_iff] at ha
    obtain ⟨abandon, -, rfl⟩ := ha
    exact leave _ fun _ => rfl
  case native =>
    intro native hn reason description
    simp only [App.traced, Transport.traced, Option.map_eq_some_iff] at hn
    obtain ⟨native, -, rfl⟩ := hn
    exact leave _ fun _ => rfl
  case nativeDeadLetter =>
    intro native hn reason description
    simp only [App.traced, Transport.traced, Option.map_eq_some_iff] at hn
    obtain ⟨native, -, rfl⟩ := hn
    exact leave _ fun _ => rfl
  case observer =>
    intro observer ho event
    simp only [App.traced, Option.map_eq_some_iff] at ho
    obtain ⟨observer, -, rfl⟩ := ho
    exact silent_spec

end BabelQueue
