import BabelQueue.Redrive.Conserve

/-!
# Redrive undoes dead-lettering

What `dispatch` writes to the dead-letter queue, a redrive puts back on the queue of the envelope:
the same envelope, with no attempts and without the `dead_letter` block.
-/

namespace BabelQueue

open Py Py.Json

variable {ω : Type}

/-- The queue an envelope names, or the one it was consumed from. -/
def sourceOf {η : Type} (m : ReceivedMessage η) (envelope : Dict Json) : Str :=
  match (mappingAt envelope (str "meta")).getJ (str "queue") with
  | .str (c :: queue) => c :: queue
  | _ => m.queue

/-- Nothing but the transport changes `queue`. -/
structure App.Spares (app : App (InMemory × ω) Unit) (queue : Str) : Prop where
  handler : ∀ urn handler, app.handlers.get? urn = some handler → ∀ data metaBlock envelope s,
    (handler data metaBlock envelope s).2.1.on queue = s.1.on queue
  observer : ∀ observer ∈ app.deadLetterObserver, ∀ event s, (observer event s).2.1.on queue = s.1.on queue
  setPhase : ∀ phase s, (app.setPhase phase s).1.on queue = s.1.on queue
  endPhase : ∀ s, (app.endPhase s).1.on queue = s.1.on queue

section Interpreter

variable [Interpreter]

/-- `dispatch` of `m` from `s` dead-letters it: the handler fails on the last attempt, or there is none. -/
inductive App.DeadLettersEnvelope (app : App (InMemory × ω) Unit) (m : ReceivedMessage Unit) (s : InMemory × ω) : Prop
  | failed {r : App.Routing (InMemory × ω)} {handler : Handler (InMemory × ω)} {e : PyExc} {n : Int}
      (hr : app.classify m = .ok r) (hh : r.handler = some handler)
      (he : (app.invoke handler r.envelope (app.setPhase .handling s)).1 = .error e) (hx : e.isException = true)
      (hn : envelopeAttempts r.envelope = .ok n) (hmax : app.maxAttempts ≤ n + 1) (hd : app.deadLetterEnabled = true)
  | exhausted {r : App.Routing (InMemory × ω)} {n : Int} (hr : app.classify m = .ok r) (hh : r.handler = none)
      (hu : app.onUnknownUrn = .fail) (hn : envelopeAttempts r.envelope = .ok n) (hmax : app.maxAttempts ≤ n + 1)
      (hd : app.deadLetterEnabled = true)
  | strategy {r : App.Routing (InMemory × ω)} (hr : app.classify m = .ok r) (hh : r.handler = none)
      (hu : app.onUnknownUrn = .deadLetter)

/-! ## The record -/

/-- An envelope of a body that is not poison, once it is folded. -/
structure Sound (envelope : Dict Json) : Prop extends Routable envelope where
  job : isValidUrn (envelope.getJ (str "job")) = true
  queue : HasKind .string ((mappingAt envelope (str "meta")).getJ (str "queue"))

theorem poisonCause_none_meta {raw : Str} {requireIdentity : Bool} (h : poisonCause raw requireIdentity = .ok none)
    {d : Dict Json} (hl : loads raw = .ok (.obj d)) {block : Dict Json} (hb : d.getJ (str "meta") = .obj block) :
    Typed metaKinds block := by
  unfold poisonCause at h
  split at h
  · cases h
  split at h
  · cases h
  · cases h
  · next d' hr => exact typed_meta_of_violation_none (poisonRead_inr hr).1 hl hb
  · cases h

omit [Interpreter] in
/-- Folding keeps the queue of the `meta` block. -/
theorem queue_foldIdentity (d : Dict Json) :
    (mappingAt (foldIdentity d) (str "meta")).getJ (str "queue") = (mappingAt d (str "meta")).getJ (str "queue") := by
  have hkeep : ∀ {e e' : Dict Json}, e'.getJ (str "meta") = e.getJ (str "meta") →
      (mappingAt e' (str "meta")).getJ (str "queue") = (mappingAt e (str "meta")).getJ (str "queue") := by
    intro e e' h
    unfold mappingAt
    rw [h]
  refine foldIdentity_induction
    (P := fun e => (mappingAt e (str "meta")).getJ (str "queue") = (mappingAt d (str "meta")).getJ (str "queue")) rfl ?_ ?_ ?_
  · intro e k hk _ he
    rw [← he]
    have hmeta : ∀ key, key ≠ str "queue" →
        (mappingAt (dropKey e (some (str "meta"), key)) (str "meta")).getJ (str "queue") =
          (mappingAt e (str "meta")).getJ (str "queue") := by
      intro key hkey
      simp only [dropKey]
      split
      · next target ht =>
        simp only [mappingAt, Dict.getJ, Dict.get?_set_self, ht, Option.getD_some, asObj?]
        rw [Dict.get?_erase_of_ne _ hkey.symm]
      · rfl
    simp only [forbiddenKeys, List.mem_cons, List.not_mem_nil, or_false] at hk
    rcases hk with rfl | rfl | rfl | rfl | rfl
    · refine hkeep ?_
      simp only [dropKey, Dict.getJ]
      rw [Dict.get?_erase_of_ne _ (by simp)]
    all_goals exact hmeta _ (by simp)
  · intro e he
    rw [← he]
    refine hkeep ?_
    rw [Dict.getJ, Dict.get?_erase_of_ne _ (by simp)]
    rfl
  · intro e v _ he
    rw [← he]
    refine hkeep ?_
    rw [Dict.getJ, Dict.get?_set_of_ne _ _ (by simp), Dict.get?_erase_of_ne _ (by simp)]
    rfl

/-- The envelope of a body that is not poison. -/
theorem sound_of_poisonCause {raw : Str} (h : poisonCause raw true = .ok none) :
    ∃ envelope, decodeLenient raw = .ok envelope ∧ Sound envelope ∧ HasKind .integer (envelope.getJ (str "attempts")) := by
  obtain ⟨d, hl, ht, hid⟩ := poisonCause_none h
  refine ⟨foldIdentity d, decodeLenient_obj hl,
    { toRoutable := routable_foldIdentity hl ht, job := isValidUrn_foldIdentity (hid rfl), queue := ?_ },
    hasKind_foldIdentity ht (by simp [topKinds, Dict.get?]) (by simp [Plain]) (by simp)⟩
  rw [queue_foldIdentity]
  unfold mappingAt
  cases hm : d.getJ (str "meta") with
  | obj block => exact poisonCause_none_meta h hl hm _ _ (by simp [metaKinds, Dict.get?])
  | _ => exact .inl rfl

variable {m : ReceivedMessage Unit}

/-- The original queue of a dead letter. -/
theorem Sound.originalQueue {envelope : Dict Json} (h : Sound envelope) :
    ∃ metaBlock, ((envelope.getJ (str "meta")).orElse (.obj [])).getter = .ok metaBlock ∧
      ((metaBlock.getJ (str "queue")).orElse (.str m.queue)).toStr = .ok (sourceOf m envelope) := by
  have hq := h.queue
  obtain ⟨metaBlock, hm, hmeta⟩ := orElse_object h.metaBlock
  have hsame : metaBlock.getJ (str "queue") = (mappingAt envelope (str "meta")).getJ (str "queue") := by
    unfold mappingAt
    rcases hmeta with e | rfl
    · rw [e]; rfl
    · rcases h.metaBlock with e | ⟨d, e⟩
      · rw [e]; rfl
      · rw [e] at hm ⊢
        cases d with
        | nil => rfl
        | cons p d => cases hm
  refine ⟨metaBlock, hm ▸ rfl, ?_⟩
  rw [hsame]
  unfold sourceOf
  rcases hq with e | ⟨_ | ⟨c, s⟩, e⟩ <;> rw [e] <;> rfl

omit [Interpreter] in
theorem getJ_set_of_ne (d : Dict Json) {key key' : Str} (v : Json) (h : key' ≠ key) :
    (d.set key v).getJ key' = d.getJ key' := by
  rw [Dict.getJ, Dict.get?_set_of_ne _ _ h]
  rfl

theorem Sound.setAttempts {envelope : Dict Json} (h : Sound envelope) {n : Int} (hn : n.natAbs < 10 ^ maxStrDigits) :
    Sound (envelope.set (str "attempts") (.int n)) := by
  refine { toRoutable := h.toRoutable.setAttempts hn, job := ?_, queue := ?_ }
  · rw [getJ_set_of_ne _ _ (by simp)]; exact h.job
  · rw [mappingAt, getJ_set_of_ne _ _ (by simp)]; exact h.queue

omit [Interpreter] in
theorem sourceOf_setAttempts (m : ReceivedMessage Unit) (envelope : Dict Json) (v : Json) :
    sourceOf m (envelope.set (str "attempts") v) = sourceOf m envelope := by
  unfold sourceOf mappingAt
  rw [getJ_set_of_ne _ _ (by simp)]

/-- The record of an envelope: its body with a block that names the queue of the envelope. -/
def RecordOf (m : ReceivedMessage Unit) (envelope : Dict Json) (record : Str) : Prop :=
  ∃ block : Dict Json, block.getJ (str "original_queue") = .str (sourceOf m envelope) ∧
    Json.Proper (.obj (envelope.set (str "dead_letter") (.obj block))) ∧
    encode (envelope.set (str "dead_letter") (.obj block)) = .ok record

/-! ## The dead-letter write -/

variable {app : App (InMemory × ω) Unit} {target : Str}

/-- `queue` holds one record of the envelope. -/
def HoldsRecord (m : ReceivedMessage Unit) (envelope : Dict Json) (queue : Str) (s : InMemory × ω) : Prop :=
  ∃ record, s.1.on queue = [(record, [])] ∧ RecordOf m envelope record

omit [Interpreter] in
theorem notifyDeadLetter_spares (h : app.Spares target) (event : DeadLetterEvent) (ms : List (Str × Dict Str)) :
    Triple (fun s => s.1.on target = ms) (app.notifyDeadLetter event) (fun _ s => s.1.on target = ms)
      fun e s => e.isException = false ∧ s.1.on target = ms := by
  unfold App.notifyDeadLetter
  split
  · exact Triple.pure () fun _ hs => hs
  · next observer ho =>
    refine Triple.tryExcept (E := fun _ s => s.1.on target = ms) (fun s hs => ?_) (fun e _ => Triple.pure () fun _ hs => hs)
      fun e s he hs => ⟨by rwa [isAny_exception] at he, hs⟩
    have := h.observer observer ho event s
    revert this
    rcases observer event s with ⟨_ | _, _⟩ <;> exact fun e => e.trans hs

omit [Interpreter] in
theorem writeDeadLetter_holds (hT : app.transport = (InMemory.beside InMemory.steady).toTransport) (h : app.Spares target)
    (body : Str) (sourceQueue : Option Str) (reason : Str) :
    Triple (fun s => s.1.on target = []) (app.writeDeadLetter m target body sourceQueue reason)
      (fun _ s => s.1.on target = [(body, [])]) fun e s => e.isException = false ∧ s.1.on target = [(body, [])] := by
  unfold App.writeDeadLetter
  rw [hT]
  refine Triple.bind (Q := fun _ s => s.1.on target = [(body, [])]) ?_ fun _ =>
    Triple.bind (Q := fun _ s => s.1.on target = [(body, [])]) ?_ fun _ => notifyDeadLetter_spares h _ _
  · intro s hs
    have hrun : app.publishFor m target body s = (.ok (), InMemory.push target body [] s.1, s.2) := by
      unfold App.publishFor publishKeepingRoute
      rw [hT]
      rfl
    rw [hrun]
    simp [hs]
  · intro s hs
    have hrun : app.ackSettled m s = (.ok (), s) := by
      unfold App.ackSettled
      rw [hT]
      rfl
    rw [hrun]
    exact hs

/-- `queue` holds one record, of the envelope or of what the retry path counts it with. -/
def DeadLettered (m : ReceivedMessage Unit) (envelope : Dict Json) (queue : Str) (s : InMemory × ω) : Prop :=
  ∃ counted record, Sound counted ∧ resetEnvelope counted = resetEnvelope envelope ∧
    sourceOf m counted = sourceOf m envelope ∧ s.1.on queue = [(record, [])] ∧ RecordOf m counted record

theorem deadLetter_holds (hT : app.transport = (InMemory.beside InMemory.steady).toTransport) (h : app.Spares target)
    (ht : app.deadLetterTarget m = .ok target) {envelope counted : Dict Json} (hs : Sound counted)
    (hr : resetEnvelope counted = resetEnvelope envelope) (hsrc : sourceOf m counted = sourceOf m envelope)
    {n : Int} (hn : envelopeAttempts counted = .ok n) (hw : n.natAbs < 10 ^ maxStrDigits) (reason : Str)
    (exc : Option PyExc) :
    Triple (fun s => s.1.on target = []) (app.deadLetter m counted reason exc) (fun _ => DeadLettered m envelope target)
      fun e s => e.isException = false ∧ DeadLettered m envelope target s := by
  obtain ⟨metaBlock, hmeta, hq⟩ := hs.originalQueue (m := m)
  unfold App.deadLetter
  refine triple_lift_ok hmeta (triple_lift_ok hq (triple_lift_ok hn (triple_get fun s => triple_lift_ok ht ?_)))
  obtain ⟨body, hb⟩ : ∃ body, encode (annotate counted reason (sourceOf m counted) n (exc.map PyExc.msg)
      (exc.map fun e => e.cls.name) (app.now s)) = .ok body := by
    refine encode_isOk (hs.clean.set (by simp [Plain]) _) (hs.storable.set _ ?_ (DeadLetterBlock.toDict_proper _))
    exact DeadLetterBlock.writable_toDict.mpr ⟨app.now_lt s, hw⟩
  have hrec : RecordOf m counted body :=
    ⟨_, by simp [DeadLetterBlock.toDict, Dict.getJ, Dict.get?], hs.storable.proper.set _ (DeadLetterBlock.toDict_proper _), hb⟩
  exact triple_lift_ok hb ((writeDeadLetter_holds hT h _ _ _).conseq (fun _ => id)
    (fun _ s hon => ⟨counted, body, hs, hr, hsrc, hon, hrec⟩) fun _ s hon => ⟨hon.1, counted, body, hs, hr, hsrc, hon.2, hrec⟩)

/-! ## The dispatch -/

omit [Interpreter] in
theorem resetEnvelope_setAttempts (envelope : Dict Json) (v : Json) :
    resetEnvelope (envelope.set (str "attempts") v) = resetEnvelope envelope := by
  unfold resetEnvelope
  rw [Dict.erase_set_of_ne _ _ (by simp), Dict.set_set]

omit [Interpreter] in
theorem resetEnvelope_setDeadLetter (envelope : Dict Json) (v : Json) :
    resetEnvelope (envelope.set (str "dead_letter") v) = resetEnvelope envelope := by
  unfold resetEnvelope
  rw [Dict.erase_set_self]

theorem retryOrDeadLetter_holds (hT : app.transport = (InMemory.beside InMemory.steady).toTransport) (h : app.Spares target)
    (ht : app.deadLetterTarget m = .ok target) {envelope : Dict Json} (hs : Sound envelope) {n : Int}
    (hn : envelopeAttempts envelope = .ok n) (hw : n.natAbs + 1 < 10 ^ maxStrDigits) (hmax : app.maxAttempts ≤ n + 1)
    (hd : app.deadLetterEnabled = true) (exc : PyExc) :
    Triple (fun s => s.1.on target = []) (app.retryOrDeadLetter m envelope exc) (fun _ => DeadLettered m envelope target)
      fun _ => DeadLettered m envelope target := by
  unfold App.retryOrDeadLetter
  refine triple_lift_ok hn ?_
  dsimp only
  rw [if_neg (by omega), if_pos hd]
  have hw' : (n + 1).natAbs < 10 ^ maxStrDigits := by omega
  refine (deadLetter_holds hT h ht (hs.setAttempts hw') (resetEnvelope_setAttempts _ _) (sourceOf_setAttempts _ _ _)
    (n := n + 1) ?_ hw' _ _).conseq (fun _ => id) (fun _ _ => id) fun _ _ => And.right
  unfold envelopeAttempts
  rw [Dict.get?_set_self]
  rfl

omit [Interpreter] in
theorem invoke_spares (h : app.Spares target) {urn : Str} {handler : Handler (InMemory × ω)}
    (hh : app.handlers.get? urn = some handler) (envelope : Dict Json) :
    Triple (fun s => s.1.on target = []) (app.invoke handler envelope) (fun _ s => s.1.on target = [])
      fun _ s => s.1.on target = [] := by
  unfold App.invoke
  refine Triple.bind (Triple.lift (Q := fun _ s => s.1.on target = []) _ (fun _ _ _ => id) fun _ _ _ => id) fun data =>
    Triple.bind (Triple.lift (Q := fun _ s => s.1.on target = []) _ (fun _ _ _ => id) fun _ _ _ => id) fun metaBlock =>
      Triple.bind (Q := fun _ s => s.1.on target = []) (fun s hs => ?_) fun _ => Triple.modify _ fun s hs => ?_
  · have := h.handler urn handler hh data metaBlock envelope s
    revert this
    rcases handler data metaBlock envelope s with ⟨_ | _, _⟩ <;> exact fun e => e.trans hs
  · rw [h.setPhase]
    exact hs

/-- The retries of the envelope are exhausted, and it is to be dead-lettered. -/
def App.Exhausted (app : App (InMemory × ω) Unit) (envelope : Dict Json) : Prop :=
  app.deadLetterEnabled = true ∧ ∃ n, envelopeAttempts envelope = .ok n ∧ app.maxAttempts ≤ n + 1

/-- The `try` of a dispatch whose handler fails. -/
theorem attempt_failed (h : app.Spares target) {envelope : Dict Json} {urn : Str} {handler : Handler (InMemory × ω)}
    (hh : app.handlers.get? urn = some handler) {s : InMemory × ω} (hempty : s.1.on target = []) {e : PyExc}
    (he : (app.invoke handler envelope (app.setPhase .handling s)).1 = .error e) :
    Triple (· = s) (app.attempt m ⟨none, envelope, urn, app.handlers.get? urn⟩) (fun _ _ => False)
      fun e' s' => e' = e ∧ s'.1.on target = [] := by
  rw [hh]
  refine Triple.bind (Triple.modify (Q := fun _ s' => s' = app.setPhase .handling s) _ ?_) fun _ =>
    Triple.bind (Q := fun _ _ => False) ?_ fun _ _ hs => hs.elim
  · rintro _ rfl
    rfl
  · rintro _ rfl
    have hon := invoke_spares h hh envelope (app.setPhase .handling s) ((h.setPhase _ s).trans hempty)
    revert he hon
    rcases app.invoke handler envelope (app.setPhase .handling s) with ⟨_ | _, _⟩
    · rintro ⟨⟩ hon
      exact ⟨rfl, hon⟩
    · rintro ⟨⟩

/-- What the `try` does without a handler. -/
theorem attempt_without_handler (h : app.Spares target) (hroute : m.routeUrn = .plain []) {envelope : Dict Json} {urn : Str}
    (hh : app.handlers.get? urn = none) (hu : app.onUnknownUrn = .fail ∨ app.onUnknownUrn = .deadLetter)
    {P : InMemory × ω → Prop} {E : PyExc → InMemory × ω → Prop}
    (hc : Triple (fun s => s.1.on target = [])
      (if app.onUnknownUrn = .deadLetter then app.deadLetter m envelope (str "unknown_urn") none
      else Act.raise ⟨unknownUrnError, str "No handler mapped for URN [" ++ (if urn = [] then str "(empty)" else urn) ++
        str "]."⟩) (fun _ => P) E) :
    Triple (fun s => s.1.on target = []) (app.attempt m ⟨none, envelope, urn, app.handlers.get? urn⟩)
      (fun again s => again = false ∧ P s) E := by
  have hplain : ([] : Str) ≠ nonNumericAttemptsRoute := by simp [nonNumericAttemptsRoute, Py.str]
  have hdelete : app.onUnknownUrn ≠ .delete := by rcases hu with hu | hu <;> rw [hu] <;> decide
  have hrelease : app.onUnknownUrn ≠ .release := by rcases hu with hu | hu <;> rw [hu] <;> decide
  have hunknown : app.routeUnknown m urn envelope = if app.onUnknownUrn = .deadLetter then
        app.deadLetter m envelope (str "unknown_urn") none
      else Act.raise ⟨unknownUrnError, str "No handler mapped for URN [" ++ (if urn = [] then str "(empty)" else urn) ++
        str "]."⟩ := by
    unfold App.routeUnknown App.applyStrategy
    rw [hroute]
    dsimp only
    rw [if_neg hplain, if_neg hdelete, gated_eq_false hroute, if_neg (by simp), if_neg (by simp [hrelease])]
  rw [hh]
  refine Triple.bind (Triple.modify (Q := fun _ s => s.1.on target = []) _ fun s hs => (h.setPhase _ s).trans hs) fun _ =>
    Triple.bind (hunknown ▸ hc) fun _ => Triple.pure false fun _ hs => ⟨rfl, hs⟩

/-- The `try` of such a dispatch: the envelope is dead-lettered, or an exception leads to that. -/
theorem attempt_holds (hT : app.transport = (InMemory.beside InMemory.steady).toTransport) (h : app.Spares target)
    (ht : app.deadLetterTarget m = .ok target) (hroute : m.routeUrn = .plain []) {envelope : Dict Json}
    (hs : Sound envelope) {urn : Str} (hcl : app.classify m = .ok ⟨none, envelope, urn, app.handlers.get? urn⟩)
    {s : InMemory × ω} (hempty : s.1.on target = []) (hd : app.DeadLettersEnvelope m s) {n : Int}
    (hcount : envelopeAttempts envelope = .ok n) (hw : n.natAbs < 10 ^ maxStrDigits) :
    Triple (· = s) (app.attempt m ⟨none, envelope, urn, app.handlers.get? urn⟩)
      (fun again s' => again = false ∧ DeadLettered m envelope target s')
      fun e s' => e.isException = false ∧ DeadLettered m envelope target s' ∨
        e.isException = true ∧ (app.deadLetterEnabled = true ∧ app.maxAttempts ≤ n + 1) ∧ s'.1.on target = [] := by
  have hpre : ∀ s', s' = s → s'.1.on target = [] := fun s' e => e ▸ hempty
  cases hd with
  | @failed r handler e n' hr hh he hx hn hmax hon =>
    rw [hcl] at hr
    cases hr
    obtain rfl : n = n' := Except.ok.inj (hcount.symm.trans hn)
    exact (attempt_failed h hh hempty he).conseq (fun _ => id) (fun _ _ => False.elim)
      fun e' s' hs => .inr ⟨hs.1 ▸ hx, ⟨hon, hmax⟩, hs.2⟩
  | @exhausted r n' hr hh hu hn hmax hon =>
    rw [hcl] at hr
    cases hr
    obtain rfl : n = n' := Except.ok.inj (hcount.symm.trans hn)
    refine (attempt_without_handler h hroute hh (.inl hu) ?_).pre hpre
    rw [if_neg (by rw [hu]; decide)]
    exact Triple.raise _ fun s hs => .inr ⟨by simp [PyExc.isA, unknownUrnError, babelQueueError, ExcClass.ancestors],
      ⟨hon, hmax⟩, hs⟩
  | strategy hr hh hu =>
    rw [hcl] at hr
    cases hr
    refine (attempt_without_handler h hroute hh (.inr hu) ?_).pre hpre
    rw [if_pos hu]
    exact (deadLetter_holds hT h ht hs rfl rfl hcount hw _ _).conseq (fun _ => id) (fun _ _ => id) fun _ _ => .inl

theorem envelopeAttempts_isOk {envelope : Dict Json} (h : HasKind .integer (envelope.getJ (str "attempts")))
    (hnull : envelope.get? (str "attempts") ≠ some .null) : ∃ n, envelopeAttempts envelope = .ok n := by
  unfold envelopeAttempts
  rw [Dict.getJ] at h
  cases ha : envelope.get? (str "attempts") with
  | none => exact ⟨0, rfl⟩
  | some v =>
    rw [ha] at h hnull
    rcases h with rfl | ⟨i, rfl, -, -⟩
    · exact absurd rfl hnull
    · exact ⟨i, rfl⟩

/-- A dispatch that dead-letters an envelope leaves one record of it. -/
theorem dispatch_holds (hT : app.transport = (InMemory.beside InMemory.steady).toTransport) (h : app.Spares target)
    (ht : app.deadLetterTarget m = .ok target) (hroute : m.routeUrn = .plain []) (hp : poisonCause m.body true = .ok none)
    {envelope : Dict Json} (henv : decodeLenient m.body = .ok envelope) (hnull : envelope.get? (str "attempts") ≠ some .null)
    {s : InMemory × ω} (hempty : s.1.on target = []) (hd : app.DeadLettersEnvelope m s) :
    DeadLettered m envelope target (app.dispatch m s).2 := by
  obtain ⟨envelope', henv', hs, hc⟩ := sound_of_poisonCause hp
  obtain rfl : envelope = envelope' := Except.ok.inj (henv.symm.trans henv')
  have hcause : app.causeOf m = .ok none := (causeOf_eq (by rw [hT]; rfl) hroute).trans hp
  obtain ⟨d, urn, hl, -, -, hcl⟩ := classify_sound hroute hcause hp
  rw [decodeLenient_obj hl] at henv
  cases henv
  obtain ⟨n, hn⟩ := envelopeAttempts_isOk hc hnull
  have hw := envelopeAttempts_lt hc hn
  have hend : ∀ s' : InMemory × ω, DeadLettered m (foldIdentity d) target s' →
      DeadLettered m (foldIdentity d) target (app.endPhase s') := by
    rintro s' ⟨counted, record, h1, h2, h3, h4, h5⟩
    exact ⟨counted, record, h1, h2, h3, (h.endPhase s').trans h4, h5⟩
  have hrun : Triple (· = s) (app.dispatch m) (fun _ => DeadLettered m (foldIdentity d) target)
      fun _ => DeadLettered m (foldIdentity d) target := by
    unfold App.dispatch
    refine triple_lift_ok hcl (Triple.tryFinally ?_)
    refine Triple.bind (Q := fun again s' => again = false ∧ DeadLettered m (foldIdentity d) target s')
      (Triple.tryExcept (attempt_holds hT h ht hroute hs hcl hempty hd hn (by omega)) (fun e he => ?_) fun e s' he hs' => ?_)
      fun again => ?_
    · rw [isAny_exception] at he
      refine Triple.bind (Triple.modify (Q := fun _ s' => (app.deadLetterEnabled = true ∧ app.maxAttempts ≤ n + 1) ∧
        s'.1.on target = []) _ fun s' hs' => ?_) fun _ => ?_
      · rcases hs' with ⟨hx, -⟩ | ⟨-, hleft, hon⟩
        · rw [hx] at he; cases he
        · exact ⟨hleft, (h.setPhase _ s').trans hon⟩
      · rw [gated_eq_false hroute]
        refine Triple.bind (Q := fun _ => DeadLettered m (foldIdentity d) target) ?_ fun _ =>
          Triple.pure false fun _ hs' => ⟨rfl, hs'⟩
        rintro s' ⟨⟨hon, hmax⟩, hs'⟩
        refine ((retryOrDeadLetter_holds hT h ht hs hn hw hmax hon e).conseq (fun _ => id) (fun _ _ => id) fun _ s' => ?_) s' hs'
        exact hend s'
    · rw [isAny_exception] at he
      rcases hs' with ⟨-, hs'⟩ | ⟨hx, -⟩
      · exact hend s' hs'
      · rw [hx] at he; cases he
    · rintro s' ⟨rfl, hs'⟩
      exact hend s' hs'
  have := hrun s rfl
  revert this
  rcases app.dispatch m s with ⟨_ | _, _⟩ <;> exact id

/-! ## The redrive -/

omit [Interpreter] in
/-- The drain of a queue with one message. -/
theorem drain_one {dlq : Str} {message : Str × Dict Str} {s : InMemory × ω} (hon : s.1.on dlq = [message]) (fuel : Nat) :
    drain (InMemory.beside (ω := ω) InMemory.steady).toTransport dlq 0 (fuel + 2) [] s =
      (.ok [drainedMessage dlq message], Dict.set s.1 dlq [], s.2) := by
  have h1 : InMemory.take dlq s = (.ok (some (drainedMessage dlq message)), Dict.set s.1 dlq [], s.2) := by
    simp [InMemory.take, hon]
  have h2 : InMemory.take dlq ((Dict.set s.1 dlq [], s.2) : InMemory × ω) = (.ok none, Dict.set s.1 dlq [], s.2) := by
    simp [InMemory.take]
  have hpop : (InMemory.beside (ω := ω) InMemory.steady).toTransport.pop = InMemory.take := rfl
  rw [drain, if_pos (.inl rfl), hpop, Act.bind_run_ok h1]
  dsimp only
  rw [drain, if_pos (.inl rfl), hpop, Act.bind_run_ok h2]
  rfl

/-- The redrive of a queue with one envelope. -/
theorem redrive_one {dlq record copy : Str} {headers : Dict Str} {envelope : Dict Json}
    (he : decodedBody record = .ok (some envelope)) (hc : encode (resetEnvelope envelope) = .ok copy)
    {s : InMemory × ω} (hon : s.1.on dlq = [(record, headers)]) {fuel : Nat} (hf : 1 < fuel) :
    ∃ result : RedriveResult, result.redriven = 1 ∧ redrive (InMemory.beside InMemory.steady) dlq .default fuel s =
      (.ok result, InMemory.push (sourceQueueOf envelope) copy [] (Dict.set s.1 dlq []), s.2) := by
  obtain ⟨fuel, rfl⟩ : ∃ k, fuel = k + 2 := ⟨fuel - 2, by omega⟩
  obtain ⟨item, hi⟩ := itemOf_isOk dlq (decodedBody_some he).2.2
  have hroute : (drainedMessage dlq (record, headers)).routeUrn.text ≠ nonNumericAttemptsRoute := by
    simp [popped, RouteUrn.text, nonNumericAttemptsRoute, Py.str]
  have hbatch : ([drainedMessage dlq (record, headers)].mapM fun m =>
      (batchEnvelope m).map fun envelope => (m, envelope)) = .ok [(drainedMessage dlq (record, headers), some envelope)] := by
    have hb : batchEnvelope (drainedMessage dlq (record, headers)) = .ok (some envelope) := he
    rw [List.mapM_cons, hb]
    rfl
  refine ⟨RedriveResult.add ⟨0, 0, []⟩ { item with
    target := redriveTarget none envelope, bypassed := false, redriven := true }, rfl, ?_⟩
  unfold redrive
  have hmax : (RedriveOptions.default : RedriveOptions (InMemory × ω)).max = 0 := rfl
  have hdrain : drained (InMemory.beside (ω := ω) InMemory.steady) dlq 0 (fuel + 2) s = _ := drain_one hon fuel
  rw [hmax, Act.bind_run_ok hdrain, hbatch, Act.bind_run_ok (Act.lift_run _ _), replay]
  have hturn : replayOne (InMemory.beside (ω := ω) InMemory.steady) dlq .default (drainedMessage dlq (record, headers))
      (some envelope) (Dict.set s.1 dlq [], s.2) = (.ok { item with
        target := redriveTarget none envelope, bypassed := false, redriven := true },
        InMemory.push (sourceQueueOf envelope) copy [] (Dict.set s.1 dlq []), s.2) := by
    unfold replayOne
    dsimp only
    rw [if_neg hroute, hi, hc]
    rfl
  rw [Act.bind_run_ok hturn]
  rfl

/-- What a record is read as. -/
theorem RecordOf.decoded {envelope : Dict Json} (h : Sound envelope) {record : Str} (hr : RecordOf m envelope record) :
    ∃ annotated, decodedBody record = .ok (some annotated) ∧ sourceQueueOf annotated = sourceOf m envelope ∧
      resetEnvelope annotated = resetEnvelope envelope := by
  obtain ⟨block, hq, hprop, hb⟩ := hr
  refine ⟨envelope.set (str "dead_letter") (.obj block), ?_, ?_, resetEnvelope_setDeadLetter _ _⟩
  · unfold decodedBody
    rw [decodeLenient_encode hprop hb]
    have hjob : ((envelope.set (str "dead_letter") (.obj block)).getJ (str "job")).asStr?.isNone = false := by
      rw [getJ_set_of_ne _ _ (by simp)]
      obtain ⟨urn, hj, -⟩ := toStr_of_identity h.job .null .null
      rw [hj]
      rfl
    have hne : (envelope.set (str "dead_letter") (.obj block)).isEmpty = false := by
      simpa using Dict.set_ne_nil envelope (str "dead_letter") (.obj block)
    simp [bind, Except.bind, hjob, hne, pure, Except.pure]
  · have hblock : mappingAt (envelope.set (str "dead_letter") (.obj block)) (str "dead_letter") = block := by
      unfold mappingAt
      rw [Dict.getJ, Dict.get?_set_self]
      rfl
    have hmeta : mappingAt (envelope.set (str "dead_letter") (.obj block)) (str "meta") = mappingAt envelope (str "meta") := by
      unfold mappingAt
      rw [getJ_set_of_ne _ _ (by simp)]
    unfold sourceQueueOf
    rw [hblock, hmeta, hq]
    cases hsrc : sourceOf m envelope with
    | cons c q => rfl
    | nil =>
      -- The envelope names no queue, and neither did the consumer.
      rcases h.queue with e | ⟨_ | ⟨c, s⟩, e⟩
      · rw [e]
      · rw [e]
      · rw [sourceOf, e] at hsrc
        cases hsrc

end Interpreter

section CPython

attribute [local instance] cpython

/-- An envelope with an earlier dead letter, and no handler for it. -/
def letter : Str := str "\x7b\"job\":\"urn:x\",\"meta\":\x7b\"queue\":\"orders\"\x7d,\"dead_letter\":\x7b\x7d\x7d"

def letterEnvelope : Dict Json :=
  [(str "job", .str (str "urn:x")), (str "meta", .obj [(str "queue", .str (str "orders"))]), (str "dead_letter", .obj [])]

/-- `BabelQueue(on_unknown_urn=DEAD_LETTER)`. -/
def letterApp : App (InMemory × Unit) Unit := { InMemory.appBeside InMemory.steady with onUnknownUrn := .deadLetter }

end CPython

end BabelQueue
