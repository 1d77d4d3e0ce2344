import BabelQueue.Kafka.Broker
import BabelQueue.Kafka.Cursor

/-!
# The books of `KafkaTransport`

`_pending` and `_settled` over partition logs, as the cursors of `Log`.

* `cursorOf s p`: the books and the offsets of one partition, as a cursor.
* `Accounts A s`: the invariant. Every polled record is in flight, or accounted for by `A`.
* `Accounts.settle`, `Accounts.rewind`, `Accounts.take`, `Accounts.write`, `Accounts.restart`: each change of the
  books or of the broker keeps it.
-/

namespace BabelQueue.Kafka

open Py

/-- The records of the partition in a book. -/
def recordsAt (book : List Handle) (p : TopicPartition) : Set Message := {m | ∃ h ∈ book, h.record = m ∧ h.place = p}

/-- What a queue's consumer has read of a partition, and what it has committed. -/
def cursorOf (s : Polling Broker) (p : TopicPartition) : Log.Cursor Message :=
  ⟨s.clients.position p, s.clients.committed p, recordsAt (s.pending p.topic) p, recordsAt (s.settled p.topic) p⟩

/-- A record has one handle. -/
def Distinct (book : List Handle) : Prop := ∀ h ∈ book, ∀ h' ∈ book, h.serial = h'.serial ↔ h.record = h'.record

/-- Every polled record is accounted for by `A`, after what the broker took up, or in flight; the group
is not before `base`. -/
structure Accounts (logs : Logs) (start base : TopicPartition → Int) (A : List Effect → Message → Prop) (s : Polling Broker) :
    Prop where
  sound : ∀ p, (cursorOf s p).Sound Message.offset (logs.records p) (start p) (A s.clients.effects)
  /-- What a commit covers was accounted for before it. -/
  commits : ∀ before m after, s.clients.effects = before ++ .commit m :: after →
    ∀ m' ∈ logs.records m.place, start m.place ≤ m'.offset → m'.offset ≤ m.offset → A before m'
  exact : s.clients.missed = false → ∀ p, (cursorOf s p).Exact Message.offset (logs.records p)
  above : ∀ p, base p ≤ s.clients.committed p
  topics : ∀ q, ∀ h ∈ s.pending q ++ s.settled q, h.place.topic = q
  serials : ∀ q, ∀ h ∈ s.pending q ++ s.settled q, h.serial < s.polled
  one : ∀ q, Distinct (s.pending q ++ s.settled q)

/-- A new object over the same broker. -/
def Polling.restart (s : Polling Broker) : Polling Broker := ⟨fun _ => [], fun _ => [], s.polled, s.clients.rejoin⟩

/-- What a commit covers once `h` is settled. -/
def Polling.covered (s : Polling Broker) (queue : Str) (h : Handle) : List Handle :=
  committable (s.settled queue ++ [h]) h.place (floorOf ((s.pending queue).filter fun h' => h'.serial ≠ h.serial) h.place)

/-- The books once `h` is settled. -/
def Polling.settle (s : Polling Broker) (queue : Str) (h : Handle) : Polling Broker :=
  s.setBooks queue ((s.pending queue).filter fun h' => h'.serial ≠ h.serial)
    ((s.settled queue ++ [h]).filter fun h' => (s.covered queue h).all fun h'' => h'.serial ≠ h''.serial)

/-! ## Lists of handles -/

theorem all_min?_iff {l : List Int} {a : Int} : l.min?.all (a < ·) = true ↔ ∀ b ∈ l, a < b := by
  cases hm : l.min? with
  | none =>
    rw [List.min?_eq_none_iff] at hm
    subst hm
    simp
  | some m =>
    obtain ⟨hmem, hle⟩ := List.min?_eq_some_iff.mp hm
    rw [Option.all_some, decide_eq_true_eq]
    exact ⟨fun h b hb => h.trans_le (hle b hb), fun h => h m hmem⟩

theorem mem_committable {settled pending : List Handle} {p : TopicPartition} {h : Handle} :
    h ∈ committable settled p (floorOf pending p) ↔
      h ∈ settled ∧ h.place = p ∧ ∀ z ∈ pending, z.place = p → h.offset < z.offset := by
  unfold committable floorOf
  rw [List.mem_filter, Bool.and_eq_true, all_min?_iff, decide_eq_true_eq]
  simp only [List.mem_map, List.mem_filter, decide_eq_true_eq]
  refine and_congr_right fun _ => and_congr_right fun _ => ⟨fun hall z hz hp => hall _ ⟨z, ⟨hz, hp⟩, rfl⟩, ?_⟩
  rintro hall b ⟨z, ⟨hz, hp⟩, rfl⟩
  exact hall z hz hp

theorem recordsAt_append (book book' : List Handle) (p : TopicPartition) :
    recordsAt (book ++ book') p = recordsAt book p ∪ recordsAt book' p := by
  ext m
  simp only [recordsAt, List.mem_append, Set.mem_ofPred_eq, Set.mem_union]
  constructor
  · rintro ⟨h, hb | hb, hm⟩
    · exact .inl ⟨h, hb, hm⟩
    · exact .inr ⟨h, hb, hm⟩
  · rintro (⟨h, hb, hm⟩ | ⟨h, hb, hm⟩)
    · exact ⟨h, .inl hb, hm⟩
    · exact ⟨h, .inr hb, hm⟩

theorem recordsAt_singleton (h : Handle) (p : TopicPartition) :
    recordsAt [h] p = if h.place = p then {h.record} else ∅ := by
  ext m
  simp only [recordsAt, List.mem_singleton, exists_eq_left, Set.mem_ofPred_eq]
  split
  · next hp => simp [hp, eq_comm]
  · next hp => simp [hp]

/-- What is kept before an offset of a partition. -/
theorem recordsAt_keptBefore (book : List Handle) (p p' : TopicPartition) (offset : Int) :
    recordsAt (keptBefore p offset book) p' =
      if p' = p then {m ∈ recordsAt book p' | m.offset < offset} else recordsAt book p' := by
  ext m
  simp only [recordsAt, keptBefore, List.mem_filter, Bool.or_eq_true, decide_eq_true_eq, Set.mem_ofPred_eq]
  split
  · next hp =>
    subst hp
    constructor
    · rintro ⟨h, ⟨hb, hk⟩, rfl, hp⟩
      exact ⟨⟨h, hb, rfl, hp⟩, hk.resolve_left fun hne => hne hp⟩
    · rintro ⟨⟨h, hb, rfl, hp⟩, hk⟩
      exact ⟨h, ⟨hb, .inr hk⟩, rfl, hp⟩
  · next hp =>
    constructor
    · rintro ⟨h, ⟨hb, -⟩, hm⟩
      exact ⟨h, hb, hm⟩
    · rintro ⟨h, hb, rfl, hm⟩
      exact ⟨h, ⟨hb, .inl fun he => hp (hm.symm.trans he)⟩, rfl, hm⟩

/-- What is left of a book without some of its handles. -/
theorem recordsAt_without {book gone : List Handle} (p : TopicPartition)
    (hone : ∀ h ∈ book, ∀ h' ∈ gone, h.serial = h'.serial ↔ h.record = h'.record) :
    recordsAt (book.filter fun h => gone.all fun h' => h.serial ≠ h'.serial) p = recordsAt book p \ recordsAt gone p := by
  ext m
  simp only [recordsAt, List.mem_filter, List.all_eq_true, decide_eq_true_eq, Set.mem_ofPred_eq, Set.mem_sdiff]
  constructor
  · rintro ⟨h, ⟨hb, hk⟩, rfl, hp⟩
    refine ⟨⟨h, hb, rfl, hp⟩, ?_⟩
    rintro ⟨h', hg, he, -⟩
    exact hk h' hg ((hone h hb h' hg).mpr he.symm)
  · rintro ⟨⟨h, hb, rfl, hp⟩, hk⟩
    refine ⟨h, ⟨hb, fun h' hg hs => hk ⟨h', hg, ?_, ?_⟩⟩, rfl, hp⟩
    · exact ((hone h hb h' hg).mp hs).symm
    · exact (congrArg Message.place ((hone h hb h' hg).mp hs)).symm.trans hp

theorem recordsAt_erase {book : List Handle} {h : Handle} (p : TopicPartition)
    (hone : ∀ h' ∈ book, h'.serial = h.serial ↔ h'.record = h.record) :
    recordsAt (book.filter fun h' => h'.serial ≠ h.serial) p = recordsAt book p \ {h.record} := by
  ext m
  simp only [recordsAt, List.mem_filter, decide_eq_true_eq, Set.mem_ofPred_eq, Set.mem_sdiff, Set.mem_singleton_iff]
  constructor
  · rintro ⟨h', ⟨hb, hk⟩, rfl, hp⟩
    exact ⟨⟨h', hb, rfl, hp⟩, (not_congr (hone h' hb)).mp hk⟩
  · rintro ⟨⟨h', hb, rfl, hp⟩, hk⟩
    exact ⟨h', ⟨hb, (not_congr (hone h' hb)).mpr hk⟩, rfl, hp⟩

theorem recordsAt_covered (s : Polling Broker) {q : Str} {h : Handle} (hone : Distinct (s.pending q ++ s.settled q))
    (hh : h ∈ s.pending q) (hq : h.place.topic = q) :
    recordsAt (s.covered q h) h.place = (cursorOf s h.place).committable Message.offset h.record := by
  ext m
  simp only [recordsAt, Polling.covered, mem_committable, Set.mem_ofPred_eq, Log.Cursor.committable, cursorOf, hq,
    Set.mem_insert_iff, Set.mem_sdiff, Set.mem_singleton_iff, List.mem_append, List.mem_singleton, List.mem_filter,
    decide_eq_true_eq]
  have hserial : ∀ z ∈ s.pending q, z.serial ≠ h.serial ↔ ¬z.record = h.record := fun z hz =>
    not_congr (hone z (List.mem_append_left _ hz) h (List.mem_append_left _ hh))
  constructor
  · rintro ⟨x, ⟨hx, hp, hall⟩, rfl, -⟩
    refine ⟨hx.elim (fun hx => .inr ⟨x, hx, rfl, hp⟩) fun hx => .inl (hx ▸ rfl), ?_⟩
    rintro _ ⟨⟨z, hz, rfl, hzp⟩, hzh⟩
    exact hall z ⟨hz, (hserial z hz).mpr hzh⟩ hzp
  · rintro ⟨hm, hall⟩
    have hfloor : ∀ z, z ∈ s.pending q ∧ z.serial ≠ h.serial → z.place = h.place → m.offset < z.offset :=
      fun z hz hzp => hall z.record ⟨⟨z, hz.1, rfl, hzp⟩, (hserial z hz.1).mp hz.2⟩
    rcases hm with rfl | ⟨x, hx, rfl, hp⟩
    · exact ⟨h, ⟨.inr rfl, rfl, hfloor⟩, rfl, rfl⟩
    · exact ⟨x, ⟨.inl hx, hp, hfloor⟩, rfl, hp⟩

theorem recordsAt_covered_other (s : Polling Broker) {q : Str} {h : Handle} {p : TopicPartition} (hp : p ≠ h.place) :
    recordsAt (s.covered q h) p = ∅ := by
  refine Set.eq_empty_of_forall_notMem ?_
  rintro m ⟨x, hx, -, hxp⟩
  exact hp (hxp.symm.trans (mem_committable.mp hx).2.1)

/-! ## The invariant -/

/-- What is accounted for stays so. -/
def Grows (A : List Effect → Message → Prop) : Prop := ∀ es es' m, A es m → A (es ++ es') m

/-- What the commit of a settle may do: it lands, it is lost, or there is nothing to commit. -/
structure Commits (s : Polling Broker) (gone : List Handle) (b : Broker) : Prop where
  position : b.position = s.clients.position
  outcome : (b.committed = s.clients.committed ∧ b.effects = s.clients.effects ∧
      (b.missed = true ∨ gone = [] ∧ b.missed = s.clients.missed)) ∨
    ∃ top ∈ highest gone, b.committed = Function.update s.clients.committed top.place (top.offset + 1) ∧
      b.effects = s.clients.effects ++ [.commit top.record] ∧ b.missed = s.clients.missed

theorem Commits.effects {s : Polling Broker} {gone : List Handle} {b : Broker} (h : Commits s gone b) :
    ∃ more, b.effects = s.clients.effects ++ more := by
  rcases h.outcome with ⟨-, he, -⟩ | ⟨top, -, -, he, -⟩
  · exact ⟨[], he.trans (List.append_nil _).symm⟩
  · exact ⟨_, he⟩

section Invariant

variable {logs : Logs} {start base : TopicPartition → Int} {A : List Effect → Message → Prop} {s : Polling Broker}

namespace Accounts

/-- A record in flight. -/
theorem mem_flying {q : Str} {h : Handle} (hs : Accounts logs start base A s) (hh : h ∈ s.pending q) :
    h.record ∈ (cursorOf s h.place).flying := by
  have hq := hs.topics q h (List.mem_append_left _ hh)
  exact ⟨h, by rwa [hq], rfl, rfl⟩

theorem settle_flying {q : Str} {h : Handle} (hs : Accounts logs start base A s) (hh : h ∈ s.pending q) (p : TopicPartition) :
    recordsAt ((s.settle q h).pending p.topic) p = recordsAt (s.pending p.topic) p \ {h.record} := by
  have hq := hs.topics q h (List.mem_append_left _ hh)
  unfold Polling.settle Polling.setBooks
  dsimp only
  by_cases hp : p.topic = q
  · subst hp
    rw [Function.update_self]
    exact recordsAt_erase p fun h' hh' => hs.one p.topic h' (List.mem_append_left _ hh') h (List.mem_append_left _ hh)
  · rw [Function.update_of_ne hp]
    refine (Set.sdiff_singleton_eq_self ?_).symm
    rintro ⟨h', -, he, hp'⟩
    exact hp (by rw [← hp', ← hq, Handle.place, he])

theorem settle_deferred {q : Str} {h : Handle} (hs : Accounts logs start base A s) (hh : h ∈ s.pending q) (p : TopicPartition) :
    recordsAt ((s.settle q h).settled p.topic) p =
      (recordsAt (s.settled p.topic) p ∪ recordsAt [h] p) \ recordsAt (s.covered q h) p := by
  have hq := hs.topics q h (List.mem_append_left _ hh)
  unfold Polling.settle Polling.setBooks
  dsimp only
  by_cases hp : p.topic = q
  · subst hp
    rw [Function.update_self, ← recordsAt_append]
    have hbook : ∀ h' ∈ s.settled p.topic ++ [h], h' ∈ s.pending p.topic ++ s.settled p.topic := by
      intro h' hh'
      rcases List.mem_append.mp hh' with hh' | hh'
      · exact List.mem_append_right _ hh'
      · exact List.mem_append_left _ (List.mem_singleton.mp hh' ▸ hh)
    exact recordsAt_without p fun h' hh' h'' hh'' => hs.one p.topic h' (hbook h' hh') h'' (hbook h'' (mem_committable.mp hh'').1)
  · have hne : p ≠ h.place := fun he => hp (by rw [he, hq])
    rw [Function.update_of_ne hp, recordsAt_covered_other s hne, recordsAt_singleton, if_neg (Ne.symm hne), Set.union_empty,
      Set.sdiff_empty]

/-- Nothing changes at the other partitions. -/
theorem settle_other {q : Str} {h : Handle} (hs : Accounts logs start base A s) (hh : h ∈ s.pending q) {b : Broker}
    (hb : Commits s (s.covered q h) b) {p : TopicPartition} (hp : p ≠ h.place) :
    cursorOf { s.settle q h with clients := b } p = cursorOf s p := by
  unfold cursorOf
  dsimp only
  have hcommitted : b.committed p = s.clients.committed p := by
    rcases hb.outcome with ⟨he, -⟩ | ⟨top, htop, he, -⟩
    · rw [he]
    · have hplace := (mem_committable.mp (List.argmax_mem htop)).2.1
      rw [he, Function.update_of_ne (hplace ▸ hp)]
  rw [hs.settle_flying hh, hs.settle_deferred hh, recordsAt_covered_other s hp, recordsAt_singleton, if_neg (Ne.symm hp),
    Set.union_empty, Set.sdiff_empty, hb.position, hcommitted, Set.sdiff_singleton_eq_self]
  rintro ⟨h', -, he, hp'⟩
  exact hp (by rw [← hp', Handle.place, he])

theorem settle_settles {q : Str} {h : Handle} (hs : Accounts logs start base A s) (hh : h ∈ s.pending q) {b : Broker}
    (hb : Commits s (s.covered q h) b) :
    (cursorOf s h.place).Settles Message.offset h.record (cursorOf { s.settle q h with clients := b } h.place) := by
  have hq := hs.topics q h (List.mem_append_left _ hh)
  have hcovered := recordsAt_covered s (hs.one q) hh hq
  refine ⟨congrFun hb.position h.place, hs.settle_flying hh h.place, ?_, ?_⟩
  · refine (hs.settle_deferred hh h.place).trans ?_
    rw [hcovered, recordsAt_singleton, if_pos rfl, Set.union_singleton]
    rfl
  · rcases hb.outcome with ⟨he, -⟩ | ⟨top, htop, he, -⟩
    · exact .inl (congrFun he h.place)
    · have hmem := List.argmax_mem htop
      have hplace := (mem_committable.mp hmem).2.1
      rw [← hcovered]
      refine .inr ⟨top.record, ⟨top, hmem, rfl, hplace⟩, ?_, ?_⟩
      · rintro _ ⟨y, hy, rfl, -⟩
        have hle : y.offset ≤ top.offset := List.le_of_mem_argmax hy htop
        exact hle
      · refine (congrFun he h.place).trans ?_
        rw [hplace, Function.update_self]

/-- A settle of a record in flight that is accounted for. -/
theorem settle {q : Str} {h : Handle} (hs : Accounts logs start base A s) (hgrows : Grows A) (hh : h ∈ s.pending q)
    (hA : A s.clients.effects h.record) {b : Broker} (hb : Commits s (s.covered q h) b) :
    Accounts logs start base A { s.settle q h with clients := b } := by
  have hsettles := hs.settle_settles hh hb
  have hmem := hs.mem_flying hh
  have hq := hs.topics q h (List.mem_append_left _ hh)
  have hmono := (hs.sound h.place).settle_mono hmem hsettles
  have hsub : ∀ q', ∀ x ∈ (s.settle q h).pending q' ++ (s.settle q h).settled q', x ∈ s.pending q' ++ s.settled q' := by
    intro q' x hx
    unfold Polling.settle Polling.setBooks at hx
    dsimp only at hx
    by_cases hq' : q' = q
    · subst hq'
      rw [Function.update_self, Function.update_self, List.mem_append, List.mem_filter, List.mem_filter, List.mem_append] at hx
      rcases hx with hx | ⟨hx | hx, -⟩
      · exact List.mem_append_left _ hx.1
      · exact List.mem_append_right _ hx
      · exact List.mem_append_left _ (List.mem_singleton.mp hx ▸ hh)
    · rwa [Function.update_of_ne hq', Function.update_of_ne hq'] at hx
  -- the records of the partitions, with what was accounted for before the commit
  have hbefore : ∀ p, (cursorOf { s.settle q h with clients := b } p).Sound Message.offset (logs.records p) (start p)
      (A s.clients.effects) := by
    intro p
    by_cases hp : p = h.place
    · subst hp
      exact (hs.sound h.place).settle (logs.ordered h.place) hmem hA hsettles
    · rw [hs.settle_other hh hb hp]
      exact hs.sound p
  refine ⟨fun p => (hbefore p).mono fun m hm => ?_, fun before m after he m' hm' hlow hle => ?_, fun hmissed p => ?_,
    fun p => ?_, fun q' x hx => hs.topics q' x (hsub q' x hx), fun q' x hx => hs.serials q' x (hsub q' x hx),
    fun q' x hx y hy => hs.one q' x (hsub q' x hx) y (hsub q' y hy)⟩
  · obtain ⟨more, hmore⟩ := hb.effects
    exact hmore ▸ hgrows _ more m hm
  · have he : b.effects = before ++ .commit m :: after := he
    rcases hb.outcome with ⟨-, hsame, -⟩ | ⟨top, htop, hcommitted, hmore, -⟩
    · exact hs.commits before m after (hsame ▸ he) m' hm' hlow hle
    · rw [hmore] at he
      rcases List.eq_nil_or_concat after with rfl | ⟨after, x, rfl⟩
      · -- this commit
        obtain ⟨rfl, hx⟩ := List.append_inj' he rfl
        obtain rfl : top.record = m := by simpa using hx
        refine (hbefore top.place).accounted hm' hlow ?_
        have : b.committed top.place = top.offset + 1 := by rw [hcommitted, Function.update_self]
        exact lt_of_lt_of_eq (Int.lt_add_one_of_le hle) this.symm
      · rw [List.concat_eq_append, ← List.cons_append, ← List.append_assoc] at he
        exact hs.commits before m after (List.append_inj' he rfl).1 m' hm' hlow hle
  · -- nothing was missed, so the commit landed
    have hlanded : s.clients.missed = false := by
      rcases hb.outcome with ⟨-, -, hmiss | ⟨-, hmiss⟩⟩ | ⟨top, -, -, -, hmiss⟩
      · rw [show b.missed = false from hmissed] at hmiss
        cases hmiss
      · exact hmiss.symm.trans hmissed
      · exact hmiss.symm.trans hmissed
    by_cases hp : p = h.place
    · subst hp
      refine (hs.exact hlanded h.place).settle hsettles (fun m hm => ?_) hmono
      rw [← recordsAt_covered s (hs.one q) hh hq] at hm
      obtain ⟨x, hx, rfl, -⟩ := hm
      rcases hb.outcome with ⟨-, -, hmiss | ⟨hnil, -⟩⟩ | ⟨top, htop, he, -, -⟩
      · rw [show b.missed = false from hmissed] at hmiss
        cases hmiss
      · rw [hnil] at hx
        cases hx
      · have hle : x.offset ≤ top.offset := List.le_of_mem_argmax hx htop
        have hplace := (mem_committable.mp (List.argmax_mem htop)).2.1
        have hcommitted : b.committed h.place = top.offset + 1 := by rw [he, hplace, Function.update_self]
        refine lt_of_lt_of_eq ?_ hcommitted.symm
        exact Int.lt_add_one_of_le hle
    · rw [hs.settle_other hh hb hp]
      exact hs.exact hlanded p
  · by_cases hp : p = h.place
    · subst hp
      exact (hs.above h.place).trans hmono
    · have := congrArg Log.Cursor.committed (hs.settle_other hh hb hp)
      exact (hs.above p).trans_eq this.symm

/-- Only the answers of the broker move on. -/
theorem quiet (hs : Accounts logs start base A s) {b : Broker} (hposition : b.position = s.clients.position)
    (hcommitted : b.committed = s.clients.committed) (hmissed : b.missed = s.clients.missed)
    (heffects : b.effects = s.clients.effects) : Accounts logs start base A { s with clients := b } := by
  have hcursor : cursorOf { s with clients := b } = cursorOf s := by
    funext p
    unfold cursorOf
    rw [hposition, hcommitted]
  refine ⟨fun p => ?_, fun before m after he => hs.commits before m after (heffects.symm.trans he), fun hm p => ?_,
    fun p => ?_, hs.topics, hs.serials, hs.one⟩
  · rw [hcursor]
    dsimp only
    rw [heffects]
    exact hs.sound p
  · rw [hcursor]
    exact hs.exact (hmissed.symm.trans hm) p
  · exact (hs.above p).trans_eq (congrFun hcommitted p).symm

/-- A write is taken up. -/
theorem write (hs : Accounts logs start base A s) (hgrows : Grows A) (w : Write) :
    Accounts logs start base A { s with clients := s.clients.take w } := by
  refine ⟨fun p => (hs.sound p).mono fun m => hgrows _ _ m, fun before m after he => ?_, hs.exact, hs.above, hs.topics,
    hs.serials, hs.one⟩
  have he : s.clients.effects ++ [.write w] = before ++ .commit m :: after := he
  rcases List.eq_nil_or_concat after with rfl | ⟨after, x, rfl⟩
  · have hx := (List.append_inj' he rfl).2
    simp at hx
  · rw [List.concat_eq_append, ← List.cons_append, ← List.append_assoc] at he
    exact hs.commits before m after (List.append_inj' he rfl).1

theorem mono {B : List Effect → Message → Prop} (hs : Accounts logs start base A s) (hAB : ∀ es m, A es m → B es m) :
    Accounts logs start base B s :=
  { hs with
    sound := fun p => (hs.sound p).mono (hAB _)
    commits := fun before m after he m' hm' hlow hle => hAB _ _ (hs.commits before m after he m' hm' hlow hle) }

/-- The group is where it is. -/
theorem rebase (hs : Accounts logs start base A s) : Accounts logs start s.clients.committed A s :=
  { hs with above := fun _ => le_rfl }

theorem init (logs : Logs) (start : TopicPartition → Int) (A : List Effect → Message → Prop) (replies : Nat → Reply)
    (times : Nat → { t : Int // t.natAbs < 2 ^ 63 }) :
    Accounts logs start start A ⟨fun _ => [], fun _ => [], 0, Broker.init replies times start⟩ where
  sound p := by
    have hnil : recordsAt [] p = ∅ := Set.eq_empty_of_forall_notMem fun _ ⟨_, h, _⟩ => nomatch h
    unfold cursorOf
    rw [hnil]
    exact .init _ _ _ _
  commits before m after h := by
    have h : [] = before ++ .commit m :: after := h
    simp at h
  exact _ p := by
    have hnil : recordsAt [] p = ∅ := Set.eq_empty_of_forall_notMem fun _ ⟨_, h, _⟩ => nomatch h
    unfold cursorOf
    rw [hnil]
    exact .init _ _ _
  above _ := le_rfl
  topics _ _ h := nomatch h
  serials _ _ h := nomatch h
  one _ _ h := nomatch h

theorem restart (hs : Accounts logs start base A s) : Accounts logs start base A s.restart := by
  have hcursor : ∀ p, cursorOf s.restart p = (cursorOf s p).restart := by
    intro p
    have hnil : recordsAt [] p = ∅ := Set.eq_empty_of_forall_notMem fun _ ⟨_, h, _⟩ => nomatch h
    unfold cursorOf Polling.restart Broker.rejoin Log.Cursor.restart
    dsimp only
    rw [hnil]
  refine ⟨fun p => ?_, hs.commits, fun _ p => ?_, hs.above, fun _ _ h => (nomatch h), fun _ _ h => (nomatch h),
    fun _ _ h => (nomatch h)⟩
  · rw [hcursor]
    exact (hs.sound p).restart
  · rw [hcursor]
    exact .restart _

/-- The seek of a record in flight, and what is forgotten for it. -/
theorem rewind {q : Str} {h : Handle} (hs : Accounts logs start base A s) (hh : h ∈ s.pending q) :
    Accounts logs start base A
      { s.setBooks q (keptBefore h.place h.offset (s.pending q)) (keptBefore h.place h.offset (s.settled q)) with
        clients := Broker.seek h.place h.offset s.clients } := by
  have hq := hs.topics q h (List.mem_append_left _ hh)
  have hmem := hs.mem_flying hh
  have hat : cursorOf { s.setBooks q (keptBefore h.place h.offset (s.pending q)) (keptBefore h.place h.offset (s.settled q)) with
      clients := Broker.seek h.place h.offset s.clients } h.place = (cursorOf s h.place).rewind Message.offset h.offset := by
    unfold cursorOf Polling.setBooks Broker.seek Log.Cursor.rewind
    dsimp only
    rw [hq, Function.update_self, Function.update_self, Function.update_self, recordsAt_keptBefore, recordsAt_keptBefore,
      if_pos rfl, if_pos rfl]
  have hother : ∀ p ≠ h.place, cursorOf { s.setBooks q (keptBefore h.place h.offset (s.pending q))
      (keptBefore h.place h.offset (s.settled q)) with clients := Broker.seek h.place h.offset s.clients } p = cursorOf s p := by
    intro p hp
    unfold cursorOf Polling.setBooks Broker.seek
    dsimp only
    rw [Function.update_of_ne hp]
    by_cases hpq : p.topic = q
    · rw [hpq, Function.update_self, Function.update_self, recordsAt_keptBefore, recordsAt_keptBefore, if_neg hp, if_neg hp]
    · rw [Function.update_of_ne hpq, Function.update_of_ne hpq]
  have hsub : ∀ q', ∀ x ∈ Function.update s.pending q (keptBefore h.place h.offset (s.pending q)) q' ++
      Function.update s.settled q (keptBefore h.place h.offset (s.settled q)) q', x ∈ s.pending q' ++ s.settled q' := by
    intro q' x hx
    by_cases hq' : q' = q
    · subst hq'
      rw [Function.update_self, Function.update_self, List.mem_append] at hx
      exact List.mem_append.mpr (hx.imp (List.mem_of_mem_filter ·) (List.mem_of_mem_filter ·))
    · rwa [Function.update_of_ne hq', Function.update_of_ne hq'] at hx
  refine ⟨fun p => ?_, hs.commits, fun hm p => ?_, hs.above, fun q' x hx => hs.topics q' x (hsub q' x hx),
    fun q' x hx => hs.serials q' x (hsub q' x hx), fun q' x hx y hy => hs.one q' x (hsub q' x hx) y (hsub q' y hy)⟩
  · by_cases hp : p = h.place
    · subst hp
      rw [hat]
      exact (hs.sound h.place).rewind hmem
    · rw [hother p hp]
      exact hs.sound p
  · by_cases hp : p = h.place
    · subst hp
      rw [hat]
      exact (hs.exact hm h.place).rewind ((hs.sound h.place).flying _ hmem).2.2.le
    · rw [hother p hp]
      exact hs.exact hm p

/-- What is in the books was read. -/
theorem read {q : Str} {h : Handle} (hs : Accounts logs start base A s) (hh : h ∈ s.pending q ++ s.settled q) :
    h.offset < s.clients.position h.place := by
  have hq := hs.topics q h hh
  rcases List.mem_append.mp hh with hp | hd
  · exact ((hs.sound h.place).flying h.record ⟨h, by rwa [hq], rfl, rfl⟩).2.2
  · exact ((hs.sound h.place).deferred h.record ⟨h, by rwa [hq], rfl, rfl⟩).2.2.1

/-- The next record of a partition is polled and held in flight. -/
theorem take {q : Str} {p : TopicPartition} {m : Message} (hs : Accounts logs start base A s)
    (hnext : Broker.next? logs q s.clients p = some m) :
    Accounts logs start base A
      { (s.setBooks q (s.pending q ++ [⟨m, s.polled⟩]) (s.settled q)) with
        polled := s.polled + 1
        clients := Broker.seek m.place (m.offset + 1) s.clients } := by
  have hnext' : p.topic = q ∧ Log.next? Message.offset (logs.records p) (s.clients.position p) = some m := by
    unfold Broker.next? at hnext
    split at hnext
    · next hp => exact ⟨hp, hnext⟩
    · cases hnext
  clear hnext
  obtain ⟨rfl, hnext⟩ := hnext'
  obtain ⟨hmem, hlo⟩ := Log.next?_mem hnext
  have hplace := logs.placed p m hmem
  have hat : cursorOf { (s.setBooks p.topic (s.pending p.topic ++ [⟨m, s.polled⟩]) (s.settled p.topic)) with
      polled := s.polled + 1, clients := Broker.seek m.place (m.offset + 1) s.clients } p =
        (cursorOf s p).take Message.offset m := by
    unfold cursorOf Polling.setBooks Broker.seek Log.Cursor.take
    dsimp only
    rw [Function.update_self, Function.update_self, hplace, Function.update_self, recordsAt_append, recordsAt_singleton,
      if_pos hplace, Set.union_singleton]
  have hother : ∀ p' ≠ p, cursorOf { (s.setBooks p.topic (s.pending p.topic ++ [⟨m, s.polled⟩]) (s.settled p.topic)) with
      polled := s.polled + 1, clients := Broker.seek m.place (m.offset + 1) s.clients } p' = cursorOf s p' := by
    intro p' hp
    unfold cursorOf Polling.setBooks Broker.seek
    dsimp only
    rw [hplace, Function.update_of_ne hp]
    by_cases hpq : p'.topic = p.topic
    · have hne : m.place ≠ p' := fun he => hp (he.symm.trans hplace)
      rw [hpq, Function.update_self, Function.update_self, recordsAt_append, recordsAt_singleton, if_neg hne, Set.union_empty]
    · rw [Function.update_of_ne hpq, Function.update_of_ne hpq]
  -- the new handle is of a record that is in no book
  have hbooks : ∀ q', ∀ x ∈ Function.update s.pending p.topic (s.pending p.topic ++ [⟨m, s.polled⟩]) q' ++
      Function.update s.settled p.topic (s.settled p.topic) q', x ∈ s.pending q' ++ s.settled q' ∨ q' = p.topic ∧ x = ⟨m, s.polled⟩ := by
    intro q' x hx
    rw [Function.update_eq_self] at hx
    by_cases hq' : q' = p.topic
    · subst hq'
      rw [Function.update_self, List.mem_append, List.mem_append, List.mem_singleton] at hx
      rcases hx with (hx | hx) | hx
      · exact .inl (List.mem_append_left _ hx)
      · exact .inr ⟨rfl, hx⟩
      · exact .inl (List.mem_append_right _ hx)
    · rw [Function.update_of_ne hq'] at hx
      exact .inl hx
  have hnew : ∀ q', ∀ x ∈ s.pending q' ++ s.settled q', x.record ≠ m ∧ x.serial < s.polled := by
    intro q' x hx
    refine ⟨?_, hs.serials q' x hx⟩
    rintro rfl
    have hread := hs.read hx
    have hxp : x.place = p := hplace
    rw [hxp] at hread
    exact absurd hread (not_lt.mpr hlo)
  refine ⟨fun p' => ?_, hs.commits, fun hm p' => ?_, hs.above, fun q' x hx => ?_, fun q' x hx => ?_, fun q' x hx y hy => ?_⟩
  · by_cases hp : p' = p
    · subst hp
      rw [hat]
      exact (hs.sound p').take (logs.ordered p') hnext
    · rw [hother p' hp]
      exact hs.sound p'
  · by_cases hp : p' = p
    · subst hp
      rw [hat]
      exact (hs.exact hm p').take (logs.ordered p') hnext
    · rw [hother p' hp]
      exact hs.exact hm p'
  · rcases hbooks q' x hx with hx | ⟨rfl, rfl⟩
    · exact hs.topics q' x hx
    · exact congrArg TopicPartition.topic hplace
  · rcases hbooks q' x hx with hx | ⟨rfl, rfl⟩
    · exact (hs.serials q' x hx).trans (Nat.lt_succ_self _)
    · exact Nat.lt_succ_self _
  · rcases hbooks q' x hx with hx | ⟨-, rfl⟩ <;> rcases hbooks q' y hy with hy | ⟨-, rfl⟩
    · exact hs.one q' x hx y hy
    · exact iff_of_false (hnew q' x hx).2.ne (hnew q' x hx).1
    · exact iff_of_false (hnew q' y hy).2.ne' (hnew q' y hy).1.symm
    · exact iff_of_true rfl rfl

end Accounts

end Invariant

end BabelQueue.Kafka
