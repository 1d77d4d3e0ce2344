import Mathlib.Data.Set.Insert
import BabelQueue.Redis.Expired
import BabelQueue.Redis.Scripts

/-!
# The Laravel layout loses no message

The scripts of the Laravel layout on the ready list of a queue and its two sorted sets, under any interleaving. A
stored value is of one message; a message may be there more than once, and equal values collapse in a set.

* `migrate_spec`: a migration moves what it selected, and nothing else.
* `ZsetStep`: one script of any worker.
* `zset_conserves`: a message stays, until a worker acks or dead-letters its live reservation.
* `publish_scripted_zset`, …: each method of the transport is a run of scripts.
-/

namespace Keyspace

open Py

variable (k : Keyspace) (key : Str) {key' : Str}

theorem rpush_rpush (values values' : List Bytes) : (k.rpush key values).rpush key values' = k.rpush key (values ++ values') := by
  unfold rpush setList
  simp only [Function.update_self, Function.update_idem, List.append_assoc]

theorem rpush_comm (h : key ≠ key') (values values' : List Bytes) :
    (k.rpush key values).rpush key' values' = (k.rpush key' values').rpush key values := by
  unfold rpush setList
  simp only [Function.update_of_ne h, Function.update_of_ne h.symm, Function.update_comm h]

theorem rpush_nil : k.rpush key [] = k := by
  unfold rpush setList
  simp only [List.append_nil, Function.update_eq_self]

end Keyspace

namespace BabelQueue

open Py Py.Utf8

namespace Redis

/-- One round of the loop of `_MIGRATE`. -/
def pushChunk (ready notify : Str) (k : Keyspace) (chunk : List Bytes) : Keyspace :=
  chunk.foldl (fun k _ => k.rpush notify [[49]]) (k.rpush ready chunk)

/-- The loop of `_MIGRATE`: a hundred members a round. -/
def pushChunks (ready notify : Str) (k : Keyspace) (due : List Bytes) : Keyspace :=
  if due = [] then k else pushChunks ready notify (pushChunk ready notify k (due.take 100)) (due.drop 100)
termination_by due.length
decreasing_by
  have := List.length_pos_iff.mpr ‹due ≠ []›
  rw [List.length_drop]
  omega

variable {ready notify source : Str} {k : Keyspace}

theorem pushChunk_eq (chunk : List Bytes) :
    pushChunk ready notify k chunk = (k.rpush ready chunk).rpush notify (chunk.map fun _ => [49]) := by
  have hloop : ∀ (l : List Bytes) (k : Keyspace), l.foldl (fun k _ => k.rpush notify [[49]]) k = k.rpush notify (l.map fun _ => [49]) := by
    intro l
    induction l with
    | nil => exact fun k => (k.rpush_nil notify).symm
    | cons v l ih =>
      intro k
      rw [List.foldl_cons, ih, Keyspace.rpush_rpush]
      rfl
  exact hloop chunk _

/-- The rounds push what one round with all members would. -/
theorem pushChunks_eq (hne : ready ≠ notify) (due : List Bytes) :
    pushChunks ready notify k due = (k.rpush ready due).rpush notify (due.map fun _ => [49]) := by
  fun_induction pushChunks ready notify k due with
  | case1 k => rw [List.map_nil, Keyspace.rpush_nil, Keyspace.rpush_nil]
  | case2 k due hdue ih =>
    rw [ih, pushChunk_eq, ← Keyspace.rpush_comm _ ready hne, Keyspace.rpush_rpush, Keyspace.rpush_rpush, List.take_append_drop,
      ← List.map_append, List.take_append_drop]

/-- `_MIGRATE` with its loop. -/
theorem migrateScript_eq (hne : ready ≠ notify) (now : Int) (batch : Option Nat) :
    migrateScript source ready notify now batch k =
      if k.zrangebyscore source now batch = [] then k
      else pushChunks ready notify (k.zremFirst source (k.zrangebyscore source now batch).length) (k.zrangebyscore source now batch) := by
  unfold migrateScript
  rw [pushChunks_eq hne]
  split
  · next h => rw [if_pos h]
  · next h => rw [if_neg h]

/-- A migration moves what it selected, and nothing else. -/
theorem migrate_spec (hk : k.Ordered source) (hne : ready ≠ notify) (now : Int) (batch : Option Nat) :
    (migrateScript source ready notify now batch k).lists ready = k.lists ready ++ k.zrangebyscore source now batch ∧
    (migrateScript source ready notify now batch k).lists notify =
      k.lists notify ++ List.replicate (k.zrangebyscore source now batch).length [49] ∧
    (∀ key, key ≠ ready → key ≠ notify → (migrateScript source ready notify now batch k).lists key = k.lists key) ∧
    ((k.zsets source).take (k.zrangebyscore source now batch).length).map Prod.fst = k.zrangebyscore source now batch ∧
    (migrateScript source ready notify now batch k).zsets source = (k.zsets source).drop (k.zrangebyscore source now batch).length ∧
    ∀ key, key ≠ source → (migrateScript source ready notify now batch k).zsets key = k.zsets key := by
  unfold migrateScript
  split
  · next h =>
    rw [h]
    refine ⟨(List.append_nil _).symm, (List.append_nil _).symm, fun _ _ _ => rfl, rfl, List.drop_zero.symm, fun _ _ => rfl⟩
  · next h =>
    refine ⟨?_, ?_, fun key hready hnotify => ?_, (hk.due now batch).symm, ?_, fun key hkey => ?_⟩
    · rw [Keyspace.rpush_lists, if_neg hne, Keyspace.rpush_lists, if_pos rfl, Keyspace.zremFirst_lists]
    · rw [Keyspace.rpush_lists, if_pos rfl, Keyspace.rpush_lists, if_neg hne.symm, Keyspace.zremFirst_lists, List.map_const']
    · rw [Keyspace.rpush_lists, if_neg hnotify, Keyspace.rpush_lists, if_neg hready, Keyspace.zremFirst_lists]
    · rw [Keyspace.rpush_zsets, Keyspace.rpush_zsets, Keyspace.zremFirst, Keyspace.setZset_zsets, if_pos rfl]
    · rw [Keyspace.rpush_zsets, Keyspace.rpush_zsets, Keyspace.zremFirst, Keyspace.setZset_zsets, if_neg hkey]

end Redis

/-- The messages that were published, and those of which a live reservation was acked or dead-lettered. -/
structure Tracked (ι : Type) where
  published : Set ι
  settled : Set ι

namespace RedisTransport

variable {ι : Type} {T : RedisTransport} {ident : Bytes → ι} {queue : Str} {k k' : Keyspace} {g : Tracked ι}

theorem reserved_ne_delayed (T : RedisTransport) (queue : Str) : T.reserved queue ≠ T.delayed queue := by
  intro h
  exact absurd (List.append_cancel_left h) (by decide)

/-- A value is in one of the three places of a queue. -/
def Holds (T : RedisTransport) (queue : Str) (k : Keyspace) (value : Bytes) : Prop :=
  value ∈ k.lists (T.ready queue) ∨ value ∈ k.members (T.delayed queue) ∨ value ∈ k.members (T.reserved queue)

/-! What the commands leave there. -/

namespace Holds

variable {value : Bytes}

theorem rpush (h : T.Holds queue k value) (key : Str) (values : List Bytes) : T.Holds queue (k.rpush key values) value := by
  refine h.imp_left fun hready => ?_
  rw [Keyspace.rpush_lists]
  split
  · next heq => exact List.mem_append_left _ (heq ▸ hready)
  · exact hready

theorem rpush_self {key : Str} (hkey : key = T.ready queue) {values : List Bytes} (hv : value ∈ values) :
    T.Holds queue (k.rpush key values) value := by
  refine .inl ?_
  rw [Keyspace.rpush_lists, if_pos hkey.symm]
  exact List.mem_append_right _ hv

theorem zadd (h : T.Holds queue k value) (key : Str) (score : Keyspace.Score) (member : Bytes) :
    T.Holds queue (k.zadd key score member) value := by
  have hset : ∀ source, value ∈ k.members source → value ∈ (k.zadd key score member).members source := by
    intro source hv
    by_cases hkey : source = key
    · subst hkey
      exact Keyspace.mem_members_zadd.mpr (.inr hv)
    · unfold Keyspace.members
      rw [Keyspace.zadd_zsets_of_ne score member hkey]
      exact hv
  exact h.imp_right (Or.imp (hset _) (hset _))

theorem zrem (h : T.Holds queue k value) {member : Bytes} (hne : value ≠ member) (key : Str) :
    T.Holds queue (k.zrem key member).2 value := by
  have hset : ∀ source, value ∈ k.members source → value ∈ (k.zrem key member).2.members source := by
    intro source hv
    by_cases hkey : source = key
    · subst hkey
      exact Keyspace.mem_members_zrem.mpr ⟨hv, hne⟩
    · unfold Keyspace.members
      rw [Keyspace.zrem_zsets_of_ne member hkey]
      exact hv
  unfold Holds
  rw [Keyspace.zrem_lists]
  exact h.imp_right (Or.imp (hset _) (hset _))

theorem lpop (h : T.Holds queue k value) {key : Str} (hkey : T.ready queue ≠ key) : T.Holds queue (k.lpop key).2 value := by
  unfold Holds Keyspace.members
  rw [Keyspace.lpop_zsets, Keyspace.lpop_lists_of_ne hkey]
  exact h

/-- A migrated member is on the ready list. -/
theorem migrate (h : T.Holds queue k value) {source : Str} (hk : k.Ordered source) (now : Int) (batch : Option Nat) :
    T.Holds queue (Redis.migrateScript source (T.ready queue) (T.notify queue) now batch k) value := by
  obtain ⟨hready, -, -, hdue, hrest, hother⟩ := Redis.migrate_spec hk (notify_ne_ready (T := T) queue) now batch
  have hset : ∀ key, value ∈ k.members key →
      value ∈ (Redis.migrateScript source (T.ready queue) (T.notify queue) now batch k).lists (T.ready queue) ∨
        value ∈ (Redis.migrateScript source (T.ready queue) (T.notify queue) now batch k).members key := by
    intro key hv
    by_cases hkey : key = source
    · subst hkey
      rw [Keyspace.members, ← List.take_append_drop (k.zrangebyscore key now batch).length (k.zsets key), List.map_append, hdue] at hv
      rw [hready, Keyspace.members, hrest]
      exact (List.mem_append.mp hv).imp_left (List.mem_append_right _)
    · rw [Keyspace.members, hother key hkey]
      exact .inr hv
  rcases h with hv | hv | hv
  · exact .inl (hready ▸ List.mem_append_left _ hv)
  · exact (hset _ hv).imp_right .inl
  · exact (hset _ hv).imp_right .inr

end Holds

/-- The message is there. -/
def Present (T : RedisTransport) (ident : Bytes → ι) (queue : Str) (k : Keyspace) (i : ι) : Prop :=
  ∃ value, ident value = i ∧ T.Holds queue k value

/-- One script of a worker on `queue`, at whatever time its clock shows. The body that a worker hands back is of the
message it was given. -/
inductive ZsetStep (T : RedisTransport) (ident : Bytes → ι) (queue : Str) : Keyspace × Tracked ι → Keyspace × Tracked ι → Prop
  | publish (body : Bytes) (k : Keyspace) (g : Tracked ι) :
    ZsetStep T ident queue (k, g) (Redis.pushScript (T.ready queue) (T.notify queue) body k,
      { g with published := insert (ident body) g.published })
  | publishDelayed (body : Bytes) (available : Int) (k : Keyspace) (g : Tracked ι) :
    ZsetStep T ident queue (k, g) (k.zadd (T.delayed queue) available body,
      { g with published := insert (ident body) g.published })
  | pop (score : Keyspace.Score) (k : Keyspace) (g : Tracked ι) :
    ZsetStep T ident queue (k, g)
      ((Redis.popScript T.advance (T.ready queue) (T.reserved queue) (T.notify queue) score k).2, g)
  | ack (member : Bytes) (k : Keyspace) (g : Tracked ι) :
    ZsetStep T ident queue (k, g) ((k.zrem (T.reserved queue) member).2,
      if k.hasMember (T.reserved queue) member then { g with settled := insert (ident member) g.settled } else g)
  | release {member body : Bytes} (hsame : ident body = ident member) (available : Int) (k : Keyspace) (g : Tracked ι) :
    ZsetStep T ident queue (k, g) (Redis.releaseScript (T.delayed queue) (T.reserved queue) member body available k, g)
  | deadLetter (target : Str) (member body : Bytes) (k : Keyspace) (g : Tracked ι) :
    ZsetStep T ident queue (k, g) ((Redis.deadLetterScript (T.reserved queue) (T.ready target) (T.notify target) member body k).2,
      if k.hasMember (T.reserved queue) member then { g with settled := insert (ident member) g.settled } else g)
  | migrate {source : Str} (hsource : source = T.delayed queue ∨ source = T.reserved queue) (now : Int) (batch : Option Nat)
    (k : Keyspace) (g : Tracked ι) :
    ZsetStep T ident queue (k, g) (Redis.migrateScript source (T.ready queue) (T.notify queue) now batch k, g)
  /-- Whatever is done with other keys. -/
  | other {k k' : Keyspace} {g : Tracked ι} (hready : k'.lists (T.ready queue) = k.lists (T.ready queue))
    (hdelayed : k'.zsets (T.delayed queue) = k.zsets (T.delayed queue))
    (hreserved : k'.zsets (T.reserved queue) = k.zsets (T.reserved queue)) : ZsetStep T ident queue (k, g) (k', g)

/-- What each step keeps: the sets are in order, and a message that is not settled is there. -/
structure Keeps (T : RedisTransport) (ident : Bytes → ι) (queue : Str) (k : Keyspace) (g : Tracked ι) : Prop where
  delayed : k.Ordered (T.delayed queue)
  reserved : k.Ordered (T.reserved queue)
  present : ∀ i ∈ g.published, i ∈ g.settled ∨ T.Present ident queue k i

namespace Keeps

theorem empty (T : RedisTransport) (ident : Bytes → ι) (queue : Str) : Keeps T ident queue .empty ⟨∅, ∅⟩ :=
  ⟨.empty _, .empty _, fun _ hi => absurd hi (Set.notMem_empty _)⟩

/-- What is still there, or is replaced by a value of the same message, is present. -/
theorem moved (h : Keeps T ident queue k g) (hdelayed : k'.Ordered (T.delayed queue)) (hreserved : k'.Ordered (T.reserved queue))
    (hholds : ∀ value, T.Holds queue k value → ident value ∈ g.settled ∨ T.Present ident queue k' (ident value)) :
    Keeps T ident queue k' g := by
  refine ⟨hdelayed, hreserved, fun i hi => ?_⟩
  rcases h.present i hi with hsettled | ⟨value, rfl, hvalue⟩
  · exact .inl hsettled
  · exact hholds value hvalue

theorem publish (h : Keeps T ident queue k g) {body : Bytes} (hbody : T.Holds queue k body) :
    Keeps T ident queue k { g with published := insert (ident body) g.published } := by
  refine ⟨h.delayed, h.reserved, fun i hi => ?_⟩
  rcases Set.mem_insert_iff.mp hi with rfl | hi
  · exact .inr ⟨body, rfl, hbody⟩
  · exact h.present i hi

theorem settle (h : Keeps T ident queue k g) (i : ι) : Keeps T ident queue k { g with settled := insert i g.settled } :=
  ⟨h.delayed, h.reserved, fun j hj => (h.present j hj).imp_left (Set.mem_insert_of_mem i)⟩

end Keeps

/-- A message loses its place to a value of its own, or is settled. -/
theorem ZsetStep.keeps (hadvance : ∀ job member, T.advance job = some member → ident member = ident job)
    {p p' : Keyspace × Tracked ι} (hstep : ZsetStep T ident queue p p') (h : Keeps T ident queue p.1 p.2) :
    Keeps T ident queue p'.1 p'.2 := by
  cases hstep with
  | publish body k g =>
    unfold Redis.pushScript
    have hpushed : Keeps T ident queue ((k.rpush (T.ready queue) [body]).rpush (T.notify queue) [[49]]) g :=
      h.moved (h.delayed.congr rfl) (h.reserved.congr rfl) fun value hv => .inr ⟨value, rfl, (hv.rpush _ _).rpush _ _⟩
    exact hpushed.publish ((Holds.rpush_self rfl (List.mem_singleton_self body)).rpush _ _)
  | publishDelayed body available k g =>
    have hadded : Keeps T ident queue (k.zadd (T.delayed queue) available body) g :=
      h.moved (h.delayed.zadd _ _ _) (h.reserved.zadd _ _ _) fun value hv => .inr ⟨value, rfl, hv.zadd _ _ _⟩
    exact hadded.publish (.inr (.inl (Keyspace.mem_members_zadd.mpr (.inl rfl))))
  | pop score k g =>
    unfold Redis.popScript
    cases hlist : k.lists (T.ready queue) with
    | nil =>
      have hpop : k.lpop (T.ready queue) = (none, k) := by
        unfold Keyspace.lpop
        rw [hlist]
      rw [hpop]
      exact h
    | cons job rest =>
      have hpop : k.lpop (T.ready queue) = (some job, k.setList (T.ready queue) rest) := by
        unfold Keyspace.lpop
        rw [hlist]
      rw [hpop]
      dsimp only
      have hmember : ident ((T.advance job).getD job) = ident job := by
        cases ha : T.advance job with
        | none => rfl
        | some member => exact hadvance job member ha
      refine h.moved (((h.delayed.congr rfl).zadd _ _ _).congr (congrFun Keyspace.lpop_zsets _))
        (((h.reserved.congr rfl).zadd _ _ _).congr (congrFun Keyspace.lpop_zsets _)) fun value hv => .inr ?_
      by_cases hjob : value = job
      · refine ⟨_, hmember.trans (congrArg ident hjob.symm), Holds.lpop ?_ (notify_ne_ready queue)⟩
        exact .inr (.inr (Keyspace.mem_members_zadd.mpr (.inl rfl)))
      · refine ⟨value, rfl, Holds.lpop (Holds.zadd ?_ _ _ _) (notify_ne_ready queue)⟩
        refine hv.imp_left fun hready => ?_
        rw [hlist] at hready
        rw [Keyspace.setList_lists, if_pos rfl]
        exact (List.mem_cons.mp hready).resolve_left hjob
  | ack member k g =>
    split
    · refine (h.settle (ident member)).moved (h.delayed.zrem _ _) (h.reserved.zrem _ _) fun value hv => ?_
      by_cases hvalue : value = member
      · exact .inl (hvalue ▸ Set.mem_insert _ _)
      · exact .inr ⟨value, rfl, hv.zrem hvalue _⟩
    · next hm =>
      rw [Keyspace.zrem, if_neg hm]
      exact h
  | @release member body hsame available k g =>
    unfold Redis.releaseScript
    refine h.moved ((h.delayed.zrem _ _).zadd _ _ _) ((h.reserved.zrem _ _).zadd _ _ _) fun value hv => .inr ?_
    by_cases hvalue : value = member
    · exact ⟨body, hsame.trans (congrArg ident hvalue.symm), .inr (.inl (Keyspace.mem_members_zadd.mpr (.inl rfl)))⟩
    · exact ⟨value, rfl, (hv.zrem hvalue _).zadd _ _ _⟩
  | deadLetter target member body k g =>
    unfold Redis.deadLetterScript
    by_cases hm : k.hasMember (T.reserved queue) member = true
    · have hzrem : k.zrem (T.reserved queue) member = (true, (k.zrem (T.reserved queue) member).2) := by
        unfold Keyspace.zrem
        rw [if_pos hm]
      rw [if_pos hm, hzrem]
      refine (h.settle (ident member)).moved ((h.delayed.zrem (T.reserved queue) member).congr rfl)
        ((h.reserved.zrem (T.reserved queue) member).congr rfl) fun value hv => ?_
      by_cases hvalue : value = member
      · exact .inl (hvalue ▸ Set.mem_insert _ _)
      · exact .inr ⟨value, rfl, ((hv.zrem hvalue _).rpush _ _).rpush _ _⟩
    · rw [if_neg hm, Keyspace.zrem, if_neg hm]
      exact h
  | @migrate source hsource now batch k g =>
    have hordered : k.Ordered source := hsource.elim (· ▸ h.delayed) (· ▸ h.reserved)
    obtain ⟨-, -, -, -, hrest, hother⟩ := Redis.migrate_spec hordered (notify_ne_ready (T := T) queue) now batch
    have hset : ∀ key, k.Ordered key →
        (Redis.migrateScript source (T.ready queue) (T.notify queue) now batch k).Ordered key := by
      intro key hkey
      by_cases heq : key = source
      · subst heq
        refine (hkey.zremFirst key (k.zrangebyscore key now batch).length).congr ?_
        rw [hrest, Keyspace.zremFirst, Keyspace.setZset_zsets, if_pos rfl]
      · exact hkey.congr (hother key heq)
    exact h.moved (hset _ h.delayed) (hset _ h.reserved) fun value hv => .inr ⟨value, rfl, hv.migrate hordered now batch⟩
  | other hready hdelayed hreserved =>
    refine h.moved (h.delayed.congr hdelayed) (h.reserved.congr hreserved) fun value hv => .inr ⟨value, rfl, ?_⟩
    unfold Holds Keyspace.members
    rw [hready, hdelayed, hreserved]
    exact hv

theorem keeps_of_run (hadvance : ∀ job member, T.advance job = some member → ident member = ident job)
    {p p' : Keyspace × Tracked ι} (hrun : Relation.ReflTransGen (ZsetStep T ident queue) p p') (h : Keeps T ident queue p.1 p.2) :
    Keeps T ident queue p'.1 p'.2 := by
  induction hrun with
  | refl => exact h
  | tail _ hstep ih => exact hstep.keeps hadvance ih

/-- In the Laravel layout no interleaving of the scripts loses a message: until a live reservation of it is acked or
dead-lettered, a value of it is on the ready list or in a set. A migration moves exactly the members that it selected, in
order, with a token for each; without a batch, what stays is not due. -/
theorem zset_conserves (hadvance : ∀ job member, T.advance job = some member → ident member = ident job)
    (hrun : Relation.ReflTransGen (ZsetStep T ident queue) (.empty, ⟨∅, ∅⟩) (k, g)) :
    (∀ i ∈ g.published, i ∈ g.settled ∨ T.Present ident queue k i) ∧
    ∀ source, source = T.delayed queue ∨ source = T.reserved queue → ∀ now batch,
      (Redis.migrateScript source (T.ready queue) (T.notify queue) now batch k).lists (T.ready queue) =
        k.lists (T.ready queue) ++ k.zrangebyscore source now batch ∧
      (Redis.migrateScript source (T.ready queue) (T.notify queue) now batch k).lists (T.notify queue) =
        k.lists (T.notify queue) ++ List.replicate (k.zrangebyscore source now batch).length [49] ∧
      ∃ moved : List (Bytes × Keyspace.Score), moved.map Prod.fst = k.zrangebyscore source now batch ∧
        k.zsets source = moved ++ (Redis.migrateScript source (T.ready queue) (T.notify queue) now batch k).zsets source ∧
        (∀ key, key ≠ source → (Redis.migrateScript source (T.ready queue) (T.notify queue) now batch k).zsets key = k.zsets key) ∧
        (batch = none → ∀ entry ∈ (Redis.migrateScript source (T.ready queue) (T.notify queue) now batch k).zsets source,
          ¬ entry.2 ≤ (now : Keyspace.Score)) := by
  have h : Keeps T ident queue k g := keeps_of_run hadvance hrun (.empty T ident queue)
  refine ⟨h.present, fun source hsource now batch => ?_⟩
  have hordered : k.Ordered source := hsource.elim (· ▸ h.delayed) (· ▸ h.reserved)
  obtain ⟨hready, hnotify, -, hdue, hrest, hother⟩ := Redis.migrate_spec hordered (notify_ne_ready (T := T) queue) now batch
  refine ⟨hready, hnotify, _, hdue, ?_, hother, fun hbatch => ?_⟩
  · rw [hrest, List.take_append_drop]
  · subst hbatch
    rw [hrest]
    exact hordered.not_due now

/-- What a job is before and after the script of a pop. -/
def firstJob : Bytes := [123, 34, 97, 116, 116, 101, 109, 112, 116, 115, 34, 58, 48, 125]

def secondJob : Bytes := [123, 34, 97, 116, 116, 101, 109, 112, 116, 115, 34, 58, 49, 125]

/-- `RedisTransport(laravel_compat=True)`, whose script reads that job. -/
def laravelRedis : RedisTransport :=
  { legacyRedis with laravelCompat := true, advance := fun job => if job = firstJob then some secondJob else none }

/-- A job is published, popped by a worker that stops, and migrated back. -/
theorem zset_conserves_orders : ∃ k : Keyspace, k.lists (laravelRedis.ready orders) = [secondJob] ∧
    laravelRedis.Present (fun _ => ()) orders k () := by
  have hpublish : ZsetStep laravelRedis (fun _ => ()) orders (.empty, ⟨∅, ∅⟩) (_, _) := .publish firstJob .empty ⟨∅, ∅⟩
  have hrun := (Relation.ReflTransGen.single hpublish).tail (.pop ((90 : Int) : Keyspace.Score) _ _)
  have hrun := hrun.tail (.migrate (.inr rfl) 90 none _ _)
  refine ⟨_, ?_, ((zset_conserves (fun _ _ _ => rfl) hrun).1 () (Set.mem_insert _ _)).resolve_left (Set.notMem_empty _)⟩
  decide

/-! ## The methods of the transport -/

/-- `publish_delayed` -/
def publishDelayed (T : RedisTransport) (queue body : Str) (delay : Float64) : Act RedisServer Unit :=
  if T.laravelCompat then do
    let s ← Act.get
    let available ← Act.lift (availableAt s.now delay)
    let body ← Act.lift (encodeEscape body)
    run fun k => k.zadd (T.delayed queue) available body
  else Act.raise ⟨babelQueueError, str "publish_delayed needs the Laravel-compatible layout (laravel_compat=True); the legacy Redis layout has no delayed set."⟩

variable (ident)

theorem publish_scripted_zset (hT : T.laravelCompat = true) (body : Str) (s : RedisServer) (g : Tracked ι) :
    Scripted (ZsetStep T ident queue) (T.publish queue body) s g := by
  unfold publish
  refine .lift_bind fun bytes _ => ?_
  rw [if_pos hT]
  exact ⟨_, .single (.publish bytes s.keys g)⟩

theorem publishDelayed_scripted (hT : T.laravelCompat = true) (body : Str) (delay : Float64) (s : RedisServer) (g : Tracked ι) :
    Scripted (ZsetStep T ident queue) (T.publishDelayed queue body delay) s g := by
  unfold publishDelayed
  rw [if_pos hT]
  refine .get_bind (.lift_bind fun available _ => .lift_bind fun bytes _ => ?_)
  exact ⟨_, .single (.publishDelayed bytes available s.keys g)⟩

theorem ack_scripted_zset (hT : T.laravelCompat = true) (m : ReceivedMessage RedisHandle) (s : RedisServer) (g : Tracked ι) :
    Scripted (ZsetStep T ident m.queue) (T.ack m) s g := by
  unfold ack
  rw [if_pos hT]
  refine .lift_bind fun member _ => ?_
  exact ⟨_, .single (.ack member s.keys g)⟩

variable [Interpreter]

/-- A body of the message that was delivered. -/
def SameMessage (m : ReceivedMessage RedisHandle) (body : Str) : Prop :=
  ∀ member bytes, wireHandle m.handle = .ok member → encodeEscape body = .ok bytes → ident bytes = ident member

theorem redeliver_scripted_zset (hT : T.laravelCompat = true) {m : ReceivedMessage RedisHandle} {body : Str}
    (hsame : SameMessage ident m body) (delay : Float64) (s : RedisServer) (g : Tracked ι) :
    Scripted (ZsetStep T ident m.queue) (T.redeliver m body delay) s g := by
  unfold redeliver
  rw [if_pos hT]
  refine .lift_bind fun member hmember => .lift_bind fun bytes hbytes => .get_bind (.lift_bind fun available _ => ?_)
  exact ⟨_, .single (.release (hsame member bytes hmember hbytes) available s.keys g)⟩

theorem deadLetter_scripted_zset (hT : T.laravelCompat = true) (m : ReceivedMessage RedisHandle) (target body : Str) (s : RedisServer)
    (g : Tracked ι) : Scripted (ZsetStep T ident m.queue) (T.deadLetter m target body) s g := by
  unfold deadLetter writeDeadLetter
  rw [if_pos hT]
  refine .bind_pure _ (.lift_bind fun member _ => .lift_bind fun bytes _ => ?_)
  exact ⟨_, .single (.deadLetter target member bytes s.keys g)⟩

/-- A pop migrates what is due, and takes a job. -/
theorem popZset_scripted (s : RedisServer) (g : Tracked ι) : Scripted (ZsetStep T ident queue) (T.popZset queue) s g := by
  have hmigrate : Relation.ReflTransGen (ZsetStep T ident queue) (s.keys, g) (T.migrate queue s, g) := by
    have hdelayed := Relation.ReflTransGen.single
      (ZsetStep.migrate (T := T) (.inl rfl) s.now T.batch s.keys g : ZsetStep T ident queue _ _)
    unfold migrate
    dsimp only
    split
    · exact hdelayed.tail (.migrate (.inr rfl) s.now T.batch _ g)
    · exact hdelayed
  have hpop := hmigrate.tail (.pop (T.deadlineScore s.now) (T.migrate queue s) g)
  unfold Scripted popZset
  rw [Act.bind_run, Act.modify_run]
  dsimp only
  rw [Act.bind_run, Act.get_run]
  dsimp only
  rw [Act.bind_run]
  unfold eval
  dsimp only
  cases hrun : Redis.popScript T.advance (T.ready queue) (T.reserved queue) (T.notify queue) (T.deadlineScore s.now)
      (T.migrate queue s) with
  | mk r k =>
    rw [hrun] at hpop
    refine ⟨g, ?_⟩
    cases r with
    | none => exact hpop
    | some r =>
      dsimp only
      rw [Act.bind_run, Act.lift_run]
      cases zsetMessage queue (decodeEscape r.1) (decodeEscape r.2) <;> exact hpop

end RedisTransport

end BabelQueue
