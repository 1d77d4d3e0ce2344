import Mathlib.Data.List.DropRight
import BabelQueue.Py.Int
import BabelQueue.Py.Utf8
import BabelQueue.Py.Dict

/-!
# Kafka records and retry tiers

What `KafkaTransport` and `RetryReinjector` share: records as the client gives them, the names of
the retry topics, and the tiers.

* `Tiers`: the delays of the retry topics in milliseconds. `validatedTiers` checks them.
* `retryTopic work n`: the topic of tier `n`. `tierMs` reads the tier back (`tierMs_retryTopic`).
-/

namespace BabelQueue.Kafka

open Py

/-- A header key or value, text or bytes. -/
inductive HeaderText
  | text (s : Str)
  | bytes (b : Bytes)
  deriving DecidableEq

/-- As text, with U+FFFD for what is no UTF-8. -/
def HeaderText.decode : HeaderText → Str
  | text s => s
  | bytes b => Utf8.decodeReplace b

/-- The headers of a record; `None` is the empty list. -/
abbrev Headers := List (HeaderText × Option HeaderText)

structure TopicPartition where
  topic : Str
  partition : Int
  deriving DecidableEq

/-- A record as the client gives it. -/
structure Message where
  place : TopicPartition
  offset : Int
  value : Option Bytes
  key : Option Bytes
  headers : Headers
  /-- The type of the timestamp and its milliseconds; `none` when `timestamp()` raises. -/
  timestamp : Option (Int × Option Int)
  deriving DecidableEq

/-- The text of the first header with the name (`_header`, `_header_value`). -/
def headerValue (wanted : Str) : Headers → Option Str
  | [] => none
  | (key, value) :: headers => if key.decode = wanted then value.map HeaderText.decode else headerValue wanted headers

def delayHeader : Str := str "bq-delay"

def originalTopicHeader : Str := str "bq-original-topic"

/-- `retry_topic` -/
def retryTopic (workTopic : Str) (n : Nat) : Str := workTopic ++ str ".retry." ++ intText n

/-! ## Tiers -/

/-- Positive milliseconds, strictly ascending. -/
structure Tiers where
  ms : List Int
  positive : ∀ tier ∈ ms, 0 < tier
  ascending : ms.Pairwise (· < ·)

/-- `repr` of a list of integers. -/
def intsRepr (tiers : List Int) : Str := str "[" ++ (str ", ").intercalate (tiers.map intText) ++ str "]"

/-- The loop of `_validated_tiers`; `out` are the tiers so far. -/
def validateFrom (tiers : List Int) : List Int → List Int → Except PyExc (List Int)
  | out, [] => .ok out
  | out, tier :: rest =>
    if tier ≤ 0 then
      .error ⟨.valueError, str "retry_tiers_ms must hold positive integer milliseconds, got " ++ intText tier⟩
    else if out.getLast?.any (tier ≤ ·) then
      .error ⟨.valueError, str "retry_tiers_ms must be strictly ascending, got " ++ intsRepr tiers⟩
    else validateFrom tiers (out ++ [tier]) rest

/-- `_validated_tiers` -/
def validatedTiers : Option (List Int) → Except PyExc (List Int)
  | none => .ok []
  | some tiers => validateFrom tiers [] tiers

theorem validateFrom_ok {tiers out rest l : List Int} :
    validateFrom tiers out rest = .ok l ↔
      l = out ++ rest ∧ (∀ tier ∈ rest, 0 < tier) ∧ (out.getLast?.toList ++ rest).IsChain (· < ·) := by
  induction rest generalizing out with
  | nil =>
    rw [validateFrom]
    cases out.getLast? <;> simp [eq_comm]
  | cons tier rest ih =>
    have hlast : (out ++ [tier]).getLast?.toList ++ rest = tier :: rest := by simp
    rw [validateFrom]
    split
    · next h => exact iff_of_false (by simp) fun hl => absurd (hl.2.1 tier List.mem_cons_self) (by omega)
    · next h =>
      cases hout : out.getLast? with
      | none =>
        rw [if_neg (by simp), ih, hlast]
        simp [show 0 < tier by omega]
      | some last =>
        by_cases hle : tier ≤ last
        · rw [if_pos (by simpa using hle)]
          exact iff_of_false (by simp) fun hl => absurd hl.2.2 (by simp [List.isChain_cons_cons]; omega)
        · rw [if_neg (by simpa using hle), ih, hlast]
          simp [show 0 < tier by omega, show last < tier by omega, List.isChain_cons_cons]

/-- The check passes on positive, strictly ascending tiers. -/
theorem validatedTiers_some {tiers out : List Int} :
    validatedTiers (some tiers) = .ok out ↔ out = tiers ∧ (∀ tier ∈ tiers, 0 < tier) ∧ tiers.Pairwise (· < ·) := by
  rw [validatedTiers, validateFrom_ok]
  simp [List.isChain_iff_pairwise]

/-- The tiers of a transport made with `retry_tiers_ms`. -/
def Tiers.of : Option (List Int) → Except PyExc Tiers
  | none => .ok ⟨[], by simp, .nil⟩
  | some tiers =>
    match h : validatedTiers (some tiers) with
    | .ok _ => .ok ⟨tiers, (validatedTiers_some.mp h).2.1, (validatedTiers_some.mp h).2.2⟩
    | .error e => .error e

/-! ## The topic of a tier -/

/-- The match of `^(?P<work>.+)\.retry\.(?P<n>[0-9]+)$`: `work` and `n`. A `$` may stand before a last
newline, and `.` is no newline. -/
def retryTopicMatch (topic : Str) : Option (Str × Str) :=
  let line := if topic.getLast? = some (cp '\n') then topic.dropLast else topic
  let n := line.rtakeWhile isDigit
  let rest := line.rdropWhile isDigit
  let work := rest.rdrop (str ".retry.").length
  if str ".retry." <:+ rest ∧ n ≠ [] ∧ work ≠ [] ∧ cp '\n' ∉ work then some (work, n) else none

/-- `_tier_ms`: the delay of the tier that the topic names. -/
def Tiers.tierMs (tiers : Tiers) (topic : Str) : Except PyExc (Option Int) :=
  match retryTopicMatch topic with
  | none => .ok none
  | some (_, digits) =>
    if digits.length ≤ maxStrDigits then
      let n := natOfDigits digits
      .ok (if 1 ≤ n then tiers.ms[n - 1]? else none)
    else .error ⟨.valueError, str "Exceeds the limit (4300 digits) for integer string conversion"⟩

/-- A letter, a digit, `.`, `_` or `-`. -/
def isTopicChar (c : CodePoint) : Bool :=
  isDigit c || (97 ≤ c.val && c.val ≤ 122) || (65 ≤ c.val && c.val ≤ 90) || c ∈ str "._-"

/-- A name that a Kafka topic can have. -/
structure TopicName (topic : Str) : Prop where
  ne_nil : topic ≠ []
  length_le : topic.length ≤ 249
  chars : ∀ c ∈ topic, isTopicChar c = true

theorem TopicName.no_newline {topic : Str} (h : TopicName topic) : cp '\n' ∉ topic := fun hc =>
  absurd (h.chars _ hc) (by decide)

theorem retryTopicMatch_retryTopic {work : Str} (h : TopicName work) (n : Nat) :
    retryTopicMatch (retryTopic work n) = some (work, digits n) := by
  have hdigits : ∀ c ∈ digits n, isDigit c = true := fun c hc => isDigit_of_mem_digits hc
  have htext : retryTopic work n = work ++ str ".retry." ++ digits n := rfl
  have hdot : ∀ l : Str, (l ++ str ".retry.").reverse = cp '.' :: (l ++ str ".retry").reverse := by
    intro l
    simp [str]
  have htake : (retryTopic work n).rtakeWhile isDigit = digits n := by
    rw [htext, List.rtakeWhile, List.reverse_append, List.takeWhile_append_of_pos (by simpa using hdigits), hdot,
      List.takeWhile_cons_of_neg (by decide), List.append_nil, List.reverse_reverse]
  have hdrop : (retryTopic work n).rdropWhile isDigit = work ++ str ".retry." := by
    rw [htext, List.rdropWhile, List.reverse_append, List.dropWhile_append_of_pos (by simpa using hdigits), hdot,
      List.dropWhile_cons_of_neg (by decide), ← hdot, List.reverse_reverse]
  have hline : (retryTopic work n).getLast? ≠ some (cp '\n') := by
    rw [htext, List.getLast?_append_of_ne_nil _ (digits_ne_nil n)]
    intro hlast
    have := hdigits _ (List.mem_of_getLast? hlast)
    exact absurd this (by decide)
  have hwork : (work ++ str ".retry.").rdrop (str ".retry.").length = work := by simp [List.rdrop]
  unfold retryTopicMatch
  simp only [if_neg hline, htake, hdrop, hwork]
  rw [if_pos ⟨List.suffix_append _ _, digits_ne_nil n, h.ne_nil, h.no_newline⟩]

/-- The topic of a tier names the tier's delay. -/
theorem Tiers.tierMs_retryTopic (tiers : Tiers) {work : Str} (h : TopicName work) {n : Nat} (hn : n < tiers.ms.length)
    (ht : TopicName (retryTopic work (n + 1))) : tiers.tierMs (retryTopic work (n + 1)) = .ok (some tiers.ms[n]) := by
  have hdigits : (digits (n + 1)).length ≤ maxStrDigits := by
    have := ht.length_le
    simp only [retryTopic, intText, List.length_append] at this
    exact le_trans (by omega) (show 249 ≤ maxStrDigits by decide)
  simp [Tiers.tierMs, retryTopicMatch_retryTopic h, hdigits, natOfDigits_digits, hn]

end BabelQueue.Kafka
