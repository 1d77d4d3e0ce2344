import BabelQueue.Gdpr.Paths

/-!
# `unprotect` after `protect`

* `Cipher.Lawful`: what a cipher must do.
* `protect_returns`: `protect` seals the values on the paths that are read.
* `protect_roundTrips`: the data is back exactly when no path leads to a string inside what another
  path seals. `protect` seals the outer value only, and `unprotect` opens it and then takes the
  string for a ciphertext.
-/

namespace BabelQueue

open Py Py.Json

/-- What a cipher must do: a ciphertext can be part of a document, it is opened to the bytes it was
made from, and any other string raises. -/
structure Cipher.Lawful {σ : Type} (cipher : Cipher σ) : Prop where
  returns : ∀ x s, ∃ c s', cipher.encrypt x s = (.ok c, s')
  jsonSafe : ∀ {x s c s'}, cipher.encrypt x s = (.ok c, s') → JoinedStr c
  opens : ∀ {x s c s'}, cipher.encrypt x s = (.ok c, s') → ∀ t, ∃ t', cipher.decrypt c t = (.ok x, t')
  raises : ∀ {c}, (∀ x s s', cipher.encrypt x s ≠ (.ok c, s')) →
    ∀ s, ∃ e s', cipher.decrypt c s = (.error e, s') ∧ e.isException = true

section

variable [Interpreter] {σ : Type} {cipher : Cipher σ}

/-! ## One value -/

theorem encryptLeaf_eq {v : Json} {text : Str} {x : Bytes} (ht : dumpsCanonical v = .ok text)
    (hx : Utf8.encodeStrict text = .ok x) :
    encryptLeaf cipher v = cipher.encrypt x >>= fun c => pure (some (.str c)) := by
  funext s
  unfold encryptLeaf
  rw [ht]
  refine (Act.bind_run_ok (Act.lift_run _ s)).trans ?_
  rw [hx]
  exact Act.bind_run_ok (Act.lift_run _ s)

/-- What encryption makes of a value. -/
theorem applyLeaf_encrypt {v : Json} {text : Str} {x : Bytes} (ht : dumpsCanonical v = .ok text)
    (hx : Utf8.encodeStrict text = .ok x) {s s' : σ} {w : Json} :
    applyLeaf (encryptLeaf cipher) (s, v) = (.ok (), (s', w)) ↔ ∃ c, cipher.encrypt x s = (.ok c, s') ∧ w = .str c := by
  rw [applyLeaf_eq_ok, encryptLeaf_eq ht hx, Act.bind_run]
  rcases cipher.encrypt x s with ⟨_ | c, t⟩ <;> simp [eq_comm, and_comm]

/-- A ciphertext is opened to what its plaintext denotes. -/
theorem applyLeaf_decrypt {c : Str} {s s' : σ} {x : Bytes} {u : Json} (hc : cipher.decrypt c s = (.ok x, s'))
    (hu : loadsBytes x = .ok u) : applyLeaf (decryptLeaf cipher) (s, .str c) = (.ok (), (s', u)) := by
  refine applyLeaf_eq_ok.mpr (.inl ?_)
  unfold decryptLeaf
  refine (Act.bind_run_ok (Act.tryExcept_run_ok hc)).trans ?_
  rw [hu]
  rfl

theorem applyLeaf_decrypt_raises {c : Str} {s s' : σ} {e : PyExc} (hc : cipher.decrypt c s = (.error e, s'))
    (he : e.isException = true) {t : σ} {w : Json} : applyLeaf (decryptLeaf cipher) (s, .str c) ≠ (.ok (), (t, w)) := by
  have hrun : decryptLeaf cipher (.str c) s =
      (.error ⟨decryptError, str "cannot decrypt a protected field: " ++ e.msg⟩, s') := by
    unfold decryptLeaf
    refine Act.bind_run_error ?_
    rw [Act.tryExcept_run_error hc, isAny_exception, if_pos he]
    rfl
  intro h
  rcases applyLeaf_eq_ok.mp h with h | ⟨h, -⟩ <;> (rw [hrun] at h; cases h)

theorem applyLeaf_decrypt_other {v : Json} (hv : ∀ t, v ≠ .str t) (s : σ) :
    applyLeaf (decryptLeaf cipher) (s, v) = (.ok (), (s, v)) := by
  cases v with
  | str t => exact absurd rfl (hv t)
  | _ => rfl

/-- Encryption makes `w` of `v`, in some state. -/
def Sealed (cipher : Cipher σ) (v w : Json) : Prop :=
  Clear Interpreter.maxDepth v ∧ ∃ s s', applyLeaf (encryptLeaf cipher) (s, v) = (.ok (), (s', w))

/-- Decryption makes `w` of `v`, in every state. -/
def Opened (cipher : Cipher σ) (v w : Json) : Prop := ∀ s, ∃ s', applyLeaf (decryptLeaf cipher) (s, v) = (.ok (), (s', w))

theorem Sealed.ciphertext {v w : Json} (h : Sealed cipher v w) :
    ∃ x c s s', loadsBytes x = .ok (sortKeys v) ∧ cipher.encrypt x s = (.ok c, s') ∧ w = .str c := by
  obtain ⟨hv, s, s', h⟩ := h
  obtain ⟨text, x, ht, hx, hl⟩ := loadsBytes_canonical hv.writable hv.proper hv.joined
  obtain ⟨c, hc, rfl⟩ := (applyLeaf_encrypt ht hx).mp h
  exact ⟨x, c, s, s', hl, hc, rfl⟩

theorem Opened.unique [Nonempty σ] {v w w' : Json} (h : Opened cipher v w) (h' : Opened cipher v w') : w = w' := by
  obtain ⟨s⟩ := ‹Nonempty σ›
  obtain ⟨t, ht⟩ := h s
  obtain ⟨t', ht'⟩ := h' s
  rw [ht] at ht'
  cases ht'
  rfl

theorem Sealed.opened (hl : cipher.Lawful) {v w : Json} (h : Sealed cipher v w) : Opened cipher w (sortKeys v) := by
  obtain ⟨x, c, s, s', hx, hc, rfl⟩ := h.ciphertext
  intro t
  obtain ⟨t', ht⟩ := hl.opens hc t
  exact ⟨t', applyLeaf_decrypt ht hx⟩

theorem opens_of_lawful [Nonempty σ] (hl : cipher.Lawful) : Opens (Sealed cipher) (Opened cipher) where
  seals h := by
    obtain ⟨_, c, _, _, _, _, hc⟩ := h.ciphertext
    exact ⟨c, hc⟩
  opens h := ⟨_, h.opened hl⟩
  restores h ho := by
    rw [ho.unique (h.opened hl)]
    exact same_sortKeys h.1.proper
  keeps hv s := ⟨s, applyLeaf_decrypt_other hv s⟩
  only h hv := h.unique fun s => ⟨s, applyLeaf_decrypt_other hv s⟩

/-! ## The walks -/

theorem closed_clear : Closed fun n v => n ≤ Interpreter.maxDepth ∧ Clear n v where
  member := by
    rintro n d k v ⟨hn, h⟩ hv
    obtain ⟨m, rfl, -⟩ := writable_obj.mp h.writable
    exact ⟨m, ⟨by omega, h.get? hv⟩, fun w hw => ⟨hn, h.set hv hw.2⟩⟩
  items := by
    rintro n vs ⟨hn, h⟩
    obtain ⟨m, rfl, hvs⟩ := clear_arr.mp h
    exact ⟨m, fun v hv => ⟨by omega, hvs v hv⟩, fun ws hws => ⟨hn, clear_arr.mpr ⟨m, rfl, fun w hw => (hws w hw).2⟩⟩⟩

theorem returns_encrypt (hl : cipher.Lawful) :
    ReturnsOn (fun n v => n ≤ Interpreter.maxDepth ∧ Clear n v) (Sealed cipher) (applyLeaf (encryptLeaf cipher)) := by
  rintro n s v ⟨hn, hv⟩
  have hv := hv.mono hn
  obtain ⟨text, x, ht, hx, -⟩ := loadsBytes_canonical hv.writable hv.proper hv.joined
  obtain ⟨c, s', hc⟩ := hl.returns x s
  have hrun := (applyLeaf_encrypt ht hx).mpr ⟨c, hc, rfl⟩
  exact ⟨s', .str c, hrun, ⟨hn, clear_str (hl.jsonSafe hc)⟩, hv, s, s', hrun⟩

/-- `protect` seals the values on the paths. -/
theorem protect_returns (hl : cipher.Lawful) (schema : Json) {v : Json} (hv : Clear Interpreter.maxDepth v) (s : σ) :
    ∃ s' w, protect cipher schema (s, v) = (.ok (), (s', w)) ∧ VisitsAll (Sealed cipher) (readPaths schema) v w := by
  obtain ⟨s', w, hrun, -, hw⟩ := walk_returns closed_clear (returns_encrypt hl) _ s v ⟨le_refl _, hv⟩
  exact ⟨s', w, hrun, hw⟩

end

/-! ## A cipher with long ciphertexts -/

/-- A cipher that writes each byte as a character, after `n` zeros. -/
def byteCipher (n : Nat) : Cipher Unit where
  encrypt x := pure (List.replicate n (cp '0') ++ x.map fun b => Fin.castLE (by decide) b)
  decrypt c :=
    if List.replicate n (cp '0') <+: c ∧ (c.drop n).all fun x => x.val < 256 then
      pure ((c.drop n).map fun x => Fin.ofNat _ x.val)
    else Act.raise ⟨.valueError, str "not a ciphertext"⟩

theorem byteCipher_lt {n : Nat} {x : Bytes} :
    ∀ c ∈ List.replicate n (cp '0') ++ x.map fun b => (Fin.castLE (by decide) b : CodePoint), c.val < 256 := by
  intro c hc
  rcases List.mem_append.mp hc with hc | hc
  · rw [List.eq_of_mem_replicate hc]
    decide
  · obtain ⟨b, -, rfl⟩ := List.mem_map.mp hc
    exact b.isLt

theorem byteCipher_lawful (n : Nat) : (byteCipher n).Lawful where
  returns x s := ⟨_, s, rfl⟩
  jsonSafe := by
    rintro x s c s' h
    cases h
    refine joinedStr_of_noSurrogate fun c hc => ?_
    have := byteCipher_lt c hc
    simp only [isSurrogate, Bool.and_eq_false_iff, decide_eq_false_iff_not]
    omega
  opens := by
    rintro x s c s' h t
    cases h
    have hdrop : (List.replicate n (cp '0') ++ x.map fun b => (Fin.castLE (by decide) b : CodePoint)).drop n =
        x.map fun b => Fin.castLE (by decide) b := List.drop_left' List.length_replicate
    refine ⟨t, (congrFun (if_pos ⟨List.prefix_append _ _, ?_⟩) t).trans ?_⟩
    · rw [hdrop, List.map_map]
      exact congrArg (fun y => (Except.ok y, t)) ((List.map_congr_left fun b _ => by simp).trans (List.map_id x))
    · rw [List.all_eq_true]
      exact fun c hc => decide_eq_true (byteCipher_lt c (List.mem_of_mem_drop hc))
  raises := by
    intro c h s
    refine ⟨⟨.valueError, str "not a ciphertext"⟩, s, congrFun (if_neg ?_) s, by decide⟩
    rintro ⟨⟨rest, rfl⟩, hlt⟩
    rw [List.drop_left' List.length_replicate, List.all_eq_true] at hlt
    refine h (rest.map fun x => Fin.ofNat _ x.val) s s (congrArg (fun y => (Except.ok y, s)) (congrArg _ ?_))
    rw [List.map_map]
    refine (List.map_congr_left fun x hx => ?_).trans (List.map_id rest)
    simp [Nat.mod_eq_of_lt (of_decide_eq_true (hlt x hx))]

/-! ## The round trip -/

section

variable [Interpreter]

/-- What is protected with a lawful cipher is unprotected to the same data, in whatever state the two calls start. -/
def RoundTrips (schema : Json) (data : Dict Json) : Prop :=
  ∀ (σ : Type) (cipher : Cipher σ), cipher.Lawful → ∀ s t, ∃ s' out t' restored,
    protect cipher schema (s, .obj data) = (.ok (), (s', out)) ∧
    unprotect cipher schema (t, out) = (.ok (), (t', restored)) ∧ Same (.obj data) restored

/-- A path leads to a string inside what another path leads to. -/
def StringInside (schema : Json) (data : Dict Json) : Prop :=
  ∃ p ∈ readPaths schema, ∃ q ∈ readPaths schema, p <+: q ∧ p ≠ q ∧ ∃ t, .str t ∈ valuesAt q (.obj data)

theorem roundTrips_of_not_inside {schema : Json} {data : Dict Json} (hv : Clear Interpreter.maxDepth (.obj data))
    (h : ¬ StringInside schema data) : RoundTrips schema data := by
  intro σ cipher hl s t
  have : Nonempty σ := ⟨s⟩
  obtain ⟨s', out, hrun, hsealed⟩ := protect_returns hl schema hv s
  obtain ⟨restored, hopened, hsame⟩ := visitsAll_undo (opens_of_lawful hl) (readPaths_prefixFirst schema) hv.proper hsealed
    fun p hp q hq hpq hne x hx => h ⟨p, hp, q, hq, hpq, hne, x, hx⟩
  have hun : ∃ t', unprotect cipher schema (t, out) = (.ok (), (t', restored)) := walk_run (fun _ _ hD => hD) hopened t
  obtain ⟨t', hun⟩ := hun
  exact ⟨s', out, t', restored, hrun, hun, hsame⟩

/-- A string that is no longer than the zeros is no ciphertext. -/
theorem byteCipher_not_opened {n : Nat} {t : Str} (ht : t.length < n) (w : Json) : ¬ Opened (byteCipher n) (.str t) w := by
  intro h
  obtain ⟨s', hs⟩ := h ()
  have hno : ¬ (List.replicate n (cp '0') <+: t ∧ (t.drop n).all (fun x => x.val < 256) = true) := by
    rintro ⟨hpre, -⟩
    have := hpre.length_le
    rw [List.length_replicate] at this
    omega
  have hraise : (byteCipher n).decrypt t () = (.error ⟨.valueError, str "not a ciphertext"⟩, ()) :=
    congrFun (if_neg hno) ()
  exact applyLeaf_decrypt_raises hraise (by decide) hs

theorem not_inside_of_roundTrips {schema : Json} {data : Dict Json} (hv : Clear Interpreter.maxDepth (.obj data))
    (h : RoundTrips schema data) : ¬ StringInside schema data := by
  rintro ⟨p, hp, q, hq, hpq, hne, t, ht⟩
  have hl := byteCipher_lawful (t.length + 1)
  obtain ⟨s', out, t', restored, hrun, hun, -⟩ := h Unit _ hl () ()
  obtain ⟨s'', out', hrun', hsealed⟩ := protect_returns hl schema hv ()
  cases hrun.symm.trans hrun'
  have hopened : VisitsAll (Opened (byteCipher (t.length + 1))) (readPaths schema) out restored :=
    walk_visits (fun _ _ s' _ hD _ => ⟨s', hD⟩) hun
  exact visitsAll_blocked (opens_of_lawful hl) (byteCipher_not_opened (Nat.lt_succ_self _)) (readPaths_prefixFirst schema)
    hsealed hopened hp hq hpq hne ht

/-- The data is back exactly when no path leads to a string inside what another path seals. -/
theorem protect_roundTrips {schema : Json} {data : Dict Json} (h : IsJson (.obj data)) :
    RoundTrips schema data ↔ ¬ StringInside schema data := by
  have hv := isJson_iff.mp h
  exact ⟨not_inside_of_roundTrips hv, roundTrips_of_not_inside hv⟩

end

section CPython

attribute [local instance] cpython

/-- A node with a mark. -/
def sensitiveNode (members : Dict Json) : Json := .obj ((str "x-gdpr-sensitive", .bool true) :: members)

/-- A marked property. -/
def emailSchema : Json := .obj [(str "properties", .obj [(str "email", sensitiveNode [])])]

theorem protect_roundTrips_email : RoundTrips emailSchema [(str "email", .str (str "a@b"))] := by
  have hclear : Clear 1 (.obj [(str "email", .str (str "a@b"))]) :=
    clear_obj_singleton (joinedStr_of_all (by decide)) (clear_str (joinedStr_of_all (by decide)))
  refine (protect_roundTrips (isJson_iff.mpr (hclear.mono (by decide)))).mpr ?_
  have hpaths : readPaths emailSchema = [[.key (str "email")]] := by decide +kernel
  rintro ⟨p, hp, q, hq, -, hne, -⟩
  rw [hpaths, List.mem_singleton] at hp hq
  exact hne (hp.trans hq.symm)

/-- A marked property of a marked property. -/
def profileSchema : Json :=
  .obj [(str "properties", .obj [(str "profile",
    sensitiveNode [(str "properties", .obj [(str "name", sensitiveNode [])])])])]

def profileData : Dict Json := [(str "profile", .obj [(str "name", .str (str "Alice"))])]

/-- The name in the opened profile is taken for a ciphertext. -/
theorem protect_profile_not_back : ¬ RoundTrips profileSchema profileData := by
  intro h
  have hraises : (match protect (byteCipher 1) profileSchema ((), .obj profileData) with
      | (_, (_, out)) => (unprotect (byteCipher 1) profileSchema ((), out)).1.toBool) = false := by decide +kernel
  obtain ⟨s', out, t', restored, hrun, hun, -⟩ := h Unit _ (byteCipher_lawful 1) () ()
  simp only [hrun, hun] at hraises
  cases hraises

end CPython

end BabelQueue
