import BabelQueue.Gdpr.Walk
import BabelQueue.Py.Json.Path.Undo

/-!
# Marked locations and the paths that are read

A location is a path of steps into `data`; it is written as a string (`render`) and read back
(`readPath`).

* `marks schema`: the marked locations; `mem_marks_iff`: what it is to be one.
* `mem_readPaths`: a walk visits the locations as they are read back.
* `readPath_render`: a location with plain names is read back as itself.
* `readPaths_prefixFirst`: a container comes before what is in it.
-/

namespace BabelQueue

open Py Py.Json

/-! ## Marked locations -/

mutual

/-- The locations that a schema marks. -/
def marks : Json → List Path
  | .obj schema => (gdprMark schema).toList.map (fun _ => []) ++ marksProperties schema ++ marksItems schema
  | _ => []

def marksProperties : List (Str × Json) → List Path
  | [] => []
  | (key, value) :: schema =>
    if key = str "properties" then
      match value with
      | .obj properties => marksEach properties
      | _ => []
    else marksProperties schema

def marksEach : List (Str × Json) → List Path
  | [] => []
  | (name, sub) :: properties => (marks sub).map (.key name :: ·) ++ marksEach properties

def marksItems : List (Str × Json) → List Path
  | [] => []
  | (key, value) :: schema =>
    if key = str "items" then
      match value with
      | .obj items => (marks (.obj items)).map (.items :: ·)
      | _ => []
    else marksItems schema

end

/-- `p` leads to a marked node. -/
inductive Marked : Json → Path → Prop
  | here {schema : Dict Json} : (gdprMark schema).isSome → Marked (.obj schema) []
  | property {schema properties : Dict Json} {name : Str} {sub : Json} {p : Path} :
      schema.get? (str "properties") = some (.obj properties) → (name, sub) ∈ properties → Marked sub p →
      Marked (.obj schema) (.key name :: p)
  | items {schema items : Dict Json} {p : Path} :
      schema.get? (str "items") = some (.obj items) → Marked (.obj items) p → Marked (.obj schema) (.items :: p)

theorem mem_marksEach {properties : List (Str × Json)} {p : Path} :
    p ∈ marksEach properties ↔ ∃ m ∈ properties, ∃ q ∈ marks m.2, p = .key m.1 :: q := by
  induction properties with
  | nil => simp [marksEach]
  | cons m properties ih =>
    obtain ⟨name, sub⟩ := m
    simp only [marksEach, List.mem_append, List.mem_map, ih, List.mem_cons, exists_eq_or_imp, eq_comm (a := p)]

theorem mem_marksProperties {schema : Dict Json} {p : Path} :
    p ∈ marksProperties schema ↔ ∃ properties, schema.get? (str "properties") = some (.obj properties) ∧
      p ∈ marksEach properties := by
  induction schema with
  | nil => simp [marksProperties, Dict.get?]
  | cons m schema ih =>
    obtain ⟨key, value⟩ := m
    unfold marksProperties Dict.get?
    split_ifs with hk
    · cases value <;> simp
    · exact ih

theorem mem_marksItems {schema : Dict Json} {p : Path} :
    p ∈ marksItems schema ↔ ∃ items, schema.get? (str "items") = some (.obj items) ∧
      ∃ q ∈ marks (.obj items), p = .items :: q := by
  induction schema with
  | nil => simp [marksItems, Dict.get?]
  | cons m schema ih =>
    obtain ⟨key, value⟩ := m
    unfold marksItems Dict.get?
    split_ifs with hk
    · cases value <;> simp [eq_comm]
    · exact ih

theorem mem_marks_obj {schema : Dict Json} {p : Path} : p ∈ marks (.obj schema) ↔
    ((gdprMark schema).isSome ∧ p = []) ∨
    (∃ properties : Dict Json, schema.get? (str "properties") = some (.obj properties) ∧
      ∃ m ∈ properties, ∃ q ∈ marks m.2, p = .key m.1 :: q) ∨
    ∃ items, schema.get? (str "items") = some (.obj items) ∧ ∃ q ∈ marks (.obj items), p = .items :: q := by
  rw [marks, List.mem_append, List.mem_append, mem_marksProperties, mem_marksItems, or_assoc]
  simp only [mem_marksEach]
  cases gdprMark schema <;> simp

theorem mem_marks_iff {schema : Json} {p : Path} : p ∈ marks schema ↔ Marked schema p := by
  constructor
  · intro h
    induction p generalizing schema with
    | nil =>
      cases schema with
      | obj schema =>
        obtain ⟨h, -⟩ | ⟨_, _, _, _, _, _, h⟩ | ⟨_, _, _, _, h⟩ := mem_marks_obj.mp h
        · exact .here h
        · cases h
        · cases h
      | _ => cases h
    | cons s p ih =>
      cases schema with
      | obj schema =>
        obtain ⟨-, h⟩ | ⟨properties, hp, ⟨name, sub⟩, hm, q, hq, h⟩ | ⟨items, hi, q, hq, h⟩ := mem_marks_obj.mp h
        · cases h
        · cases h
          exact .property hp hm (ih hq)
        · cases h
          exact .items hi (ih hq)
      | _ => cases h
  · intro h
    induction h with
    | here h => exact mem_marks_obj.mpr (.inl ⟨h, rfl⟩)
    | property hp hm _ ih => exact mem_marks_obj.mpr (.inr (.inl ⟨_, hp, _, hm, _, ih, rfl⟩))
    | items hi _ ih => exact mem_marks_obj.mpr (.inr (.inr ⟨_, hi, _, ih, rfl⟩))

/-! ## Locations as strings -/

/-- A location as the collector writes it, after `path`. -/
def render (path : Str) : Path → Str
  | [] => path
  | .key name :: p => render (joinPath path name) p
  | .items :: p => render (path ++ str "[]") p

mutual

theorem collectSensitive_eq (path : Str) :
    ∀ schema, (collectSensitive path schema).map (·.path) = (marks schema).map (render path)
  | .obj schema => by
    rw [collectSensitive, marks, List.map_append, List.map_append, List.map_append, List.map_append,
      collectProperties_eq path schema, collectItems_eq path schema]
    cases gdprMark schema <;> rfl
  | .null => rfl
  | .bool _ => rfl
  | .int _ => rfl
  | .float _ => rfl
  | .str _ => rfl
  | .arr _ => rfl

theorem collectProperties_eq (path : Str) :
    ∀ schema, (collectProperties path schema).map (·.path) = (marksProperties schema).map (render path)
  | [] => rfl
  | (key, value) :: schema => by
    unfold collectProperties marksProperties
    split_ifs
    · cases value with
      | obj properties => exact collectEach_eq path properties
      | _ => rfl
    · exact collectProperties_eq path schema

theorem collectEach_eq (path : Str) :
    ∀ properties, (collectEach path properties).map (·.path) = (marksEach properties).map (render path)
  | [] => rfl
  | (name, sub) :: properties => by
    rw [collectEach, marksEach, List.map_append, List.map_append, collectSensitive_eq _ sub,
      collectEach_eq path properties, List.map_map]
    rfl

theorem collectItems_eq (path : Str) :
    ∀ schema, (collectItems path schema).map (·.path) = (marksItems schema).map (render path)
  | [] => rfl
  | (key, value) :: schema => by
    unfold collectItems marksItems
    split_ifs
    · cases value with
      | obj items =>
        simp only [collectSensitive_eq _ (.obj items), List.map_map]
        rfl
      | _ => rfl
    · exact collectItems_eq path schema

end

/-- A walk visits the marked locations as they are read back. -/
theorem mem_readPaths {schema : Json} {q : Path} :
    q ∈ readPaths schema ↔ q ≠ [] ∧ ∃ p ∈ marks schema, q = readPath (render [] p) := by
  have hperm : ((sensitivePaths schema).map (·.path)).Perm ((marks schema).map (render [])) := by
    rw [← collectSensitive_eq]
    exact (List.perm_insertionSort _ _).map _
  rw [readPaths, stepsOfAll, List.mem_filter, and_comm, decide_eq_true_iff]
  refine and_congr_right fun _ => ?_
  rw [show (fun sp : SensitivePath => readPath sp.path) = readPath ∘ (·.path) from rfl, ← List.map_map, List.mem_map]
  constructor
  · rintro ⟨x, hx, rfl⟩
    obtain ⟨p, hp, rfl⟩ := List.mem_map.mp (hperm.mem_iff.mp hx)
    exact ⟨p, hp, rfl⟩
  · rintro ⟨p, hp, rfl⟩
    exact ⟨_, hperm.mem_iff.mpr (List.mem_map_of_mem hp), rfl⟩

/-! ## Strings as segments -/

def unparsePart (segment : Segment) : Str := segment.1 ++ if segment.2 then str "[]" else []

/-- The text of segments, with a dot before each one. -/
def dotted (segments : List Segment) : Str := segments.flatMap fun segment => cp '.' :: unparsePart segment

theorem dotted_cons (segment : Segment) (segments : List Segment) :
    dotted (segment :: segments) = cp '.' :: (unparsePart segment ++ dotted segments) := rfl

theorem unparsePart_parsePart (part : Str) : unparsePart (parsePart part) = part := by
  rw [parsePart]
  split_ifs with h
  · obtain ⟨-, t, rfl⟩ := h
    rw [unparsePart, List.length_append, show (str "[]").length = 2 from rfl, Nat.add_sub_cancel, List.take_left]
    rfl
  · simp [unparsePart]

theorem dotted_eq_intercalate {segments : List Segment} (h : segments ≠ []) :
    dotted segments = cp '.' :: [cp '.'].intercalate (segments.map unparsePart) := by
  induction segments with
  | nil => exact absurd rfl h
  | cons segment segments ih =>
    rw [dotted_cons]
    cases segments with
    | nil => simp [dotted]
    | cons next segments =>
      rw [ih (List.cons_ne_nil _ _), List.map_cons, List.map_cons, List.map_cons, List.intercalate_cons_cons]
      simp

/-- No character of a string is lost. -/
theorem dotted_parsePath {path : Str} (h : path ≠ []) : dotted (parsePath path) = cp '.' :: path := by
  rw [parsePath, if_neg h, dotted_eq_intercalate (by simp), List.map_map,
    show unparsePart ∘ parsePart = id from funext unparsePart_parsePart, List.map_id, List.intercalate_splitOn]

theorem stepsOf_ne_items (segments : List Segment) (p : Path) : stepsOf segments ≠ .items :: p := by
  cases segments with
  | nil => simp [stepsOf]
  | cons segment segments => rw [stepsOf_cons]; simp

/-- The string of a container starts the strings of what is in it. -/
theorem dotted_prefix {segments segments' : List Segment} (h : stepsOf segments <+: stepsOf segments') :
    dotted segments <+: dotted segments' ∧
      (stepsOf segments ≠ stepsOf segments' → (dotted segments).length < (dotted segments').length) := by
  induction segments generalizing segments' with
  | nil =>
    refine ⟨List.nil_prefix, fun hne => ?_⟩
    cases segments' with
    | nil => exact absurd rfl hne
    | cons => simp [dotted]
  | cons segment segments ih =>
    obtain ⟨key, isArray⟩ := segment
    rw [stepsOf_cons] at h
    cases segments' with
    | nil => cases List.prefix_nil.mp h
    | cons segment' segments' =>
      obtain ⟨key', isArray'⟩ := segment'
      rw [stepsOf_cons] at h
      obtain ⟨hkey, hrest⟩ := List.cons_prefix_cons.mp h
      cases hkey
      clear h
      rw [stepsOf_cons, stepsOf_cons, dotted_cons, dotted_cons]
      cases isArray with
      | true =>
        cases isArray' with
        | true =>
          obtain ⟨hpre, hlen⟩ := ih (List.cons_prefix_cons.mp hrest).2
          refine ⟨?_, fun hne => ?_⟩
          · simpa [unparsePart] using hpre
          · simpa [unparsePart] using hlen (by simpa using hne)
        | false =>
          obtain ⟨t, ht⟩ := hrest
          exact absurd ht.symm (stepsOf_ne_items _ _)
      | false =>
        cases isArray' with
        | true =>
          obtain rfl : segments = [] := by
            cases segments with
            | nil => rfl
            | cons segment segments =>
              rw [stepsOf_cons] at hrest
              cases (List.cons_prefix_cons.mp hrest).1
          refine ⟨⟨str "[]" ++ dotted segments', by simp [unparsePart, dotted]⟩, fun _ => ?_⟩
          simp only [dotted, unparsePart, List.flatMap_nil, List.append_nil, List.length_cons, List.length_append,
            if_true, Bool.false_eq_true, if_false, show (str "[]").length = 2 from rfl]
          omega
        | false =>
          obtain ⟨hpre, hlen⟩ := ih hrest
          refine ⟨?_, fun hne => ?_⟩
          · simpa [unparsePart] using hpre
          · simpa [unparsePart] using hlen (by simpa using hne)

theorem prefix_le {a b : Str} (h : a <+: b) : a ≤ b := le_of_not_gt fun hlt => h.le hlt

theorem lt_of_readPath {a b : Str} (ha : a ≠ []) (h : readPath a <+: readPath b) (hne : readPath a ≠ readPath b) :
    a < b := by
  have hb : b ≠ [] := by
    rintro rfl
    exact hne (by rw [List.prefix_nil.mp h]; rfl)
  obtain ⟨hpre, hlen⟩ := dotted_prefix h
  have hlen := hlen hne
  rw [dotted_parsePath ha, dotted_parsePath hb] at hpre hlen
  refine lt_of_le_of_ne (prefix_le (List.cons_prefix_cons.mp hpre).2) ?_
  rintro rfl
  exact absurd hlen (lt_irrefl _)

/-- A container comes before what is in it. -/
theorem readPaths_prefixFirst (schema : Json) : PrefixFirst (readPaths schema) := by
  have : Std.Total fun a b : SensitivePath => a.path ≤ b.path := ⟨fun a b => le_total a.path b.path⟩
  have : IsTrans SensitivePath fun a b => a.path ≤ b.path := ⟨fun _ _ _ h h' => h.trans h'⟩
  have hsorted : (sensitivePaths schema).Pairwise fun a b => a.path ≤ b.path := List.pairwise_insertionSort _ _
  refine List.pairwise_filter.mpr (List.pairwise_map.mpr (hsorted.imp fun {a b} hle _ hb => ?_))
  rintro ⟨hpre, hne⟩
  refine absurd hle (not_le_of_gt (lt_of_readPath ?_ hpre hne))
  intro h
  rw [h] at hb
  exact absurd hb (by decide)

/-! ## Plain names -/

/-- A name that is one segment of a string. -/
def PlainName (name : Str) : Prop := name ≠ [] ∧ cp '.' ∉ name ∧ ¬ str "[]" <:+ name

/-- A location of plain names, without an array in an array or at the root. -/
def PlainPath (p : Path) : Prop := ∃ segments, p = stepsOf segments ∧ ∀ segment ∈ segments, PlainName segment.1

theorem parsePart_unparsePart {segment : Segment} (h : PlainName segment.1) : parsePart (unparsePart segment) = segment := by
  obtain ⟨name, isArray⟩ := segment
  cases isArray with
  | true =>
    have hlen : (name ++ str "[]").length - 2 = name.length := by
      rw [List.length_append, show (str "[]").length = 2 from rfl, Nat.add_sub_cancel]
    rw [unparsePart, if_pos rfl, parsePart, hlen, List.take_left]
    refine if_pos ⟨?_, List.suffix_append _ _⟩
    rw [List.length_append]
    exact Nat.le_add_left _ _
  | false =>
    rw [unparsePart, if_neg Bool.false_ne_true, List.append_nil]
    exact if_neg fun hsuf => h.2.2 hsuf.2

theorem dot_not_mem_unparsePart {segment : Segment} (h : PlainName segment.1) : cp '.' ∉ unparsePart segment := by
  have : cp '.' ∉ str "[]" := by decide
  rw [unparsePart, List.mem_append, not_or]
  refine ⟨h.2.1, ?_⟩
  split_ifs
  · exact this
  · exact List.not_mem_nil

theorem parsePath_of_dotted {segments : List Segment} (hne : segments ≠ []) (h : ∀ segment ∈ segments, PlainName segment.1)
    {path : Str} (hpath : path ≠ []) (hd : cp '.' :: path = dotted segments) : parsePath path = segments := by
  rw [dotted_eq_intercalate hne, List.cons_inj_right] at hd
  have hdot : ∀ part ∈ segments.map unparsePart, cp '.' ∉ part :=
    List.forall_mem_map.mpr fun segment hm => dot_not_mem_unparsePart (h segment hm)
  rw [parsePath, if_neg hpath, hd, List.splitOn_intercalate _ hdot (by simpa using hne), List.map_map]
  exact (List.map_congr_left fun segment hm => parsePart_unparsePart (h segment hm)).trans (List.map_id _)

theorem render_stepsOf {path : Str} (h : path ≠ []) (segments : List Segment) :
    render path (stepsOf segments) = path ++ dotted segments := by
  induction segments generalizing path with
  | nil => simp [stepsOf, render, dotted]
  | cons segment segments ih =>
    obtain ⟨name, isArray⟩ := segment
    rw [stepsOf_cons, dotted_cons, render, joinPath, if_neg h]
    cases isArray with
    | true =>
      rw [if_pos rfl, render, ih (by simp)]
      simp [unparsePart]
    | false =>
      rw [if_neg Bool.false_ne_true, ih (by simp)]
      simp [unparsePart]

theorem render_cons {name : Str} {isArray : Bool} (h : name ≠ []) (segments : List Segment) :
    render [] (stepsOf ((name, isArray) :: segments)) = unparsePart (name, isArray) ++ dotted segments := by
  rw [stepsOf_cons, render, joinPath, if_pos rfl]
  cases isArray with
  | true => rw [if_pos rfl, render, render_stepsOf (by simp [h]), unparsePart, if_pos rfl]
  | false => rw [if_neg Bool.false_ne_true, render_stepsOf h, unparsePart, if_neg Bool.false_ne_true, List.append_nil]

/-- A location of plain names is read back as itself. -/
theorem readPath_render {p : Path} (h : PlainPath p) : readPath (render [] p) = p := by
  obtain ⟨segments, rfl, hplain⟩ := h
  cases segments with
  | nil => rfl
  | cons segment segments =>
    obtain ⟨name, isArray⟩ := segment
    have hname : name ≠ [] := (hplain _ List.mem_cons_self).1
    have hne : unparsePart (name, isArray) ++ dotted segments ≠ [] := by simp [unparsePart, hname]
    rw [readPath, render_cons hname, parsePath_of_dotted (List.cons_ne_nil _ _) hplain hne (dotted_cons _ _).symm]

/-- When all names are plain, a walk visits the marked locations. -/
theorem mem_readPaths_of_plain {schema : Json} (h : ∀ p ∈ marks schema, PlainPath p) {q : Path} :
    q ∈ readPaths schema ↔ q ∈ marks schema ∧ q ≠ [] := by
  rw [mem_readPaths]
  constructor
  · rintro ⟨hne, p, hp, rfl⟩
    rw [readPath_render (h p hp)] at hne ⊢
    exact ⟨hp, hne⟩
  · rintro ⟨hq, hne⟩
    exact ⟨hne, q, hq, (readPath_render (h q hq)).symm⟩

end BabelQueue
