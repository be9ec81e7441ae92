import Mathlib.Data.List.Basic
import Mathlib.Data.List.Induction
import SecurityRules.SlashPath

/-!
# Elements of paths

A path is read as the list of its elements. Cleaning a path resolves them, and joining two paths puts the elements of
one behind those of the other.

A cleaned path leads up from where it starts by some elements `..` and then down by names; an absolute one only leads
down. Where it starts and how often it leads up is its anchor.
-/

namespace SecurityRules

namespace Bytes

variable {separator : UInt8}

theorem splitOn_ne_nil (s : Bytes) : splitOn separator s ≠ [] := by
  cases s with
  | nil => exact List.cons_ne_nil _ _
  | cons b rest =>
    rw [splitOn]
    split
    · exact List.cons_ne_nil _ _
    · split <;> exact List.cons_ne_nil _ _

theorem splitOn_append (s t : Bytes) :
    splitOn separator (s ++ separator :: t) = splitOn separator s ++ splitOn separator t := by
  induction s with
  | nil => simp [splitOn]
  | cons b rest ih =>
    rw [List.cons_append, splitOn, splitOn, ih]
    split
    · rfl
    · cases pieces : splitOn separator rest with
      | nil => exact absurd pieces (splitOn_ne_nil rest)
      | cons piece pieces => rfl

theorem splitOn_of_notMem {s : Bytes} (free : separator ∉ s) : splitOn separator s = [s] := by
  induction s with
  | nil => rfl
  | cons b rest ih =>
    rw [splitOn, if_neg (List.ne_of_not_mem_cons free).symm, ih (List.not_mem_of_not_mem_cons free)]

theorem notMem_of_mem_splitOn {s piece : Bytes} (member : piece ∈ splitOn separator s) : separator ∉ piece := by
  induction s generalizing piece with
  | nil =>
    rw [List.mem_singleton.mp member]
    exact List.not_mem_nil
  | cons b rest ih =>
    rw [splitOn] at member
    split at member
    · rcases List.mem_cons.mp member with rfl | member
      · exact List.not_mem_nil
      · exact ih member
    · rename_i other
      cases pieces : splitOn separator rest with
      | nil => exact absurd pieces (splitOn_ne_nil rest)
      | cons first others =>
        rw [pieces] at member ih
        rcases List.mem_cons.mp member with rfl | member
        · exact List.not_mem_cons_of_ne_of_not_mem (Ne.symm other) (ih (List.mem_cons_self ..))
        · exact ih (List.mem_cons_of_mem _ member)

end Bytes

namespace SlashPath

/-- A text that can be an element of a path. -/
structure IsElement (e : Bytes) : Prop where
  filled : e ≠ []
  whole : slash ∉ e

/-- An element that leads down. -/
structure IsName (e : Bytes) : Prop extends IsElement e where
  isBelow : e ≠ Bytes.ofString "."
  isNoParent : e ≠ Bytes.ofString ".."

theorem isElement_of_mem {path e : Bytes} (member : e ∈ elements path) : IsElement e := by
  obtain ⟨member, filled⟩ := List.mem_filter.mp member
  exact ⟨by simpa using filled, Bytes.notMem_of_mem_splitOn member⟩

theorem elements_append (path rest : Bytes) : elements (path ++ slash :: rest) = elements path ++ elements rest := by
  rw [elements, Bytes.splitOn_append, List.filter_append]
  rfl

theorem elements_of_isElement {e : Bytes} (good : IsElement e) : elements e = [e] := by
  rw [elements, Bytes.splitOn_of_notMem good.whole, List.filter_cons_of_pos (by simp [good.filled])]
  rfl

theorem elements_join {es : List Bytes} (good : ∀ e ∈ es, IsElement e) : elements (Bytes.join [slash] es) = es := by
  induction es with
  | nil => rfl
  | cons e rest ih =>
    have first := good e (List.mem_cons_self ..)
    cases rest with
    | nil => exact elements_of_isElement first
    | cons e' rest =>
      rw [Bytes.join, List.append_assoc, List.singleton_append, elements_append, elements_of_isElement first,
        ih fun e member => good e (List.mem_cons_of_mem _ member)]
      rfl

theorem elements_ofElements {es : List Bytes} (rooted : Bool) (good : ∀ e ∈ es, IsElement e)
    (leads : rooted = true ∨ es ≠ []) : elements (ofElements rooted es) = es := by
  rw [ofElements]
  split
  · have lead : elements (slash :: Bytes.join [slash] es) = elements [] ++ elements (Bytes.join [slash] es) :=
      elements_append [] _
    rw [lead, elements_join good]
    rfl
  · rename_i relative
    rw [if_neg (by simpa using leads.resolve_left relative), elements_join good]

/-! ## Resolved elements -/

theorem mem_of_mem_resolveElement {rooted : Bool} {resolved : List Bytes} {e other : Bytes}
    (member : other ∈ resolveElement rooted resolved e) : other ∈ resolved ∨ other = e := by
  unfold resolveElement at member
  grind

theorem mem_of_mem_foldl_resolveElement {rooted : Bool} {other : Bytes} (es : List Bytes) :
    ∀ resolved : List Bytes, other ∈ es.foldl (resolveElement rooted) resolved → other ∈ resolved ∨ other ∈ es := by
  induction es with
  | nil => exact fun resolved member => Or.inl member
  | cons e rest ih =>
    intro resolved member
    rcases ih _ member with member | member
    · rcases mem_of_mem_resolveElement member with member | rfl
      · exact Or.inl member
      · exact Or.inr (List.mem_cons_self ..)
    · exact Or.inr (List.mem_cons_of_mem _ member)

theorem isElement_of_mem_resolvedElements {path e : Bytes} (member : e ∈ resolvedElements path) : IsElement e := by
  rw [resolvedElements, List.mem_reverse] at member
  exact isElement_of_mem ((mem_of_mem_foldl_resolveElement _ _ member).resolve_left List.not_mem_nil)

theorem elements_clean {path : Bytes} (leads : isAbsolute path = true ∨ resolvedElements path ≠ []) :
    elements (clean path) = resolvedElements path :=
  elements_ofElements _ (fun _ => isElement_of_mem_resolvedElements) leads

theorem isAbsolute_clean (path : Bytes) : isAbsolute (clean path) = isAbsolute path := by
  rw [clean, ofElements]
  split
  · rename_i rooted
    rw [rooted]
    rfl
  · rename_i relative
    rw [Bool.eq_false_iff.mpr relative]
    split
    · rfl
    · cases resolved : resolvedElements path with
      | nil => rfl
      | cons e rest =>
        have first : IsElement e := isElement_of_mem_resolvedElements (by rw [resolved]; exact List.mem_cons_self ..)
        obtain ⟨b, others, rfl⟩ := List.exists_cons_of_ne_nil first.filled
        have other : b ≠ slash := (List.ne_of_not_mem_cons first.whole).symm
        cases rest <;> simp [isAbsolute, Bytes.join, other]

theorem clean_ne_nil (path : Bytes) : clean path ≠ [] := by
  rw [clean, ofElements]
  split
  · exact List.cons_ne_nil _ _
  · cases resolved : resolvedElements path with
    | nil => decide
    | cons e rest =>
      have first : IsElement e := isElement_of_mem_resolvedElements (by rw [resolved]; exact List.mem_cons_self ..)
      rw [if_neg (by simp)]
      cases rest <;> simp [Bytes.join, first.filled]

theorem join_ne_nil {path rest : Bytes} (filled : path ≠ [] ∨ rest ≠ []) : join path rest ≠ [] := by
  rw [join]
  split
  · rename_i none
    have other := filled.resolve_left (not_not_intro (List.isEmpty_iff.mp none))
    rw [if_neg (by simpa using other)]
    exact clean_ne_nil _
  · exact clean_ne_nil _

theorem isAbsolute_append {path : Bytes} (filled : path ≠ []) (rest : Bytes) :
    isAbsolute (path ++ rest) = isAbsolute path := by
  rw [isAbsolute, isAbsolute, List.head?_append_of_ne_nil path filled]

theorem resolveElement_name {name : Bytes} (good : IsName name) (rooted : Bool) (resolved : List Bytes) :
    resolveElement rooted resolved name = name :: resolved := by
  rw [resolveElement.eq_def, if_neg good.isBelow, if_neg good.isNoParent]

/-- A name behind a path is its last element, whatever the path resolves to. -/
theorem resolvedElements_append {path name : Bytes} (filled : path ≠ []) (good : IsName name) :
    resolvedElements (path ++ [slash] ++ name) = resolvedElements path ++ [name] := by
  rw [resolvedElements, List.append_assoc, List.singleton_append, isAbsolute_append filled, elements_append,
    elements_of_isElement good.toIsElement, List.foldl_append, List.foldl_cons, List.foldl_nil,
    resolveElement_name good, List.reverse_cons]
  rfl

theorem elements_join_name {path name : Bytes} (filled : path ≠ []) (good : IsName name) :
    elements (join path name) = resolvedElements path ++ [name] := by
  rw [join, if_neg (by simpa using filled), elements_clean (Or.inr ?_), resolvedElements_append filled good]
  rw [resolvedElements_append filled good]
  simp

/-! ## Anchors -/

/-- As many elements `..`. -/
def parents (n : Nat) : List Bytes := List.replicate n (Bytes.ofString "..")

/-- Whether a path is absolute, and how many elements `..` it starts with once it is cleaned. -/
def anchor (path : Bytes) : Bool × Nat :=
  (isAbsolute path, ((resolvedElements path).takeWhile (· == Bytes.ofString "..")).length)

/-- Elements as a cleaned path has them: those that lead up, of which an absolute path has none, and names. -/
structure IsResolved (rooted : Bool) (ups : Nat) (names : List Bytes) : Prop where
  top : rooted = true → ups = 0
  names : ∀ name ∈ names, IsName name

variable {rooted : Bool} {ups : Nat} {names : List Bytes} {path name e : Bytes}

theorem isElement_parent : IsElement (Bytes.ofString "..") := ⟨by decide +kernel, by decide +kernel⟩

/-- One more element is resolved. -/
theorem exists_resolveElement (good : IsElement e) (resolved : IsResolved rooted ups names) :
    ∃ ups' names', resolveElement rooted (names.reverse ++ parents ups) e = names'.reverse ++ parents ups' ∧
      IsResolved rooted ups' names' := by
  unfold resolveElement
  by_cases here : e = Bytes.ofString "."
  · rw [if_pos here]
    exact ⟨ups, names, rfl, resolved⟩
  rw [if_neg here]
  by_cases up : e = Bytes.ofString ".."
  · rw [if_pos up]
    cases names using List.reverseRecOn with
    | nil =>
      rw [List.reverse_nil, List.nil_append]
      cases ups with
      | zero =>
        cases isRooted : rooted with
        | true => exact ⟨0, [], rfl, fun _ => rfl, nofun⟩
        | false =>
          rw [up]
          exact ⟨1, [], rfl, nofun, nofun⟩
      | succ ups =>
        rw [parents, List.replicate_succ]
        dsimp only
        rw [if_pos rfl, up]
        exact ⟨ups + 2, [], rfl, fun isRooted => absurd (resolved.top isRooted) (Nat.succ_ne_zero ups), nofun⟩
    | append_singleton names last =>
      have goodLast := resolved.names last (List.mem_append_right _ (List.mem_singleton_self last))
      rw [List.reverse_append, List.reverse_singleton, List.singleton_append, List.cons_append]
      dsimp only
      rw [if_neg goodLast.isNoParent]
      exact ⟨ups, names, rfl, resolved.top, fun n member => resolved.names n (List.mem_append_left _ member)⟩
  · rw [if_neg up]
    refine ⟨ups, names ++ [e], by simp, resolved.top, fun n member => ?_⟩
    rcases List.mem_append.mp member with old | new
    · exact resolved.names n old
    · rw [List.mem_singleton.mp new]
      exact ⟨good, here, up⟩

theorem exists_foldl_resolveElement {es : List Bytes} (good : ∀ e ∈ es, IsElement e)
    (resolved : IsResolved rooted ups names) :
    ∃ ups' names', es.foldl (resolveElement rooted) (names.reverse ++ parents ups) = names'.reverse ++ parents ups' ∧
      IsResolved rooted ups' names' := by
  induction es generalizing ups names with
  | nil => exact ⟨ups, names, rfl, resolved⟩
  | cons e rest ih =>
    obtain ⟨first, others⟩ := List.forall_mem_cons.mp good
    obtain ⟨ups', names', same, resolved'⟩ := exists_resolveElement first resolved
    rw [List.foldl_cons, same]
    exact ih others resolved'

/-- The resolved elements of a path are in this form. -/
theorem exists_resolved (path : Bytes) :
    ∃ ups names, resolvedElements path = parents ups ++ names ∧ IsResolved (isAbsolute path) ups names := by
  have none : IsResolved (isAbsolute path) 0 [] := ⟨fun _ => rfl, nofun⟩
  have good : ∀ e ∈ elements path, IsElement e := fun e member => isElement_of_mem member
  obtain ⟨ups, names, same, resolved⟩ := exists_foldl_resolveElement good none
  refine ⟨ups, names, ?_, resolved⟩
  rw [resolvedElements, show ([] : List Bytes) = [].reverse ++ parents 0 from rfl, same, List.reverse_append,
    List.reverse_reverse, parents, List.reverse_replicate]

namespace IsResolved

theorem isElement (resolved : IsResolved rooted ups names) (member : e ∈ parents ups ++ names) : IsElement e := by
  rcases List.mem_append.mp member with parent | below
  · rw [(List.mem_replicate.mp parent).2]
    exact isElement_parent
  · exact (resolved.names e below).toIsElement

/-- Elements in this form stay as they are when they are resolved again. -/
theorem foldl_resolveElement (resolved : IsResolved rooted ups names) :
    (parents ups ++ names).foldl (resolveElement rooted) [] = (parents ups ++ names).reverse := by
  have led : (parents ups).foldl (resolveElement rooted) [] = (parents ups).reverse := by
    cases isRooted : rooted with
    | true =>
      rw [resolved.top isRooted]
      rfl
    | false =>
      clear resolved
      induction ups with
      | zero => rfl
      | succ ups ih =>
        rw [parents, List.replicate_succ', List.foldl_append, ← parents, ih, List.reverse_append, parents,
          List.reverse_replicate]
        cases ups with
        | zero => decide +kernel
        | succ ups =>
          rw [List.replicate_succ, List.foldl_cons, List.foldl_nil, resolveElement]
          rfl
  rw [List.foldl_append, led, List.reverse_append]
  generalize (parents ups).reverse = front
  have down := resolved.names
  clear led resolved
  induction names generalizing front with
  | nil => rfl
  | cons name rest ih =>
    obtain ⟨first, others⟩ := List.forall_mem_cons.mp down
    rw [List.foldl_cons, resolveElement_name first, ih (name :: front) others]
    simp

theorem isAbsolute_ofElements (resolved : IsResolved rooted ups names) :
    isAbsolute (ofElements rooted (parents ups ++ names)) = rooted := by
  rw [ofElements]
  cases rooted with
  | true => rfl
  | false =>
    rw [if_neg Bool.false_ne_true]
    cases elements : parents ups ++ names with
    | nil => rfl
    | cons e rest =>
      have first : IsElement e := resolved.isElement (by rw [elements]; exact List.mem_cons_self ..)
      obtain ⟨b, others, rfl⟩ := List.exists_cons_of_ne_nil first.filled
      have other : b ≠ slash := (List.ne_of_not_mem_cons first.whole).symm
      cases rest <;> simp [isAbsolute, Bytes.join, other]

theorem resolvedElements_ofElements (resolved : IsResolved rooted ups names) :
    resolvedElements (ofElements rooted (parents ups ++ names)) = parents ups ++ names := by
  rw [resolvedElements, resolved.isAbsolute_ofElements]
  by_cases leads : rooted = true ∨ parents ups ++ names ≠ []
  · rw [elements_ofElements rooted (fun e member => resolved.isElement member) leads, resolved.foldl_resolveElement,
      List.reverse_reverse]
  · obtain ⟨relative, none⟩ := not_or.mp leads
    rw [not_not] at none
    rw [none, Bool.eq_false_iff.mpr relative]
    decide +kernel

theorem anchor_ofElements (resolved : IsResolved rooted ups names) :
    anchor (ofElements rooted (parents ups ++ names)) = (rooted, ups) := by
  have stops : names.takeWhile (· == Bytes.ofString "..") = [] := by
    cases names with
    | nil => rfl
    | cons name rest =>
      apply List.takeWhile_cons_of_neg
      rw [beq_iff_eq]
      exact (resolved.names name (List.mem_cons_self ..)).isNoParent
  have goesOn : ∀ e ∈ parents ups, (e == Bytes.ofString "..") = true := by
    intro e member
    rw [(List.mem_replicate.mp member).2]
    exact beq_self_eq_true _
  rw [anchor, resolved.isAbsolute_ofElements, resolved.resolvedElements_ofElements, List.takeWhile_append_of_pos goesOn,
    stops, List.append_nil, parents, List.length_replicate]

theorem clean_ofElements (resolved : IsResolved rooted ups names) :
    clean (ofElements rooted (parents ups ++ names)) = ofElements rooted (parents ups ++ names) := by
  rw [clean, resolved.isAbsolute_ofElements, resolved.resolvedElements_ofElements]

end IsResolved

/-- A cleaned path is made of its anchor and names. -/
theorem exists_clean (path : Bytes) : ∃ names, IsResolved (anchor path).1 (anchor path).2 names ∧
    resolvedElements path = parents (anchor path).2 ++ names ∧
    clean path = ofElements (anchor path).1 (parents (anchor path).2 ++ names) := by
  obtain ⟨ups, names, same, resolved⟩ := exists_resolved path
  have cleaned : clean path = ofElements (isAbsolute path) (parents ups ++ names) := by rw [clean, same]
  have here : anchor path = (isAbsolute path, ups) := by
    rw [← resolved.anchor_ofElements, anchor, anchor, resolved.resolvedElements_ofElements,
      resolved.isAbsolute_ofElements, same]
  rw [here]
  exact ⟨names, resolved, same, cleaned⟩

@[simp] theorem clean_clean (path : Bytes) : clean (clean path) = clean path := by
  obtain ⟨names, resolved, -, cleaned⟩ := exists_clean path
  rw [cleaned]
  exact resolved.clean_ofElements

@[simp] theorem anchor_clean (path : Bytes) : anchor (clean path) = anchor path := by
  obtain ⟨names, resolved, -, cleaned⟩ := exists_clean path
  rw [cleaned]
  exact resolved.anchor_ofElements

/-- A name behind a path leaves its anchor, and the whole is clean. -/
theorem join_name (filled : path ≠ []) (good : IsName name) :
    clean (join path name) = join path name ∧ anchor (join path name) = anchor path := by
  obtain ⟨names, resolved, same, -⟩ := exists_clean path
  have longer : IsResolved (anchor path).1 (anchor path).2 (names ++ [name]) := by
    refine ⟨resolved.top, fun n member => ?_⟩
    rcases List.mem_append.mp member with old | new
    · exact resolved.names n old
    · rw [List.mem_singleton.mp new]
      exact good
  have joined : join path name = ofElements (anchor path).1 (parents (anchor path).2 ++ (names ++ [name])) := by
    rw [join, if_neg (by simpa using filled), clean, resolvedElements_append filled good, same, List.append_assoc,
      List.append_assoc, isAbsolute_append filled]
    rfl
  rw [joined]
  exact ⟨longer.clean_ofElements, longer.anchor_ofElements⟩

end SlashPath

end SecurityRules
