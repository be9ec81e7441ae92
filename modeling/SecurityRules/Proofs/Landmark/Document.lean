import Mathlib.Data.List.Perm.Basic
import SecurityRules.Proofs.Landmark.Values

/-!
# Documents keep their landmarks

The typed document of a text without errors has the landmarks of its parse tree, and nothing is left over. Bodies sort
their items, so the landmarks of a body stand in another order than in the tree.
-/

namespace SecurityRules

namespace ParseTree

variable {f : SourceFile} {parent : NodeKind} {t c : ParseTree} {es es' : List Element} {cs : List ParseTree}

theorem TellsAll.silence (silent : ∀ c ∈ cs, c.IsSilent f parent) : TellsAll f parent cs [] := by
  induction cs with
  | nil => exact .nil
  | cons c rest ih =>
    exact .silent (silent c (List.mem_cons_self ..)) (ih fun u member => silent u (List.mem_cons_of_mem c member))

theorem TellsAll.flatMap {parts : ParseTree → List Element} (each : ∀ c ∈ cs, TellsAll f parent [c] (parts c)) :
    TellsAll f parent cs (cs.flatMap parts) := by
  induction cs with
  | nil => exact .nil
  | cons c rest ih =>
    exact (each c (List.mem_cons_self ..)).append (ih fun u member => each u (List.mem_cons_of_mem c member))

theorem TellsAll.of_perm (tells : TellsAll f parent cs es) (perm : es'.Perm es) : TellsAll f parent cs es' :=
  fun around => (perm.flatMap_right _).trans (tells around)

/-- What is made of each tree, sorted into two lists. -/
theorem TellsAll.sorted {first second : ParseTree → List Element}
    (each : ∀ c ∈ cs, TellsAll f parent [c] (first c ++ second c)) :
    TellsAll f parent cs (cs.flatMap first ++ cs.flatMap second) :=
  .of_perm (.flatMap each) (List.flatMap_append_perm ..)

theorem Ordered.silent (ordered : t.Ordered) (bare : t.landmark? f parent = none)
    (silent : ∀ c ∈ t.significant, c.IsSilent f t.kind) : t.IsSilent f parent := by
  intro around
  rw [ordered.landmarks_through bare, List.flatMap_eq_nil_iff]
  exact fun c member => silent c member around

theorem TellsAll.significant (loose : ∀ c ∈ t.children, c.isExtra = true → Parser.IsLoose c)
    (tells : TellsAll f t.kind t.children es) : TellsAll f t.kind t.significant es := by
  intro around
  rw [← flatMap_significant loose]
  exact tells around

end ParseTree

namespace Build

open ParseTree (AllLegible Tells TellsAll IsSilent)

variable {f : SourceFile} {limit : Nat} {parent : NodeKind} {t c : ParseTree}

/-- The definition that a statement of a function is. -/
def letIn (f : SourceFile) (limit : Nat) (t : ParseTree) : Option LetDefinition :=
  if t.kind = .variableDef then letDefinition? f limit t else none

/-- The expression that a statement of a function returns. -/
def resultIn (f : SourceFile) (limit : Nat) (t : ParseTree) : Option Expr :=
  if t.kind = .returnStatement then statementExpr f limit t .value else none

/-- A function body sorts its statements; with at most one `return` none is left out. -/
theorem children_functionBody {b : FunctionBody} {lost : List Unmapped} (read : functionBody f limit t = (some b, lost))
    (single : (t.children.filter (·.kind == .returnStatement)).length ≤ 1) :
    (Element.functionBody b).children = t.children.flatMap (fun c => (letIn f limit c).toList.map .letDefinition) ++
      t.children.flatMap (fun c => (resultIn f limit c).toList.map .expr) := by
  have last {α β : Type} (l : List α) (g : α → Option β) (short : l.length ≤ 1) :
      (l.getLast?.bind g).toList = l.filterMap g := by
    match l, short with
    | [], _ => rfl
    | [a], _ => cases found : g a <;> simp [found]
  rw [functionBody] at read
  split at read
  · obtain rfl := Option.some.inj (Prod.mk.inj read).1
    rw [Element.children, ← List.map_flatMap, ← List.map_flatMap, ← List.filterMap_eq_flatMap_toList,
      ← List.filterMap_eq_flatMap_toList, Option.toList_map, last _ _ single, List.filterMap_filter,
      List.filterMap_filter]
    simp only [beq_iff_eq]
    rfl
  · cases (Prod.mk.inj read).1

/-- A legible tree in which no expression nests deeper than the limit and no function returns twice. -/
structure Mappable (f : SourceFile) (limit : Nat) (t : ParseTree) : Prop where
  legible : t.AllLegible f
  shallow : ParseTree.nestingAll t.kind t.children ≤ limit
  returns : ∀ n ∈ t.nodes, n.kind = .functionBody → (n.children.filter (·.kind == .returnStatement)).length ≤ 1

namespace Mappable

variable (mappable : Mappable f limit t)
include mappable

theorem child (member : c ∈ t.children) : Mappable f limit c where
  legible := mappable.legible.child member
  shallow := Nat.le_trans (ParseTree.nestingAll_le_of_mem member) mappable.shallow
  returns n inside := mappable.returns n (ParseTree.mem_nodes.mpr (Or.inr ⟨c, member, inside⟩))

theorem part (member : c ∈ t.significant) : Mappable f limit c :=
  mappable.child (ParseTree.mem_children_of_significant member)

theorem ordered : t.Ordered := mappable.legible.self.ordered

theorem presentChild?_eq {role : Role} (found : t.child? role = some c) : presentChild? t role = some c :=
  presentChild?_of_ordered found (mappable.child (ParseTree.mem_children_of_child? found)).ordered

/-- A tree that starts with a sign and a name. -/
theorem exists_name {slot : Slot} {rest : List Piece} (unnamed : slot.role = none)
    (front : t.kind.layout = .one slot :: .one (.only (some .name) .identifier) :: rest) :
    ∃ c, t.child? .name = some c ∧ c ∈ t.significant ∧ (Slot.only (some .name) .identifier).Fits c := by
  have fits := mappable.ordered.fits
  rw [front] at fits
  simp only [fits_one_iff] at fits
  obtain ⟨c₁, _, shape, fits₁, c₂, _, rfl, fits₂, _⟩ := fits
  exact ⟨c₂, by simp [mappable.ordered.child?_eq, shape, fits₁.1, fits₂.1, unnamed], by simp [shape], fits₂⟩

/-- A tree that starts with a sign is open. -/
theorem opened {slot : Slot} {rest : List Piece} (front : t.kind.layout = .one slot :: rest) :
    isOpened t = true := by
  have fits := mappable.ordered.fits
  rw [front, fits_one_iff] at fits
  obtain ⟨c, _, shape, _, _⟩ := fits
  have head := ParseTree.head?_significant mappable.ordered.first
  rw [shape, List.head?_cons] at head
  obtain ⟨behind, children⟩ := List.head?_eq_some_iff.mp head.symm
  have present := (mappable.child (c := c) (by simp [children])).ordered.isPresent
  rw [isPresent, Bool.and_eq_true] at present
  rw [isOpened, children]
  exact present.1

/-! ## Match paths -/

/-- A segment that binds a name. -/
theorem exists_capture (part : PathPartKind) (kind : t.kind = part.nodeKind) (capture : part ≠ .collection) :
    ∃ name, presentChild? t .name = some name ∧ t.Tells f parent (.pathPart ⟨t.span, part, name.text f⟩) := by
  have ordered := mappable.ordered
  cases part with
  | collection => exact absurd rfl capture
  | single | multi =>
    obtain ⟨name, found, _⟩ := mappable.exists_name Slot.role_sign (by rw [kind]; rfl)
    refine ⟨name, mappable.presentChild?_eq found, ordered.tells ?_ (.silence fun c member => ?_)⟩
    · rw [ParseTree.landmark?, kind, ParseTree.nameText, found]
      rfl
    · rcases ordered.sign_or (.only (some .name) .identifier)
        (by rw [kind]; unfold NodeKind.layout; simp [PathPartKind.nodeKind, Piece.slots]) member with fits | fits
      · exact silent_sign mappable.legible member fits
      · exact (mappable.part member).ordered.silent_name fits (by rw [kind]; exact NodeKind.noConfusion)

theorem exists_pathPart (kind : t.kind.isPathPart = true) :
    ∃ p, pathPart? f t = some p ∧ t.Tells f parent (.pathPart p) := by
  simp only [NodeKind.isPathPart, Bool.or_eq_true, beq_iff_eq] at kind
  rcases kind with (kind | kind) | kind
  · refine ⟨⟨t.span, .collection, t.text f⟩, by rw [pathPart?, kind], ?_⟩
    refine mappable.ordered.tells_leaf (by rw [kind]; rfl) ?_ rfl
    rw [ParseTree.landmark?, kind]
    rfl
  · obtain ⟨name, named, tells⟩ := mappable.exists_capture .single kind PathPartKind.noConfusion
    exact ⟨_, by rw [pathPart?, kind, named]; rfl, tells⟩
  · obtain ⟨name, named, tells⟩ := mappable.exists_capture .multi kind PathPartKind.noConfusion
    exact ⟨_, by rw [pathPart?, kind, named]; rfl, tells⟩

theorem tells_matchPath (kind : t.kind = .matchPath) : t.Tells f parent (.matchPath (matchPath f t)) := by
  have ordered := mappable.ordered
  refine ordered.tells ?_ ?_
  · rw [ParseTree.landmark?, kind]
    rfl
  · have parts : (Element.matchPath (matchPath f t)).children =
        (((t.childrenIn .segment).filter isPresent).filterMap (pathPart? f)).map .pathPart := rfl
    rw [parts, ordered.childrenIn_eq, List.filter_filter]
    refine .filterMap fun c member => ?_
    rcases ordered.sign_or ⟨some .segment, NodeKind.isPathPart⟩ (by rw [kind]; unfold NodeKind.layout; simp [Piece.slots])
      member with fits | fits
    · exact Or.inr ⟨by simp [fits.1], silent_sign mappable.legible member fits⟩
    · exact Or.inl ⟨by simp [fits.1, (mappable.part member).ordered.isPresent],
        (mappable.part member).exists_pathPart fits.2⟩

/-! ## Functions -/

/-- The expression of a statement. -/
theorem readAs_statement {role : Role} (found : t.child? role = some c) (fits : (Slot.operand (some role)).Fits c)
    (free : isFree t.kind (some role) = true) : ReadAs f t.kind c (statementExpr f limit t role) :=
  readAs_exprIn (told_exprAt f limit) mappable.legible mappable.shallow found fits free

theorem exists_letDefinition (kind : t.kind = .variableDef) :
    ∃ d, letDefinition? f limit t = some d ∧ t.Tells f parent (.letDefinition d) := by
  have ordered := mappable.ordered
  have fits := ordered.fits
  rw [kind] at fits
  unfold NodeKind.layout at fits
  simp only [fits_one_iff, fits_nil_iff] at fits
  obtain ⟨c₁, _, shape, fits₁, c₂, _, rfl, fits₂, c₃, _, rfl, fits₃, c₄, _, rfl, fits₄, c₅, _, rfl, fits₅, rfl⟩ := fits
  have name : t.child? .name = some c₂ := by simp [ordered.child?_eq, shape, fits₁.1, fits₂.1]
  obtain ⟨x₄, read₄, tells₄⟩ := mappable.readAs_statement
    (by simp [ordered.child?_eq, shape, fits₁.1, fits₂.1, fits₃.1, fits₄.1]) fits₄ (by rw [kind]; rfl)
  have tells₂ : c₂.Tells f t.kind (.declaredName ⟨c₂.span, c₂.text f⟩) := by
    have role : c₂.role = some .name := fits₂.1
    refine (mappable.part (by simp [shape])).ordered.tells_leaf (by rw [fits₂.kind_eq]; rfl) ?_ rfl
    rw [ParseTree.landmark?, fits₂.kind_eq]
    simp [Element.landmark?, ParseTree.isLabel, role, kind]
  refine ⟨⟨t.span, ⟨c₂.span, c₂.text f⟩, some x₄⟩, ?_, ordered.tells ?_ ?_⟩
  · rw [letDefinition?, mappable.presentChild?_eq name, Option.map_some, read₄]
  · rw [ParseTree.landmark?, kind]
    rfl
  · rw [shape]
    exact .silent (silent_sign mappable.legible (by simp [shape]) fits₁) (.cons tells₂
      (.silent (silent_sign mappable.legible (by simp [shape]) fits₃) (.cons tells₄
        (.silent (silent_sign mappable.legible (by simp [shape]) fits₅) .nil))))

/-- A `return` stands for what it returns. -/
theorem readAs_return (kind : t.kind = .returnStatement) : ReadAs f parent t (statementExpr f limit t .value) := by
  have ordered := mappable.ordered
  have fits := ordered.fits
  rw [kind] at fits
  unfold NodeKind.layout at fits
  simp only [fits_one_iff, fits_optional_iff, fits_nil_iff] at fits
  obtain ⟨c₁, _, shape, fits₁, c₂, _, rfl, fits₂, o₃, _, rfl, fits₃, rfl⟩ := fits
  obtain ⟨x₂, read₂, tells₂⟩ := mappable.readAs_statement
    (by simp [ordered.child?_eq, shape, fits₁.1, fits₂.1]) fits₂ (by rw [kind]; rfl)
  refine ⟨x₂, read₂, ordered.tells_through (by rw [ParseTree.landmark?, kind]) ?_⟩
  rw [shape]
  refine .silent (silent_sign mappable.legible (by simp [shape]) fits₁) (.cons tells₂ (.silence fun c member => ?_))
  have present : c ∈ o₃ := by simpa using member
  exact silent_sign mappable.legible (by rw [shape]; simp [Option.mem_def.mp present]) (fits₃ c present)

theorem filter_isError : t.children.filter (·.isError) = [] := by
  rw [List.filter_eq_nil_iff]
  intro c member isError
  have isFlagged := (mappable.child member).ordered.isFlagged
  rw [ParseTree.isFlagged, isError] at isFlagged
  cases isFlagged

/-- A child of a body is a comment, a sign, or an item. -/
theorem silent_or (slot : Slot) (listed : ∀ s ∈ t.kind.layout.flatMap Piece.slots, s = Slot.sign ∨ s = slot)
    (member : c ∈ t.children) :
    (c.kind = .comment ∨ ∃ k, c.kind = .token k) ∧ c.IsSilent f t.kind ∨ slot.Fits c := by
  cases isExtra : c.isExtra with
  | true =>
    have loose := mappable.ordered.loose c member isExtra
    exact Or.inl ⟨Or.inl loose.kind, ParseTree.landmarks_loose loose⟩
  | false =>
    have part : c ∈ t.significant := List.mem_filter.mpr ⟨member, by simp [isExtra]⟩
    rcases mappable.ordered.sign_or slot listed part with fits | fits
    · exact Or.inl ⟨Or.inr (NodeKind.isToken_iff.mp fits.2), silent_sign mappable.legible part fits⟩
    · exact Or.inr fits

theorem tellsAll_functionItem (kind : t.kind = .functionBody) (member : c ∈ t.children) :
    TellsAll f t.kind [c]
      ((letIn f limit c).toList.map .letDefinition ++ (resultIn f limit c).toList.map .expr) := by
  rw [letIn, resultIn]
  rcases mappable.silent_or ⟨none, NodeKind.isFunctionItem⟩ (by rw [kind]; unfold NodeKind.layout; simp [Piece.slots]) member
    with ⟨other, silent⟩ | fits
  · rw [if_neg (by rintro same; simp [same] at other), if_neg (by rintro same; simp [same] at other)]
    exact .silent silent .nil
  · have item : c.kind = .variableDef ∨ c.kind = .returnStatement := by
      simpa [NodeKind.isFunctionItem] using fits.2
    rcases item with same | same
    · obtain ⟨d, read, tells⟩ := (mappable.child member).exists_letDefinition same
      rw [if_pos same, if_neg (by rw [same]; exact NodeKind.noConfusion), read]
      exact .cons tells .nil
    · obtain ⟨x, read, tells⟩ := (mappable.child member).readAs_return same
      rw [if_pos same, if_neg (by rw [same]; exact NodeKind.noConfusion), read]
      exact .cons tells .nil

theorem exists_functionBody (kind : t.kind = .functionBody) :
    ∃ b, functionBody f limit t = (some b, []) ∧ t.Tells f parent (.functionBody b) := by
  obtain ⟨b, read, span⟩ : ∃ b, functionBody f limit t = (some b, []) ∧ b.span = t.span := by
    rw [functionBody, if_pos (mappable.opened (by rw [kind]; rfl)), mappable.filter_isError]
    exact ⟨_, rfl, rfl⟩
  refine ⟨b, read, mappable.ordered.tells ?_ (TellsAll.significant mappable.ordered.loose ?_)⟩
  · rw [ParseTree.landmark?, kind, ← span]
    rfl
  · rw [children_functionBody read (mappable.returns t t.self_mem_nodes kind)]
    exact .sorted fun c member => mappable.tellsAll_functionItem kind member

/-- A parameter has the span and the text of its name. -/
theorem exists_parameter (kind : t.kind = .parameter) :
    ∃ d, parameter? f t = some d ∧ t.Tells f parent (.declaredName d) := by
  have ordered := mappable.ordered
  have sound := mappable.legible.self.sound
  have fits := ordered.fits
  rw [kind] at fits
  unfold NodeKind.layout at fits
  simp only [fits_one_iff, fits_nil_iff] at fits
  obtain ⟨name, _, shape, fits, rfl⟩ := fits
  have only := sound.only shape
  obtain ⟨span, text⟩ := sound.single only
  have ordered' := (mappable.part (c := name) (by simp [shape])).ordered
  refine ⟨⟨name.span, name.text f⟩, ?_, ordered.tells ?_ ?_⟩
  · rw [parameter?, only, List.head?_cons, Option.filter_some, if_pos ordered'.isPresent]
    rfl
  · rw [ParseTree.landmark?, kind, span, text]
    rfl
  · rw [shape]
    refine .silent (ordered'.silent_leaf (by rw [fits.kind_eq]; rfl) ?_) .nil
    rw [ParseTree.landmark?, fits.kind_eq]
    simp [ParseTree.isLabel, kind]

/-- A function with its parameters and its body. -/
theorem exists_function (kind : t.kind = .functionDef) :
    ∃ x, function? f limit t = (some x, []) ∧ t.Tells f parent (.function x) := by
  have ordered := mappable.ordered
  have fits := ordered.fits
  rw [kind] at fits
  unfold NodeKind.layout at fits
  simp only [fits_one_iff, fits_many_iff, fits_nil_iff] at fits
  obtain ⟨c₁, _, shape, fits₁, c₂, _, rfl, fits₂, c₃, _, rfl, fits₃, params, _, rfl, listed, c₅, _, rfl, fits₅,
    c₆, _, rfl, fits₆, rfl⟩ := fits
  have slots : ∀ c ∈ params, Slot.sign.Fits c ∨ (Slot.only (some .param) .parameter).Fits c := by
    simpa using listed
  have name : t.child? .name = some c₂ := by simp [ordered.child?_eq, shape, fits₁.1, fits₂.1]
  have body : t.child? .body = some c₆ := by
    have other : params.find? (·.role == some .body) = none := by
      rw [List.find?_eq_none]
      intro c member
      rcases slots c member with fits | fits <;> simp [fits.1]
    simp [ordered.child?_eq, shape, fits₁.1, fits₂.1, fits₃.1, other, fits₅.1, fits₆.1]
  have declared : t.childrenIn .param = params.filter (·.role == some .param) := by
    simp [ordered.childrenIn_eq, shape, fits₁.1, fits₂.1, fits₃.1, fits₅.1, fits₆.1]
  obtain ⟨b, read, tells₆⟩ := (mappable.part (c := c₆) (by simp [shape])).exists_functionBody fits₆.kind_eq
  refine ⟨⟨t.span, c₂.text f, c₂.span, (t.childrenIn .param).filterMap (parameter? f), some b⟩, ?_,
    ordered.tells ?_ ?_⟩
  · simp [function?, mappable.presentChild?_eq name, body, read]
  · rw [ParseTree.landmark?, kind, ParseTree.nameText, ParseTree.nameSpan, name]
    rfl
  · have silent₂ : c₂.IsSilent f t.kind :=
      (mappable.part (by simp [shape])).ordered.silent_name fits₂ (by rw [kind]; exact NodeKind.noConfusion)
    have tells : TellsAll f t.kind params
        (((params.filter (·.role == some .param)).filterMap (parameter? f)).map .declaredName) := by
      refine .filterMap fun c member => ?_
      have part : c ∈ t.significant := by simp [shape, member]
      rcases slots c member with fits | fits
      · exact Or.inr ⟨by simp [fits.1], silent_sign mappable.legible part fits⟩
      · exact Or.inl ⟨by simp [fits.1], (mappable.part part).exists_parameter fits.kind_eq⟩
    rw [shape, declared]
    exact .silent (silent_sign mappable.legible (by simp [shape]) fits₁) (.silent silent₂
      (.silent (silent_sign mappable.legible (by simp [shape]) fits₃) (tells.append
        (.silent (silent_sign mappable.legible (by simp [shape]) fits₅) (.cons tells₆ .nil)))))

/-! ## Rules and matches -/

theorem tellsAll_optionalSign {o : Option ParseTree} (members : ∀ c ∈ o, c ∈ t.significant)
    (fits : ∀ c ∈ o, Slot.sign.Fits c) : TellsAll f t.kind o.toList [] :=
  .silence fun c present =>
    silent_sign mappable.legible (members c (by simpa using present)) (fits c (by simpa using present))

/-- A rule with its methods and its condition, if it has one. -/
theorem tells_rule (kind : t.kind = .ruleDef) : t.Tells f parent (.rule (rule f limit t)) := by
  have ordered := mappable.ordered
  have fits := ordered.fits
  rw [kind] at fits
  unfold NodeKind.layout at fits
  simp only [fits_one_iff, fits_many_iff, fits_optional_iff, fits_nil_iff] at fits
  obtain ⟨c₁, _, shape, fits₁, methods, _, rfl, listed, o₃, _, rfl, fits₃, o₄, _, rfl, fits₄, o₅, _, rfl, fits₅,
    o₆, _, rfl, fits₆, rfl⟩ := fits
  have slots : ∀ c ∈ methods, Slot.sign.Fits c ∨ (Slot.only (some .method) .method).Fits c := by
    simpa using listed
  have named : t.childrenIn .method = methods.filter (·.role == some .method) := by
    simp [ordered.childrenIn_eq, shape, fits₁.1, filter_toList_of_fits fits₃, filter_toList_of_fits fits₄,
      filter_toList_of_fits fits₅, filter_toList_of_fits fits₆]
  have condition : statementExpr f limit t .condition = o₅.bind (exprAt f limit) := by
    have other : methods.filter (·.role == some .condition) = [] := by
      rw [List.filter_eq_nil_iff]
      intro c member
      rcases slots c member with fits | fits <;> simp [fits.1]
    simp [statementExpr, exprIn, ParseTree.child?_eq_head?, ordered.childrenIn_eq, shape, fits₁.1, other,
      filter_toList_of_fits fits₃, filter_toList_of_fits fits₄, filter_toList_of_fits fits₅, filter_toList_of_fits fits₆]
  refine ordered.tells ?_ ?_
  · rw [ParseTree.landmark?, kind]
    rfl
  · have tells : TellsAll f t.kind methods
        (((methods.filter fun c => isPresent c && c.role == some .method).filterMap
          (some ∘ fun m => (⟨m.span, m.text f⟩ : Method))).map .method) := by
      refine .filterMap fun c member => ?_
      have part : c ∈ t.significant := by simp [shape, member]
      rcases slots c member with fits | fits
      · exact Or.inr ⟨by simp [fits.1], silent_sign mappable.legible part fits⟩
      · refine Or.inl ⟨by simp [fits.1, (mappable.part part).ordered.isPresent], _, rfl, ?_⟩
        refine (mappable.part part).ordered.tells_leaf (by rw [fits.kind_eq]; rfl) ?_ rfl
        rw [ParseTree.landmark?, fits.kind_eq]
        rfl
    rw [List.filterMap_eq_map, ← List.filter_filter, ← named] at tells
    have parts : (Element.rule (rule f limit t)).children =
        (((t.childrenIn .method).filter isPresent).map fun m => (⟨m.span, m.text f⟩ : Method)).map .method ++
          ((o₅.bind (exprAt f limit)).toList.map .expr) := by
      rw [Element.children, rule, condition, Option.toList_map]
    have value := tellsAll_optional (told_exprAt f limit) mappable.legible mappable.shallow
      (by simp +contextual [shape]) fits₅ (by rw [kind]; rfl)
    rw [parts, shape]
    refine .silent (silent_sign mappable.legible (by simp [shape]) fits₁) (tells.append ?_)
    simpa using (mappable.tellsAll_optionalSign (by simp +contextual [shape]) fits₃).append
      ((mappable.tellsAll_optionalSign (by simp +contextual [shape]) fits₄).append (value.append
        (mappable.tellsAll_optionalSign (by simp +contextual [shape]) fits₆)))

/-- A match with its path and its body, given what is made of the body. -/
theorem tells_block (kind : t.kind = .matchDef)
    (bodies : ∀ c ∈ t.children, c.kind = .matchBody →
      ∃ b, matchBody f limit c = (some b, []) ∧ c.Tells f t.kind (.matchBody b)) :
    t.Tells f parent (.matchBlock (block f limit t)) ∧ lostIn f limit t = [] := by
  have ordered := mappable.ordered
  have fits := ordered.fits
  rw [kind] at fits
  unfold NodeKind.layout at fits
  simp only [fits_one_iff, fits_nil_iff] at fits
  obtain ⟨c₁, _, shape, fits₁, c₂, _, rfl, fits₂, c₃, _, rfl, fits₃, rfl⟩ := fits
  have path : t.child? .path = some c₂ := by simp [ordered.child?_eq, shape, fits₁.1, fits₂.1]
  have body : t.child? .body = some c₃ := by simp [ordered.child?_eq, shape, fits₁.1, fits₂.1, fits₃.1]
  have tells₂ : c₂.Tells f t.kind (.matchPath (matchPath f c₂)) :=
    (mappable.part (by simp [shape])).tells_matchPath fits₂.kind_eq
  obtain ⟨b, read, tells₃⟩ := bodies c₃ (ParseTree.mem_children_of_child? body) fits₃.kind_eq
  have made : block f limit t = .mk t.span (some (matchPath f c₂)) (some b) := by
    rw [block, path, body, Option.map_some, Option.bind_some, read]
  refine ⟨ordered.tells ?_ ?_, ?_⟩
  · rw [ParseTree.landmark?, kind, made]
    rfl
  · rw [made, shape]
    exact .silent (silent_sign mappable.legible (by simp [shape]) fits₁) (.cons tells₂ (.cons tells₃ .nil))
  · rw [lostIn, kind]
    simp [body, read]

/-- An item of a body, given what is made of the matches in it. -/
theorem tellsAll_item (kind : t.kind = .matchBody)
    (blocks : ∀ c ∈ t.children, c.kind = .matchDef →
      c.Tells f t.kind (.matchBlock (block f limit c)) ∧ lostIn f limit c = []) (member : c ∈ t.children) :
    lostIn f limit c = [] ∧ TellsAll f t.kind [c]
      ((functionIn f limit c).toList.map .function ++ (ruleIn f limit c).toList.map .rule ++
        (blockIn f limit c).toList.map .matchBlock) := by
  rw [functionIn, ruleIn, blockIn]
  rcases mappable.silent_or ⟨none, NodeKind.isItem⟩ (by rw [kind]; unfold NodeKind.layout; simp [Piece.slots]) member
    with ⟨other, silent⟩ | fits
  · rw [lostIn]
    rcases other with same | ⟨k, same⟩
    all_goals
      rw [same]
      exact ⟨rfl, .silent silent .nil⟩
  · have item : (c.kind = .matchDef ∨ c.kind = .functionDef) ∨ c.kind = .ruleDef := by
      simpa [NodeKind.isItem] using fits.2
    rcases item with (same | same) | same
    · obtain ⟨tells, lost⟩ := blocks c member same
      refine ⟨lost, ?_⟩
      rw [same]
      exact .cons tells .nil
    · obtain ⟨x, read, tells⟩ := (mappable.child member).exists_function same
      refine ⟨by rw [lostIn, same]; simp [read], ?_⟩
      rw [same, if_pos rfl, read]
      exact .cons tells .nil
    · refine ⟨by rw [lostIn, same], ?_⟩
      rw [same]
      exact .cons ((mappable.child member).tells_rule same) .nil

/-- A body has the landmarks of its tree, and nothing is left over. -/
theorem exists_matchBody (kind : t.kind = .matchBody)
    (blocks : ∀ c ∈ t.children, c.kind = .matchDef →
      c.Tells f t.kind (.matchBlock (block f limit c)) ∧ lostIn f limit c = []) :
    ∃ b, matchBody f limit t = (some b, []) ∧ t.Tells f parent (.matchBody b) := by
  have items := fun c member => mappable.tellsAll_item (c := c) kind blocks member
  have lost : t.children.flatMap (lostIn f limit) = [] :=
    List.flatMap_eq_nil_iff.mpr fun c member => (items c member).1
  rw [matchBody_eq, if_pos (mappable.opened (by rw [kind]; rfl)), lost]
  refine ⟨_, rfl, mappable.ordered.tells ?_ (TellsAll.significant mappable.ordered.loose ?_)⟩
  · rw [ParseTree.landmark?, kind]
    rfl
  · rw [Element.children, MatchBody.functions, MatchBody.rules, MatchBody.blocks, List.filterMap_eq_flatMap_toList,
      List.filterMap_eq_flatMap_toList, List.filterMap_eq_flatMap_toList, List.map_flatMap, List.map_flatMap,
      List.map_flatMap]
    exact .of_perm (.sorted fun c member => (items c member).2) ((List.flatMap_append_perm ..).append_right _)

end Mappable

/-- Matches and their bodies, however deep they lie in each other. -/
theorem matches_of_mappable (t : ParseTree) (parent : NodeKind) (mappable : Mappable f limit t) :
    (t.kind = .matchDef → t.Tells f parent (.matchBlock (block f limit t)) ∧ lostIn f limit t = []) ∧
      (t.kind = .matchBody → ∃ b, matchBody f limit t = (some b, []) ∧ t.Tells f parent (.matchBody b)) := by
  induction t using ParseTree.induct generalizing parent with
  | step t ih =>
    exact ⟨fun kind => mappable.tells_block kind fun c member => (ih c member t.kind (mappable.child member)).2,
      fun kind => mappable.exists_matchBody kind fun c member => (ih c member t.kind (mappable.child member)).1⟩

/-! ## Documents -/

namespace Mappable

variable (mappable : Mappable f limit t)
include mappable

/-- The header says nothing that is kept. -/
theorem silent_rulesVersion (kind : t.kind = .rulesVersion) : t.IsSilent f parent := by
  refine mappable.ordered.silent (by rw [ParseTree.landmark?, kind]) fun c member => ?_
  rcases mappable.ordered.sign_or (.only (some .version) .string)
    (by rw [kind]; unfold NodeKind.layout; simp [Piece.slots]) member with fits | fits
  · exact silent_sign mappable.legible member fits
  · have role : c.role = some .version := fits.1
    refine (mappable.part member).ordered.silent_leaf (by rw [fits.kind_eq]; rfl) ?_
    rw [ParseTree.landmark?, fits.kind_eq]
    simp [ParseTree.isLabel, role]

theorem silent_serviceName (kind : t.kind = .serviceName) : t.IsSilent f parent := by
  refine mappable.ordered.silent (by rw [ParseTree.landmark?, kind]) fun c member => ?_
  rcases mappable.ordered.sign_or (.only none .identifier)
    (by rw [kind]; unfold NodeKind.layout; simp [Piece.slots]) member with fits | fits
  · exact silent_sign mappable.legible member fits
  · refine (mappable.part member).ordered.silent_leaf (by rw [fits.kind_eq]; rfl) ?_
    rw [ParseTree.landmark?, fits.kind_eq]
    simp [ParseTree.isLabel, kind]

/-- A service stands for its body. -/
theorem exists_service (kind : t.kind = .serviceDef) :
    ∃ body b, t.child? .body = some body ∧ matchBody f limit body = (some b, []) ∧
      t.Tells f parent (.matchBody b) := by
  have ordered := mappable.ordered
  have fits := ordered.fits
  rw [kind] at fits
  unfold NodeKind.layout at fits
  simp only [fits_one_iff, fits_nil_iff] at fits
  obtain ⟨c₁, _, shape, fits₁, c₂, _, rfl, fits₂, c₃, _, rfl, fits₃, rfl⟩ := fits
  have silent₂ : c₂.IsSilent f t.kind := (mappable.part (by simp [shape])).silent_serviceName fits₂.kind_eq
  obtain ⟨b, read, tells₃⟩ :=
    (matches_of_mappable c₃ t.kind (mappable.part (by simp [shape]))).2 fits₃.kind_eq
  refine ⟨c₃, b, by simp [ordered.child?_eq, shape, fits₁.1, fits₂.1, fits₃.1], read,
    ordered.tells_through (by rw [ParseTree.landmark?, kind]) ?_⟩
  rw [shape]
  exact .silent (silent_sign mappable.legible (by simp [shape]) fits₁) (.silent silent₂ (.cons tells₃ .nil))

end Mappable

/-- The service of a document, which a header may precede. -/
theorem exists_service {root : ParseTree}
    (top : root.significant.map (·.kind) = [.serviceDef] ∨
      root.significant.map (·.kind) = [.rulesVersion, .serviceDef])
    (present : ∀ c ∈ root.significant, c.isMissing = false) :
    ∃ header s, root.significant = header ++ [s] ∧ (∀ c ∈ header, c.kind = .rulesVersion) ∧
      s.kind = .serviceDef ∧ service root = .ok s := by
  rw [service]
  rcases top with kinds | kinds
  · obtain ⟨s, rest, shape, kind, none⟩ := List.map_eq_cons_iff.mp kinds
    obtain rfl := List.map_eq_nil_iff.mp none
    have missing := present s (by simp [shape])
    exact ⟨[], s, shape, by simp, kind, by simp [shape, kind, missing]⟩
  · obtain ⟨header, rest, shape, version, behind⟩ := List.map_eq_cons_iff.mp kinds
    obtain ⟨s, rest, rfl, kind, none⟩ := List.map_eq_cons_iff.mp behind
    obtain rfl := List.map_eq_nil_iff.mp none
    have missing := present s (by simp [shape])
    exact ⟨[header], s, shape, by simpa using version, kind, by simp [shape, version, kind, missing]⟩

theorem build_of_mappable {root : ParseTree} (kind : root.kind = .sourceFile)
    (loose : ∀ c ∈ root.children, c.isExtra = true → Parser.IsLoose c)
    (mappable : ∀ c ∈ root.children, Mappable f limit c)
    (top : root.significant.map (·.kind) = [.serviceDef] ∨
      root.significant.map (·.kind) = [.rulesVersion, .serviceDef]) :
    (build f root limit).unmapped = [] ∧ root.Tells f parent (.tree (build f root limit).tree) := by
  have part := fun c (member : c ∈ root.significant) => mappable c (ParseTree.mem_children_of_significant member)
  have known := fun c (member : c ∈ root.significant) => Bool.or_eq_false_iff.mp (part c member).ordered.isFlagged
  obtain ⟨header, s, shape, versions, isService, found⟩ := exists_service top fun c member => (known c member).2
  obtain ⟨body, b, child, read, tells⟩ := (part s (by simp [shape])).exists_service isService
  have noErrors : root.significant.filter (·.isError) = [] :=
    List.filter_eq_nil_iff.mpr fun c member => by simp [(known c member).1]
  have built : build f root limit = ⟨⟨root.span, b⟩, []⟩ := by
    simp [build, found, child, read, noErrors]
  rw [built]
  refine ⟨rfl, ParseTree.tells_of_loose loose ?_ ?_⟩
  · rw [ParseTree.landmark?, kind]
    rfl
  · have silent : TellsAll f root.kind header [] := .silence fun c member =>
      (part c (by simp [shape, member])).silent_rulesVersion (versions c member)
    rw [shape]
    exact silent.append (.cons tells .nil)

/-- Of a text without errors that is one service, with a header in front of it or not, in which no function returns
twice and no expression nests deeper than the limit, the typed document has exactly the landmarks of the parse tree:
each once, with the same span, text and argument count, inside the same others. Nothing is left over. -/
theorem landmarks_build (f : SourceFile) (maxDepth : Int) (limit : Nat)
    (clean : (Parser.parse f maxDepth).hasError = false)
    (top : (Parser.parse f maxDepth).significant.map (·.kind) = [.serviceDef] ∨
      (Parser.parse f maxDepth).significant.map (·.kind) = [.rulesVersion, .serviceDef])
    (returns : ∀ n ∈ (Parser.parse f maxDepth).nodes, n.kind = .functionBody →
      (n.children.filter (·.kind == .returnStatement)).length ≤ 1)
    (shallow : (Parser.parse f maxDepth).nesting .sourceFile ≤ limit) :
    (build f (Parser.parse f maxDepth) limit).unmapped = [] ∧
      ((Element.tree (build f (Parser.parse f maxDepth) limit).tree).landmarks []).Perm
        ((Parser.parse f maxDepth).landmarks f .sourceFile []) := by
  have kind : (Parser.parse f maxDepth).kind = .sourceFile := rfl
  have deep : ParseTree.nestingAll .sourceFile (Parser.parse f maxDepth).children ≤ limit := by
    rw [ParseTree.nesting_eq, kind] at shallow
    omega
  have mappable : ∀ c ∈ (Parser.parse f maxDepth).children, Mappable f limit c := fun c member =>
    { legible := Parser.allLegible_parse clean c member
      shallow := Nat.le_trans (ParseTree.nestingAll_le_of_mem member) deep
      returns := fun n inside => returns n (ParseTree.mem_nodes.mpr (Or.inr ⟨c, member, inside⟩)) }
  obtain ⟨unmapped, tells⟩ := build_of_mappable kind (fun c => Parser.loose_parse) mappable top
  exact ⟨unmapped, tells []⟩

/-- A document with a header, a function, nested matches and comments between the parts of expressions. -/
def sampleService : SourceFile :=
  SourceFile.ofBytes []
    (Bytes.ofString "rules_version = '2'; // head\nservice a.b \x7b\n  function f(x, y) \x7b let z = x[1:y]; return /* all */ !(z is int) ? [z, -1] : \x7b'k': null\x7d; \x7d\n  match /c/\x7bd\x7d/\x7be=**\x7d \x7b\n    allow read, write: if d.g(/* one */ 1, f(e, 2.5)).h == get(/c/$(d)/u-1) && true in e[0]; // end\n    match /i \x7b allow delete; \x7d\n  \x7d\n\x7d\n") true

theorem landmarks_build_sampleService :
    ((Parser.parse sampleService 64).landmarks sampleService .sourceFile []).length = 63 ∧
      (build sampleService (Parser.parse sampleService 64) 6).unmapped = [] ∧
      ((Element.tree (build sampleService (Parser.parse sampleService 64) 6).tree).landmarks []).Perm
        ((Parser.parse sampleService 64).landmarks sampleService .sourceFile []) := by
  -- One evaluation for all that is asked of the parse tree.
  have known : (Parser.parse sampleService 64).hasError = false ∧
      (Parser.parse sampleService 64).significant.map (·.kind) = [.rulesVersion, .serviceDef] ∧
      (∀ n ∈ (Parser.parse sampleService 64).nodes, n.kind = .functionBody →
        (n.children.filter (·.kind == .returnStatement)).length ≤ 1) ∧
      (Parser.parse sampleService 64).nesting .sourceFile ≤ 6 ∧
      ((Parser.parse sampleService 64).landmarks sampleService .sourceFile []).length = 63 := by
    decide +kernel
  obtain ⟨clean, top, returns, shallow, length⟩ := known
  exact ⟨length, landmarks_build sampleService 64 6 clean (Or.inr top) returns shallow⟩

end Build

end SecurityRules
