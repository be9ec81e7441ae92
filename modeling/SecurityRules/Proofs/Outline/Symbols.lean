import SecurityRules.Proofs.Origin.Declarations
import SecurityRules.Proofs.Outline.Ranges

/-!
# Symbols that editors are sent

Editors refuse an answer in which a range leaves the one around it. Symbols stand over trees that are never empty, and
symbols below them over trees inside, so their ranges nest. The range to select is that of a name in the tree. Only
where a match has no path, what is selected may lie behind the match.
-/

namespace SecurityRules

open Utf8 (Boundary)
open ParseTree (Regular)
open Server (editorPosition editorRange rangeValue symbolNumber symbolValue symbolValues)

namespace OutlineSymbol

mutual

/-- The symbol and all symbols below it. -/
def nodes : OutlineSymbol → List OutlineSymbol
  | mk kind name detail span nameSpan children => mk kind name detail span nameSpan children :: nodesAll children

/-- The symbols of a list and all symbols below them. -/
def nodesAll : List OutlineSymbol → List OutlineSymbol
  | [] => []
  | s :: rest => nodes s ++ nodesAll rest

end

theorem nodesAll_append (first second : List OutlineSymbol) :
    nodesAll (first ++ second) = nodesAll first ++ nodesAll second := by
  induction first with
  | nil => rfl
  | cons s rest ih => rw [List.cons_append, nodesAll, nodesAll, ih, List.append_assoc]

theorem mem_nodesAll {symbols : List OutlineSymbol} {s : OutlineSymbol} :
    s ∈ nodesAll symbols ↔ ∃ top ∈ symbols, s = top ∨ s ∈ nodesAll top.children := by
  induction symbols with
  | nil => simp [nodesAll]
  | cons top rest ih =>
    have first : s ∈ top.nodes ↔ s = top ∨ s ∈ nodesAll top.children := by
      cases top with
      | mk => rw [nodes, List.mem_cons]; rfl
    simp only [nodesAll, List.mem_append, List.mem_cons, exists_eq_or_imp, ih, first]

/-- The name that is shown: that of the kind, if there is no other. -/
def shownName (s : OutlineSymbol) : Bytes := if s.name.isEmpty then Bytes.ofString s.kind.name else s.name

theorem shownName_ne_nil (s : OutlineSymbol) : s.shownName ≠ [] := by
  unfold shownName
  split
  · cases s.kind <;> decide
  · rename_i filled
    exact fun empty => filled (List.isEmpty_iff.mpr empty)

/-- Whether the symbol is a match that ends in front of the place where its path is missing. -/
def IsPathless (s : OutlineSymbol) : Prop :=
  s.kind = .matchBlock ∧ s.nameSpan.isPoint = true ∧ s.span.containsSpan s.nameSpan = false

/-! ## Symbols over trees -/

/-- A symbol stands over a tree that is not empty, and is named for a tree in it. Only a match may be named for an
empty one. -/
structure Over (f : SourceFile) (s : OutlineSymbol) (t : ParseTree) : Prop where
  regular : Regular f t
  filled : t.isEmpty = false
  span : s.span = t.span
  named : ∃ n ∈ t.nodes, s.nameSpan = n.span ∧ (n.isEmpty = true → s.kind = .matchBlock)

/-- A symbol stands over a tree, and those below it over trees inside. -/
def Placed (f : SourceFile) (s : OutlineSymbol) : Prop :=
  ∃ t, Over f s t ∧ ∀ c ∈ s.children, ∃ u ∈ t.nodes, Over f c u

section

variable {f : SourceFile} {limit : Nat} {t : ParseTree}

open Build (function?_eq_some filled_of_isStatement filled_child presentChild?_eq_some role_of_child?)

/-- A child in the role of the name that is there is not empty. -/
theorem filled_name (regular : Regular f t) {name : ParseTree} (found : Build.presentChild? t .name = some name) :
    name ∈ t.nodes ∧ name.isEmpty = false := by
  obtain ⟨named, present⟩ := presentChild?_eq_some found
  obtain ⟨child, role⟩ := role_of_child? named
  exact ⟨ParseTree.mem_nodes_of_mem_children child, filled_child regular child present (by rw [role]; rfl)⟩

/-- A symbol named for a child that is there. -/
theorem over_of_name (regular : Regular f t) (isStatement : t.kind.isStatement = true) {name : ParseTree}
    (found : Build.presentChild? t .name = some name) {s : OutlineSymbol} (span : s.span = t.span)
    (nameSpan : s.nameSpan = name.span) : Over f s t where
  regular := regular
  filled := filled_of_isStatement regular isStatement
  span := span
  named := by
    obtain ⟨inside, filled⟩ := filled_name regular found
    refine ⟨name, inside, nameSpan, fun isEmpty => ?_⟩
    rw [filled] at isEmpty
    cases isEmpty

/-- The `let`s of a body stand over children of it. -/
theorem over_ofLet (regular : Regular f t) {b : FunctionBody} (read : (Build.functionBody f limit t).1 = some b) :
    ∀ s ∈ b.definitions.map ofLet, s.children = [] ∧ ∃ u ∈ t.nodes, Over f s u := by
  unfold Build.functionBody at read
  split at read
  case isFalse => cases read
  obtain rfl := Option.some.inj read
  intro s member
  obtain ⟨d, made, rfl⟩ := List.mem_map.mp member
  obtain ⟨u, kept, isLet⟩ := List.mem_filterMap.mp made
  obtain ⟨child, kind⟩ := List.mem_filter.mp kept
  obtain ⟨name, found, rfl⟩ := Option.map_eq_some_iff.mp isLet
  exact ⟨rfl, u, ParseTree.mem_nodes_of_mem_children child,
    over_of_name (regular.of_child child) (by rw [beq_iff_eq.mp kind]; rfl) found rfl rfl⟩

theorem over_ofFunction (regular : Regular f t) {x : FunctionDecl} (read : Build.functionIn f limit t = some x) :
    Over f (ofFunction x) t ∧
      ∀ c ∈ (ofFunction x).children, c.children = [] ∧ ∃ u ∈ t.nodes, Over f c u := by
  unfold Build.functionIn at read
  split at read
  case isFalse => cases read
  rename_i kind
  obtain ⟨name, found, rfl⟩ := function?_eq_some read
  refine ⟨over_of_name regular (by rw [kind]; rfl) found rfl rfl, fun c member => ?_⟩
  rw [ofFunction, children] at member
  dsimp only at member
  cases body : t.child? .body with
  | none =>
    rw [body] at member
    cases member
  | some tree =>
    rw [body, Option.bind_some] at member
    have child := (role_of_child? body).1
    cases made : (Build.functionBody f limit tree).1 with
    | none =>
      rw [made] at member
      cases member
    | some b =>
      rw [made] at member
      obtain ⟨bare, u, inside, stands⟩ := over_ofLet (regular.of_child child) made c member
      exact ⟨bare, u, ParseTree.nodes_trans inside (ParseTree.mem_nodes_of_mem_children child), stands⟩

theorem over_ofRule (regular : Regular f t) {r : Rule} (read : Build.ruleIn f limit t = some r) :
    Over f (ofRule r) t ∧ (ofRule r).children = [] := by
  unfold Build.ruleIn at read
  split at read
  case isFalse => cases read
  rename_i kind
  obtain rfl := Option.some.inj read
  have filled := filled_of_isStatement regular (by rw [kind]; rfl)
  refine ⟨⟨regular, filled, rfl, t, t.self_mem_nodes, rfl, fun isEmpty => ?_⟩, rfl⟩
  rw [filled] at isEmpty
  cases isEmpty

/-- A match is named for its path, as it is, or for itself. -/
theorem over_ofBlock (regular : Regular f t) (kind : t.kind = .matchDef) :
    Over f (ofBlock (Build.block f limit t)) t where
  regular := regular
  filled := filled_of_isStatement regular (by rw [kind]; rfl)
  span := rfl
  named := by
    cases path : t.child? .path with
    | none =>
      refine ⟨t, t.self_mem_nodes, ?_, fun _ => rfl⟩
      rw [Build.block, ofBlock, path]
      rfl
    | some p =>
      refine ⟨p, ParseTree.mem_nodes_of_mem_children (role_of_child? path).1, ?_, fun _ => rfl⟩
      rw [Build.block, ofBlock, path]
      rfl

theorem ofBlocks_eq_map (blocks : List MatchBlock) : ofBlocks blocks = blocks.map ofBlock := by
  induction blocks with
  | nil => rfl
  | cons block rest ih => rw [ofBlocks, ih, List.map_cons]

theorem children_ofBlock (t : ParseTree) : (ofBlock (Build.block f limit t)).children =
    (((t.child? .body).bind fun body => (Build.matchBody f limit body).1).map ofBody).getD [] := by
  rw [Build.block, ofBlock, children]
  cases (t.child? .body).bind fun body => (Build.matchBody f limit body).1 <;> rfl

/-- The symbols of a body stand over trees in it, and so do all below them. -/
structure Filed (f : SourceFile) (symbols : List OutlineSymbol) (t : ParseTree) : Prop where
  inside : ∀ s ∈ symbols, ∃ u ∈ t.nodes, Over f s u
  below : ∀ s ∈ nodesAll symbols, Placed f s

/-- Symbols over trees in a tree, with nothing below them. -/
theorem Filed.of_bare {symbols : List OutlineSymbol}
    (each : ∀ s ∈ symbols, s.children = [] ∧ ∃ u ∈ t.nodes, Over f s u) : Filed f symbols t where
  inside := fun s member => (each s member).2
  below := by
    intro s member
    obtain ⟨top, first, same | below⟩ := mem_nodesAll.mp member
    all_goals obtain ⟨bare, u, _, stands⟩ := each top first
    · rw [same]
      exact ⟨u, stands, by simp [bare]⟩
    · rw [bare] at below
      cases below

/-- Symbols over children of a tree, each with what is below it in that child. -/
theorem Filed.of_children {symbols : List OutlineSymbol}
    (each : ∀ s ∈ symbols, ∃ c ∈ t.children, Over f s c ∧ Filed f s.children c) : Filed f symbols t where
  inside := by
    intro s member
    obtain ⟨c, child, stands, _⟩ := each s member
    exact ⟨c, ParseTree.mem_nodes_of_mem_children child, stands⟩
  below := by
    intro s member
    obtain ⟨top, first, same | below⟩ := mem_nodesAll.mp member
    all_goals obtain ⟨c, _, stands, filed⟩ := each top first
    · rw [same]
      exact ⟨c, stands, filed.inside⟩
    · exact filed.below s below

/-- Symbols filed in a child are filed in its parent. -/
theorem Filed.of_child {symbols : List OutlineSymbol} {c : ParseTree} (child : c ∈ t.children)
    (filed : Filed f symbols c) : Filed f symbols t where
  inside := by
    intro s member
    obtain ⟨u, inside, stands⟩ := filed.inside s member
    exact ⟨u, ParseTree.nodes_trans inside (ParseTree.mem_nodes_of_mem_children child), stands⟩
  below := filed.below

/-- The symbols of a body are filed in its tree, and those of the body of a match in the tree of the match. -/
theorem filed (t : ParseTree) (regular : Regular f t) :
    (∀ b, (Build.matchBody f limit t).1 = some b → Filed f (ofBody b) t) ∧
      (t.kind = .matchDef → Filed f (ofBlock (Build.block f limit t)).children t) := by
  induction t using ParseTree.induct with
  | step t ih =>
    constructor
    · intro b read
      rw [Build.matchBody_eq] at read
      split at read
      case isFalse => cases read
      obtain rfl := Option.some.inj read
      apply Filed.of_children
      intro s member
      rw [ofBody, ofBlocks_eq_map, List.mem_append, List.mem_append] at member
      rcases member with (member | member) | member
      all_goals
        obtain ⟨x, listed, rfl⟩ := List.mem_map.mp member
        obtain ⟨c, child, made⟩ := List.mem_filterMap.mp listed
        refine ⟨c, child, ?_⟩
      · obtain ⟨stands, bare⟩ := over_ofFunction (regular.of_child child) made
        exact ⟨stands, .of_bare bare⟩
      · obtain ⟨stands, bare⟩ := over_ofRule (regular.of_child child) made
        exact ⟨stands, .of_bare (by simp [bare])⟩
      · unfold Build.blockIn at made
        split at made
        case isFalse => cases made
        rename_i kind
        obtain rfl := Option.some.inj made
        exact ⟨over_ofBlock (regular.of_child child) kind, (ih c child (regular.of_child child)).2 kind⟩
    · intro _
      rw [children_ofBlock]
      cases found : (t.child? .body).bind fun body => (Build.matchBody f limit body).1 with
      | none => exact .of_bare (by simp)
      | some b =>
        obtain ⟨body, inRole, read⟩ := Option.bind_eq_some_iff.mp found
        have child := (role_of_child? inRole).1
        exact .of_child child ((ih body child (regular.of_child child)).1 b read)

/-- The body of a document is that of a tree below it, or holds nothing. -/
theorem body_build (f : SourceFile) (limit : Nat) (root : ParseTree) :
    ofBody (Build.build f root limit).tree.body = [] ∨ ∃ service ∈ root.children, ∃ body ∈ service.children,
      (Build.matchBody f limit body).1 = some (Build.build f root limit).tree.body := by
  unfold Build.build
  split
  · exact Or.inl rfl
  · rename_i service found
    have child := (List.mem_filter.mp (Build.service_eq_ok found).1).1
    dsimp only
    split
    · rename_i body inRole
      cases read : (Build.matchBody f limit body).1 with
      | none => exact Or.inl rfl
      | some b => exact Or.inr ⟨service, child, body, (role_of_child? inRole).1, read⟩
    · exact Or.inl rfl

/-- Every symbol of a document, at any level, stands over a tree. -/
theorem placed_outline {root : ParseTree} (regular : ∀ c ∈ root.children, Regular f c) :
    ∀ s ∈ nodesAll (Build.build f root limit).tree.outline, Placed f s := by
  intro s member
  rw [RulesTree.outline] at member
  rcases body_build f limit root with empty | ⟨service, child, body, inService, read⟩
  · rw [empty] at member
    cases member
  · exact ((filed body ((regular service child).of_child inService)).1 _ read).below s member

end

/-! ## What editors are told -/

theorem symbolValues_eq_map (f : SourceFile) (symbols : List OutlineSymbol) :
    symbolValues f symbols = symbols.map (symbolValue f) := by
  induction symbols with
  | nil => rfl
  | cons s rest ih => rw [symbolValues, ih, List.map_cons]

/-- What an editor is told of a symbol. The name is there, the range does not end before it starts, and the ranges of
the symbols below lie in it. What is selected lies in it as well, unless the symbol is a match that lacks its path: then
it does only if there is nothing between the end of the match and the end of what is selected. -/
structure Told (f : SourceFile) (s : OutlineSymbol) : Prop where
  value : symbolValue f s = .fields ([("name", .string s.shownName)] ++ Json.unlessEmpty "detail" s.detail ++
    [("kind", .ofNat (symbolNumber s.kind)), ("range", rangeValue (editorRange f s.span)),
      ("selectionRange", rangeValue (editorRange f s.nameSpan))] ++
    if s.children = [] then [] else [("children", .array (s.children.map (symbolValue f)))])
  named : s.shownName ≠ []
  forward : (editorRange f s.span).start.IsUpTo (editorRange f s.span).stop
  nested : ∀ c ∈ s.children, (editorRange f c.span).IsWithin (editorRange f s.span)
  selected : (editorRange f s.nameSpan).IsWithin (editorRange f s.span) ↔
    (s.IsPathless → (editorRange f s.nameSpan).stop = (editorRange f s.span).stop)

section

variable {f : SourceFile} {s c : OutlineSymbol} {t u : ParseTree} (read : f.IsRead)

theorem symbolValue_eq (f : SourceFile) (s : OutlineSymbol) : symbolValue f s =
    .fields ([("name", .string s.shownName)] ++ Json.unlessEmpty "detail" s.detail ++
      [("kind", .ofNat (symbolNumber s.kind)), ("range", rangeValue (editorRange f s.span)),
        ("selectionRange", rangeValue (editorRange f s.nameSpan))] ++
      if s.children = [] then [] else [("children", .array (s.children.map (symbolValue f)))]) := by
  obtain ⟨kind, name, detail, span, nameSpan, children⟩ := s
  rw [symbolValue, symbolValues_eq_map, shownName]
  cases children <;> rfl

include read

theorem Over.forward (stands : Over f s t) : (editorRange f s.span).start.IsUpTo (editorRange f s.span).stop := by
  obtain ⟨last, ends, _⟩ := stands.regular.ends
  rw [stands.span, ParseTree.span, ends.span_eq]
  exact Server.editorRange_forward read stands.regular.edges.1.boundary (stands.regular.boundary_last read.small ends)
    ends.low

/-- The range of a tree that is not empty lies in those of the trees around it. -/
theorem range_within (regular : Regular f t) {n : ParseTree} (inside : n ∈ t.nodes) (filled : n.isEmpty = false) :
    (editorRange f n.span).IsWithin (editorRange f t.span) := by
  obtain ⟨last, ends, within⟩ := regular.ends
  obtain ⟨lastN, endsN, le⟩ := within n inside filled
  have regularN := regular.of_mem inside
  rw [ParseTree.span, ParseTree.span, ends.span_eq, endsN.span_eq]
  exact Server.editorRange_within read regular.edges.1.boundary (regular.boundary_last read.small ends)
    regularN.edges.1.boundary (regularN.boundary_last read.small endsN) (regular.inside inside).1 le

/-- A name that is not empty is selected within the range. -/
theorem selected_of_filled (regular : Regular f t) {n : ParseTree} (inside : n ∈ t.nodes)
    (filled : n.isEmpty = false) (span : s.span = t.span) (nameSpan : s.nameSpan = n.span) :
    (editorRange f s.nameSpan).IsWithin (editorRange f s.span) ∧ ¬ s.IsPathless := by
  rw [IsPathless, span, nameSpan]
  refine ⟨range_within read regular inside filled, fun ⟨_, _, outside⟩ => ?_⟩
  have within := regular.span_within read.small inside filled
  have forward := (regular.of_mem inside).span_forward read.small
  have contains : t.span.containsSpan n.span = true := Span.containsSpan_iff.mpr ⟨⟨by omega, by omega⟩, by omega⟩
  rw [contains] at outside
  cases outside

/-- What is selected of a match whose path is empty. -/
theorem selected_of_empty (regular : Regular f t) {n : ParseTree} (inside : n ∈ t.nodes) (empty : n.isEmpty = true)
    (kind : s.kind = .matchBlock) (span : s.span = t.span) (nameSpan : s.nameSpan = n.span) :
    (editorRange f s.nameSpan).IsWithin (editorRange f s.span) ↔
      (s.IsPathless → (editorRange f s.nameSpan).stop = (editorRange f s.span).stop) := by
  obtain ⟨last, ends, _⟩ := regular.ends
  have regularN := regular.of_mem inside
  obtain ⟨lastN, endsN, _⟩ := regularN.ends
  have atStart := endsN.eq_start (ParseTree.isEmpty_iff.mp empty)
  have first := regular.edges.1.boundary
  have here := regular.boundary_last read.small ends
  have there : Boundary f.content n.start := regularN.edges.1.boundary
  have low : t.start ≤ n.start := (regular.inside inside).1
  have place : n.span = ⟨f.pointAt n.start, f.pointAt n.start⟩ := by
    rw [ParseTree.span, endsN.span_eq, atStart]
    rfl
  have whole : t.span = ⟨f.pointAt t.start, f.pointAt last⟩ := ends.span_eq
  rw [IsPathless, span, nameSpan, place, whole]
  rcases Nat.lt_or_ge last n.start with outside | within
  · -- The path stands behind the last character of the match.
    have pathless : s.kind = .matchBlock ∧ (⟨f.pointAt n.start, f.pointAt n.start⟩ : Span).isPoint = true ∧
        (⟨f.pointAt t.start, f.pointAt last⟩ : Span).containsSpan ⟨f.pointAt n.start, f.pointAt n.start⟩ = false := by
      refine ⟨kind, beq_self_eq_true _, ?_⟩
      rw [Bool.eq_false_iff, Ne, Span.containsSpan_iff]
      have := SourceFile.rank_pointAt_lt read.small outside there.le_length
      dsimp only
      omega
    obtain ⟨forward, _, stop, _⟩ := SourceFile.behind_spec read there
    obtain ⟨_, _, stop', next⟩ := SourceFile.behind_spec read here
    rw [Server.editorRange_pointAt read here, Server.editorRange_pointAt read there]
    constructor
    · intro contained _
      exact contained.stop.antisymm
        (Server.editorPosition_mono read stop' stop (Nat.le_trans (next _ outside there) forward))
    · intro same
      refine ⟨Server.editorPosition_mono read first there low, ?_⟩
      rw [same pathless]
      exact Or.inr ⟨rfl, UInt32.le_refl _⟩
  · have contained := Server.editorRange_within read first here there there low within
    refine ⟨fun _ pathless => absurd pathless.2.2 ?_, fun _ => contained⟩
    rw [Bool.not_eq_false, Span.containsSpan_iff]
    have start := SourceFile.rank_pointAt_le read.small low there.le_length
    have stop := SourceFile.rank_pointAt_le read.small within here.le_length
    exact ⟨⟨start, stop⟩, start, stop⟩

theorem Placed.told (placed : Placed f s) : Told f s := by
  obtain ⟨t, stands, below⟩ := placed
  refine ⟨symbolValue_eq f s, s.shownName_ne_nil, stands.forward read, fun c child => ?_, ?_⟩
  · obtain ⟨u, inside, standsC⟩ := below c child
    rw [standsC.span, stands.span]
    exact range_within read stands.regular inside standsC.filled
  · obtain ⟨n, inside, nameSpan, isMatch⟩ := stands.named
    cases empty : n.isEmpty with
    | true => exact selected_of_empty read stands.regular inside empty (isMatch empty) stands.span nameSpan
    | false =>
      obtain ⟨contained, path⟩ := selected_of_filled read stands.regular inside empty stands.span nameSpan
      exact ⟨fun _ pathless => absurd pathless path, fun _ => contained⟩

end

/-- The symbols that an editor is sent of a document, at any level, whatever its bytes and the limit on nesting. -/
theorem outline_told (uri : Bytes) (version : Int) (path text : Bytes) (isVirtual : Bool) (options : AnalysisOptions)
    (small : (SourceFile.ofBytes path text isVirtual).size < 2 ^ 32) :
    let f := SourceFile.ofBytes path text isVirtual
    let d := Document.analyze uri version f options
    symbolValues d.file d.outline = d.outline.map (symbolValue f) ∧ ∀ s ∈ nodesAll d.outline, Told f s := by
  intro f d
  have read := SourceFile.isRead_ofBytes small
  refine ⟨symbolValues_eq_map f d.outline, fun s member => ?_⟩
  exact (placed_outline (Parser.sound_parse f options.maxDepth) s member).told read

/-- A match that has just been begun. -/
def sampleBegun : Bytes := "service a { match }"

theorem outline_told_sampleBegun :
    let f := SourceFile.ofBytes [] sampleBegun true
    f.size < 2 ^ 32 ∧ ∀ s ∈ nodesAll (Document.analyze [] 1 f {}).outline, Told f s := by
  intro f
  have small : f.size < 2 ^ 32 := by decide +kernel
  exact ⟨small, (outline_told [] 1 [] sampleBegun true {} small).2⟩

/-- The place to select of a match that has just been begun lies behind its range. -/
theorem selection_leaves_range :
    let f := SourceFile.ofBytes [] sampleBegun true
    ∃ s ∈ nodesAll (Document.analyze [] 1 f {}).outline,
      editorRange f s.span = ⟨⟨0, 12⟩, ⟨0, 17⟩⟩ ∧ editorRange f s.nameSpan = ⟨⟨0, 17⟩, ⟨0, 18⟩⟩ ∧
        ¬ (editorRange f s.nameSpan).IsWithin (editorRange f s.span) := by
  intro f
  have found : ∃ s ∈ nodesAll (Document.analyze [] 1 f {}).outline,
      editorRange f s.span = ⟨⟨0, 12⟩, ⟨0, 17⟩⟩ ∧ editorRange f s.nameSpan = ⟨⟨0, 17⟩, ⟨0, 18⟩⟩ := by
    decide +kernel
  obtain ⟨s, member, range, selection⟩ := found
  refine ⟨s, member, range, selection, fun contained => ?_⟩
  have stop := contained.stop
  rw [range, selection] at stop
  exact absurd stop (by unfold EditorPosition.IsUpTo; decide)

end OutlineSymbol

end SecurityRules
