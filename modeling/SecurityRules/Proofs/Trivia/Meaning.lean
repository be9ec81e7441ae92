import SecurityRules.Analysis
import SecurityRules.Proofs.Trivia.Build
import SecurityRules.Proofs.Trivia.Document

/-!
# Comments and white space mean nothing

Two documents with the same words have the same trees, comments and places apart. So the same things are defined in
them, each name stands for the same thing, and the same calls have no definition.
-/

namespace SecurityRules

/-! ## What a walk finds -/

namespace RulesTree

variable (tree : RulesTree) (policy : ScopePolicy) (builtins : List Bytes)

/-- The references of a document in the order of a walk, each with what it stands for, places apart. -/
def resolutions : List (Element × Except ResolveError Declaration) :=
  ((Element.tree tree).walk []).filterMap fun (scopes, e) =>
    (Scope.reference? e).map fun reference =>
      (e.unplaced, (Scope.resolveIn policy reference scopes).map (·.unplaced))

/-- The calls without a definition in the order of a walk, places apart. -/
def unresolved : List Element :=
  ((Element.tree tree).walk []).filterMap fun (scopes, e) =>
    (Diagnose.unresolvedCall? policy builtins scopes e).map fun _ => e.unplaced

theorem walk_unplaced : (Element.tree tree.unplaced).walk [] =
    ((Element.tree tree).walk []).map Element.unplacedPair :=
  (Element.tree tree).walk_unplaced []

theorem resolutions_eq : tree.resolutions policy =
    ((Element.tree tree.unplaced).walk []).filterMap fun (scopes, e) =>
      (Scope.reference? e).map fun reference => (e, Scope.resolveIn policy reference scopes) := by
  rw [walk_unplaced, List.filterMap_map, resolutions]
  congr 1
  funext ⟨scopes, e⟩
  simp only [Function.comp_apply, Element.unplacedPair, Scope.reference?_unplaced, Scope.resolveIn_unplaced]

/-- Whether a call is reported does not depend on places. -/
theorem isSome_unresolvedCall?_unplaced (scopes : List Element) (e : Element) :
    (Diagnose.unresolvedCall? policy builtins (scopes.map Element.unplaced) e.unplaced).isSome =
      (Diagnose.unresolvedCall? policy builtins scopes e).isSome := by
  cases e with
  | expr x =>
    cases x with
    | call span name nameSpan args =>
      simp only [Element.unplaced, Expr.unplaced, Diagnose.unresolvedCall?, Scope.resolveIn_unplaced]
      split
      · rfl
      · cases Scope.resolveIn policy (.call name) scopes <;> rfl
    | _ => rfl
  | _ => rfl

theorem unresolved_eq : tree.unresolved policy builtins =
    ((Element.tree tree.unplaced).walk []).filterMap fun (scopes, e) =>
      (Diagnose.unresolvedCall? policy builtins scopes e).map fun _ => e := by
  rw [walk_unplaced, List.filterMap_map, unresolved]
  congr 1
  funext ⟨scopes, e⟩
  have same := isSome_unresolvedCall?_unplaced policy builtins scopes e
  simp only [Function.comp_apply, Element.unplacedPair]
  generalize Diagnose.unresolvedCall? policy builtins scopes e = found at same
  generalize Diagnose.unresolvedCall? policy builtins (scopes.map Element.unplaced) e.unplaced = found' at same
  cases found <;> cases found' <;> simp_all

end RulesTree

/-! ## Documents with the same words -/

/-- Documents that say the same: their parse trees are the same without comments, their typed documents are the same,
as much has no place in these, the same things are defined, each reference stands for the same declaration or for none,
and the same calls have no definition. Places do not count. -/
structure Document.SameMeaning (d d' : Document) (builtins : List Bytes) : Prop where
  shape : d.root.shape d.file = d'.root.shape d'.file
  tree : d.built.tree.unplaced = d'.built.tree.unplaced
  unmapped : d.built.unmapped.length = d'.built.unmapped.length
  definitions : d.definitions.map (·.unplaced) = d'.definitions.map (·.unplaced)
  resolutions : d.built.tree.resolutions d.policy = d'.built.tree.resolutions d'.policy
  unresolved : d.built.tree.unresolved d.policy builtins = d'.built.tree.unresolved d'.policy builtins

variable {f f' : SourceFile}

/-- Parse trees of files with the same words are the same without comments and places. -/
theorem Parser.shape_parse (same : f.SameWords f') (maxDepth : Int) :
    (parse f maxDepth).shape f = (parse f' maxDepth).shape f' := by
  have parts := alike_parse same maxDepth
  have shapes : (parse f maxDepth).significant.map (ParseTree.shape f) =
      (parse f' maxDepth).significant.map (ParseTree.shape f') := by
    generalize (parse f maxDepth).significant = cs at parts
    generalize (parse f' maxDepth).significant = cs' at parts
    induction parts with
    | nil => rfl
    | cons first _ ih => rw [List.map_cons, List.map_cons, first.shape_eq, ih]
  have grown (f : SourceFile) : ¬(parse f maxDepth).children.isEmpty = true := by
    rw [List.isEmpty_iff]
    exact children_parse_ne_nil f maxDepth
  rw [ParseTree.shape_eq, ParseTree.shape_eq, shapes, if_neg (grown f), if_neg (grown f')]
  rfl

/-- White space and comments mean nothing: files with the same words give documents that say the same, however deep
expressions may nest. -/
theorem sameMeaning_analyze (same : f.SameWords f') (uri uri' : Bytes) (version version' : Int)
    (options : AnalysisOptions) :
    (Document.analyze uri version f options).SameMeaning (Document.analyze uri' version' f' options)
      options.builtins := by
  obtain ⟨tree, unmapped⟩ := Build.build_alike (Parser.depthLimit options.maxDepth)
    (Parser.alike_parse same options.maxDepth)
  refine ⟨Parser.shape_parse same options.maxDepth, tree, unmapped, ?_, ?_, ?_⟩
  · exact (RulesTree.definitions_unplaced _).symm.trans
      ((congrArg RulesTree.definitions tree).trans (RulesTree.definitions_unplaced _))
  · rw [RulesTree.resolutions_eq, RulesTree.resolutions_eq]
    exact congrArg _ (congrArg (fun tree => (Element.tree tree).walk []) tree)
  · rw [RulesTree.unresolved_eq, RulesTree.unresolved_eq]
    exact congrArg _ (congrArg (fun tree => (Element.tree tree).walk []) tree)

/-- A document on one row. -/
def sampleRow : SourceFile :=
  SourceFile.ofBytes []
    (Bytes.ofString "service a.b \x7b match /c/\x7bd\x7d \x7b allow read: if f(d, 1) && d in [2]; \x7d \x7d") true

/-- The same document on several rows, with comments where arguments, operands and items are counted. -/
def sampleRows : SourceFile :=
  SourceFile.ofBytes []
    (Bytes.ofString "// head\nservice\n  a.b /* */ \x7b\n  match /c/\x7bd\x7d\n  \x7b // item\n    allow read: if f(d, /* one */ 1) /* and */ &&\n      d // left\n      in [2]; // end\n  \x7d\n\x7d // tail\n") true

theorem sameMeaning_analyze_sampleRows :
    sampleRow.SameWords sampleRows ∧
      (Document.analyze [] 0 sampleRow {}).SameMeaning (Document.analyze [] 1 sampleRows {}) [] := by
  have same : sampleRow.SameWords sampleRows := ⟨by decide +kernel, by decide +kernel⟩
  exact ⟨same, sameMeaning_analyze same [] [] 0 1 {}⟩

end SecurityRules
