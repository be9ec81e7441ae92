import SecurityRules.Proofs.Precedence.Expressions
import SecurityRules.Proofs.Trivia.Document

/-!
# Grouped documents

In the tree of every document the operands of an operator bind more tightly than the operator does. The one exception
stands behind a type comparison: as a type takes no operators, an operator that follows it takes the whole comparison
as its left operand, however tightly it binds.
-/

namespace SecurityRules.Parser

open ParseTree (AllGrouped)

variable {f : SourceFile} {n : Nat} {kind : NodeKind} {d : Draft}

/-! ## Headers, paths and bodies -/

theorem grouping_rulesVersion : Grouping rulesVersion :=
  grouping_branch rfl fun _ _ _ gathers => by
    dsimp only
    refine Gathers.expect ?_ .semicolon
    split
    · exact ((gathers.take none).expect .assign).takeAs _ rfl
    · exact ((gathers.take none).expect .assign).lacking _ rfl

theorem grouping_serviceName : Grouping serviceName :=
  grouping_branch rfl fun _ _ _ gathers => (gathers.takeAs none rfl).loop fun d gathers => by
    rw [serviceNameTurn]
    split
    · exact (gathers.take none).takeAs none rfl
    · exact gathers

theorem grouping_captureSegment : Grouping captureSegment := by
  intro f s of
  have named := ((gathers_opened .singleSegment of).take none).takeName (some .name)
  rw [captureSegment, branch]
  dsimp only
  split
  · exact ((((named.ofKind .multiSegment).take none).expect .starStar).expect .rightBrace).plain rfl
  · exact (named.expect .rightBrace).plain rfl

theorem Gathers.matchPathTurn (gathers : Gathers f kind n d) : Gathers f kind n (matchPathTurn d).value := by
  have slashed : Gathers f kind n (if d.isAt .slash then d.take else d) := by
    split
    · exact gathers.take none
    · exact gathers
  exact slashed.slashedPart grouping_captureSegment rfl

theorem grouping_matchPath : Grouping matchPath :=
  grouping_branch rfl fun _ _ _ gathers => by
    split
    · exact gathers.loop fun _ gathers => gathers.matchPathTurn
    · have lacking := gathers.lacking none (rfl : (NodeKind.token .slash).isOperation = false)
      dsimp only
      split
      · exact lacking.loop fun _ gathers => gathers.matchPathTurn
      · exact lacking

theorem grouping_matchDef {body : Production} (grouping : Grouping body) : Grouping (matchDef body) :=
  grouping_branch rfl fun _ _ _ gathers =>
    ((gathers.take none).place grouping_matchPath (some .path)).place grouping (some .body)

/-- Items in braces are grouped if each production of an item is. -/
theorem Gathers.body {item? : TokenKind → Option Production} (gathers : Gathers f kind n d)
    (grouping : ∀ k p, item? k = some p → Grouping p) : Gathers f kind n (d.body item?) := by
  refine Gathers.expect ((gathers.take none).loop fun d gathers => ?_) .rightBrace
  rw [bodyTurn]
  split
  · exact gathers
  · refine gathers.place ?_ none
    cases found : item? d.state.peek.kind with
    | none => exact grouping_skipUntil isBodySync
    | some p => exact grouping _ p found

/-! ## Functions and rules -/

section

variable {expression : Production} (grouping : Grouping expression)
include grouping

theorem grouping_variableDef : Grouping (variableDef expression) :=
  grouping_branch rfl fun _ _ _ gathers =>
    ((((gathers.take none).takeName (some .name)).expect .assign).place grouping (some .value)).expect .semicolon

theorem grouping_returnStatement : Grouping (returnStatement expression) :=
  grouping_branch rfl fun _ _ _ gathers => ((gathers.take none).place grouping (some .value)).optionalSemicolon

theorem grouping_functionBody : Grouping (functionBody expression) :=
  grouping_branch rfl fun _ _ _ gathers => by
    split
    · refine gathers.body fun k p found => ?_
      split at found
      · cases found
        exact grouping_variableDef grouping
      · cases found
        exact grouping_returnStatement grouping
      · cases found
    · exact gathers.lacking none rfl

omit grouping in
theorem Gathers.parameterTurn (gathers : Gathers f kind n d) : Gathers f kind n (parameterTurn d).value := by
  have parameter : Grouping (branch .parameter fun p => p.takeAs none .identifier) :=
    grouping_branch rfl fun _ _ _ gathers => gathers.takeAs none rfl
  rw [Parser.parameterTurn]
  split
  · exact gathers
  · have placed : Gathers f kind n
        (if d.isAt .identifier then
          d.place (some .param) (branch .parameter fun p => p.takeAs none .identifier)
        else d.place none stray) := by
      split
      · exact gathers.place parameter _
      · exact gathers.place closed_stray.grouping none
    exact placed.comma

theorem grouping_functionDef : Grouping (functionDef expression) :=
  grouping_branch rfl fun _ _ _ gathers => by
    have opened := ((gathers.take none).takeName (some .name)).expect .leftParen
    refine Gathers.place ?_ (grouping_functionBody grouping) (some .body)
    split
    · exact (opened.loop fun _ gathers => gathers.parameterTurn).expect .rightParen
    · exact opened

omit grouping in
theorem Gathers.methodTurn (gathers : Gathers f kind n d) : Gathers f kind n (methodTurn d).value := by
  rw [Parser.methodTurn]
  split
  · have placed : Gathers f kind n
        (if isMethod d.state.peek.text then d.takeAs (some .method) .method else d.place none stray) := by
      split
      · exact gathers.takeAs _ rfl
      · exact gathers.place closed_stray.grouping none
    exact placed.comma
  · exact gathers

/-- The condition of a rule, if there is one, and the end of the rule. -/
theorem Gathers.ruleTail (gathers : Gathers f kind n d) : Gathers f kind n
    (if d.isAt .colon then (d.take.expect .kwIf).place (some .condition) expression else d).optionalSemicolon := by
  refine Gathers.optionalSemicolon ?_
  split
  · exact ((gathers.take none).expect .kwIf).place grouping (some .condition)
  · exact gathers

theorem grouping_ruleDef : Grouping (ruleDef expression) :=
  grouping_branch rfl fun f n d gathers => by
    have taken := gathers.take none
    have methods : Gathers f .ruleDef n
        (if d.take.isAt .identifier then d.take.loop methodTurn else d.take.lacking (some .method) .method) := by
      split
      · exact taken.loop fun _ gathers => gathers.methodTurn
      · exact taken.lacking _ rfl
    exact methods.ruleTail grouping

end

/-! ## Services and documents -/

theorem grouping_matchBodyAt (budget : Nat) : Grouping (matchBodyAt budget) := by
  induction budget with
  | zero =>
    refine grouping_branch rfl fun _ _ _ gathers => ?_
    split
    · exact gathers.place (grouping_skipUntil _) none
    · exact gathers.lacking none rfl
  | succ budget ih =>
    refine grouping_branch rfl fun _ _ _ gathers => ?_
    split
    · refine gathers.body fun k p found => ?_
      split at found
      · cases found
        exact grouping_matchDef ih
      · cases found
        exact grouping_functionDef (grouping_expressionAt budget).1
      · cases found
        exact grouping_ruleDef (grouping_expressionAt budget).1
      · cases found
    · exact gathers.lacking none rfl

theorem grouping_serviceDef (limit : Nat) : Grouping (serviceDef limit) :=
  grouping_branch rfl fun f n d gathers => by
    refine Gathers.place ?_ (grouping_matchBodyAt limit) (some .body)
    split
    · exact (gathers.take none).place grouping_serviceName _
    · exact (gathers.take none).lacking _ rfl

theorem grouping_topItem (limit : Nat) (k : TokenKind) : Grouping (topItem limit k) := by
  unfold topItem
  split
  · exact grouping_rulesVersion
  · exact grouping_serviceDef limit
  · exact grouping_skipUntil isTopSync

theorem gathers_items (f : SourceFile) (maxDepth : Int) :
    Gathers f .sourceFile (State.start f).rest.length (items f maxDepth) := by
  have loop : Gathers f .sourceFile (State.start f).rest.length
      ((Draft.opened .sourceFile (State.start f)).loop (topTurn (depthLimit maxDepth))) := by
    refine (gathers_opened .sourceFile (of_start f)).loop fun d gathers => ?_
    rw [topTurn_eq]
    split
    · exact gathers
    · exact gathers.place (grouping_topItem _ _) none
  rw [items]
  split
  · exact loop
  · exact loop.lacking none rfl

/-- In every tree the operands of an operator bind as tightly as they have to. -/
theorem operators_grouped (f : SourceFile) (maxDepth : Int) : ∀ n ∈ (parse f maxDepth).nodes, n.Grouped := by
  refine ParseTree.allGrouped_iff.mpr ⟨.of_plain rfl, fun c child => ?_⟩
  obtain ⟨grown, ended⟩ := grown_items f maxDepth
  have comment : ∀ low high, c ∈ f.commentsIn low high → c.AllGrouped := by
    intro low high member
    obtain ⟨t, -, -, rfl⟩ := f.mem_commentsIn member
    exact ParseTree.allGrouped_leaf rfl rfl
  rw [parse_eq, children_closeRoot grown ended] at child
  obtain child | behind := List.mem_append.mp child
  · obtain before | item := List.mem_append.mp child
    · exact comment _ _ before
    · exact (gathers_items f maxDepth).children c item
  · exact comment _ _ behind

/-- A sum behind a type comparison. -/
def sampleComparison : SourceFile :=
  SourceFile.ofBytes [] (Bytes.ofString "service a \x7b allow read: if x is string + 1; \x7d") true

theorem operators_grouped_sampleComparison : ∃ n ∈ (parse sampleComparison 256).nodes,
    n.kind.tier? = some .addition ∧ n.Grouped := by
  have sum : ∃ n ∈ (parse sampleComparison 256).nodes, n.kind.tier? = some .addition := by decide +kernel
  obtain ⟨n, member, kind⟩ := sum
  exact ⟨n, member, kind, operators_grouped sampleComparison 256 n member⟩

/-- The sum has the comparison as its left operand, although comparisons are of a looser tier. -/
theorem sum_of_sampleComparison : ∃ n ∈ (parse sampleComparison 256).nodes, n.kind.tier? = some .addition ∧
    ∃ left ∈ n.childrenIn .left, left.kind.tier? = some .relation ∧ Tier.relation.rank < Tier.addition.rank := by
  decide +kernel

end SecurityRules.Parser
