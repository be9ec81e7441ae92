import SecurityRules.Analysis
import SecurityRules.Proofs.Mirror.Document
import SecurityRules.Proofs.Origin.Makes

/-!
# Diagnostics depend on the content alone

The parser keeps the whole file but looks at nothing of it besides its content and its line breaks, so it reads the same
tree from a file without a name. The typed document is built from the tree and the texts in it. Two files with the same
content therefore have the same diagnostics under the same options.
-/

namespace SecurityRules

/-! ## Trees -/

/-- The content of a file, without where it came from. -/
def SourceFile.unnamed (f : SourceFile) : SourceFile :=
  { f with path := [], isVirtual := false, hadByteOrderMark := false, hadCrLf := false }

/-- Files that are read from bytes and hold the same content differ in where they came from only. -/
theorem SourceFile.unnamed_ofBytes {path path' text text' : Bytes} {isVirtual isVirtual' : Bool}
    (same : (ofBytes path text isVirtual).content = (ofBytes path' text' isVirtual').content) :
    (ofBytes path text isVirtual).unnamed = (ofBytes path' text' isVirtual').unnamed := by
  have breaks : ∀ p t v, (ofBytes p t v).lineBreaks = lineBreaksFrom 0 (ofBytes p t v).content := fun _ _ _ => rfl
  rw [unnamed, unnamed, breaks, breaks, same]

namespace Parser

/-- The same state in a file without a name. -/
def State.unnamed (s : State) : State := { s with file := s.file.unnamed }

/-- No production looks at the name of the file. -/
def Unseen.name : Unseen where
  on := State.unnamed
  rest := fun _ => rfl
  lastStop := fun _ => rfl
  pending := fun _ => rfl
  size := fun _ => rfl
  extent := fun _ _ _ => rfl
  keeping := fun _ _ => rfl
  advance := fun s => by
    obtain ⟨file, rest, comments, pending, lastStop, depth⟩ := s
    cases rest <;> rfl

/-- The tree of a file is that of its content. -/
theorem parse_unnamed (f : SourceFile) (maxDepth : Int) : parse f.unnamed maxDepth = parse f maxDepth := by
  have starts : State.start f.unnamed = Unseen.name.on (State.start f) := rfl
  have body : Mirrors .name False (matchBodyAt (depthLimit maxDepth)) (matchBodyAt (depthLimit maxDepth)) :=
    mirrors_matchBodyAt _
  have items := documentItems_mirrored body.serviceOf starts False.elim
  rw [parse_eq_documentItems, parse_eq_documentItems, items, closeRoot_under]

end Parser

/-! ## Documents and diagnostics -/

namespace Build

variable (f : SourceFile)

theorem exprAt_unnamed (budget : Nat) : exprAt f.unnamed budget = exprAt f budget := by
  induction budget with
  | zero => rfl
  | succ budget ih =>
    funext t
    rw [exprAt, exprAt, ih]
    rfl

theorem statementExpr_unnamed (limit : Nat) : statementExpr f.unnamed limit = statementExpr f limit := by
  funext t role
  rw [statementExpr, statementExpr, exprAt_unnamed]

theorem letDefinition?_unnamed (limit : Nat) : letDefinition? f.unnamed limit = letDefinition? f limit := by
  funext t
  rw [letDefinition?, letDefinition?, statementExpr_unnamed]
  rfl

theorem functionBody_unnamed (limit : Nat) : functionBody f.unnamed limit = functionBody f limit := by
  funext t
  rw [functionBody, functionBody, letDefinition?_unnamed, statementExpr_unnamed]
  rfl

theorem function?_unnamed (limit : Nat) : function? f.unnamed limit = function? f limit := by
  funext t
  rw [function?, function?, functionBody_unnamed]
  rfl

theorem rule_unnamed (limit : Nat) : rule f.unnamed limit = rule f limit := by
  funext t
  rw [rule, rule, statementExpr_unnamed]
  rfl

theorem functionIn_unnamed (limit : Nat) : functionIn f.unnamed limit = functionIn f limit := by
  funext t
  rw [functionIn, functionIn, function?_unnamed]

theorem ruleIn_unnamed (limit : Nat) : ruleIn f.unnamed limit = ruleIn f limit := by
  funext t
  rw [ruleIn, ruleIn, rule_unnamed]

/-- Bodies, however deep they lie in each other. -/
theorem matchBody_unnamed (limit : Nat) (t : ParseTree) : matchBody f.unnamed limit t = matchBody f limit t := by
  induction t using WellFounded.induction (measure (sizeOf : ParseTree → Nat)).wf with
  | _ t ih =>
    -- The bodies that the items of this one have lie two levels down.
    have body : ∀ c ∈ t.children, ∀ b, c.child? .body = some b → matchBody f.unnamed limit b = matchBody f limit b :=
      fun c member b found => ih b (Nat.lt_trans
        (ParseTree.sizeOf_lt_of_mem_children (ParseTree.mem_children_of_child? found))
        (ParseTree.sizeOf_lt_of_mem_children member))
    have blocks : ∀ c ∈ t.children, blockIn f.unnamed limit c = blockIn f limit c := by
      intro c member
      rw [blockIn, blockIn, block, block]
      cases found : c.child? .body with
      | none => rfl
      | some b =>
        rw [Option.bind_some, Option.bind_some, body c member b found]
        rfl
    have lost : ∀ c ∈ t.children, lostIn f.unnamed limit c = lostIn f limit c := by
      intro c member
      rw [lostIn, lostIn, function?_unnamed]
      cases found : c.child? .body with
      | none => rfl
      | some b =>
        simp only [Option.toList_some, List.flatMap_cons, List.flatMap_nil, body c member b found]
        rfl
    rw [matchBody_eq, matchBody_eq, functionIn_unnamed, ruleIn_unnamed, List.filterMap_congr blocks,
      List.flatMap_congr lost]

theorem build_unnamed (root : ParseTree) (limit : Nat) : build f.unnamed root limit = build f root limit := by
  have body : matchBody f.unnamed limit = matchBody f limit := funext (matchBody_unnamed f limit)
  rw [build, build, body]
  rfl

end Build

namespace Document

/-- The diagnostics of a file are those of its content. -/
theorem diagnostics_unnamed (uri uri' : Bytes) (version version' : Int) (f : SourceFile) (options : AnalysisOptions) :
    (analyze uri version f.unnamed options).diagnostics = (analyze uri' version' f options).diagnostics := by
  rw [analyze, analyze, Parser.parse_unnamed, Build.build_unnamed]
  rfl

/-- Under the same options, two files that hold the same content have the same diagnostics. -/
theorem diagnostics_ofBytes {path path' text text' : Bytes} {isVirtual isVirtual' : Bool}
    (same : (SourceFile.ofBytes path text isVirtual).content = (SourceFile.ofBytes path' text' isVirtual').content)
    (uri uri' : Bytes) (version version' : Int) (options : AnalysisOptions) :
    (analyze uri version (SourceFile.ofBytes path text isVirtual) options).diagnostics =
      (analyze uri' version' (SourceFile.ofBytes path' text' isVirtual') options).diagnostics := by
  rw [← diagnostics_unnamed uri uri version version, SourceFile.unnamed_ofBytes same, diagnostics_unnamed]

end Document

end SecurityRules
