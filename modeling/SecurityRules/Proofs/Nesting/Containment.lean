import SecurityRules.Proofs.Grammar.Document
import SecurityRules.Proofs.Nesting.Declarations

/-!
# What the limit on nesting leaves alone

A document is parsed without an error, and once more with less nesting allowed. A statement that stays within the
smaller limit is read as before, whatever is cut or skipped elsewhere, if the expressions that are cut end where the
parser takes them to end.
-/

namespace SecurityRules.Parser

open ParseTree (visitsAll)

variable {f : SourceFile} {limit stop : Nat} {s s' : State} {d d' : Draft}

/-! ## The top level -/

theorem preserves_topItem (budget : Nat) (states : Level f s s')
    (clean : (topItem budget s.peek.kind s).1.hasError = false) :
    Preserves f limit 0 stop (topItem budget s.peek.kind s) (topItem limit s.peek.kind s') := by
  generalize known : s.peek.kind = k at clean ⊢
  have found : s.isAt k = true := beq_iff_eq.mpr known
  cases k
  case kwRulesVersion =>
    exact .of_inStep (inStep_rulesVersion states found) (yields_rulesVersion f s states.of found)
      fun k known => by rw [eq_of_beq known]; rfl
  case kwService => exact preserves_serviceDef budget states found
  all_goals
    rw [show topItem budget _ = skipUntil isTopSync from rfl, hasError_skipUntil] at clean
    cases clean

/-- A turn of the top level. -/
theorem Guarded.topTurn {budget : Nat} (guarded : Guarded f limit .sourceFile 0 stop s s' d d')
    (fine : Fine f limit .sourceFile 0 stop (topTurn budget d).value) :
    Turn.Paired (Guarded f limit .sourceFile 0 stop s s') (Guarded f limit .sourceFile 0 stop s s')
      (topTurn budget d) (topTurn limit d') := by
  have states := guarded.abreast.states
  rw [topTurn_eq] at fine ⊢
  rw [topTurn_eq, states.peek]
  split
  · exact .done guarded
  · rename_i going
    rw [if_neg going] at fine
    have fine : Fine f limit .sourceFile 0 stop (d.place none (topItem budget d.state.peek.kind)) := fine
    have ahead := State.rest_ne_nil going
    have reads := (takes_topItem budget states.first ahead).1
    have reads' := (takes_topItem limit states.second (guarded.abreast.ahead' ahead)).1
    rw [states.peek] at reads'
    have next := guarded.place fine reads reads' (isWholeIn_inRole _ _ _)
      (preserves_topItem budget states fine.child_place.1)
    exact .again next next

theorem Fine.of_topTurn {budget : Nat} (fine : Fine f limit .sourceFile 0 stop (topTurn budget d).value) :
    Fine f limit .sourceFile 0 stop d := by
  rw [topTurn_eq] at fine
  split at fine
  · exact fine
  · exact fine.of_place

theorem level_start (f : SourceFile) : Level f (State.start f) (State.start f) := by
  refine ⟨State.At.start f, State.At.start f, rfl, rfl, fun c member => ?_⟩
  rcases List.mem_append.mp member with none | new
  · cases none
  · obtain ⟨t, passed, rfl⟩ := List.mem_map.mp new
    have comment := (List.takeWhile_sublist _).mem passed
    exact ⟨t, List.mem_of_mem_filter comment, rfl⟩

/-- A document without errors has a service. -/
theorem items_eq {maxDepth : Int} (clean : (items f maxDepth).isClean = true) :
    items f maxDepth = (Draft.opened .sourceFile (State.start f)).loop (topTurn (depthLimit maxDepth)) := by
  rw [items] at clean ⊢
  split at clean
  · rename_i service
    rw [if_pos service]
  · rw [dirty_lacking] at clean
    cases clean

/-- All that the loop of the top level has read stays in the document. -/
theorem mem_items (maxDepth : Int) {t : ParseTree}
    (member : t ∈ ((Draft.opened .sourceFile (State.start f)).loop (topTurn (depthLimit maxDepth))).tree.children) :
    t ∈ (items f maxDepth).tree.children := by
  rw [items]
  split
  · exact member
  · obtain ⟨placed, children, _⟩ := (attached_attach _ _ _).children
    rw [Draft.lacking, children]
    exact List.mem_append_left _ (List.mem_append_left _ member)

/-! ## The document -/

theorem keeps_items {maxDepth : Int} {limit : Nat} (positive : 1 ≤ limit) (clean : (items f maxDepth).isClean = true)
    (cuts : CutsWell f limit (visitsAll .sourceFile 0 0 (items f maxDepth).tree.children)) :
    Keeps limit (visitsAll .sourceFile 0 0 (items f maxDepth).tree.children) (items f limit).tree.children := by
  have bound : depthLimit limit = limit := by
    rw [depthLimit, if_neg (by omega), Int.toNat_natCast]
  have fine : Fine f limit .sourceFile 0 0 (items f maxDepth) := ⟨clean, cuts⟩
  rw [items_eq clean] at fine ⊢
  have guarded : Guarded f limit .sourceFile 0 0 (State.start f) (State.start f)
      ((Draft.opened .sourceFile (State.start f)).loop (topTurn (depthLimit maxDepth)))
      ((Draft.opened .sourceFile (State.start f)).loop (topTurn (depthLimit limit))) := by
    rw [bound]
    exact iterate_together (fun _ _ guarded => by rw [guarded.abreast.states.rest]) (fun _ => Fine.of_topTurn)
      (fun _ _ => Guarded.topTurn) (.opened (level_start f) NodeKind.noConfusion) fine
  exact guarded.keeps.mono fun t => mem_items limit

/-- Visits in a document are visits in its items, but for comments and the document itself. -/
theorem mem_visits_parse {maxDepth : Int} {v : Visit} (member : v ∈ (parse f maxDepth).visits 0 false 0)
    (item : v.tree.kind.isStatementItem = true) :
    v ∈ visitsAll .sourceFile 0 0 (items f maxDepth).tree.children := by
  obtain ⟨grown, ended⟩ := grown_items f maxDepth
  rcases ParseTree.mem_visits.mp member with rfl | ⟨c, child, below⟩
  · cases item
  · have comment : ∀ low high, c ∉ f.commentsIn low high := by
      intro low high member
      obtain ⟨t, _, _, rfl⟩ := f.mem_commentsIn member
      rcases ParseTree.mem_visits.mp below with rfl | ⟨_, none, _⟩
      · cases item
      · cases none
    rw [parse_eq, children_closeRoot grown ended, List.mem_append, List.mem_append] at child
    have inside := (child.resolve_right (comment _ _)).resolve_left (comment _ _)
    exact ParseTree.mem_visitsAll.mpr ⟨c, inside, below⟩

/-- A limit on nesting is contained: every statement within it is read as without it, over the same bytes and with the
same tree, if the expressions past it end at the first token that can never go on an expression. -/
theorem statement_within_limit (f : SourceFile) (maxDepth : Int) (limit : Nat) (positive : 1 ≤ limit)
    (clean : (parse f maxDepth).hasError = false) (cuts : CutsWell f limit ((parse f maxDepth).visits 0 false 0))
    (v : Visit) (member : v ∈ (parse f maxDepth).visits 0 false 0) (item : v.tree.kind.isStatementItem = true)
    (shallow : Shallow limit (v.tree.visits v.before v.isWhole v.stop)) : v.tree ∈ (parse f limit).nodes := by
  obtain ⟨grown, ended⟩ := grown_items f maxDepth
  obtain ⟨grown', ended'⟩ := grown_items f limit
  have inside : CutsWell f limit (visitsAll .sourceFile 0 0 (items f maxDepth).tree.children) := by
    intro u visit
    obtain ⟨c, child, below⟩ := ParseTree.mem_visitsAll.mp visit
    refine cuts u (ParseTree.mem_visits.mpr (Or.inr ⟨c, ?_, below⟩))
    rw [parse_eq, children_closeRoot grown ended]
    exact List.mem_append_left _ (List.mem_append_right _ child)
  obtain ⟨t, child, found⟩ := keeps_items positive ((hasError_parse f maxDepth).mp clean) inside v
    (mem_visits_parse member item) item shallow
  refine ParseTree.mem_nodes.mpr (Or.inr ⟨t, ?_, found⟩)
  rw [parse_eq, children_closeRoot grown' ended']
  exact List.mem_append_left _ (List.mem_append_right _ child)

/-- The condition of the first rule has three levels in it. -/
def sampleParens : SourceFile :=
  SourceFile.ofBytes [] (Bytes.ofString "service a \x7b allow read: if ((x)); allow write; \x7d") true

theorem statement_within_limit_sampleParens : (parse sampleParens 3).hasError = true ∧
    ∃ v ∈ (parse sampleParens 256).visits 0 false 0, v.tree.kind = .ruleDef ∧ v.tree.start = 34 ∧
      v.tree ∈ (parse sampleParens 3).nodes := by
  have clean : (parse sampleParens 256).hasError = false := by decide +kernel
  have cuts : CutsWell sampleParens 3 ((parse sampleParens 256).visits 0 false 0) := by decide +kernel
  have second : ∃ v ∈ (parse sampleParens 256).visits 0 false 0, v.tree.kind = .ruleDef ∧ v.tree.start = 34 ∧
      Shallow 3 (v.tree.visits v.before v.isWhole v.stop) := by decide +kernel
  obtain ⟨v, member, kind, start, shallow⟩ := second
  refine ⟨by decide +kernel, v, member, kind, start, ?_⟩
  exact statement_within_limit sampleParens 256 3 (by decide) clean cuts v member (by rw [kind]; rfl) shallow

/-- A conditional expression in another one, as a value of a map. -/
def sampleConditional : SourceFile :=
  SourceFile.ofBytes []
    (Bytes.ofString "service a \x7b allow read: if \x7b'k': a ? x ? y : z : w\x7d; allow write; \x7d") true

/-- Without the condition on where expressions end, a statement within the limit can be lost: the inner condition is cut
at its own colon, the brace of the map closes the service, and the next rule lies outside. -/
theorem statement_lost_sampleConditional : (parse sampleConditional 256).hasError = false ∧
    (∃ v ∈ (parse sampleConditional 256).visits 0 false 0, v.tree.kind = .ruleDef ∧ v.tree.start = 53 ∧
      Shallow 3 (v.tree.visits v.before v.isWhole v.stop)) ∧
    ∀ n ∈ (parse sampleConditional 3).nodes, ¬ (n.kind = .ruleDef ∧ n.start = 53) := by
  decide +kernel

end SecurityRules.Parser
