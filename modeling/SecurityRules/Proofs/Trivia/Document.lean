import SecurityRules.Parser
import SecurityRules.Proofs.Parser.Lossless
import SecurityRules.Proofs.Token.Heads
import SecurityRules.Proofs.Trivia.Expressions

/-!
# Documents over the same words

Declarations read trees that are alike from states that are the same. Two documents with the same words therefore have
trees that differ in comments and places only.
-/

namespace SecurityRules

/-- The tokens of a file that are no comments. -/
def SourceFile.significant (f : SourceFile) : List Token := f.tokens.filter (!·.kind.isComment)

/-- Which tokens touch the one in front of them. -/
def Token.joints (ts : List Token) : List Bool := ts.zipWith (fun a b => b.start == a.stop) ts.tail

/-- Files with the same words: their significant tokens have the same kinds and texts, and the same ones of them touch
each other. -/
structure SourceFile.SameWords (f f' : SourceFile) : Prop where
  tokens : f.significant.map (fun t => (t.kind, t.text)) = f'.significant.map fun t => (t.kind, t.text)
  joints : Token.joints f.significant = Token.joints f'.significant

namespace ParseTree

/-- A tree that is alike stays so with another kind that asks for no more text. -/
theorem Alike.ofKind {f f' : SourceFile} {t t' : ParseTree} {kind : NodeKind} (alike : Alike f f' t t')
    (inner : kind.isSpelled = false) (other : t.kind ≠ .functionDef)
    (labels : ∀ r, kind.isLabelled r = true → t.kind.isLabelled r = true) :
    Alike f f' (t.ofKind kind) (t'.ofKind kind) := by
  have matched := alike.matched
  have tame {u : ParseTree} (same : u.kind = t.kind) (tame : u.Tame) : (u.ofKind kind).Tame := by
    refine ⟨fun spelled => ?_, ?_, ?_, fun c member labelled => ?_⟩
    · rw [kind_ofKind, inner] at spelled
      cases spelled
    · rw [children_ofKind]
      exact tame.first
    · rw [children_ofKind]
      exact tame.extras
    · rw [children_ofKind] at member
      rw [kind_ofKind] at labelled
      refine Or.inl ((tame.labels c member (same ▸ labels c.role labelled)).resolve_right fun param => ?_)
      exact other (same ▸ congrArg Prod.fst param.1)
  have text (u : ParseTree) (file : SourceFile) : (u.ofKind kind).text file = u.text file := by
    cases u
    rfl
  have role (u : ParseTree) : (u.ofKind kind).role = u.role := by
    cases u
    rfl
  refine .of ⟨?_, ?_, ?_, ?_, ?_, tame rfl matched.tame, tame matched.kind.symm matched.tame'⟩ ?_
  · rw [kind_ofKind, kind_ofKind]
  · simpa using matched.isMissing
  · rw [role, role, matched.role]
  · simpa using matched.bare
  · rw [text, text, children_ofKind]
    exact matched.text
  · simpa [significant] using alike.parts

end ParseTree

namespace Parser

open Grammar
open ParseTree (Alike)

variable {f f' : SourceFile} {s s' : State} {kind : NodeKind} {d d' : Draft}

/-! ## Headers and names -/

/-- A header starts with its first token, whatever that touches. -/
theorem Near.rulesVersion (near : Near f f' s s') : Pair f f' (rulesVersion s) (rulesVersion s') := by
  have assigned : Grows f f' .rulesVersion _ _ := (near.take none rfl).expect .assign rfl
  refine Grows.pair (?_ : Grows f f' .rulesVersion _ _) NodeKind.noConfusion
  refine Grows.expect ?_ .semicolon rfl
  rw [← assigned.isAt]
  split
  · exact assigned.takeAs _ NodeKind.noConfusion
  · exact assigned.lacking _ NodeKind.noConfusion

theorem stable_serviceName : Stable serviceName :=
  stable_branch rfl NodeKind.noConfusion fun _ _ _ _ grows =>
    (grows.takeAs none NodeKind.noConfusion).loop fun d d' grows => by
      rw [serviceNameTurn, serviceNameTurn]
      refine .ite ?_ (.again ((grows.take none).takeAs none NodeKind.noConfusion)) (.done grows)
      have adjacent := grows.state.and_isAdjacent (p := (· == .dot)) rfl
      rw [Draft.isAt, Draft.isAt, State.isAt, State.isAt, ← grows.state.second_kind]
      exact congrArg (· && _) adjacent

/-! ## Matches -/

theorem Grows.ofKind {wider : NodeKind} (grows : Grows f f' kind d d') (inner : wider.isSpelled = false)
    (other : kind ≠ .functionDef)
    (labels : ∀ r, wider.isLabelled r = true → kind.isLabelled r = true) :
    Grows f f' wider (d.ofKind wider) (d'.ofKind wider) :=
  ⟨inner, grows.tree.ofKind inner (grows.kind ▸ other) (grows.kind ▸ labels), ParseTree.kind_ofKind _ _, grows.state⟩

theorem stable_captureSegment : Stable captureSegment := by
  intro f f' s s' same
  have named : Grows f f' .singleSegment _ _ := ((same.opened rfl).take none).takeName (some .name)
  rw [captureSegment, branch, branch]
  dsimp only
  rw [← named.isAt]
  split
  · have wide := named.ofKind (rfl : NodeKind.multiSegment.isSpelled = false) NodeKind.noConfusion fun r labelled => by
      cases r with
      | none => exact labelled
      | some r => cases r <;> exact labelled
    exact (((wide.take none).expect .starStar rfl).expect .rightBrace rfl).pair NodeKind.noConfusion
  · exact (named.expect .rightBrace rfl).pair NodeKind.noConfusion

theorem related_matchPathTurn (grows : Grows f f' .matchPath d d') :
    Turn.Related (Grows f f' .matchPath) (matchPathTurn d) (matchPathTurn d') := by
  have slashed : Grows f f' .matchPath (if d.isAt .slash then d.take else d)
      (if d'.isAt .slash then d'.take else d') := by
    rw [← grows.isAt]
    split
    · exact grows.take none
    · exact grows
  exact related_slashedPart slashed stable_captureSegment NodeKind.noConfusion rfl

theorem stable_matchPath : Stable matchPath :=
  stable_branch rfl NodeKind.noConfusion fun _ _ d d' grows => by
    rw [← grows.isAt]
    split
    · exact grows.loop fun _ _ grows => related_matchPathTurn grows
    · have lacking := grows.lacking none (NodeKind.noConfusion : NodeKind.token .slash ≠ .comment)
      dsimp only
      rw [Draft.isAtAny, Draft.isAtAny, ← lacking.state.isAtAny]
      split
      · exact lacking.loop fun _ _ grows => related_matchPathTurn grows
      · exact lacking

theorem stable_matchDef {body : Production} (stable : Stable body) : Stable (matchDef body) :=
  stable_branch rfl NodeKind.noConfusion fun _ _ _ _ grows =>
    ((grows.take none).read stable_matchPath rfl).read stable rfl

/-! ## Functions -/

theorem stable_parameter : Stable (branch .parameter fun p => p.takeAs none .identifier) :=
  stable_branch rfl NodeKind.noConfusion fun _ _ _ _ grows => grows.takeAs none NodeKind.noConfusion

theorem kind_parameter (s : State) : (branch .parameter (fun p => p.takeAs none .identifier) s).1.kind = .parameter :=
  (attached_attach _ _ _).kind

theorem related_parameterTurn (grows : Grows f f' .functionDef d d') :
    Turn.Related (Grows f f' .functionDef) (parameterTurn d) (parameterTurn d') := by
  rw [parameterTurn, parameterTurn]
  refine .ite (by rw [grows.isAt, grows.state.isAtSync]) (.done grows) ?_
  have placed : Grows f f' .functionDef
      (if d.isAt .identifier then d.place (some .param) (branch .parameter fun p => p.takeAs none .identifier)
        else d.place none stray)
      (if d'.isAt .identifier then d'.place (some .param) (branch .parameter fun p => p.takeAs none .identifier)
        else d'.place none stray) := by
    rw [← grows.isAt]
    split
    · exact grows_attach grows.tree grows.kind (stable_parameter _ _ _ _ grows.state) _ rfl fun _ =>
        .inr ⟨rfl, kind_parameter _⟩
    · exact grows.read stable_stray rfl
  exact .ite (placed.isAt .comma) (.again (placed.take none)) (.done placed)

theorem Grows.optionalSemicolon (grows : Grows f f' kind d d') :
    Grows f f' kind d.optionalSemicolon d'.optionalSemicolon := by
  rw [Draft.optionalSemicolon, Draft.optionalSemicolon, ← grows.isAt]
  split
  · exact grows.take none
  · exact grows

/-- The items of a body are read alike if each of its productions reads alike. -/
theorem Grows.body {item? : TokenKind → Option Production} (grows : Grows f f' kind d d')
    (free : kind.isLabelled none = false) (stable : ∀ k p, item? k = some p → Stable p) :
    Grows f f' kind (d.body item?) (d'.body item?) := by
  refine Grows.expect ((grows.take none).loop fun d d' grows => ?_) .rightBrace free
  rw [bodyTurn, bodyTurn, Draft.isAtAny, Draft.isAtAny, ← grows.state.isAtAny, ← grows.state.kind]
  refine .ite rfl (.done grows) (.again (grows.place ?_ none free))
  cases found : item? d.state.peek.kind with
  | none => exact grows.state.near.skipUntil isBodySync
  | some p => exact stable _ p found _ _ _ _ grows.state

section

variable {expression : Production} (stable : Stable expression)
include stable

theorem stable_variableDef : Stable (variableDef expression) :=
  stable_branch rfl NodeKind.noConfusion fun _ _ _ _ grows =>
    (((((grows.take none).takeName (some .name)).expect .assign rfl).read stable rfl).expect .semicolon rfl)

theorem stable_returnStatement : Stable (returnStatement expression) :=
  stable_branch rfl NodeKind.noConfusion fun _ _ _ _ grows =>
    ((grows.take none).read stable rfl).optionalSemicolon

theorem stable_functionBody : Stable (functionBody expression) :=
  stable_branch rfl NodeKind.noConfusion fun _ _ _ _ grows => by
    rw [← grows.isAt]
    split
    · refine grows.body rfl fun k p found => ?_
      split at found
      · cases found
        exact stable_variableDef stable
      · cases found
        exact stable_returnStatement stable
      · cases found
    · exact grows.lacking none NodeKind.noConfusion

theorem stable_functionDef : Stable (functionDef expression) :=
  stable_branch rfl NodeKind.noConfusion fun f f' _ _ grows => by
    have named : Grows f f' .functionDef _ _ := (grows.take none).takeName (some .name)
    have opened := named.expect .leftParen rfl
    dsimp only
    rw [← named.finds]
    refine Grows.read (stable_functionBody stable) ?_ rfl
    split
    · exact (opened.loop fun _ _ grows => related_parameterTurn grows).expect .rightParen rfl
    · exact opened

/-! ## Rules -/

omit stable in
/-- Whether the next word names an operation is asked of its text. -/
theorem related_methodTurn (grows : Grows f f' .ruleDef d d') :
    Turn.Related (Grows f f' .ruleDef) (methodTurn d) (methodTurn d') := by
  rw [methodTurn, methodTurn]
  refine .ite (grows.isAt _) ?_ (.done grows)
  have placed : Grows f f' .ruleDef
      (if isMethod d.state.peek.text then d.takeAs (some .method) .method else d.place none stray)
      (if isMethod d'.state.peek.text then d'.takeAs (some .method) .method else d'.place none stray) := by
    rw [← grows.state.text]
    split
    · exact grows.takeAs _ NodeKind.noConfusion
    · exact grows.read stable_stray rfl
  exact .ite (placed.isAt .comma) (.again (placed.take none)) (.done placed)

/-- The condition of a rule, if there is one, and the end of the rule. -/
theorem Grows.ruleTail (grows : Grows f f' .ruleDef d d') : Grows f f' .ruleDef
    (if d.isAt .colon then (d.take.expect .kwIf).place (some .condition) expression else d).optionalSemicolon
    (if d'.isAt .colon then (d'.take.expect .kwIf).place (some .condition) expression else d').optionalSemicolon := by
  rw [← grows.isAt]
  refine Grows.optionalSemicolon ?_
  split
  · exact ((grows.take none).expect .kwIf rfl).read stable rfl
  · exact grows

theorem stable_ruleDef : Stable (ruleDef expression) :=
  stable_branch rfl NodeKind.noConfusion fun f f' d d' grows => by
    have taken := grows.take none
    have methods : Grows f f' .ruleDef
        (if d.take.isAt .identifier then d.take.loop methodTurn else d.take.lacking (some .method) .method)
        (if d'.take.isAt .identifier then d'.take.loop methodTurn else d'.take.lacking (some .method) .method) := by
      rw [← taken.isAt]
      split
      · exact taken.loop fun _ _ grows => related_methodTurn grows
      · exact taken.lacking _ NodeKind.noConfusion
    exact methods.ruleTail stable

end

/-! ## Bodies and services -/

theorem stable_matchBodyAt (budget : Nat) : Stable (matchBodyAt budget) := by
  induction budget with
  | zero =>
    intro f f' s s' same
    rw [matchBodyAt, matchBodyAt]
    refine stable_branch rfl NodeKind.noConfusion (fun _ _ _ _ grows => ?_) _ _ _ _ same
    rw [← grows.isAt]
    split
    · exact grows.place (grows.state.near.skipUntil _) none rfl
    · exact grows.lacking none NodeKind.noConfusion
  | succ budget ih =>
    intro f f' s s' same
    rw [matchBodyAt, matchBodyAt]
    refine stable_branch rfl NodeKind.noConfusion (fun _ _ _ _ grows => ?_) _ _ _ _ same
    rw [← grows.isAt]
    split
    · refine grows.body rfl fun k p found => ?_
      split at found
      · cases found
        exact stable_matchDef ih
      · cases found
        exact stable_functionDef (stable_expressionAt budget).1
      · cases found
        exact stable_ruleDef (stable_expressionAt budget).1
      · cases found
    · exact grows.lacking none NodeKind.noConfusion

/-- A service starts with its first token, whatever that touches. -/
theorem Near.serviceDef (near : Near f f' s s') (limit : Nat) : Pair f f' (serviceDef limit s) (serviceDef limit s') := by
  have taken : Grows f f' .serviceDef _ _ := near.take none rfl
  refine Grows.pair (?_ : Grows f f' .serviceDef _ _) NodeKind.noConfusion
  refine Grows.read (stable_matchBodyAt limit) ?_ rfl
  rw [← taken.isAt]
  split
  · exact taken.read stable_serviceName rfl
  · exact taken.lacking _ NodeKind.noConfusion

/-! ## Documents -/

theorem lexemes_of_joints {ts ts' : List Token} (a a' : Token)
    (tokens : ts.map (fun t => (t.kind, t.text)) = ts'.map fun t => (t.kind, t.text))
    (joints : Token.joints (a :: ts) = Token.joints (a' :: ts')) : lexemes a.stop ts = lexemes a'.stop ts' := by
  induction ts generalizing ts' a a' with
  | nil =>
    cases ts' with
    | nil => rfl
    | cons t' ts' => cases tokens
  | cons t ts ih =>
    cases ts' with
    | nil => cases tokens
    | cons t' ts' =>
      simp only [List.map_cons, List.cons.injEq, Prod.mk.injEq] at tokens
      simp only [Token.joints, List.tail_cons, List.zipWith_cons_cons, List.cons.injEq] at joints
      rw [lexemes, lexemes, tokens.1.1, tokens.1.2, joints.1, ih t t' tokens.2 joints.2]

theorem unglued_of_sameWords (same : f.SameWords f') :
    unglued (lexemes 0 f.significant) = unglued (lexemes 0 f'.significant) := by
  have tokens := same.tokens
  have joints := same.joints
  generalize f.significant = ts at *
  generalize f'.significant = ts' at *
  cases ts with
  | nil =>
    cases ts' with
    | nil => rfl
    | cons t' ts' => cases tokens
  | cons t ts =>
    cases ts' with
    | nil => cases tokens
    | cons t' ts' =>
      simp only [List.map_cons, List.cons.injEq, Prod.mk.injEq] at tokens
      rw [lexemes, lexemes, unglued, unglued, tokens.1.1, tokens.1.2, lexemes_of_joints t t' tokens.2 joints]

/-- A token spells its part of the file. -/
theorem spelled_of_measured {t : Token} (measured : t.Measured f.content) :
    t.start ≤ t.stop ∧ f.bytesBetween t.start t.stop = t.text := by
  obtain ⟨b, rest, behind, _, same⟩ := measured
  have stop : t.stop = t.start + (b :: rest.take (Lexer.measure b rest).2).length := by
    rw [same]
    rfl
  have text : t.text = b :: rest.take (Lexer.measure b rest).2 := by
    rw [same]
    rfl
  refine ⟨by omega, ?_⟩
  rw [SourceFile.bytesBetween, behind, stop, Nat.add_sub_cancel_left, text, List.length_cons, List.take_succ_cons,
    List.length_take, List.cons.injEq, List.take_eq_take_iff]
  exact ⟨rfl, by omega⟩

theorem of_start (f : SourceFile) : (State.start f).Of f := by
  have rest : (State.start f).rest = f.significant := rfl
  refine ⟨rfl, fun t member => ?_, fun t member => ?_, fun c member => ?_⟩
  · rw [rest] at member
    exact f.kind_ne_endOfInput (List.mem_filter.mp member).1
  · rw [rest] at member
    exact spelled_of_measured (f.measured (List.mem_filter.mp member).1)
  · rcases List.mem_append.mp member with none | new
    · cases none
    · obtain ⟨u, _, rfl⟩ := List.mem_map.mp new
      exact ⟨rfl, rfl, rfl⟩

theorem near_start (same : f.SameWords f') : Near f f' (State.start f) (State.start f') :=
  ⟨of_start f, of_start f', unglued_of_sameWords same⟩

/-- A turn of the top level asks nothing of what is in front of the next token. -/
theorem related_topTurn (limit : Nat) (tree : Alike f f' d.tree d'.tree) (kind : d.tree.kind = .sourceFile)
    (near : Near f f' d.state d'.state) :
    Turn.Related (Grows f f' .sourceFile) (topTurn limit d) (topTurn limit d') := by
  have attach {r r' : ParseTree × State} (pair : Pair f f' r r') :
      Grows f f' .sourceFile ((⟨d.tree, r.2⟩ : Draft).attach none r.1) ((⟨d'.tree, r'.2⟩ : Draft).attach none r'.1) :=
    grows_attach tree kind pair none rfl nofun
  rw [topTurn, topTurn, ← near.peek.1]
  split
  · rename_i ended
    exact .done ⟨rfl, tree, kind, near.same_of_end ended⟩
  all_goals
    refine .again ?_
    rw [Draft.place_eq, Draft.place_eq]
  · exact attach near.rulesVersion
  · exact attach (near.serviceDef limit)
  · exact attach (near.skipUntil isTopSync)

theorem grows_items (same : f.SameWords f') (maxDepth : Int) :
    Grows f f' .sourceFile (items f maxDepth) (items f' maxDepth) := by
  have near := near_start same
  have loop : Grows f f' .sourceFile
      ((Draft.opened .sourceFile (State.start f)).loop (topTurn (depthLimit maxDepth)))
      ((Draft.opened .sourceFile (State.start f')).loop (topTurn (depthLimit maxDepth))) :=
    iterate_related (fun _ _ grows => grows.state.length_rest) near.length_rest
      (related_topTurn _ (alike_opened _ _ _) rfl near)
      fun _ _ grows => related_topTurn _ grows.tree grows.kind grows.state.near
  rw [items, items]
  generalize (Draft.opened .sourceFile (State.start f)).loop (topTurn (depthLimit maxDepth)) = d at loop ⊢
  generalize (Draft.opened .sourceFile (State.start f')).loop (topTurn (depthLimit maxDepth)) = d' at loop ⊢
  have services : d.tree.children.any (·.kind == .serviceDef) = d'.tree.children.any (·.kind == .serviceDef) := by
    have found := loop.tree.childrenOf (p := (·.kind == .serviceDef))
      (fun c isService => by rw [ParseTree.isExtra, beq_iff_eq.mp isService]; rfl)
      (fun c c' alike => by rw [alike.matched.kind])
    have any (cs : List ParseTree) :
        cs.any (·.kind == .serviceDef) = !(cs.filter (·.kind == .serviceDef)).isEmpty := by
      rw [Bool.eq_iff_iff, List.any_eq_true, Bool.not_eq_true', List.isEmpty_eq_false_iff_exists_mem]
      simp only [List.mem_filter]
    rw [any, any]
    generalize d.tree.children.filter _ = cs at found ⊢
    generalize d'.tree.children.filter _ = cs' at found ⊢
    cases found with
    | nil => rfl
    | cons first rest => rfl
  rw [← services]
  split
  · exact loop
  · exact loop.lacking none NodeKind.noConfusion

/-- Placing comments among trees leaves the others as they are. -/
theorem filter_insertComment {trees : List ParseTree} {c : ParseTree} (isExtra : c.isExtra = true) :
    (insertComment trees c).filter (!·.isExtra) = trees.filter (!·.isExtra) := by
  rw [insertComment, List.span_eq_takeWhile_dropWhile]
  dsimp only
  rw [List.filter_append, List.filter_cons_of_neg (by simp [isExtra]), ← List.filter_append,
    List.takeWhile_append_dropWhile]

theorem filter_foldl_insertComment {comments trees : List ParseTree} (extras : ∀ c ∈ comments, c.isExtra = true) :
    (comments.foldl insertComment trees).filter (!·.isExtra) = trees.filter (!·.isExtra) := by
  induction comments generalizing trees with
  | nil => rfl
  | cons c rest ih =>
    rw [List.foldl_cons, ih fun u member => extras u (List.mem_cons_of_mem c member),
      filter_insertComment (extras c (List.mem_cons_self ..))]

theorem significant_parse {maxDepth : Int} (of : (items f maxDepth).state.Of f) :
    (parse f maxDepth).significant = (items f maxDepth).tree.significant :=
  filter_foldl_insertComment fun c member => (of.pending c member).isExtra

/-- The trees of two documents with the same words differ in comments and places only. -/
theorem alike_parse (same : f.SameWords f') (maxDepth : Int) :
    List.Forall₂ (Alike f f') (parse f maxDepth).significant (parse f' maxDepth).significant := by
  have grows := grows_items same maxDepth
  rw [significant_parse grows.state.first, significant_parse grows.state.second]
  exact grows.tree.parts

end Parser

end SecurityRules
