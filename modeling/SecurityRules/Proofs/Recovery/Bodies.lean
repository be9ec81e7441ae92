import SecurityRules.Proofs.Recovery.Insertion

/-!
# Bodies around an insertion

The place of the insertion lies in match bodies, one in the other. In the innermost of them the statement becomes one
more item; around it matches and bodies end as they did.
-/

namespace SecurityRules.Parser

open Grammar
open ParseTree (Gains Straddles)

/-! ## What the first token touches -/

theorem take_opened (kind : NodeKind) (s : State) (n : Nat) (ahead : s.rest ≠ []) :
    (Draft.opened kind { s with lastStop := n }).take = (Draft.opened kind s).take := by
  obtain ⟨file, rest, comments, pending, lastStop, depth⟩ := s
  cases rest with
  | nil => exact absurd rfl ahead
  | cons t rest => rfl

/-- A production that takes its first token as it is may start anywhere. -/
theorem Near.stable {f f' : SourceFile} {s s' : State} {p : Production} (near : Near f f' s s') (ahead : s.rest ≠ [])
    (stable : Stable p) (blind : ∀ s n, s.rest ≠ [] → p { s with lastStop := n } = p s) :
    Pair f f' (p s) (p s') := by
  have apart (s : State) : ({ s with lastStop := s.peek.start + 1 } : State).words = unglued s.words := by
    rw [State.words, State.words, State.peek]
    cases s.rest with
    | nil => rfl
    | cons t rest => simp [lexemes, unglued]
  have ahead' : s'.rest ≠ [] := by
    rw [← List.length_pos_iff, ← near.length_rest, List.length_pos_iff]
    exact ahead
  have same : Same f f' { s with lastStop := s.peek.start + 1 } { s' with lastStop := s'.peek.start + 1 } :=
    ⟨⟨near.first.file, near.first.kinds, near.first.spelled, near.first.pending⟩,
      ⟨near.second.file, near.second.kinds, near.second.spelled, near.second.pending⟩,
      (apart s).trans (near.words.trans (apart s').symm)⟩
  have pair := stable f f' _ _ same
  rwa [blind s _ ahead, blind s' _ ahead'] at pair

namespace Insertion

variable {ι : Insertion} {s s' : State} {d d' : Draft} {kind : NodeKind} {reach budget : Nat} {t : ParseTree}

/-! ## Where the place lies -/

/-- The place lies in a match body, between its items; around it there are only matches and services. A rule in front of
it ends the body of the text so that it does not go on with the statement. -/
def Spot (ι : Insertion) (t : ParseTree) : Prop :=
  ∀ n ∈ t.nodes, n.Straddles ι.place →
    n.kind = .matchBody ∧ (∀ c ∈ n.children, c.kind = .ruleDef → c.stop = ι.place → ι.final = .rightBrace →
        isSilent (headKind ι.ahead') = true) ∨
      (n.kind = .matchDef ∨ n.kind = .serviceDef) ∧ ∃ c ∈ n.children, c.Straddles ι.place

theorem Spot.child {c : ParseTree} (spot : ι.Spot t) (member : c ∈ t.children) : ι.Spot c :=
  fun n inside => spot n (ParseTree.mem_nodes.mpr (.inr ⟨c, member, inside⟩))

theorem straddles_inRole {r : Option Role} : (t.inRole r).Straddles ι.place ↔ t.Straddles ι.place := by
  simp [Straddles]

theorem Spot.of_inRole {r : Option Role} (spot : ι.Spot (t.inRole r)) : ι.Spot t := by
  intro n inside around
  rcases ParseTree.mem_nodes.mp inside with rfl | ⟨c, child, below⟩
  · simpa using spot _ (ParseTree.self_mem_nodes _) (straddles_inRole.mpr around)
  · exact spot n (ParseTree.mem_nodes.mpr (.inr ⟨c, by simpa using child, below⟩)) around

/-- The trees that have match bodies in them. -/
def encloses : NodeKind → Bool
  | .matchBody | .matchDef | .serviceDef => true
  | _ => false

theorem Spot.encloses (spot : ι.Spot t) (around : t.Straddles ι.place) : encloses t.kind = true := by
  rcases spot t t.self_mem_nodes around with ⟨kind, -⟩ | ⟨kind | kind, -⟩ <;> rw [kind] <;> rfl

theorem encloses_leafKind (k : TokenKind) : encloses (leafKind k) = false := by cases k <;> rfl

/-! ## Items of a body -/

/-- Items of a match body, chosen by their first word. -/
def bodyItem (budget : Nat) (k : TokenKind) : Production := (matchItem? budget k).getD (skipUntil isBodySync)

/-- The tokens in front of which a body ends. -/
def stopsBody (k : TokenKind) : Bool := ([.rightBrace, .endOfInput] : List TokenKind).contains k

theorem body_eq (d : Draft) : d.body (matchItem? budget) =
    (d.take.loop (itemsTurn stopsBody (bodyItem budget))).expect .rightBrace := rfl

theorem bodyItem_cases (budget : Nat) (k : TokenKind) :
    k = .kwMatch ∧ bodyItem budget k = matchDef (matchBodyAt budget) ∨
      k = .kwFunction ∧ bodyItem budget k = functionDef (expressionAt budget) ∨
      k = .kwAllow ∧ bodyItem budget k = ruleDef (expressionAt budget) ∨
      k ∉ ([.kwMatch, .kwFunction, .kwAllow] : List TokenKind) ∧ bodyItem budget k = skipUntil isBodySync := by
  cases k <;> simp [bodyItem, matchItem?]

theorem rest_of_stopsBody (going : stopsBody s.peek.kind = false) : s.rest ≠ [] := by
  apply State.rest_ne_nil
  intro ended
  rw [ended] at going
  cases going

theorem items_body (ι : Insertion) (budget : Nat) : ι.Items stopsBody (bodyItem budget) where
  reads := fun s place going => by
    have ahead := rest_of_stopsBody going
    have items := readsItems_matchItem (f := ι.first) (reads_matchBodyAt budget)
    rw [bodyItem]
    cases found : matchItem? budget s.peek.kind with
    | none => exact reads_skipUntil isBodySync place
    | some p => exact items s p place ahead found
  near := fun s s' near going => by
    have ahead := rest_of_stopsBody going
    rcases bodyItem_cases budget s.peek.kind with ⟨-, item⟩ | ⟨-, item⟩ | ⟨-, item⟩ | ⟨-, item⟩
    · rw [item]
      exact near.stable ahead (stable_matchDef (stable_matchBodyAt budget)) fun s n ahead => by
        simp only [matchDef, branch, take_opened _ s n ahead]
    · rw [item]
      exact near.stable ahead (stable_functionDef (stable_expressionAt budget).1) fun s n ahead => by
        simp only [functionDef, branch, take_opened _ s n ahead]
    · rw [item]
      exact near.stable ahead (stable_ruleDef (stable_expressionAt budget).1) fun s n ahead => by
        simp only [ruleDef, branch, take_opened _ s n ahead]
    · rw [item]
      exact near.skipUntil isBodySync

/-! ## Bodies in declarations -/

/-- A production of trees around the place: it reads the statement into the second one. -/
def Spans (ι : Insertion) (p : Production) : Prop :=
  ∀ s s', State.At ι.first s → ι.Same s s' → ι.Inner s → (p s).1.hasError = false →
    (p s).2.rest.length < ι.ahead.length → ι.Spot (p s).1 →
    Gains ι.first ι.second ι.place ι.error (p s).1 (p s').1 ∧ Parser.Same ι.first ι.second (p s).2 (p s').2

/-- A tree between two states around the place lies around it. -/
theorem straddles_of_reading {v : State} (reading : Reading ι.first s t v) (inner : ι.Inner s)
    (beyond : v.rest.length < ι.ahead.length) : t.Straddles ι.place :=
  ⟨(inner_iff_start reading).mp inner, reading.stop ▸ place_lt reading.place beyond⟩

/-- The last part of a declaration is a body. If no other part of it can be around the place, the body is. -/
theorem spans_body {body : Production} {head : Draft → Draft} (other : kind ≠ .comment) (plain : kind ≠ .matchBody)
    (spans : ι.Spans body) (reads : ∀ s, State.At ι.first s → ReadsHollow ι.first s (body s))
    (heads : ∀ d, ι.StepAt False False head d)
    (grown : ∀ s, State.At ι.first s → s.rest ≠ [] → ∃ reach, Grown ι.first kind s reach (head (Draft.opened kind s)))
    (parts : ∀ s, s.Of ι.first → (head (Draft.opened kind s)).isClean = true →
      ∀ c ∈ (head (Draft.opened kind s)).tree.significant, encloses c.kind = false) :
    ι.Spans (branch kind fun d => (head d).place (some .body) body) := by
  intro s s' place same inner clean beyond spot
  have carried := (heads (Draft.opened kind s)).same
  have parts := parts s same.first
  obtain ⟨reach, growing⟩ := grown s place (List.length_pos_iff.mp (Nat.zero_lt_of_lt inner))
  generalize opened : head (Draft.opened kind s) = d at growing parts
  have drawn : branch kind (fun d => (head d).place (some .body) body) s =
      ((d.place (some .body) body).tree, (d.place (some .body) body).state) := by
    rw [branch, opened]
  rw [drawn] at clean beyond spot ⊢
  have read := reads d.state growing.reading.place
  have whole := (growing.placeHollow read (rfl : Role.mayBeHollow (some .body) = true)).reading
  obtain ⟨cleanHead, cleanBody⟩ := clean_of_attach (d := ⟨d.tree, (body d.state).2⟩) (Parting.isClean_of_tree clean)
  -- The tree around the place that is a part of this one is the body.
  have around : (body d.state).1.Straddles ι.place := by
    have kinds : (d.place (some .body) body).tree.kind ≠ .matchBody := by
      rw [Draft.kind_place, growing.kind]
      exact plain
    obtain ⟨-, c, member, inside⟩ :=
      (spot _ (ParseTree.self_mem_nodes _) (straddles_of_reading whole inner beyond)).resolve_left fun here => kinds here.1
    have known := (spot.child member).encloses inside
    have split := growing.children_attach (some .body) read.reading
    rw [Draft.place_eq, split, List.mem_append, List.mem_append, List.mem_singleton] at member
    rcases member with (old | comment) | rfl
    · by_cases significant : c.isExtra = true
      · rw [ParseTree.isExtra, beq_iff_eq] at significant
        rw [significant] at known
        cases known
      · rw [parts cleanHead c (List.mem_filter.mpr ⟨old, by simpa using significant⟩)] at known
        cases known
    · obtain ⟨u, -, -, rfl⟩ := ι.first.mem_commentsIn comment
      cases known
    · exact straddles_inRole.mp inside
  have innerBody : ι.Inner d.state := (inner_iff_start read.reading).mpr around.1
  have beyondBody : (body d.state).2.rest.length < ι.ahead.length := by
    rwa [Draft.place_eq, Draft.rest_attach] at beyond
  have spotBody : ι.Spot (body d.state).1 := (spot.child (mem_children_place d (some .body) body)).of_inRole
  rw [opened] at carried
  obtain ⟨grows, -⟩ := carried cleanHead innerBody.stands _ (same.opened other)
  obtain ⟨gains, states⟩ :=
    spans d.state _ growing.reading.place grows.state innerBody cleanBody beyondBody spotBody
  exact ⟨(behind_around grows (.grown growing) innerBody read.reading beyondBody gains states).tree, same_attach states⟩

theorem of_place {f : SourceFile} {p : Production} (of : (p d.state).2.Of f) (role : Option Role) :
    (d.place role p).state.Of f := by
  rw [Draft.place_eq]
  exact (attached_attach ⟨d.tree, (p d.state).2⟩ role (p d.state).1).state_of of

theorem of_take {f : SourceFile} (of : d.state.Of f) : d.take.state.Of f :=
  of_place (p := leafOf (leafKind d.state.peek.kind)) of.advance none

/-- The significant children of a draft with one more. -/
theorem mem_significant_place {f : SourceFile} {p : Production} {role : Option Role} {c : ParseTree}
    (of : (p d.state).2.Of f) (significant : (p d.state).1.isExtra = false)
    (member : c ∈ (d.place role p).tree.significant) : c ∈ d.tree.significant ∨ c.kind = (p d.state).1.kind := by
  rw [Draft.place_eq, significant_attach (d := ⟨d.tree, (p d.state).2⟩) of significant, List.mem_append,
    List.mem_singleton] at member
  exact member.imp_right fun same => by rw [same, ParseTree.kind_inRole]

/-- The first token of a declaration encloses nothing. -/
theorem encloses_taken {f : SourceFile} {c : ParseTree} (of : s.Of f)
    (member : c ∈ (Draft.opened kind s).take.tree.significant) : encloses c.kind = false := by
  have leaf : ∀ k : TokenKind, (leafOf (leafKind k) s).1.isExtra = false := fun k =>
    beq_eq_false_iff_ne.mpr (leafKind_ne k)
  rcases mem_significant_place (d := Draft.opened kind s) of.advance (leaf _) member with none | kind
  · cases none
  · rw [kind]
    exact encloses_leafKind _

theorem spans_matchDef {body : Production} (spans : ι.Spans body)
    (reads : ∀ s, State.At ι.first s → ReadsHollow ι.first s (body s)) : ι.Spans (matchDef body) := by
  refine spans_body NodeKind.noConfusion NodeKind.noConfusion spans reads
    (fun d => (Parting.StepAt.take none).inside.andThen (.place (some .path) (Parting.carries_matchPath _))) ?_ ?_
  · intro s place ahead
    have taken := (Growing.opened place (NodeKind.noConfusion : NodeKind.matchDef ≠ .comment)).take none ahead
    exact ⟨_, taken.placeHollow (reads_matchPath taken.reading.place) rfl⟩
  · intro s of clean c member
    have path := yields_matchPath _ _ (of_take (d := Draft.opened .matchDef s) of) trivial
    rcases mem_significant_place path.state path.significant member with first | kind
    · exact encloses_taken of first
    · have made := (path.made (clean_of_attach clean).2).1
      rw [kind, beq_iff_eq.mp made]
      rfl

/-! ## The loop over the items of a body -/

/-- An item of a match body in front of the place. -/
theorem carries_item (ι : Insertion) (budget : Nat) (k : TokenKind) (s : State) :
    ι.CarriesAt (k = .kwAllow → ι.final = .rightBrace → ι.Quiet) True (bodyItem budget k) s := by
  cases found : matchItem? budget k with
  | none =>
    rw [bodyItem, found]
    exact .skipUntil _ _
  | some p =>
    rw [bodyItem, found]
    exact Parting.carries_bodyItem (Parting.carries_matchBodyAt budget) (Parting.carried_expressionAt budget).1 found s

/-- A body that is closed without errors has no other item ahead than a declaration. -/
theorem mem_itemEnds_of_loop {final : Draft} (same : d.loop (itemsTurn stopsBody (bodyItem budget)) = final)
    (clean : final.isClean = true) (closed : final.isAt .rightBrace = true) : d.state.peek.kind ∈ itemEnds := by
  rw [loop_itemsTurn] at same
  split at same
  · rw [same, State.kind_of_isAt closed]
    decide
  · have cleanItem : (d.place none (bodyItem budget d.state.peek.kind)).isClean = true := by
      subst same
      split at clean
      · exact clean_of_loop _ clean
      · exact clean
    rcases bodyItem_cases budget d.state.peek.kind with ⟨kind, -⟩ | ⟨kind, -⟩ | ⟨kind, -⟩ | ⟨-, item⟩
    · rw [kind]
      decide
    · rw [kind]
      decide
    · rw [kind]
      decide
    · have wrong : (bodyItem budget d.state.peek.kind d.state).1.hasError = false := (clean_of_attach cleanItem).2
      rw [item, hasError_skipUntil] at wrong
      cases wrong

/-- A body around the place in front of its closing brace. -/
structure Closing (ι : Insertion) (final : Draft) : Prop where
  clean : final.isClean = true
  closed : final.isAt .rightBrace = true
  rules : ∀ c ∈ final.tree.children, c.kind = .ruleDef → c.stop = ι.place → ι.final = .rightBrace →
    isSilent (headKind ι.ahead') = true
  below : ∀ c ∈ final.tree.children, ι.Spot c

theorem length_stray (ι : Insertion) : 0 < ι.stray.length := by
  have last := ι.isStray.last
  rw [List.length_pos_iff]
  rintro none
  rw [none] at last
  cases last

/-- The first token of the statement is skipped with the others. -/
theorem turn_stray (of : d'.state.Of ι.second) (words : d'.state.words = ι.stray ++ ι.behind) :
    itemsTurn stopsBody (bodyItem budget) d' = .again (d'.place none (skipUntil isBodySync)) := by
  obtain ⟨t, rest, split⟩ := List.exists_cons_of_length_pos ι.length_stray
  have head : d'.state.peek.kind = t.kind := by rw [State.peek_kind, words, split]; rfl
  have known : d'.state.peek.kind ∉ ([.kwMatch, .kwFunction, .kwAllow, .rightBrace] : List TokenKind) := by
    rw [head]
    exact ι.isStray.first _ (by rw [split]; rfl)
  have present : d'.state.peek.kind ≠ .endOfInput := by
    intro ended
    rw [State.words, of.rest_of_end ended, split] at words
    cases words
  rw [itemsTurn, if_neg ?_]
  · rcases bodyItem_cases budget d'.state.peek.kind with ⟨kind, -⟩ | ⟨kind, -⟩ | ⟨kind, -⟩ | ⟨-, item⟩
    · exact absurd kind (by simp_all)
    · exact absurd kind (by simp_all)
    · exact absurd kind (by simp_all)
    · rw [item]
  · simp_all [stopsBody]

/-- A tree in no role is the same in no role. -/
theorem shape_inRole_none {f : SourceFile} {kind : NodeKind} {isMissing : Bool} {text : Bytes} {parts : List Shape}
    (shape : t.shape f = .node kind isMissing none text parts) : (t.inRole none).shape f = t.shape f := by
  cases t
  rw [ParseTree.shape] at shape
  rw [ParseTree.inRole, ParseTree.shape, ParseTree.shape, (Shape.node.inj shape).2.2.1]

namespace Closing

variable {final : Draft}

/-- A rule at the place does not go on with the statement. -/
theorem ready (closing : ι.Closing final) (of : d.state.Of ι.first) (growing : Growing ι.first kind s reach d)
    (going : stopsBody d.state.peek.kind = false) (clean : (bodyItem budget d.state.peek.kind d.state).1.hasError = false)
    (here : (d.place none (bodyItem budget d.state.peek.kind)).state.rest.length = ι.ahead.length)
    (same : (d.place none (bodyItem budget d.state.peek.kind)).loop (itemsTurn stopsBody (bodyItem budget)) = final)
    (rule : d.state.peek.kind = .kwAllow) (brace : ι.final = .rightBrace) : ι.Quiet := by
  have reads := (ι.items_body budget).reads _ growing.place_state going
  have grown := growing.place none reads
  refine ⟨?_, ?_⟩
  · rw [← peek_kind grown.reading.place here]
    exact mem_itemEnds_of_loop same closing.clean closing.closed
  · have member := same ▸ mem_children_loop (mem_children_place d none (bodyItem budget d.state.peek.kind))
    refine closing.rules _ member ?_ ?_ brace
    · have item : bodyItem budget d.state.peek.kind = ruleDef (expressionAt budget) := by rw [rule]; rfl
      have yielded := yields_ruleDef (yields_expressionAt budget).1 ι.first d.state of (beq_iff_eq.mpr rule)
      rw [item] at clean ⊢
      rw [ParseTree.kind_inRole]
      exact beq_iff_eq.mp (yielded.made clean).1
    · rw [Draft.place_eq, Draft.rest_attach] at here
      rw [ParseTree.stop_inRole, reads.reading.stop]
      exact Nat.le_antisymm (lastStop_le reads.reading.place (reads.reading.isBehindToken clean) (Nat.le_of_eq here.symm))
        (place_le reads.reading.place (by rw [Parting.Inner, here]; exact Nat.lt_irrefl _))

/-- The item around the place is a match. -/
theorem around (closing : ι.Closing final) (spans : ι.Spans (matchBodyAt budget)) (place : State.At ι.first s)
    (same : ι.Same s s') (inner : ι.Inner s) (going : stopsBody s.peek.kind = false)
    (clean : (bodyItem budget s.peek.kind s).1.hasError = false)
    (beyond : (bodyItem budget s.peek.kind s).2.rest.length < ι.ahead.length)
    (member : (bodyItem budget s.peek.kind s).1.inRole none ∈ final.tree.children) :
    Gains ι.first ι.second ι.place ι.error (bodyItem budget s.peek.kind s).1 (bodyItem budget s.peek.kind s').1 ∧
      Parser.Same ι.first ι.second (bodyItem budget s.peek.kind s).2 (bodyItem budget s.peek.kind s').2 := by
  have spot : ι.Spot (bodyItem budget s.peek.kind s).1 := (closing.below _ member).of_inRole
  have around := straddles_of_reading ((ι.items_body budget).reads s place going).reading inner beyond
  have encloses := spot.encloses around
  rcases bodyItem_cases budget s.peek.kind with ⟨kind, item⟩ | ⟨kind, item⟩ | ⟨kind, item⟩ | ⟨-, item⟩
  · rw [item] at clean beyond spot ⊢
    exact spans_matchDef spans (reads_matchBodyAt budget).1 s s' place same inner clean beyond spot
  · have yielded := yields_functionDef (yields_expressionAt budget).1 ι.first s same.first (beq_iff_eq.mpr kind)
    rw [item] at clean encloses
    rw [beq_iff_eq.mp (yielded.made clean).1] at encloses
    cases encloses
  · have yielded := yields_ruleDef (yields_expressionAt budget).1 ι.first s same.first (beq_iff_eq.mpr kind)
    rw [item] at clean encloses
    rw [beq_iff_eq.mp (yielded.made clean).1] at encloses
    cases encloses
  · rw [item, hasError_skipUntil] at clean
    cases clean

/-- Between two items the second body has the statement. -/
theorem here (closing : ι.Closing final) (grows : ι.Grows d d') (growing : Growing ι.first kind s reach d)
    (stands : d.state.rest.length = ι.ahead.length)
    (same : d.loop (itemsTurn stopsBody (bodyItem budget)) = final) :
    ∃ next, itemsTurn stopsBody (bodyItem budget) d' = .again next ∧
      next.state.rest.length < d'.state.rest.length ∧ ι.Behind d next := by
  obtain ⟨ahead, ahead'⟩ := grows.state.at_place stands
  have words : d'.state.words = ι.stray ++ ι.behind := ahead'.trans ι.ahead'_eq
  obtain ⟨shape, of', words'⟩ := skipUntil_stray grows.state.second words ι.isStray
  have low : ι.place ≤ d.state.lastStop :=
    place_le growing.place_state (by rw [Parting.Inner, stands]; exact Nat.lt_irrefl _)
  have before : ∀ u ∈ d.tree.children, u.stop ≤ ι.place := by
    intro u member
    refine Nat.le_trans (children_le growing u member) ?_
    cases growing with
    | bare place other reaches => cases member
    | grown grown =>
      have clean : d.isClean = true := clean_of_loop _ (same ▸ closing.clean)
      rw [Draft.isClean, Bool.not_eq_true'] at clean
      exact lastStop_le grown.reading.place (grown.reading.isBehindToken clean) (Nat.le_of_eq stands.symm)
  refine ⟨_, turn_stray grows.state.second words, ?_, ?_, ?_, low⟩
  · have filled := ι.length_stray
    rw [Draft.place_eq, Draft.rest_attach, ← State.length_words d'.state, words, List.length_append]
    show (skipUntil isBodySync d'.state).2.rest.length < _
    rw [← State.length_words, words']
    omega
  · have error : ((skipUntil isBodySync d'.state).1.inRole none).shape ι.second = ι.error :=
      (shape_inRole_none shape).trans shape
    have significant : (skipUntil isBodySync d'.state).1.isExtra = false :=
      beq_eq_false_iff_ne.mpr (by rw [kind_skipUntil]; exact NodeKind.noConfusion)
    refine gains_attach_here ?_ before of' error significant
    exact grows.tree
  · refine ⟨grows.state.first, of_place of' none, ?_⟩
    have attached := attached_attach ⟨d'.tree, (skipUntil isBodySync d'.state).2⟩ none (skipUntil isBodySync d'.state).1
    exact (congrArg unglued ahead).trans (ι.near.symm.trans (congrArg unglued (attached.words.trans words').symm))

theorem crosses (closing : ι.Closing final) (spans : ι.Spans (matchBodyAt budget)) :
    ι.Crosses stopsBody (bodyItem budget) (fun k => k = .kwAllow → ι.final = .rightBrace → ι.Quiet) True final where
  carries := fun k s => carries_item ι budget k s
  ready := fun _ _ _ _ of growing going clean stands same => closing.ready of growing going clean stands same
  around := fun _ _ place same inner going clean beyond member =>
    closing.around spans place same inner going clean beyond member
  here := fun _ _ _ _ _ _ grows growing stands same => closing.here grows growing stands same

end Closing

theorem hasError_leafOf {leaf : NodeKind} (other : leaf ≠ .error) (s : State) :
    (leafOf leaf s).1.hasError = false := by
  rw [hasError_eq_any]
  show (_ || List.any [] _) = false
  rw [List.any_nil, Bool.or_false]
  exact Bool.or_eq_false_iff.mpr ⟨beq_eq_false_iff_ne.mpr other, rfl⟩

theorem rest_take (d : Draft) : d.take.state.rest = d.state.rest.tail := by
  rw [← Parting.rest_advance]
  exact Draft.rest_attach ..

theorem stands_take (inner : ι.Inner d.state) : ι.Stands True d.take.state := by
  have inner : ι.ahead.length < d.state.rest.length := inner
  rw [Parting.Stands, Parting.Inner, rest_take, List.length_tail]
  rcases Nat.lt_or_eq_of_le (Nat.le_sub_one_of_lt inner) with further | here
  · exact .inl further
  · exact .inr ⟨here.symm, trivial⟩

/-- Behind the place both drafts take the same token. -/
theorem Behind.take (behind : ι.Behind d d') (place : State.At ι.first d.state) (ahead : d.state.rest ≠ []) :
    ι.Behind d.take d'.take ∧ Parser.Same ι.first ι.second d.take.state d'.take.state := by
  have reads := reads_leafOf place ahead (spells_leafKind (place.peek_mem ahead).2.1)
  have taken := behind.place none reads (behind.state.leafOf (leafKind_ne _)) (hasError_leafOf (leafKind_ne_error _) _)
  rwa [Draft.take, Draft.take, Draft.takeAs, Draft.takeAs, ← behind.state.peek.1]

/-- A body with its opening brace. -/
theorem matchBodyAt_open (found : s.isAt .leftBrace = true) : matchBodyAt (budget + 1) s =
    ((((Draft.opened .matchBody s).take.loop (itemsTurn stopsBody (bodyItem budget))).expect .rightBrace).tree,
      (((Draft.opened .matchBody s).take.loop (itemsTurn stopsBody (bodyItem budget))).expect .rightBrace).state) := by
  have found : (Draft.opened .matchBody s).isAt .leftBrace = true := found
  rw [matchBodyAt_succ, branch, if_pos found, body_eq]

/-- A body without errors starts with its brace. -/
theorem opens_matchBodyAt (clean : (matchBodyAt (budget + 1) s).1.hasError = false) : s.isAt .leftBrace = true := by
  by_contra absent
  have absent : ¬(Draft.opened .matchBody s).isAt .leftBrace = true := absent
  rw [matchBodyAt_succ, branch, if_neg absent] at clean
  have clean := Parting.isClean_of_tree clean
  rw [dirty_lacking] at clean
  cases clean

/-- What is asked for is there if there are no errors. -/
theorem isAt_of_expect {k : TokenKind} (clean : (d.expect k).isClean = true) : d.isAt k = true := by
  by_contra absent
  rw [dirty_expect absent] at clean
  cases clean

/-- The loop over the items of a body around the place ends in front of its brace and behind the place. -/
theorem closing_of_body {final : Draft} (grown : Grown ι.first .matchBody s reach final)
    (clean : (final.expect .rightBrace).tree.hasError = false) (inner : ι.Inner s)
    (beyond : (final.expect .rightBrace).state.rest.length < ι.ahead.length)
    (spot : ι.Spot (final.expect .rightBrace).tree) : ι.Closing final ∧ ¬ι.Inner final.state := by
  have closed := isAt_of_expect (Parting.isClean_of_tree clean)
  rw [Draft.expect, if_pos closed] at clean beyond spot
  have ahead := State.rest_of_isAt closed TokenKind.noConfusion
  have taken := (Growing.grown grown).take none ahead
  have children : ∀ c ∈ final.tree.children, c ∈ final.take.tree.children := fun c member => mem_children_attach _ member
  have here := spot _ (ParseTree.self_mem_nodes _) (straddles_of_reading taken.reading inner beyond)
  rw [taken.kind] at here
  refine ⟨⟨(clean_of_attach (Parting.isClean_of_tree clean)).1, closed, fun c member => ?_,
    fun c member => spot.child (children c member)⟩, fun before => ?_⟩
  · exact (here.resolve_right fun other => by simp at other).2 c (children c member)
  · rw [rest_take, List.length_tail] at beyond
    have before : ι.ahead.length < final.state.rest.length := before
    omega

/-- A body around the place has the statement in it, or a body in it has. -/
theorem spans_matchBodyAt (ι : Insertion) (budget : Nat) : ι.Spans (matchBodyAt budget) := by
  induction budget with
  | zero =>
    intro s s' place same inner clean
    rw [hasError_skipped] at clean
    cases clean
  | succ budget ih =>
    intro s s' place same inner clean beyond spot
    have found := opens_matchBodyAt clean
    have ahead := State.rest_of_isAt found TokenKind.noConfusion
    have grown := (Growing.opened place (NodeKind.noConfusion : NodeKind.matchBody ≠ .comment)).take none ahead
    rw [matchBodyAt_open found] at clean beyond spot ⊢
    rw [matchBodyAt_open ((same.isAt inner _).symm.trans found)]
    have stands := stands_take (d := Draft.opened .matchBody s) inner
    have final := (ι.items_body budget).grown_loop grown
    generalize known : (Draft.opened .matchBody s).take.loop (itemsTurn stopsBody (bodyItem budget)) = v at *
    obtain ⟨closing, across⟩ := closing_of_body final clean inner beyond spot
    obtain ⟨grows, -⟩ := (Parting.StepAt.take none).same (clean_of_loop _ (known ▸ closing.clean)) stands _
      (same.opened NodeKind.noConfusion)
    have behind := (closing.crosses ih).loop (ι.items_body budget) grows (.grown grown) (stands.mono fun _ => trivial)
      known closing.clean across
    generalize (Draft.opened .matchBody s').take.loop (itemsTurn stopsBody (bodyItem budget)) = v' at behind ⊢
    have closed' : v'.isAt .rightBrace = true := by
      rw [← closing.closed, Draft.isAt, Draft.isAt, State.isAt, State.isAt, behind.state.peek.1]
    rw [Draft.expect, if_pos closing.closed, Draft.expect, if_pos closed']
    obtain ⟨taken, states⟩ := behind.take final.reading.place (State.rest_of_isAt closing.closed TokenKind.noConfusion)
    exact ⟨taken.tree, states⟩

/-! ## Services -/

/-- The name of a service, or its placeholder. -/
def nameOrLacking (d : Draft) : Draft :=
  if d.isAt .identifier then d.place (some .name) serviceName else d.lacking (some .name) .serviceName

theorem serviceDef_eq (budget : Nat) : serviceDef budget =
    branch .serviceDef fun d => (nameOrLacking d.take).place (some .body) (matchBodyAt budget) := rfl

theorem spans_serviceDef (ι : Insertion) (budget : Nat) : ι.Spans (serviceDef budget) := by
  have name (d : Draft) : ι.StepAt False False nameOrLacking d :=
    .ite (fun _ grows inner => Parting.StepAt.isAt grows inner .identifier)
      (fun _ => .place _ (Parting.carries_serviceName _)) fun _ => .lacking _ _
  rw [serviceDef_eq]
  refine spans_body NodeKind.noConfusion NodeKind.noConfusion (spans_matchBodyAt ι budget) (reads_matchBodyAt budget).1
    (fun d => (Parting.StepAt.take none).inside.andThen (name _)) ?_ ?_
  · intro s place ahead
    have taken := (Growing.opened place (NodeKind.noConfusion : NodeKind.serviceDef ≠ .comment)).take none ahead
    rw [nameOrLacking]
    split
    · rename_i found
      exact ⟨_, Growing.place (.grown taken) _ (reads_serviceName taken.reading.place found)⟩
    · exact ⟨_, Growing.lacking (.grown taken) _ rfl⟩
  · intro s of clean c member
    rw [nameOrLacking] at clean member
    split at member
    · rename_i found
      rw [if_pos found] at clean
      have name := yields_serviceName _ _ (of_take (d := Draft.opened .serviceDef s) of) trivial
      rcases mem_significant_place name.state name.significant member with first | kind
      · exact encloses_taken of first
      · have made := (name.made (clean_of_attach clean).2).1
        rw [kind, beq_iff_eq.mp made]
        rfl
    · rename_i absent
      rw [if_neg absent, dirty_lacking] at clean
      cases clean

end Insertion

end SecurityRules.Parser
