import SecurityRules.Proofs.Landmark.Legible
import SecurityRules.Proofs.Lookup.Calls
import SecurityRules.Proofs.Nesting.Containment
import SecurityRules.Proofs.Recovery.Bodies
import SecurityRules.Proofs.Recovery.Sketch
import SecurityRules.Proofs.Recovery.Statements

/-!
# Recovery in a body

A statement that no match body knows, put into a match body of a document without errors behind its brace or behind an
item that ends with a brace or semicolon, becomes one error there, and the rest of the tree stays as it is. The headers
and services in front of the service around the place are read as they were, and so are those behind it.
-/

namespace SecurityRules

namespace ParseTree

variable {f : SourceFile} {place : Nat} {e : Shape} {t : ParseTree} {ts : List ParseTree}

/-- One more part leaves every tree of a list its kind. -/
theorem exists_kind_shapesWith (member : t ∈ ts) (significant : t.isExtra = false) :
    ∃ x ∈ shapesWith f place e ts, x.kind = t.kind := by
  have shapes : ∀ us : List ParseTree, t ∈ us → ∃ x ∈ shapes f us, x.kind = t.kind := by
    intro us inside
    refine ⟨t.shape f, ?_, kind_shape⟩
    rw [shapes_eq]
    exact List.mem_map.mpr ⟨t, List.mem_filter.mpr ⟨inside, by simp [significant]⟩, rfl⟩
  induction ts with
  | nil => cases member
  | cons u us ih =>
    rw [shapesWith_cons]
    rcases List.mem_cons.mp member with rfl | later
    · rw [if_neg (by simp [significant])]
      split
      · exact ⟨_, List.mem_cons_self .., kind_shape⟩
      · split
        · exact ⟨_, List.mem_cons_self .., by rw [shapeWith_eq]; rfl⟩
        · exact ⟨_, List.mem_cons_of_mem _ (List.mem_cons_self ..), kind_shape⟩
    · split
      · exact ih later
      · split
        · obtain ⟨x, inside, kind⟩ := ih later
          exact ⟨x, List.mem_cons_of_mem _ inside, kind⟩
        · obtain ⟨x, inside, kind⟩ := shapes us later
          split
          · exact ⟨x, List.mem_cons_of_mem _ inside, kind⟩
          · exact ⟨x, List.mem_cons_of_mem _ (List.mem_cons_of_mem _ inside), kind⟩

end ParseTree

namespace Parser

open Grammar
open ParseTree (Gains Straddles shapesWith)

namespace Insertion

variable {ι : Insertion} {s s' : State} {d d' : Draft} {kind : NodeKind} {reach limit : Nat} {t : ParseTree}

/-! ## Items of the top level -/

/-- The document ends with its text. -/
def stopsDocument (k : TokenKind) : Bool := k == .endOfInput

theorem topTurn_eq_itemsTurn (limit : Nat) : topTurn limit = itemsTurn stopsDocument (topItem limit) := by
  funext d
  rw [topTurn_eq, itemsTurn, stopsDocument]
  simp only [beq_iff_eq]

theorem topItem_cases (limit : Nat) (k : TokenKind) :
    k = .kwRulesVersion ∧ topItem limit k = rulesVersion ∨ k = .kwService ∧ topItem limit k = serviceDef limit ∨
      topItem limit k = skipUntil isTopSync := by
  cases k <;> simp [topItem]

theorem items_document (ι : Insertion) (limit : Nat) : ι.Items stopsDocument (topItem limit) where
  reads := fun s place going =>
    (takes_topItem limit place (State.rest_ne_nil (beq_eq_false_iff_ne.mp going))).1
  near := fun s s' near going => by
    rcases topItem_cases limit s.peek.kind with ⟨-, item⟩ | ⟨-, item⟩ | item
    · rw [item]
      exact near.rulesVersion
    · rw [item]
      exact near.serviceDef limit
    · rw [item]
      exact near.skipUntil isTopSync

/-- The finished top level, with a service around the place. -/
structure Document (ι : Insertion) (final : Draft) : Prop where
  clean : final.isClean = true
  ordered : final.tree.children.Pairwise fun a b => a.stop ≤ b.start
  forward : ∀ c ∈ final.tree.children, c.start ≤ c.stop
  spot : ∀ c ∈ final.tree.significant, ι.Spot c
  service : ∃ c ∈ final.tree.significant, c.Straddles ι.place

namespace Document

variable {final : Draft} (document : ι.Document final)
include document

/-- No item ends at the place. -/
theorem stop_ne {c : ParseTree} (member : c ∈ final.tree.children) : c.stop ≠ ι.place := by
  intro ends
  obtain ⟨u, significant, low, high⟩ := document.service
  have inside := (List.mem_filter.mp significant).1
  have ordered := document.ordered
  have forward := document.forward c member
  obtain ⟨before, after, split⟩ := List.append_of_mem member
  rw [split, List.pairwise_append, List.pairwise_cons] at ordered
  rw [split, List.mem_append, List.mem_cons] at inside
  rcases inside with earlier | rfl | later
  · have := ordered.2.2 u earlier c (List.mem_cons_self ..)
    omega
  · omega
  · have := ordered.2.1.1 u later
    omega

theorem crosses (limit : Nat) : ι.Crosses stopsDocument (topItem limit) (fun _ => False) False final where
  carries := fun k s => by
    rcases topItem_cases limit k with ⟨-, item⟩ | ⟨-, item⟩ | item
    · rw [item]
      exact Parting.carries_rulesVersion s
    · rw [item]
      exact Parting.carries_serviceDef limit s
    · rw [item]
      exact .skipUntil isTopSync s
  ready := fun d kind s reach _ growing going clean here same => by
    have reading := ((ι.items_document limit).reads _ growing.place_state going).reading
    have member := same ▸ mem_children_loop (mem_children_place d none (topItem limit d.state.peek.kind))
    rw [Draft.place_eq, Draft.rest_attach] at here
    refine document.stop_ne member ?_
    rw [ParseTree.stop_inRole, reading.stop]
    exact Nat.le_antisymm (lastStop_le reading.place (reading.isBehindToken clean) (Nat.le_of_eq here.symm))
      (place_le reading.place (by rw [Parting.Inner, here]; exact Nat.lt_irrefl _))
  around := fun s s' place same inner going clean beyond member => by
    have reading := ((ι.items_document limit).reads _ place going).reading
    have spot : ι.Spot (topItem limit s.peek.kind s).1 :=
      (document.spot _ (List.mem_filter.mpr ⟨member, by simp [reading.significant]⟩)).of_inRole
    rcases topItem_cases limit s.peek.kind with ⟨kind, item⟩ | ⟨kind, item⟩ | item
    · have encloses := spot.encloses (straddles_of_reading reading inner beyond)
      have yielded := yields_rulesVersion ι.first s same.first (beq_iff_eq.mpr kind)
      rw [item] at clean encloses
      rw [beq_iff_eq.mp (yielded.made clean).1] at encloses
      cases encloses
    · rw [item] at clean beyond spot ⊢
      exact spans_serviceDef ι limit s s' place same inner clean beyond spot
    · rw [item, hasError_skipUntil] at clean
      cases clean
  here := False.elim

end Document

/-! ## The whole document -/

theorem inner_start (ι : Insertion) : ι.Inner (State.start ι.first) := by
  obtain ⟨u, member, -, stop⟩ := ι.edge
  have filled := ι.first.laid_tokens.filled u member
  refine (inner_iff_lastStop (State.At.start ι.first)).mpr ?_
  show 0 < ι.place
  omega

/-- A document without errors has a service. -/
theorem hasService_of_clean {f : SourceFile} {maxDepth : Int} (clean : (items f maxDepth).isClean = true) :
    (items f maxDepth).tree.children.any (·.kind == .serviceDef) = true := by
  rw [items] at clean ⊢
  split at clean
  · rename_i service
    rw [if_pos service]
    exact service
  · rw [dirty_lacking] at clean
    cases clean

theorem items_of_service {f : SourceFile} {maxDepth : Int}
    (service : ((Draft.opened .sourceFile (State.start f)).loop (topTurn (depthLimit maxDepth))).tree.children.any
      (·.kind == .serviceDef) = true) :
    items f maxDepth = (Draft.opened .sourceFile (State.start f)).loop (topTurn (depthLimit maxDepth)) := by
  rw [items]
  exact if_pos service

/-- With one more part somewhere there is still a service. -/
theorem hasService_gains {f f' : SourceFile} {place : Nat} {e : Shape} {t t' : ParseTree}
    (gains : Gains f f' place e t t') (service : t.children.any (·.kind == .serviceDef) = true) :
    t'.children.any (·.kind == .serviceDef) = true := by
  obtain ⟨c, member, kind⟩ := List.any_eq_true.mp service
  have kind := beq_iff_eq.mp kind
  have significant : c.isExtra = false := beq_eq_false_iff_ne.mpr (by rw [kind]; exact NodeKind.noConfusion)
  obtain ⟨x, inside, same⟩ : ∃ x ∈ shapesWith f place e t.children, x.kind = c.kind :=
    ParseTree.exists_kind_shapesWith member significant
  rw [← gains.parts] at inside
  obtain ⟨c', member', rfl⟩ := List.mem_map.mp inside
  refine List.any_eq_true.mpr ⟨c', (List.mem_filter.mp member').1, ?_⟩
  rw [beq_iff_eq, ← kind, ← same, ParseTree.kind_shape]

/-- The second document has the statement in the tree that is innermost around the place. -/
theorem shape_parse (ι : Insertion) (maxDepth : Int) (same : ι.Same (State.start ι.first) (State.start ι.second))
    (clean : (parse ι.first maxDepth).hasError = false) (spot : ∀ c ∈ (parse ι.first maxDepth).significant, ι.Spot c)
    (service : ∃ c ∈ (parse ι.first maxDepth).significant, c.Straddles ι.place) :
    (parse ι.second maxDepth).shape ι.second = (parse ι.first maxDepth).shapeWith ι.first ι.place ι.error := by
  have clean := (hasError_parse ι.first maxDepth).mp clean
  obtain ⟨grown, ended⟩ := grown_items ι.first maxDepth
  have significant := significant_parse (lays_items ι.first maxDepth).state
  have significant' := significant_parse (lays_items ι.second maxDepth).state
  rw [significant] at spot service
  have document : ι.Document (items ι.first maxDepth) :=
    ⟨clean, grown.reading.self_sound.ordered, grown.reading.forward_children, spot, service⟩
  have loop := items_eq clean
  rw [loop] at document ended
  have behind := (document.crosses (depthLimit maxDepth)).loop (ι.items_document (depthLimit maxDepth))
    (same.opened NodeKind.noConfusion) (.opened (State.At.start ι.first) NodeKind.noConfusion)
    (inner_start ι).stands (by rw [topTurn_eq_itemsTurn]) document.clean
    (by rw [Parting.Inner, ended]; exact Nat.not_lt_zero _)
  rw [← topTurn_eq_itemsTurn, ← loop] at behind
  have loop' := items_of_service (hasService_gains behind.tree (loop ▸ hasService_of_clean clean))
  have parts := behind.tree.parts
  rw [← loop', ← significant'] at parts
  have children : shapesWith ι.first ι.place ι.error (items ι.first maxDepth).tree.children =
      shapesWith ι.first ι.place ι.error (parse ι.first maxDepth).children := by
    rw [ParseTree.shapesWith_eq_filter, @ParseTree.shapesWith_eq_filter _ _ _ (parse _ _).children]
    exact congrArg _ significant.symm
  rw [children] at parts
  have filled := children_parse_ne_nil ι.second maxDepth
  rw [ParseTree.shape_eq, ParseTree.shapeWith_eq, parts, if_neg (by simpa using filled)]
  rfl

end Insertion

end Parser

open Parser.Insertion (encloses)

/-! ## Where match bodies stand -/

namespace NodeKind

/-- Trees with match bodies in them stand in such trees and in documents only. -/
theorem encloses_of_slot {kind child : NodeKind} (inner : encloses child = true)
    (known : (kind.layout.flatMap Piece.slots).any (fun slot => slot.kinds child) = true) :
    encloses kind = true ∨ kind = .sourceFile := by
  cases child <;> simp only [encloses, Bool.false_eq_true] at inner
  all_goals cases kind <;> first | exact .inl rfl | exact .inr rfl | exact absurd known Bool.false_ne_true

/-- Documents stand in no tree. -/
theorem any_slots_sourceFile (kind : NodeKind) :
    (kind.layout.flatMap Piece.slots).any (fun slot => slot.kinds .sourceFile) = false := by
  cases kind <;> rfl

end NodeKind

namespace ParseTree

variable {f : SourceFile} {place : Nat} {path : List Nat} {t body c : ParseTree} {front back : List ParseTree}

/-- The layout of a tree knows its children. -/
theorem any_slots_of_fits {kind : NodeKind} (fits : Fits kind.layout t.significant) (child : c ∈ t.children)
    (significant : c.isExtra = false) :
    (kind.layout.flatMap Piece.slots).any (fun slot => slot.kinds c.kind) = true := by
  obtain ⟨slot, known, fitsC⟩ := fits.exists_slot (List.mem_filter.mpr ⟨child, by simp [significant]⟩)
  exact List.any_eq_true.mpr ⟨slot, known, fitsC.2⟩

theorem kind_ne_sourceFile {kind : NodeKind} (fits : Fits kind.layout t.significant) (child : c ∈ t.children) :
    c.kind ≠ .sourceFile := by
  intro same
  have listed := any_slots_of_fits fits child (beq_eq_false_iff_ne.mpr (by rw [same]; exact NodeKind.noConfusion))
  rw [same, NodeKind.any_slots_sourceFile] at listed
  cases listed

/-- Above a match body there are only trees with match bodies in them. -/
theorem AllOrdered.encloses_of_at? (ordered : t.AllOrdered) (plain : t.kind ≠ .sourceFile)
    (found : t.at? path = some body) (kind : body.kind = .matchBody) : encloses t.kind = true := by
  induction path generalizing t with
  | nil =>
    obtain rfl := Option.some.inj found
    rw [kind]
    rfl
  | cons i path ih =>
    obtain ⟨before, c, behind, split, -, below⟩ := exists_of_at? found
    obtain ⟨self, each⟩ := allOrdered_iff.mp ordered
    have child : c ∈ t.children := by simp [split]
    have inner := ih (each c child) (kind_ne_sourceFile self.fits child) below
    have significant : c.isExtra = false := by
      rw [isExtra, beq_eq_false_iff_ne]
      intro isComment
      rw [isComment] at inner
      cases inner
    exact (NodeKind.encloses_of_slot inner (any_slots_of_fits self.fits child significant)).resolve_right plain

end ParseTree

namespace Parser

open Grammar Lexer
open ParseTree (AllOrdered Between Whole Straddles)

variable {f f' : SourceFile} {maxDepth : Int} {ι : Insertion} {t : Token} {junk : Bytes} {root body tree c : ParseTree}
  {path : List Nat} {front back : List ParseTree}

/-- An insertion between two children of a match body. The induction is on the path to the body. -/
theorem spot_of_at? (whole : Whole tree) (ordered : tree.AllOrdered) (plain : tree.kind ≠ .sourceFile)
    (between : Between ι.place body front back) (found : tree.at? path = some body) (kind : body.kind = .matchBody)
    (quiet : ∀ c ∈ body.children, c.kind = .ruleDef → c.stop = ι.place → ι.final = .rightBrace →
      isSilent (headKind ι.ahead') = true) : ι.Spot tree := by
  have enclosing := ordered.encloses_of_at? plain found kind
  intro n inside around
  obtain ⟨low, high⟩ := around
  induction path generalizing tree with
  | nil =>
    obtain rfl := Option.some.inj found
    rcases ParseTree.mem_nodes.mp inside with rfl | ⟨c, child, below⟩
    · exact .inl ⟨kind, quiet⟩
    · have within := (whole.of_child child).within below
      obtain ⟨before, behind⟩ := whole.sides between
      rw [between.split, List.mem_append] at child
      rcases child with earlier | later
      · have := before c earlier
        omega
      · have := (behind c later).1
        omega
  | cons i path ih =>
    obtain ⟨before, c, behind, split, -, below⟩ := ParseTree.exists_of_at? found
    obtain ⟨self, each⟩ := ParseTree.allOrdered_iff.mp ordered
    have child : c ∈ tree.children := by simp [split]
    have wholeC := whole.of_child child
    have around := wholeC.straddles between below
    obtain ⟨earlier, later⟩ := whole.sides_of_straddles split around
    have plainC := ParseTree.kind_ne_sourceFile self.fits child
    -- No other child reaches over the place.
    have apart : ∀ u ∈ tree.children, u ≠ c → u.stop < ι.place ∨ ι.place < u.start := by
      intro u member other
      rw [split, List.mem_append, List.mem_cons] at member
      rcases member with first | rfl | last
      · exact .inl (earlier u first)
      · exact absurd rfl other
      · exact .inr (later u last)
    rcases ParseTree.mem_nodes.mp inside with rfl | ⟨u, member, inner⟩
    · cases known : n.kind with
      | matchBody =>
        refine .inl ⟨rfl, fun u member _ ends => ?_⟩
        have filled := (whole.of_child member).filled u u.self_mem_nodes
        by_cases same : u = c
        · rw [same] at ends
          exact absurd ends (Nat.ne_of_gt around.2)
        · have := apart u member same
          omega
      | matchDef => exact .inr ⟨.inl rfl, c, child, around⟩
      | serviceDef => exact .inr ⟨.inr rfl, c, child, around⟩
      | _ => rw [known] at enclosing; cases enclosing
    · have within := (whole.of_child member).within inner
      by_cases same : u = c
      · subst same
        exact ih wholeC (each u child) plainC below ((each u child).encloses_of_at? plainC below kind) inner
      · have := apart u member same
        omega

/-- A document without errors has no empty trees in it. -/
theorem whole_parse (clean : (parse f maxDepth).hasError = false) : Whole (parse f maxDepth) := by
  have each : ∀ c ∈ (parse f maxDepth).children, Whole c := by
    intro c child
    refine (regular_parse maxDepth c child).whole ?_
    rw [ParseTree.hasError_eq, List.any_eq_false] at clean ⊢
    exact fun n inside => clean n (ParseTree.mem_nodes.mpr (.inr ⟨c, child, inside⟩))
  have start : (parse f maxDepth).start = 0 := congrArg Extent.start (extent_parse f maxDepth)
  have stop : (parse f maxDepth).stop = f.size := congrArg Extent.stop (extent_parse f maxDepth)
  have inside : ∀ c ∈ (parse f maxDepth).children, (parse f maxDepth).start ≤ c.start ∧ c.stop ≤ (parse f maxDepth).stop :=
    fun c child => ⟨start ▸ Nat.zero_le _, stop ▸ (regular_parse maxDepth c child).sound.bounded⟩
  refine ParseTree.whole_of_children (ordered_parse f maxDepth) inside ?_ (fun c child isExtra => ?_) each
  · obtain ⟨c, child⟩ := List.exists_mem_of_ne_nil _ (children_parse_ne_nil f maxDepth)
    have filled := (each c child).filled c c.self_mem_nodes
    have around := inside c child
    omega
  · exact (loose_parse child isExtra).children

/-- A place inside a document without errors has a word behind it. -/
theorem significantFrom_ne_nil {place : Nat} (clean : (parse f maxDepth).hasError = false) (edge : f.IsEdge place)
    (child : c ∈ (parse f maxDepth).significant) (around : c.Straddles place) : f.significantFrom place ≠ [] := by
  obtain ⟨grown, -⟩ := grown_items f maxDepth
  have reading := grown.reading
  have clean : (items f maxDepth).isClean = true := (hasError_parse f maxDepth).mp clean
  rw [Draft.isClean, Bool.not_eq_true'] at clean
  obtain ⟨u, inside, significant, stop⟩ := reading.exists_last clean
  obtain ⟨member, -, -⟩ := (f.mem_tokensIn).mp inside
  rw [significant_parse (lays_items f maxDepth).state] at child
  have within := reading.self_sound.inside reading.forward_children (List.mem_filter.mp child).1
  have beyond : place < u.stop := by
    have := around.2
    omega
  have ahead : place ≤ u.start := (edge.apart member).resolve_right (Nat.not_le_of_lt beyond)
  exact List.ne_nil_of_mem (List.mem_filter.mpr ⟨member, by simp [significant, ahead]⟩)

/-- The first word of a statement that was put into a text. -/
theorem headKind_stray {stray : List Lexeme} {gap stop : Nat} (statement : IsStatement junk) (behind : List Lexeme)
    (same : stray = lexemes stop (significantOf ((realTokens 0 junk).map (Token.shift gap)))) :
    ∃ u, (realTokens 0 junk).head? = some u ∧ headKind (stray ++ behind) = u.kind := by
  obtain ⟨last, final, -⟩ := statement.exists_last
  obtain ⟨u, rest, split⟩ := List.exists_cons_of_ne_nil (List.ne_nil_of_mem (List.mem_of_getLast? final))
  have bare := statement.bare u (by rw [split]; rfl)
  refine ⟨u, by rw [split]; rfl, ?_⟩
  rw [same, split, List.map_cons, significantOf, List.filter_cons_of_pos (by simp [Token.shift, bare])]
  rfl

/-! ## The sketch of the document -/

theorem marks_parse : ((parse f maxDepth).sketch f).marks = f.tokens.flatMap Token.marks := by
  rw [ParseTree.marks_sketch]
  exact (tiled_parse f maxDepth).marks_eq (fun t member => spelled_of_measured (f.measured member))
    fun leaf member isEmpty => ((parse_lossless f maxDepth).hollow leaf member isEmpty).1

section

variable (clean : (parse f maxDepth).hasError = false) (found : (parse f maxDepth).at? path = some body)
  (kind : body.kind = .matchBody) (between : Between t.stop body front back) (statement : IsStatement junk)
  (inserted : Inserted f f' t junk)

include clean found kind between statement inserted in
/-- Comments apart, the statement becomes one error in the innermost tree around the place. -/
theorem shape_parse_inserted
    (quiet : ∀ c ∈ body.children, c.kind = .ruleDef → c.stop = t.stop → t.kind = .rightBrace →
      ∀ u ∈ (realTokens 0 junk).head?, isSilent u.kind = true) :
    (parse f' maxDepth).shape f' = (parse f maxDepth).shapeWith f t.stop (errorOf junk).bare := by
  have whole := whole_parse clean
  obtain ⟨ordered, fits⟩ := allOrdered_parse clean
  obtain ⟨frontTokens, backTokens, gap, gap', parted⟩ := inserted.parted statement
  cases path with
  | nil =>
    rw [← Option.some.inj found] at kind
    cases kind
  | cons i path =>
    obtain ⟨before, c, behind, split, -, below⟩ := ParseTree.exists_of_at? found
    have child : c ∈ (parse f maxDepth).children := by simp [split]
    have around := (whole.of_child child).straddles between below
    have significant : c ∈ (parse f maxDepth).significant :=
      List.mem_filter.mpr ⟨child, by simp [whole.isExtra_of_at? between child below]⟩
    have edge : f.IsEdge t.stop := .inr (.inr ⟨t, inserted.token, .inr rfl⟩)
    obtain ⟨ι, rfl, rfl, place, final, stray, same⟩ := parted.exists_insertion inserted.token inserted.fence statement
      (significantFrom_ne_nil clean edge significant around)
    have error : ι.error = (errorOf junk).bare := by
      rw [Insertion.error, stray, significantOf_shift, map_leafShape_lexemes, errorOf, Shape.bare, bares_sketches]
    obtain ⟨u, head, first⟩ := headKind_stray statement ι.behind stray
    rw [← place] at between around ⊢
    rw [← error]
    refine ι.shape_parse maxDepth same clean (fun n member => ?_) ⟨c, significant, around⟩
    have childN := (List.mem_filter.mp member).1
    have wholeN := whole.of_child childN
    by_cases here : n = c
    · subst here
      refine spot_of_at? wholeN (ordered n childN) (ParseTree.kind_ne_sourceFile fits childN) between below kind ?_
      intro n member rule ends brace
      rw [ι.ahead'_eq, first]
      exact quiet n member rule (ends.trans place) (final ▸ brace) u head
    · intro m inside around'
      have within := wholeN.within inside
      obtain ⟨low, high⟩ := around'
      obtain ⟨earlier, later⟩ := whole.sides_of_straddles split around
      rw [split, List.mem_append, List.mem_cons] at childN
      rcases childN with first | same | last
      · have := earlier n first
        omega
      · exact absurd same here
      · have := later n last
        omega

include clean found between statement inserted in
/-- The text of the document with the error at the end of the path is the other text. -/
theorem marks_parse_inserted : ((parse f' maxDepth).sketch f').marks =
    (((parse f maxDepth).sketch f).withPart (errorOf junk) front.length path).marks := by
  obtain ⟨frontTokens, backTokens, gap, gap', parted⟩ := inserted.parted statement
  obtain ⟨ls, rs, leaves, low, high, marks⟩ := (whole_parse clean).leaves_around (f := f) (e := errorOf junk) between found
  have tiled := tiled_parse f maxDepth
  have laid := f.laid_tokens
  have spelled : ∀ t ∈ f.tokens, t.start ≤ t.stop ∧ f.bytesBetween t.start t.stop = t.text :=
    fun t member => spelled_of_measured (f.measured member)
  have hollow : ∀ leaf ∈ (parse f maxDepth).leaves, leaf.isEmpty = true → leaf.isExtra = false :=
    fun leaf member isEmpty => ((parse_lossless f maxDepth).hollow leaf member isEmpty).1
  have shifted (gap : Nat) (ts : List Token) : (ts.map (Token.shift gap)).flatMap Token.marks = ts.flatMap Token.marks :=
    List.flatMap_map ..
  rw [leaves, parted.first] at tiled
  rw [parted.first] at laid spelled
  rw [leaves] at hollow
  obtain ⟨tiledFront, tiledBack⟩ := tiled.sides laid low high parted.low parted.behind
  rw [marks_parse, parted.second, marks, List.flatMap_append, List.flatMap_append, shifted, shifted, statement.marks_errorOf,
    tiledFront.marks_eq (fun t member => spelled t (List.mem_append_left _ member))
      fun leaf member => hollow leaf (List.mem_append_left _ member),
    tiledBack.marks_eq (fun t member => spelled t (List.mem_append_right _ member))
      fun leaf member => hollow leaf (List.mem_append_right _ member)]

end

/-- No part of a document other than a comment starts or ends with one. -/
theorem trim_parse : ∀ x ∈ (parse f maxDepth).children.map (ParseTree.sketch f), x.Trim := by
  intro x member
  obtain ⟨c, child, rfl⟩ := List.mem_map.mp member
  refine ParseTree.trim_sketch (regular_parse maxDepth c child) fun isExtra => ?_
  obtain ⟨grown, ended⟩ := grown_items f maxDepth
  have comment : ∀ low high, c ∈ f.commentsIn low high → c.isMissing = false ∧ c.role = none ∧ c.children = [] := by
    intro low high member
    obtain ⟨t, -, -, rfl⟩ := f.mem_commentsIn member
    exact ⟨rfl, rfl, rfl⟩
  rw [parse_eq, children_closeRoot grown ended, List.append_assoc] at child
  rcases List.mem_append.mp child with front | member
  · exact comment _ _ front
  · rcases List.mem_append.mp member with inner | back
    · exact grown.reading.self_sound.comments c inner isExtra
    · exact comment _ _ back

theorem sketch_parse : (parse f maxDepth).sketch f = .node (parse f maxDepth).kind (parse f maxDepth).isMissing
    (parse f maxDepth).role [] ((parse f maxDepth).children.map (ParseTree.sketch f)) := by
  rw [ParseTree.sketch_eq, if_neg (by simpa using children_parse_ne_nil f maxDepth)]

/-- Recovery in a body is contained. A statement that no match body knows is put into a match body of a document without
errors, behind its brace or behind an item that ends with a brace or semicolon, between white space. Then the document
has one more part in that body, an error with the tokens of the statement as leaves, and is the same otherwise, if a rule
in front that ends with a brace does not go on with the statement. -/
theorem parse_inserted (clean : (parse f maxDepth).hasError = false) (found : (parse f maxDepth).at? path = some body)
    (kind : body.kind = .matchBody) (between : Between t.stop body front back) (statement : IsStatement junk)
    (inserted : Inserted f f' t junk)
    (quiet : ∀ c ∈ body.children, c.kind = .ruleDef → c.stop = t.stop → t.kind = .rightBrace →
      ∀ u ∈ (realTokens 0 junk).head?, isSilent u.kind = true) :
    (parse f' maxDepth).sketch f' = ((parse f maxDepth).sketch f).withPart (errorOf junk) front.length path := by
  have shape := shape_parse_inserted clean found kind between statement inserted quiet
  have marks := marks_parse_inserted clean found between statement inserted
  have whole := whole_parse clean
  have bare := whole.bare_withPart (f := f) (e := errorOf junk) between found NodeKind.noConfusion
  rw [← shape, ← ParseTree.bare_sketch] at bare
  cases path with
  | nil =>
    rw [← Option.some.inj found] at kind
    cases kind
  | cons i path =>
    obtain ⟨before, c, behind, split, rfl, below⟩ := ParseTree.exists_of_at? found
    have plain : ∀ u ∈ (parse f maxDepth).children, (u.sketch f).Trim ∧ (u.sketch f).Filled := fun u child =>
      ⟨trim_parse _ (List.mem_map_of_mem child),
        (whole.of_child child).filled_sketch (regular_parse maxDepth u child).sound.bounded⟩
    have inner := plain c (by simp [split])
    have parts : ∀ y ∈ before.map (ParseTree.sketch f) ++ (c.sketch f).withPart (errorOf junk) front.length path ::
        behind.map (ParseTree.sketch f), y.Trim ∧ y.Filled := by
      intro y member
      rcases List.mem_append.mp member with first | member
      · obtain ⟨u, inside, rfl⟩ := List.mem_map.mp first
        exact plain u (by rw [split]; exact List.mem_append_left _ inside)
      · rcases List.mem_cons.mp member with rfl | last
        · exact ⟨between.trim_withPart below inner.1 statement.trim, between.filled_withPart below inner.2 statement.filled⟩
        · obtain ⟨u, inside, rfl⟩ := List.mem_map.mp last
          exact plain u (by rw [split]; exact List.mem_append_right _ (List.mem_cons_of_mem c inside))
    rw [ParseTree.withPart_cons split, sketch_parse] at bare marks ⊢
    refine Shape.eq_of_parts trim_parse (fun y member => (parts y member).1) ?_ (by simp) ?_ bare.symm marks
    · simpa using children_parse_ne_nil f' maxDepth
    · intro y member
      rw [Shape.bares_eq] at member
      obtain ⟨x, inside, rfl⟩ := List.mem_map.mp member
      obtain ⟨trim, filled⟩ := parts x (List.mem_filter.mp inside).1
      exact filled.bare trim

/-- A rule and a comment in a match in a service. -/
def sampleRule : SourceFile :=
  SourceFile.ofBytes [] (Bytes.ofString "service a \x7b match /b \x7b allow read; // c\n \x7d \x7d") true

/-- The same with a statement behind the rule that starts with a name and has a rule in braces. -/
def sampleRecovery : SourceFile :=
  SourceFile.ofBytes []
    (Bytes.ofString "service a \x7b match /b \x7b allow read; x \x7b allow; \x7d; // c\n \x7d \x7d") true

theorem parse_inserted_sampleRule : (parse sampleRecovery 256).sketch sampleRecovery =
    ((parse sampleRule 256).sketch sampleRule).withPart (errorOf (Bytes.ofString "x \x7b allow; \x7d;")) 2 [0, 2, 1, 2] := by
  have clean : (parse sampleRule 256).hasError = false := by decide +kernel
  have place : ∃ body ∈ (parse sampleRule 256).at? [0, 2, 1, 2], body.kind = .matchBody ∧ body.children.length = 4 ∧
      ((body.children.take 2).getLast?.map (·.stop)) = some 34 := by decide +kernel
  obtain ⟨body, found, kind, length, ends⟩ := place
  have sign : ∃ t ∈ sampleRule.tokens, t.stop = 34 ∧ t.kind = .semicolon := by decide +kernel
  obtain ⟨t, token, stop, semicolon⟩ := sign
  have between : ParseTree.Between t.stop body (body.children.take 2) (body.children.drop 2) := by
    refine ⟨(List.take_append_drop 2 _).symm, ?_, ?_⟩
    · rw [← List.length_pos_iff, List.length_drop, length]
      decide
    · rw [stop]
      exact Option.map_eq_some_iff.mp ends
  have statement : IsStatement (Bytes.ofString "x \x7b allow; \x7d;") :=
    ⟨by decide +kernel, by decide +kernel, by decide +kernel⟩
  have inserted : Inserted sampleRule sampleRecovery t (Bytes.ofString "x \x7b allow; \x7d;") := by
    refine ⟨token, by rw [semicolon]; rfl, Bytes.ofString " ", [], by decide +kernel, by decide +kernel, ?_⟩
    rw [stop]
    decide +kernel
  have front : (body.children.take 2).length = 2 := by rw [List.length_take, length]; rfl
  have same := parse_inserted clean found kind between statement inserted fun c _ _ _ brace => by
    rw [semicolon] at brace
    cases brace
  rwa [front] at same

/-- A rule that ends with the brace of a map. -/
def sampleMapEnd : SourceFile := SourceFile.ofBytes [] (Bytes.ofString "service a \x7b allow read: if \x7b\x7d \x7d") true

/-- The same with a statement behind the rule that starts with an operator. -/
def sampleContinued : SourceFile :=
  SourceFile.ofBytes [] (Bytes.ofString "service a \x7b allow read: if \x7b\x7d + x; \x7d") true

/-- A rule that ends with a brace may go on with the statement, since its semicolon may be left out: the operator and
the name belong to its condition, and the document has no errors. -/
theorem continued_sampleMapEnd : (parse sampleMapEnd 256).hasError = false ∧
    (∃ body t, (parse sampleMapEnd 256).at? [0, 2] = some body ∧ body.kind = .matchBody ∧
      ParseTree.Between t.stop body (body.children.take 2) (body.children.drop 2) ∧
      Inserted sampleMapEnd sampleContinued t (Bytes.ofString "+ x;")) ∧
    IsStatement (Bytes.ofString "+ x;") ∧
    (parse sampleContinued 256).sketch sampleContinued ≠
      ((parse sampleMapEnd 256).sketch sampleMapEnd).withPart (errorOf (Bytes.ofString "+ x;")) 2 [0, 2] := by
  have place : ∃ body ∈ (parse sampleMapEnd 256).at? [0, 2], body.kind = .matchBody ∧ body.children.length = 3 ∧
      ((body.children.take 2).getLast?.map (·.stop)) = some 29 := by decide +kernel
  obtain ⟨body, found, kind, length, ends⟩ := place
  have sign : ∃ t ∈ sampleMapEnd.tokens, t.stop = 29 ∧ t.kind = .rightBrace := by decide +kernel
  obtain ⟨t, token, stop, brace⟩ := sign
  refine ⟨by decide +kernel, ⟨body, t, found, kind, ⟨(List.take_append_drop 2 _).symm, ?_, ?_⟩, token, ?_, ?_⟩,
    ⟨by decide +kernel, by decide +kernel, by decide +kernel⟩, fun same => ?_⟩
  · rw [← List.length_pos_iff, List.length_drop, length]
    decide
  · rw [stop]
    exact Option.map_eq_some_iff.mp ends
  · rw [brace]
    rfl
  · refine ⟨Bytes.ofString " ", [], by decide +kernel, by decide +kernel, ?_⟩
    rw [stop]
    decide +kernel
  · -- One of the two bodies has an error in it.
    have kinds := congrArg (fun x : Shape => ((x.parts.flatMap Shape.parts).flatMap Shape.parts).map Shape.kind) same
    revert kinds
    decide +kernel

end Parser

end SecurityRules
