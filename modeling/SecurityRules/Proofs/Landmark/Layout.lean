import SecurityRules.Proofs.Landmark.Landmarks
import SecurityRules.Proofs.Trivia.Expressions

/-!
# Layouts

Of a tree without errors the kind says what its children are, comments apart. A layout is a row of slots, some of which
may be filled several times or not at all; a draft that grows step by step fills one slot after the other.
-/

namespace SecurityRules

/-- A place for a child: its role and its possible kinds. -/
structure Slot where
  role : Option Role
  kinds : NodeKind → Bool

/-- Part of a layout: one child, at most one, or any number of children for one of several slots. -/
inductive Piece where
  | one (slot : Slot)
  | maybe (slot : Slot)
  | many (slots : List Slot)

def Slot.Fits (slot : Slot) (c : ParseTree) : Prop := c.role = slot.role ∧ slot.kinds c.kind = true

namespace NodeKind

def isToken : NodeKind → Bool
  | token _ => true
  | _ => false

theorem isToken_iff {kind : NodeKind} : kind.isToken = true ↔ ∃ k, kind = token k := by
  cases kind <;> simp [isToken]

/-- The tokens that join the operands of a tree of a given kind. -/
def isOperatorOf (kind : NodeKind) : NodeKind → Bool
  | token k => (Parser.infixOperator? k).map (·.2) == some kind
  | _ => false

/-- The tokens that stand in front of an operand. -/
def isPrefixSign (kind : NodeKind) : Bool := kind == token .bang || kind == token .minus

/-- The items of a match body. -/
def isItem (kind : NodeKind) : Bool := kind == matchDef || kind == functionDef || kind == ruleDef

/-- The statements of a function. -/
def isFunctionItem (kind : NodeKind) : Bool := kind == variableDef || kind == returnStatement

/-- The segments of a match path. -/
def isPathPart (kind : NodeKind) : Bool :=
  kind == collectionSegment || kind == singleSegment || kind == multiSegment

end NodeKind

namespace Slot

/-- A sign or reserved word. -/
def sign : Slot := ⟨none, NodeKind.isToken⟩

/-- A child of one kind. -/
def only (role : Option Role) (kind : NodeKind) : Slot := ⟨role, (· == kind)⟩

/-- An expression. -/
def operand (role : Option Role) : Slot := ⟨role, NodeKind.isOperand⟩

@[simp] theorem role_sign : sign.role = none := rfl
@[simp] theorem role_only (role : Option Role) (kind : NodeKind) : (only role kind).role = role := rfl
@[simp] theorem role_operand (role : Option Role) : (operand role).role = role := rfl

theorem Fits.kind_eq {role : Option Role} {kind : NodeKind} {c : ParseTree} (fits : (only role kind).Fits c) :
    c.kind = kind :=
  eq_of_beq fits.2

end Slot

open Piece Slot in
/-- The children of a tree of a given kind that has no errors, comments apart. -/
def NodeKind.layout : NodeKind → List Piece
  | .sourceFile => [many [⟨none, fun kind => kind == .rulesVersion || kind == .serviceDef⟩]]
  | .rulesVersion => [one sign, one sign, one (only (some .version) .string), one sign]
  | .serviceDef => [one sign, one (only (some .name) .serviceName), one (only (some .body) .matchBody)]
  | .serviceName => [many [sign, only none .identifier]]
  | .matchBody => [one sign, many [⟨none, isItem⟩], one sign]
  | .matchDef => [one sign, one (only (some .path) .matchPath), one (only (some .body) .matchBody)]
  | .matchPath => [many [sign, ⟨some .segment, isPathPart⟩]]
  | .singleSegment => [one sign, one (only (some .name) .identifier), one sign]
  | .multiSegment => [one sign, one (only (some .name) .identifier), one sign, one sign, one sign]
  | .functionDef =>
    [one sign, one (only (some .name) .identifier), one sign, many [sign, only (some .param) .parameter], one sign,
      one (only (some .body) .functionBody)]
  | .parameter => [one (only none .identifier)]
  | .functionBody => [one sign, many [⟨none, isFunctionItem⟩], one sign]
  | .variableDef => [one sign, one (only (some .name) .identifier), one sign, one (operand (some .value)), one sign]
  | .returnStatement => [one sign, one (operand (some .value)), maybe sign]
  | .ruleDef =>
    [one sign, many [sign, only (some .method) .method], maybe sign, maybe sign, maybe (operand (some .condition)),
      maybe sign]
  | .ternary =>
    [one (operand (some .condition)), one sign, one (operand (some .consequence)), one sign,
      one (operand (some .alternative))]
  | .disjunction => joined .disjunction
  | .conjunction => joined .conjunction
  | .relation => joined .relation
  | .contains => joined .contains
  | .addition => joined .addition
  | .multiplication => joined .multiplication
  | .typeComparison =>
    [one (operand (some .left)), one ⟨some .operator, isOperatorOf .typeComparison⟩,
      one (only (some .right) .typeName)]
  | .unary => [one ⟨some .operator, isPrefixSign⟩, one (operand (some .operand))]
  | .member =>
    [one (operand (some .object)), one sign,
      one ⟨some .field, fun kind => kind == .fieldIdentifier || kind == .functionCall⟩]
  | .indexing =>
    [one (operand (some .object)), one sign, one ⟨some .index, fun kind => kind == .range || kind.isOperand⟩, one sign]
  | .range => [maybe (operand (some .start)), one sign, maybe (operand (some .stop))]
  | .functionCall => [one (only (some .name) .identifier), one (only (some .arguments) .argumentList)]
  | .argumentList => [one sign, many [sign, operand none], one sign]
  | .list => [one sign, many [sign, operand (some .element)], one sign]
  | .map => [one sign, many [sign, only (some .entry) .mapEntry], one sign]
  | .mapEntry => [one (operand (some .key)), one sign, one (operand (some .value))]
  | .parenthesized => [one sign, one (operand (some .expression)), one sign]
  | .path => [many [sign, ⟨some .segment, fun kind => kind == .pathSegment || kind == .interpolation⟩]]
  | .interpolation => [one sign, one sign, one (operand (some .expression)), one sign]
  | _ => []
where
  /-- Two operands and the operator between them. -/
  joined (kind : NodeKind) : List Piece :=
    [one (operand (some .left)), one ⟨some .operator, isOperatorOf kind⟩, one (operand (some .right))]

/-- The slots of a part of a layout. -/
def Piece.slots : Piece → List Slot
  | one slot | maybe slot => [slot]
  | many slots => slots

/-- Children fill a layout. -/
inductive Fits : List Piece → List ParseTree → Prop
  | nil : Fits [] []
  | one {slot : Slot} {c : ParseTree} {ps : List Piece} {cs : List ParseTree} (first : slot.Fits c)
    (rest : Fits ps cs) : Fits (.one slot :: ps) (c :: cs)
  | absent {slot : Slot} {ps : List Piece} {cs : List ParseTree} (rest : Fits ps cs) : Fits (.maybe slot :: ps) cs
  | present {slot : Slot} {c : ParseTree} {ps : List Piece} {cs : List ParseTree} (first : slot.Fits c)
    (rest : Fits ps cs) : Fits (.maybe slot :: ps) (c :: cs)
  | many {slots : List Slot} {ms : List ParseTree} {ps : List Piece} {cs : List ParseTree}
    (several : ∀ c ∈ ms, ∃ slot ∈ slots, slot.Fits c) (rest : Fits ps cs) : Fits (.many slots :: ps) (ms ++ cs)

namespace Fits

variable {ps qs : List Piece} {cs ds : List ParseTree} {slot : Slot} {slots : List Slot} {c : ParseTree}

theorem append (first : Fits ps cs) (second : Fits qs ds) : Fits (ps ++ qs) (cs ++ ds) := by
  induction first with
  | nil => exact second
  | one fits _ ih => exact .one fits ih
  | absent _ ih => exact .absent ih
  | present fits _ ih => exact .present fits ih
  | many several _ ih =>
    rw [List.append_assoc]
    exact .many several ih

theorem split (fits : Fits (ps ++ qs) cs) : ∃ front back, cs = front ++ back ∧ Fits ps front ∧ Fits qs back := by
  induction ps generalizing cs with
  | nil => exact ⟨[], cs, rfl, .nil, fits⟩
  | cons p ps ih =>
    cases fits with
    | one first rest =>
      obtain ⟨front, back, rfl, fitsFront, fitsBack⟩ := ih rest
      exact ⟨_ :: front, back, rfl, .one first fitsFront, fitsBack⟩
    | absent rest =>
      obtain ⟨front, back, rfl, fitsFront, fitsBack⟩ := ih rest
      exact ⟨front, back, rfl, .absent fitsFront, fitsBack⟩
    | present first rest =>
      obtain ⟨front, back, rfl, fitsFront, fitsBack⟩ := ih rest
      exact ⟨_ :: front, back, rfl, .present first fitsFront, fitsBack⟩
    | many several rest =>
      obtain ⟨front, back, rfl, fitsFront, fitsBack⟩ := ih rest
      exact ⟨_, back, (List.append_assoc ..).symm, .many several fitsFront, fitsBack⟩

/-- Every child has its slot. -/
theorem exists_slot (fits : Fits ps cs) (member : c ∈ cs) : ∃ slot ∈ ps.flatMap Piece.slots, slot.Fits c := by
  induction fits with
  | nil => cases member
  | absent _ ih =>
    obtain ⟨slot, known, inside⟩ := ih member
    exact ⟨slot, List.mem_cons_of_mem _ known, inside⟩
  | one first _ ih | present first _ ih =>
    rcases List.mem_cons.mp member with rfl | behind
    · exact ⟨_, List.mem_cons_self .., first⟩
    · obtain ⟨slot, known, inside⟩ := ih behind
      exact ⟨slot, List.mem_cons_of_mem _ known, inside⟩
  | many several _ ih =>
    rcases List.mem_append.mp member with front | behind
    · obtain ⟨slot, known, inside⟩ := several c front
      exact ⟨slot, List.mem_append_left _ known, inside⟩
    · obtain ⟨slot, known, inside⟩ := ih behind
      exact ⟨slot, List.mem_append_right _ known, inside⟩

theorem concat_one (fits : Fits ps cs) (last : slot.Fits c) : Fits (ps ++ [Piece.one slot]) (cs ++ [c]) :=
  fits.append (.one last .nil)

theorem concat_maybe (fits : Fits ps cs) (last : slot.Fits c) : Fits (ps ++ [Piece.maybe slot]) (cs ++ [c]) :=
  fits.append (.present last .nil)

theorem concat_absent (fits : Fits ps cs) : Fits (ps ++ [Piece.maybe slot]) cs := by
  simpa using fits.append (.absent .nil : Fits [.maybe slot] [])

/-- What fills a slot fills it also where it may be left empty. -/
theorem relax (fits : Fits (ps ++ [Piece.one slot]) cs) : Fits (ps ++ [Piece.maybe slot]) cs := by
  obtain ⟨front, back, rfl, fitsFront, fitsBack⟩ := fits.split
  cases fitsBack with
  | one last none =>
    cases none
    exact fitsFront.concat_maybe last

theorem concat_none (fits : Fits ps cs) : Fits (ps ++ [Piece.many slots]) cs := by
  have none : Fits [.many slots] ([] ++ []) := .many (fun c member => by cases member) .nil
  simpa using fits.append none

/-- Another child for a slot that may be filled several times. -/
theorem concat_many (fits : Fits (ps ++ [Piece.many slots]) cs) (known : slot ∈ slots) (last : slot.Fits c) :
    Fits (ps ++ [Piece.many slots]) (cs ++ [c]) := by
  obtain ⟨front, back, rfl, fitsFront, fitsBack⟩ := fits.split
  cases fitsBack with
  | @many _ ms _ _ several rest =>
    cases rest
    rw [List.append_nil, List.append_assoc]
    have more : Fits [.many slots] ((ms ++ [c]) ++ []) := by
      refine .many (fun u member => ?_) .nil
      rcases List.mem_append.mp member with old | new
      · exact several u old
      · rw [List.mem_singleton.mp new]
        exact ⟨slot, known, last⟩
    rw [List.append_nil] at more
    exact fitsFront.append more

end Fits

section

variable {ps : List Piece} {cs : List ParseTree} {slot : Slot} {slots : List Slot}

theorem fits_nil_iff : Fits [] cs ↔ cs = [] := by
  constructor
  · intro fits
    cases fits
    rfl
  · rintro rfl
    exact .nil

theorem fits_one_iff : Fits (.one slot :: ps) cs ↔ ∃ c rest, cs = c :: rest ∧ slot.Fits c ∧ Fits ps rest := by
  constructor
  · intro fits
    cases fits with
    | one first rest => exact ⟨_, _, rfl, first, rest⟩
  · rintro ⟨c, rest, rfl, first, behind⟩
    exact .one first behind

theorem fits_maybe_iff : Fits (.maybe slot :: ps) cs ↔
    Fits ps cs ∨ ∃ c rest, cs = c :: rest ∧ slot.Fits c ∧ Fits ps rest := by
  constructor
  · intro fits
    cases fits with
    | absent rest => exact Or.inl rest
    | present first rest => exact Or.inr ⟨_, _, rfl, first, rest⟩
  · rintro (rest | ⟨c, rest, rfl, first, behind⟩)
    · exact .absent rest
    · exact .present first behind

theorem fits_optional_iff : Fits (.maybe slot :: ps) cs ↔
    ∃ (o : Option ParseTree) (rest : List ParseTree), cs = o.toList ++ rest ∧ (∀ c ∈ o, slot.Fits c) ∧ Fits ps rest := by
  rw [fits_maybe_iff]
  constructor
  · rintro (rest | ⟨c, rest, rfl, first, behind⟩)
    · exact ⟨none, cs, rfl, by simp, rest⟩
    · exact ⟨some c, rest, rfl, by simpa using first, behind⟩
  · rintro ⟨o, rest, rfl, first, behind⟩
    cases o with
    | none => exact Or.inl behind
    | some c => exact Or.inr ⟨c, rest, rfl, first c rfl, behind⟩

theorem fits_many_iff : Fits (.many slots :: ps) cs ↔
    ∃ ms rest, cs = ms ++ rest ∧ (∀ c ∈ ms, ∃ slot ∈ slots, slot.Fits c) ∧ Fits ps rest := by
  constructor
  · intro fits
    cases fits with
    | many several rest => exact ⟨_, _, rfl, several, rest⟩
  · rintro ⟨ms, rest, rfl, several, behind⟩
    exact .many several behind

/-- Which role the child in a slot has. -/
theorem filter_toList_of_fits {o : Option ParseTree} (fits : ∀ c ∈ o, slot.Fits c) (role : Role) :
    o.toList.filter (·.role == some role) = if slot.role = some role then o.toList else [] := by
  cases o with
  | none => simp
  | some c =>
    have same : c.role = slot.role := (fits c rfl).1
    by_cases wanted : slot.role = some role <;> simp [same, wanted]

end

/-! ## Trees in order -/

namespace ParseTree

/-- A tree without errors whose children fill the layout of its kind. Comments stand only behind the first child and
are loose. -/
structure Ordered (n : ParseTree) : Prop where
  isFlagged : n.isFlagged = false
  first : ∀ c ∈ n.children.head?, c.isExtra = false
  loose : ∀ c ∈ n.children, c.isExtra = true → Parser.IsLoose c
  fits : Fits n.kind.layout n.significant

theorem Ordered.inRole {n : ParseTree} (ordered : n.Ordered) (r : Option Role) : (n.inRole r).Ordered := by
  constructor
  · simpa using ordered.isFlagged
  · simpa using ordered.first
  · simpa using ordered.loose
  · simpa [significant] using ordered.fits

/-- All trees in a tree are in order. -/
def AllOrdered (t : ParseTree) : Prop := ∀ n ∈ t.nodes, n.Ordered

theorem allOrdered_iff {t : ParseTree} : t.AllOrdered ↔ t.Ordered ∧ ∀ c ∈ t.children, c.AllOrdered := by
  constructor
  · intro all
    exact ⟨all t (self_mem_nodes t), fun c member n inside => all n (mem_nodes.mpr (Or.inr ⟨c, member, inside⟩))⟩
  · rintro ⟨self, below⟩ n inside
    rcases mem_nodes.mp inside with rfl | ⟨c, member, inside⟩
    · exact self
    · exact below c member n inside

theorem AllOrdered.inRole {t : ParseTree} (all : t.AllOrdered) (r : Option Role) : (t.inRole r).AllOrdered := by
  obtain ⟨self, below⟩ := allOrdered_iff.mp all
  exact allOrdered_iff.mpr ⟨self.inRole r, by simpa using below⟩

/-- A leaf whose kind has no children. -/
theorem allOrdered_leaf {t : ParseTree} (childless : t.children = []) (bare : t.kind.layout = [])
    (known : t.isFlagged = false) : t.AllOrdered := by
  refine allOrdered_iff.mpr ⟨⟨known, ?_, ?_, ?_⟩, ?_⟩
  · intro c head
    rw [childless] at head
    cases head
  · intro c member
    rw [childless] at member
    cases member
  · rw [bare, significant, childless]
    exact .nil
  · intro c member
    rw [childless] at member
    cases member

end ParseTree

namespace Parser

open ParseTree (AllOrdered)

variable {f : SourceFile} {kind : NodeKind} {ps : List Piece} {d : Draft} {slot : Slot}

/-- A draft of a tree of a kind whose children fill a layout, as long as it has no errors. -/
structure Lays (f : SourceFile) (kind : NodeKind) (ps : List Piece) (d : Draft) : Prop where
  kind : d.tree.kind = kind
  state : d.state.Of f
  first : ∀ c ∈ d.tree.children.head?, c.isExtra = false
  loose : ∀ c ∈ d.tree.children, c.isExtra = true → IsLoose c
  laid : d.isClean = true → (∀ c ∈ d.tree.significant, c.AllOrdered) ∧ Fits ps d.tree.significant

/-- A tree that is no comment, and is in order and of one of some kinds if it has no errors. -/
structure Yielded (f : SourceFile) (kinds : NodeKind → Bool) (r : ParseTree × State) : Prop where
  state : r.2.Of f
  significant : r.1.isExtra = false
  made : r.1.hasError = false → kinds r.1.kind = true ∧ r.1.AllOrdered

/-- A production whose trees are in order and of one of some kinds where they have no errors, from states of which `ok`
holds. -/
def Yields (ok : State → Prop) (kinds : NodeKind → Bool) (p : Production) : Prop :=
  ∀ f s, s.Of f → ok s → Yielded f kinds (p s)

theorem Yielded.mono {kinds wider : NodeKind → Bool} {r : ParseTree × State} (yielded : Yielded f kinds r)
    (wide : ∀ k, kinds k = true → wider k = true) : Yielded f wider r :=
  ⟨yielded.state, yielded.significant, fun clean => ⟨wide _ (yielded.made clean).1, (yielded.made clean).2⟩⟩

/-- A tree with errors is of no use. -/
theorem Yielded.of_error {kinds : NodeKind → Bool} {r : ParseTree × State} (state : r.2.Of f)
    (significant : r.1.isExtra = false) (wrong : r.1.hasError = true) : Yielded f kinds r :=
  ⟨state, significant, fun clean => by rw [wrong] at clean; cases clean⟩

theorem Yielded.of_stable {kinds : NodeKind → Bool} {p : Production} {s : State} (stable : Stable p) (of : s.Of f)
    (wrong : (p s).1.hasError = true) : Yielded f kinds (p s) := by
  have pair := stable f f s s ⟨of, of, rfl⟩
  exact .of_error pair.state.first pair.significant wrong

theorem yielded_leafOf {kinds : NodeKind → Bool} {leaf : NodeKind} {s : State} (of : s.Of f)
    (known : kinds leaf = true) (bare : leaf.layout = []) (other : leaf ≠ .comment) (noError : leaf ≠ .error) :
    Yielded f kinds (leafOf leaf s) := by
  refine ⟨of.advance, beq_eq_false_iff_ne.mpr other, fun _ => ⟨known, ParseTree.allOrdered_leaf rfl bare ?_⟩⟩
  rw [ParseTree.isFlagged]
  exact Bool.or_eq_false_iff.mpr ⟨beq_eq_false_iff_ne.mpr noError, rfl⟩

theorem layout_leafKind (k : TokenKind) : (leafKind k).layout = [] := by
  cases k <;> rfl

namespace Lays

theorem opened {s : State} (kind : NodeKind) (of : s.Of f) : Lays f kind [] (Draft.opened kind s) where
  kind := rfl
  state := of
  first := by
    intro c head
    cases head
  loose := by
    intro c member
    cases member
  laid := by
    intro _
    refine ⟨?_, .nil⟩
    intro c member
    cases member

/-- A draft that gains a child, with what that does to its layout. -/
theorem attach {qs : List Piece} {t : ParseTree} {r : ParseTree × State} {role : Option Role}
    {kinds : NodeKind → Bool} {s : State} (lays : Lays f kind ps ⟨t, s⟩) (yielded : Yielded f kinds r)
    (grow : ∀ cs c, Fits ps cs → (⟨role, kinds⟩ : Slot).Fits c → Fits qs (cs ++ [c])) :
    Lays f kind qs ((⟨t, r.2⟩ : Draft).attach role r.1) := by
  have attached := attached_attach ⟨t, r.2⟩ role r.1
  obtain ⟨placed, children, waiting, bare⟩ := attached.children
  have significant : (r.1.inRole role).isExtra = false := by simpa using yielded.significant
  have loose : ∀ c ∈ placed, IsLoose c := fun c member => yielded.state.pending c (waiting c member)
  refine ⟨attached.kind.trans lays.kind, attached.state_of yielded.state, ?_, ?_, ?_⟩
  · intro c head
    cases shape : t.children with
    | nil =>
      rw [children, shape, bare shape] at head
      rw [← Option.some.inj head]
      exact significant
    | cons first rest =>
      rw [children, shape] at head
      rw [← Option.some.inj head]
      exact lays.first first (by rw [shape]; rfl)
  · intro c member isExtra
    rw [children, List.append_assoc] at member
    rcases List.mem_append.mp member with old | new
    · exact lays.loose c old isExtra
    · rcases List.mem_append.mp new with comment | last
      · exact loose c comment
      · rw [List.mem_singleton.mp last, significant] at isExtra
        cases isExtra
  · intro clean
    obtain ⟨earlier, child⟩ := clean_of_attach clean
    obtain ⟨ordered, fits⟩ := lays.laid earlier
    obtain ⟨known, orderedChild⟩ := yielded.made child
    rw [attached.significant_eq yielded.state significant]
    refine ⟨fun c member => ?_, grow _ _ fits ⟨ParseTree.role_inRole _ _, by simpa using known⟩⟩
    rcases List.mem_append.mp member with old | last
    · exact ordered c old
    · rw [List.mem_singleton.mp last]
      exact orderedChild.inRole role

variable (lays : Lays f kind ps d)
include lays

/-- The finished tree of a draft. -/
theorem yielded (known : kind.layout = ps) (other : kind ≠ .comment) : Yielded f (· == kind) (d.tree, d.state) where
  state := lays.state
  significant := by
    rw [ParseTree.isExtra, lays.kind]
    exact beq_eq_false_iff_ne.mpr other
  made := by
    intro clean
    obtain ⟨ordered, fits⟩ := lays.laid (by rw [Draft.isClean, clean]; rfl)
    rw [hasError_eq_any, Bool.or_eq_false_iff, List.any_eq_false] at clean
    refine ⟨by rw [lays.kind]; exact beq_self_eq_true kind, ParseTree.allOrdered_iff.mpr ⟨⟨clean.1, lays.first,
      lays.loose, ?_⟩, fun c member => ?_⟩⟩
    · rw [lays.kind, known]
      exact fits
    · cases isExtra : c.isExtra with
      | true =>
        have loose := lays.loose c member isExtra
        have known := clean.2 c member
        rw [hasError_eq_any, Bool.not_eq_true, Bool.or_eq_false_iff] at known
        exact ParseTree.allOrdered_leaf loose.children (by rw [loose.kind]; rfl) known.1
      | false => exact ordered c (List.mem_filter.mpr ⟨member, by simp [isExtra]⟩)

/-- A draft with an error fills every layout. -/
theorem of_dirty {qs : List Piece} (wrong : d.isClean = false) : Lays f kind qs d :=
  ⟨lays.kind, lays.state, lays.first, lays.loose, fun clean => by rw [wrong] at clean; cases clean⟩

section

variable {p : Production} {kinds : NodeKind → Bool} {role : Option Role}

theorem place (yielded : Yielded f kinds (p d.state)) (role : Option Role) :
    Lays f kind (ps ++ [Piece.one ⟨role, kinds⟩]) (d.place role p) :=
  lays.attach yielded fun _ _ => Fits.concat_one

theorem placeMaybe (yielded : Yielded f kinds (p d.state)) (role : Option Role) :
    Lays f kind (ps ++ [Piece.maybe ⟨role, kinds⟩]) (d.place role p) :=
  lays.attach yielded fun _ _ => Fits.concat_maybe

omit lays in
theorem placeMany {slots : List Slot} (lays : Lays f kind (ps ++ [Piece.many slots]) d)
    (yielded : Yielded f kinds (p d.state)) (known : ⟨role, kinds⟩ ∈ slots) :
    Lays f kind (ps ++ [Piece.many slots]) (d.place role p) :=
  lays.attach yielded fun _ _ fits last => fits.concat_many known last

theorem skip (slot : Slot) : Lays f kind (ps ++ [Piece.maybe slot]) d :=
  ⟨lays.kind, lays.state, lays.first, lays.loose, fun clean => ⟨(lays.laid clean).1, (lays.laid clean).2.concat_absent⟩⟩

omit lays in
theorem relax (lays : Lays f kind (ps ++ [Piece.one slot]) d) : Lays f kind (ps ++ [Piece.maybe slot]) d :=
  ⟨lays.kind, lays.state, lays.first, lays.loose, fun clean => ⟨(lays.laid clean).1, (lays.laid clean).2.relax⟩⟩

theorem several (slots : List Slot) : Lays f kind (ps ++ [Piece.many slots]) d :=
  ⟨lays.kind, lays.state, lays.first, lays.loose, fun clean => ⟨(lays.laid clean).1, (lays.laid clean).2.concat_none⟩⟩

/-- A child with an error, whatever the layout. -/
theorem placeError {qs : List Piece} (yielded : Yielded f (fun _ => false) (p d.state)) (role : Option Role) :
    Lays f kind qs (d.place role p) :=
  lays.attach yielded fun _ _ _ last => by cases last.2

theorem lacking {qs : List Piece} (role : Option Role) (leaf : NodeKind) (other : leaf ≠ .comment) :
    Lays f kind qs (d.lacking role leaf) := by
  have placeholder : Yielded f (fun _ => false) (d.state.placeholder leaf, d.state) :=
    .of_error lays.state (beq_eq_false_iff_ne.mpr other) (hasError_placeholder _ _)
  rw [Draft.lacking]
  exact lays.attach placeholder fun _ _ _ last => by cases last.2

end

section

variable {role : Option Role} {kinds : NodeKind → Bool}

theorem takeAs (role : Option Role) (leaf : NodeKind) (bare : leaf.layout = []) (other : leaf ≠ .comment)
    (noError : leaf ≠ .error) : Lays f kind (ps ++ [Piece.one (.only role leaf)]) (d.takeAs role leaf) := by
  have token : Yielded f (· == leaf) (leafOf leaf d.state) :=
    yielded_leafOf lays.state (beq_self_eq_true leaf) bare other noError
  exact lays.place token role

omit lays in
/-- A token that is taken where one of its kind stands. -/
theorem yielded_token {k : TokenKind} (of : d.state.Of f) (found : d.isAt k = true)
    (known : kinds (leafKind k) = true) : Yielded f kinds (leafOf (leafKind d.state.peek.kind) d.state) := by
  have same : d.state.peek.kind = k := beq_iff_eq.mp found
  rw [same]
  exact yielded_leafOf of known (layout_leafKind k) (leafKind_ne k) (leafKind_ne_error k)

theorem takeIn {k : TokenKind} (role : Option Role) (found : d.isAt k = true) (known : kinds (leafKind k) = true) :
    Lays f kind (ps ++ [Piece.one ⟨role, kinds⟩]) (d.take role) :=
  lays.place (yielded_token lays.state found known) role

/-- A sign or reserved word that stands there. -/
theorem take {k : TokenKind} (found : d.isAt k = true) (known : NodeKind.isToken (leafKind k) = true) :
    Lays f kind (ps ++ [Piece.one .sign]) d.take :=
  lays.takeIn none found known

omit lays in
theorem takeMany {slots : List Slot} {k : TokenKind} (lays : Lays f kind (ps ++ [Piece.many slots]) d)
    (found : d.isAt k = true) (known : NodeKind.isToken (leafKind k) = true) (member : Slot.sign ∈ slots) :
    Lays f kind (ps ++ [Piece.many slots]) d.take := by
  rw [Draft.take, Draft.takeAs]
  exact lays.placeMany (yielded_token lays.state found known) member

omit lays in
/-- A comma behind an item, with which a list goes on. -/
theorem comma {slots : List Slot} (lays : Lays f kind (ps ++ [Piece.many slots]) d) (member : Slot.sign ∈ slots) :
    Lays f kind (ps ++ [Piece.many slots]) (if d.isAt .comma then Turn.again d.take else .done d).value := by
  split
  · rename_i found
    exact lays.takeMany found rfl member
  · exact lays

theorem expect (k : TokenKind) (known : NodeKind.isToken (leafKind k) = true) :
    Lays f kind (ps ++ [Piece.one .sign]) (d.expect k) := by
  by_cases found : d.isAt k = true
  · rw [Draft.expect, if_pos found]
    exact lays.take found known
  · have wrong := dirty_expect found
    rw [Draft.expect, if_neg found] at wrong ⊢
    split at wrong
    · rename_i behind
      have stray : Yielded f (fun _ => false) (stray d.state) :=
        .of_stable stable_stray lays.state (hasError_stray _)
      have passed : Lays f kind [] (d.place none Parser.stray) := lays.placeError stray none
      have token : Yielded f (fun _ => true) (leafOf (leafKind (d.place none Parser.stray).state.peek.kind) _) :=
        yielded_token passed.state (beq_self_eq_true _) rfl
      rw [if_pos behind]
      exact (passed.place token none).of_dirty wrong
    · rename_i behind
      rw [if_neg behind]
      exact lays.lacking none _ NodeKind.noConfusion

theorem takeName (role : Option Role) : Lays f kind (ps ++ [Piece.one (.only role .identifier)]) (d.takeName role) := by
  rw [Draft.takeName]
  split
  · exact lays.takeAs role .identifier rfl NodeKind.noConfusion NodeKind.noConfusion
  · exact lays.lacking role _ NodeKind.noConfusion

theorem optionalSemicolon : Lays f kind (ps ++ [Piece.maybe .sign]) d.optionalSemicolon := by
  rw [Draft.optionalSemicolon]
  split
  · rename_i found
    exact lays.placeMaybe (yielded_token lays.state found rfl) none
  · exact lays.skip .sign

end

/-- A loop that keeps the layout as long as it goes on and ends with it. -/
theorem loop {turn : Draft → Turn Draft} {P : Draft → Prop} (holds : P d)
    (again : ∀ d d', Lays f kind ps d → P d → turn d = .again d' → Lays f kind ps d' ∧ P d')
    (done : ∀ d d', Lays f kind ps d → P d → turn d = .done d' → Lays f kind ps d') :
    Lays f kind ps (d.loop turn) :=
  iterate_ends (P := fun d => Lays f kind ps d ∧ P d) ⟨lays, holds⟩
    (fun d d' here found => ⟨again d d' here.1 here.2 found, (again d d' here.1 here.2 found).1⟩)
    fun d d' here found => done d d' here.1 here.2 found

end Lays

end Parser

end SecurityRules
