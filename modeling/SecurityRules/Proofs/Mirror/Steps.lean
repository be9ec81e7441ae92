import SecurityRules.Proofs.Trivia.Steps

/-!
# Productions that mirror others

There may be more in the parser's state than productions look at. What is changed there stays changed behind every
production, and the tree that it reads is the same. One production mirrors another one if it reads, behind such a
change, what the other one reads without it. That may be asked for only where the other one reads a tree without errors:
no step takes an error back, so nothing in front of such a tree holds one either.
-/

namespace SecurityRules

/-- Where this is asked for, there is no error in a tree. -/
def ParseTree.IsFineIf (strict : Prop) (t : ParseTree) : Prop := strict → ∀ n ∈ t.nodes, n.isError = false

theorem ParseTree.isFineIf_iff {strict : Prop} {t : ParseTree} :
    t.IsFineIf strict ↔ (strict → t.isError = false) ∧ ∀ c ∈ t.children, c.IsFineIf strict := by
  constructor
  · intro fine
    exact ⟨fun asked => fine asked t (self_mem_nodes t),
      fun c member asked n inside => fine asked n (mem_nodes.mpr (Or.inr ⟨c, member, inside⟩))⟩
  · rintro ⟨self, below⟩ asked n inside
    rcases mem_nodes.mp inside with rfl | ⟨c, member, inside⟩
    · exact self asked
    · exact below c member asked n inside

namespace Parser

/-- A change of the parser's state that no production notices. -/
structure Unseen where
  on : State → State
  rest : ∀ s, (on s).rest = s.rest
  lastStop : ∀ s, (on s).lastStop = s.lastStop
  pending : ∀ s, (on s).pending = s.pending
  size : ∀ s, (on s).file.size = s.file.size
  extent : ∀ s start stop, Extent.ofRange (on s).file start stop = Extent.ofRange s.file start stop
  keeping : ∀ s pending, { on s with pending } = on { s with pending }
  advance : ∀ s, (on s).advance = on s.advance

variable {strict : Prop} {σ : Unseen}

/-! ## States -/

namespace Unseen

variable (s : State)

theorem peek : (σ.on s).peek = s.peek := by rw [State.peek, State.peek, σ.rest, σ.size]

theorem peekSecond : (σ.on s).peekSecond = s.peekSecond := by
  rw [State.peekSecond, State.peekSecond, σ.rest, σ.size]

theorem isAt (kind : TokenKind) : (σ.on s).isAt kind = s.isAt kind := by rw [State.isAt, State.isAt, σ.peek]

theorem isAtAny (kinds : List TokenKind) : (σ.on s).isAtAny kinds = s.isAtAny kinds := by
  rw [State.isAtAny, State.isAtAny, σ.peek]

theorem isAtUnary : (σ.on s).isAtUnary = s.isAtUnary := σ.isAtAny s _

theorem isAtSync : (σ.on s).isAtSync = s.isAtSync := by rw [State.isAtSync, State.isAtSync, σ.peek]

theorem isAdjacent : (σ.on s).isAdjacent = s.isAdjacent := by
  rw [State.isAdjacent, State.isAdjacent, σ.peek, σ.lastStop]

theorem leaf (start stop : Nat) (kind : NodeKind) : (σ.on s).leaf start stop kind = s.leaf start stop kind := by
  rw [State.leaf, State.leaf, σ.extent]

theorem placeholder (kind : NodeKind) : (σ.on s).placeholder kind = s.placeholder kind := by
  rw [State.placeholder, State.placeholder, σ.extent, σ.lastStop]

theorem emptyError : (σ.on s).emptyError = s.emptyError := by
  rw [State.emptyError, State.emptyError, σ.leaf, σ.lastStop]

end Unseen

/-- One production reads, behind a change, what another one reads without it, where there is no error in what that
reads. -/
def Mirrors (σ : Unseen) (strict : Prop) (q p : Production) : Prop :=
  ∀ s, (p s).1.IsFineIf strict → q (σ.on s) = ((p s).1, σ.on (p s).2)

namespace Mirrors

variable {q p : Production}

/-- What is so for all trees is so for those without errors. -/
theorem always (mirrors : Mirrors σ False q p) : Mirrors σ strict q p := fun s _ => mirrors s False.elim

/-- Nothing is asked where there are errors in all that is read. -/
theorem of_errors (errors : ∀ s, ¬(p s).1.IsFineIf strict) : Mirrors σ strict q p :=
  fun s fine => absurd fine (errors s)

theorem ite {q' p' : Production} {c : State → Bool} (seen : ∀ s, c (σ.on s) = c s) (yes : Mirrors σ strict q p)
    (no : Mirrors σ strict q' p') :
    Mirrors σ strict (fun s => if c s then q s else q' s) (fun s => if c s then p s else p' s) := by
  intro s fine
  dsimp only at fine ⊢
  rw [seen]
  split
  · rename_i holds
    rw [if_pos holds] at fine
    exact yes s fine
  · rename_i fails
    rw [if_neg fails] at fine
    exact no s fine

/-- A placeholder where nothing is read. -/
theorem placeholder (kind : NodeKind) :
    Mirrors σ strict (fun s => (s.placeholder kind, s)) (fun s => (s.placeholder kind, s)) := by
  intro s _
  dsimp only
  rw [σ.placeholder]

theorem leafOf (kind : NodeKind) : Mirrors σ strict (leafOf kind) (leafOf kind) := by
  intro s _
  rw [Parser.leafOf, Parser.leafOf, σ.leaf, σ.peek, σ.advance]

end Mirrors

/-! ## Steps of a draft -/

/-- The draft with its state changed. -/
def Draft.under (d : Draft) (σ : Unseen) : Draft := { d with state := σ.on d.state }

theorem Draft.peek_under (d : Draft) : (d.under σ).state.peek = d.state.peek := σ.peek d.state

theorem Draft.isAt_under (d : Draft) (kind : TokenKind) : (d.under σ).isAt kind = d.isAt kind := σ.isAt d.state kind

/-- A step does to a changed draft what another one does to the draft itself, where that brings no error. The other one
takes no error back. -/
structure MirrorsStep (σ : Unseen) (strict : Prop) (g f : Draft → Draft) : Prop where
  same : ∀ d, (f d).tree.IsFineIf strict → g (d.under σ) = (f d).under σ
  back : ∀ d, (f d).tree.IsFineIf strict → d.tree.IsFineIf strict

theorem Unseen.attach (d : Draft) (role : Option Role) (c : ParseTree) :
    (d.under σ).attach role c = (d.attach role c).under σ := by
  have pending : (d.under σ).state.pending = d.state.pending := σ.pending d.state
  rw [Draft.attach, Draft.attach, pending]
  show (if d.isBare then _ else _) = _
  split
  · rfl
  · exact congrArg (Draft.mk _) (σ.keeping d.state _)

theorem isFineIf_of_attach {d : Draft} {role : Option Role} {c : ParseTree}
    (fine : (d.attach role c).tree.IsFineIf strict) : d.tree.IsFineIf strict ∧ c.IsFineIf strict := by
  have attached := attached_attach d role c
  obtain ⟨placed, children, -⟩ := attached.children
  obtain ⟨self, below⟩ := ParseTree.isFineIf_iff.mp fine
  rw [children] at below
  have last := ParseTree.isFineIf_iff.mp (below (c.inRole role) (by simp))
  refine ⟨ParseTree.isFineIf_iff.mpr ⟨fun asked => ?_, fun u member => below u (by simp [member])⟩,
    ParseTree.isFineIf_iff.mpr ⟨fun asked => ?_, fun u member => last.2 u (by simpa using member)⟩⟩
  · rw [ParseTree.isError, ← attached.kind]
    exact self asked
  · rw [ParseTree.isError, ← ParseTree.kind_inRole c role]
    exact last.1 asked

namespace MirrorsStep

variable {g f g' f' : Draft → Draft}

theorem here : MirrorsStep σ strict (fun d => d) (fun d => d) := ⟨fun _ _ => rfl, fun _ => id⟩

theorem andThen (first : MirrorsStep σ strict g f) (second : MirrorsStep σ strict g' f') :
    MirrorsStep σ strict (fun d => g' (g d)) (fun d => f' (f d)) where
  same := fun d fine => by
    rw [first.same d (second.back _ fine), second.same _ fine]
  back := fun d fine => first.back d (second.back _ fine)

theorem ite {c : Draft → Bool} (seen : ∀ d : Draft, c (d.under σ) = c d) (yes : MirrorsStep σ strict g f)
    (no : MirrorsStep σ strict g' f') :
    MirrorsStep σ strict (fun d => if c d then g d else g' d) (fun d => if c d then f d else f' d) := by
  constructor
  all_goals
    intro d fine
    split at fine
    rename_i holds
  · rw [seen, if_pos holds, if_pos holds]
    exact yes.same d fine
  · rename_i fails
    rw [seen, if_neg fails, if_neg fails]
    exact no.same d fine
  · exact yes.back d fine
  · exact no.back d fine

/-- A step that is chosen by the next token. -/
theorem byKind {g f : TokenKind → Draft → Draft} (steps : ∀ kind, MirrorsStep σ strict (g kind) (f kind)) :
    MirrorsStep σ strict (fun d => g d.state.peek.kind d) (fun d => f d.state.peek.kind d) where
  same := fun d fine => by
    rw [d.peek_under]
    exact (steps _).same d fine
  back := fun d fine => (steps _).back d fine

theorem place {q p : Production} (role : Option Role) (mirrors : Mirrors σ strict q p) :
    MirrorsStep σ strict (·.place role q) (·.place role p) where
  same := fun d fine => by
    have read : q (d.under σ).state = ((p d.state).1, σ.on (p d.state).2) :=
      mirrors d.state (isFineIf_of_attach (d := ⟨d.tree, (p d.state).2⟩) fine).2
    rw [Draft.place, read]
    exact σ.attach ⟨d.tree, (p d.state).2⟩ role _
  back := fun d fine => (isFineIf_of_attach (d := ⟨d.tree, (p d.state).2⟩) fine).1

theorem takeAs (role : Option Role) (kind : NodeKind) :
    MirrorsStep σ strict (·.takeAs role kind) (·.takeAs role kind) := place role (.leafOf kind)

theorem take (role : Option Role) : MirrorsStep σ strict (·.take role) (·.take role) :=
  byKind fun kind => takeAs role (leafKind kind)

theorem lacking (role : Option Role) (kind : NodeKind) :
    MirrorsStep σ strict (·.lacking role kind) (·.lacking role kind) := place role (.placeholder kind)

theorem takeName (role : Option Role) : MirrorsStep σ strict (·.takeName role) (·.takeName role) :=
  ite (·.isAt_under _) (takeAs role _) (lacking role _)

theorem ofKind (kind : NodeKind) : MirrorsStep σ False (·.ofKind kind) (·.ofKind kind) :=
  ⟨fun _ _ => rfl, fun _ _ => False.elim⟩

/-- A new draft that begins with the tree read so far. -/
theorem wrapped (kind : NodeKind) (role : Option Role) (step : MirrorsStep σ strict g f) :
    MirrorsStep σ strict (fun d => g ((Draft.opened kind d.state).attach role d.tree))
      (fun d => f ((Draft.opened kind d.state).attach role d.tree)) where
  same := fun d fine => by
    have opened : Draft.opened kind (d.under σ).state = (Draft.opened kind d.state).under σ := rfl
    have tree : (d.under σ).tree = d.tree := rfl
    rw [opened, tree, σ.attach]
    exact step.same _ fine
  back := fun d fine => (isFineIf_of_attach (step.back _ fine)).2

end MirrorsStep

namespace Mirrors

variable {g f : Draft → Draft}

theorem branch (kind : NodeKind) (step : MirrorsStep σ strict g f) :
    Mirrors σ strict (branch kind g) (branch kind f) := by
  intro s fine
  have same := step.same (Draft.opened kind s) fine
  show ((g ((Draft.opened kind s).under σ)).tree, (g ((Draft.opened kind s).under σ)).state) = _
  rw [same]
  rfl

/-- What goes on from the tree that is read first. -/
theorem andThen {q p : Production} (first : Mirrors σ strict q p) (step : MirrorsStep σ strict g f) :
    Mirrors σ strict (fun s => ((g ⟨(q s).1, (q s).2⟩).tree, (g ⟨(q s).1, (q s).2⟩).state))
      (fun s => ((f ⟨(p s).1, (p s).2⟩).tree, (f ⟨(p s).1, (p s).2⟩).state)) := by
  intro s fine
  have read := first s (step.back ⟨(p s).1, (p s).2⟩ fine)
  have same := step.same ⟨(p s).1, (p s).2⟩ fine
  dsimp only
  rw [read]
  rw [Draft.under] at same
  rw [same]
  rfl

end Mirrors

/-! ## Turns of a loop -/

/-- The turn with its value changed. -/
def Turn.map {α β : Type} (change : α → β) : Turn α → Turn β
  | .again value => .again (change value)
  | .done value => .done (change value)

namespace Turn

variable {α β : Type} (change : α → β)

theorem map_again (a : α) : (again a).map change = again (change a) := rfl
theorem map_done (a : α) : (done a).map change = done (change a) := rfl

theorem map_ite (c : Prop) [Decidable c] (x y : Turn α) :
    (if c then x else y).map change = if c then x.map change else y.map change := apply_ite (Turn.map change) c x y

end Turn

/-- A change that no turn notices can as well be made behind the last one. -/
theorem iterate_map {α : Type} (stateOf : α → State) {turn : α → Turn α} (change : α → α)
    (rest : ∀ a, (stateOf (change a)).rest = (stateOf a).rest)
    (blind : ∀ a, turn (change a) = (turn a).map change) (a : α) :
    iterate stateOf turn (change a) = change (iterate stateOf turn a) := by
  fun_induction iterate stateOf turn a with
  | case1 a next found =>
    rw [iterate, blind, found]
    rfl
  | case2 a next found shorter ih =>
    rw [iterate, blind, found]
    simp only [Turn.map, rest, if_pos shorter]
    exact ih
  | case3 a next found longer =>
    rw [iterate, blind, found]
    simp only [Turn.map, rest, if_neg longer]

/-- A turn does to a changed draft what another one does to the draft itself, where that brings no error. -/
structure MirrorsTurn (σ : Unseen) (strict : Prop) (u t : Draft → Turn Draft) : Prop where
  same : ∀ d, (t d).value.tree.IsFineIf strict → u (d.under σ) = (t d).map (·.under σ)
  back : ∀ d, (t d).value.tree.IsFineIf strict → d.tree.IsFineIf strict

namespace MirrorsStep

variable {g f : Draft → Draft}

theorem again (step : MirrorsStep σ strict g f) :
    MirrorsTurn σ strict (fun d => .again (g d)) (fun d => .again (f d)) :=
  ⟨fun d fine => congrArg Turn.again (step.same d fine), step.back⟩

theorem done (step : MirrorsStep σ strict g f) :
    MirrorsTurn σ strict (fun d => .done (g d)) (fun d => .done (f d)) :=
  ⟨fun d fine => congrArg Turn.done (step.same d fine), step.back⟩

/-- A turn that begins with a step. -/
theorem turn {u t : Draft → Turn Draft} (step : MirrorsStep σ strict g f) (turn : MirrorsTurn σ strict u t) :
    MirrorsTurn σ strict (fun d => u (g d)) (fun d => t (f d)) where
  same := fun d fine => by
    rw [step.same d (turn.back _ fine), turn.same _ fine]
  back := fun d fine => step.back d (turn.back _ fine)

end MirrorsStep

namespace MirrorsTurn

variable {u t u' t' : Draft → Turn Draft}

theorem ite {c : Draft → Bool} (seen : ∀ d : Draft, c (d.under σ) = c d) (yes : MirrorsTurn σ strict u t)
    (no : MirrorsTurn σ strict u' t') :
    MirrorsTurn σ strict (fun d => if c d then u d else u' d) (fun d => if c d then t d else t' d) := by
  constructor
  all_goals
    intro d fine
    split at fine
    rename_i holds
  · rw [seen, if_pos holds, if_pos holds]
    exact yes.same d fine
  · rename_i fails
    rw [seen, if_neg fails, if_neg fails]
    exact no.same d fine
  · exact yes.back d fine
  · exact no.back d fine

/-- A turn that is chosen by the next token. -/
theorem byKind {u t : TokenKind → Draft → Turn Draft} (turns : ∀ kind, MirrorsTurn σ strict (u kind) (t kind)) :
    MirrorsTurn σ strict (fun d => u d.state.peek.kind d) (fun d => t d.state.peek.kind d) where
  same := fun d fine => by
    rw [d.peek_under]
    exact (turns _).same d fine
  back := fun d fine => (turns _).back d fine

/-- The induction is on the turns of the loop that is mirrored; an error of an early turn would still be there in the
end. -/
theorem loop (turn : MirrorsTurn σ strict u t) : MirrorsStep σ strict (·.loop u) (·.loop t) := by
  suffices both : ∀ d : Draft, (iterate Draft.state t d).tree.IsFineIf strict →
      iterate Draft.state u (d.under σ) = (iterate Draft.state t d).under σ ∧ d.tree.IsFineIf strict from
    ⟨fun d fine => (both d fine).1, fun d fine => (both d fine).2⟩
  intro d
  have rest : ∀ d : Draft, (d.under σ).state.rest = d.state.rest := fun d => σ.rest d.state
  fun_induction iterate Draft.state t d with
  | case1 d next found =>
    intro fine
    have fine : (t d).value.tree.IsFineIf strict := by rw [found]; exact fine
    rw [iterate, turn.same d fine, found]
    exact ⟨rfl, turn.back d fine⟩
  | case2 d next found shorter ih =>
    intro fine
    obtain ⟨same, fine⟩ := ih fine
    have fine : (t d).value.tree.IsFineIf strict := by rw [found]; exact fine
    rw [iterate, turn.same d fine, found]
    simp only [Turn.map, rest, if_pos shorter]
    exact ⟨same, turn.back d fine⟩
  | case3 d next found longer =>
    intro fine
    have fine : (t d).value.tree.IsFineIf strict := by rw [found]; exact fine
    rw [iterate, turn.same d fine, found]
    simp only [Turn.map, rest, if_neg longer]
    exact ⟨trivial, turn.back d fine⟩

end MirrorsTurn

/-! ## Input that does not fit -/

/-- The same count of brackets over a changed draft. -/
def Nested.under (n : Nested) (σ : Unseen) : Nested := { n with draft := n.draft.under σ }

/-- What is gathered token by token does not depend on what no production notices. -/
theorem Mirrors.gathered {turn : Nested → Turn Nested}
    (same : ∀ n : Nested, turn (n.under σ) = (turn n).map (·.under σ)) :
    Mirrors σ strict (fun s => (iterate (·.draft.state) turn ⟨0, Draft.opened .error s⟩).toError)
      (fun s => (iterate (·.draft.state) turn ⟨0, Draft.opened .error s⟩).toError) := by
  intro s _
  have all := iterate_map (fun n : Nested => n.draft.state) (·.under σ) (fun n => σ.rest n.draft.state) same
    ⟨0, Draft.opened .error s⟩
  dsimp only at all ⊢
  show (iterate (·.draft.state) turn (Nested.under ⟨0, Draft.opened .error s⟩ σ)).toError = _
  rw [all]
  generalize iterate (fun n : Nested => n.draft.state) turn ⟨0, Draft.opened .error s⟩ = n
  rw [Nested.toError, Nested.toError]
  show (if n.draft.isBare then ((σ.on n.draft.state).emptyError, _) else _) = _
  rw [σ.emptyError]
  split <;> rfl

theorem Draft.take_under (d : Draft) : (d.under σ).take = d.take.under σ :=
  (MirrorsStep.take none).same d False.elim

theorem Mirrors.skipUntil (stop : TokenKind → Bool) : Mirrors σ strict (skipUntil stop) (skipUntil stop) := by
  refine .gathered fun n => ?_
  obtain ⟨depth, d⟩ := n
  have bare : (d.under σ).isBare = d.isBare := rfl
  simp only [skipTurn, Nested.under, d.isAt_under, d.peek_under, bare, d.take_under, Turn.map_ite, Turn.map_again,
    Turn.map_done]

theorem Mirrors.collapse : Mirrors σ strict collapse collapse := by
  refine .gathered fun n => ?_
  obtain ⟨depth, d⟩ := n
  simp only [collapseTurn, Nested.under, d.isAt_under, d.peek_under, d.take_under, Turn.map_ite, Turn.map_again,
    Turn.map_done]

theorem Mirrors.stray : Mirrors σ strict stray stray :=
  .branch .error (.ite (·.isAt_under .endOfInput) .here (.take none))

theorem MirrorsStep.expect (kind : TokenKind) : MirrorsStep σ strict (·.expect kind) (·.expect kind) := by
  refine .ite (·.isAt_under kind) (.take none) (.ite (fun d => ?_) (.andThen (.place none .stray) (.take none))
    (.lacking none _))
  show (!(σ.on d.state).isAtSync && (σ.on d.state).peekSecond.kind == kind) = _
  rw [σ.isAtSync, σ.peekSecond]

end Parser

end SecurityRules
