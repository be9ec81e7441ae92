import SecurityRules.Parser
import SecurityRules.Proofs.Grammar.Declarations
import SecurityRules.Proofs.Landmark.Expressions
import SecurityRules.Proofs.Trivia.Document

/-!
# Layouts of declarations

Every production of declarations makes trees that are in order where they have no errors, and so is the whole document.
-/

namespace SecurityRules.Parser

open ParseTree (AllOrdered)

variable {f : SourceFile} {s : State} {kind : NodeKind} {ps : List Piece} {d : Draft}

/-! ## Headers and names -/

theorem Lays.keeps {turn : Draft → Turn Draft} (lays : Lays f kind ps d)
    (step : ∀ d, Lays f kind ps d → Lays f kind ps (turn d).value) : Lays f kind ps (d.loop turn) :=
  iterate_keeps lays step

/-- A token as a leaf of some kind, or a placeholder for it. -/
theorem Lays.takeOr (lays : Lays f kind ps d) (k : TokenKind) (role : Option Role) (leaf : NodeKind)
    (bare : leaf.layout = []) (other : leaf ≠ .comment) (noError : leaf ≠ .error) :
    Lays f kind (ps ++ [Piece.one (.only role leaf)])
      (if d.isAt k then d.takeAs role leaf else d.lacking role leaf) := by
  split
  · exact lays.takeAs role leaf bare other noError
  · exact lays.lacking role leaf other

theorem yields_rulesVersion : Yields (At .kwRulesVersion) (· == .rulesVersion) rulesVersion := by
  intro f s of found
  have version := (((Lays.opened .rulesVersion of).take found rfl).expect .assign rfl).takeOr .string (some .version)
    .string rfl NodeKind.noConfusion NodeKind.noConfusion
  exact (version.expect .semicolon rfl).yielded rfl NodeKind.noConfusion

/-- A child of one kind that may stand several times. -/
theorem Lays.takeAsMany {slots : List Slot} {role : Option Role} {leaf : NodeKind}
    (lays : Lays f kind (ps ++ [Piece.many slots]) d) (member : Slot.only role leaf ∈ slots) (bare : leaf.layout = [])
    (other : leaf ≠ .comment) (noError : leaf ≠ .error) : Lays f kind (ps ++ [Piece.many slots]) (d.takeAs role leaf) := by
  have token : Yielded f (· == leaf) (leafOf leaf d.state) :=
    yielded_leafOf lays.state (beq_self_eq_true leaf) bare other noError
  exact lays.placeMany token member

theorem yields_serviceName : Yields Anywhere (· == .serviceName) serviceName := by
  intro f s of _
  have turn : ∀ d, Lays f .serviceName ([] ++ NodeKind.layout .serviceName) d →
      Lays f .serviceName ([] ++ NodeKind.layout .serviceName) (serviceNameTurn d).value := by
    intro d lays
    rw [serviceNameTurn]
    split
    · rename_i found
      have dot := (Bool.and_eq_true_iff.mp (Bool.and_eq_true_iff.mp found).1).1
      exact (lays.takeMany dot rfl (List.mem_cons_self ..)).takeAsMany
        (List.mem_cons_of_mem _ (List.mem_cons_self ..)) rfl NodeKind.noConfusion NodeKind.noConfusion
    · exact lays
  have first := ((Lays.opened .serviceName of).several [.sign, .only none .identifier]).takeAsMany
    (List.mem_cons_of_mem _ (List.mem_cons_self ..)) rfl NodeKind.noConfusion NodeKind.noConfusion
  exact (Lays.keeps first turn).yielded rfl NodeKind.noConfusion

/-! ## Matches -/

theorem Lays.ofKind (lays : Lays f kind ps d) (other : NodeKind) (known : kind ≠ .error) (noError : other ≠ .error) :
    Lays f other ps (d.ofKind other) where
  kind := ParseTree.kind_ofKind _ _
  state := lays.state
  first := by simpa [Draft.ofKind] using lays.first
  loose := by simpa [Draft.ofKind] using lays.loose
  laid := by
    rw [isClean_ofKind (lays.kind ▸ known) noError]
    simpa [Draft.ofKind, ParseTree.significant] using lays.laid

theorem yields_captureSegment : Yields (At .leftBrace) NodeKind.isPathPart captureSegment := by
  intro f s of found
  have named := ((Lays.opened .singleSegment of).take found rfl).takeName (some .name)
  rw [captureSegment, branch]
  dsimp only
  split
  · rename_i assign
    have wide := named.ofKind .multiSegment NodeKind.noConfusion NodeKind.noConfusion
    exact ((((wide.take assign rfl).expect .starStar rfl).expect .rightBrace rfl).yielded rfl
      NodeKind.noConfusion).mono fun k same => by rw [beq_iff_eq.mp same]; rfl
  · exact ((named.expect .rightBrace rfl).yielded rfl NodeKind.noConfusion).mono fun k same => by
      rw [beq_iff_eq.mp same]
      rfl

theorem yields_matchPath : Yields Anywhere (· == .matchPath) matchPath := by
  intro f s of _
  have turn {d : Draft} (lays : Lays f .matchPath ([] ++ NodeKind.layout .matchPath) d) :
      (∀ next, matchPathTurn d = .again next → Lays f .matchPath ([] ++ NodeKind.layout .matchPath) next ∧ True) ∧
        ∀ next, matchPathTurn d = .done next → Lays f .matchPath ([] ++ NodeKind.layout .matchPath) next := by
    have slashed : Lays f .matchPath ([] ++ NodeKind.layout .matchPath) (if d.isAt .slash then d.take else d) := by
      split
      · rename_i found
        exact lays.takeMany found rfl (List.mem_cons_self ..)
      · exact lays
    rw [matchPathTurn_eq]
    obtain ⟨again, done⟩ := slashed.slashedPart .collectionSegment (List.mem_cons_of_mem _ (List.mem_cons_self ..))
      yields_captureSegment rfl rfl NodeKind.noConfusion NodeKind.noConfusion
    exact ⟨fun next found => ⟨(again next found).1, trivial⟩, done⟩
  have loop {d : Draft} (lays : Lays f .matchPath ([] ++ NodeKind.layout .matchPath) d) :
      Lays f .matchPath ([] ++ NodeKind.layout .matchPath) (d.loop matchPathTurn) :=
    lays.loop (P := fun _ => True) trivial (fun _ next lays _ => (turn lays).1 next) fun _ next lays _ =>
      (turn lays).2 next
  have opened := (Lays.opened .matchPath of).several [.sign, ⟨some .segment, NodeKind.isPathPart⟩]
  rw [matchPath]
  refine (?_ : Lays f .matchPath ([] ++ NodeKind.layout .matchPath) _).yielded rfl NodeKind.noConfusion
  dsimp only
  split
  · exact loop opened
  · have lacking : Lays f .matchPath ([] ++ NodeKind.layout .matchPath)
        ((Draft.opened .matchPath s).lacking none (.token .slash)) := opened.lacking none _ NodeKind.noConfusion
    split
    · exact loop lacking
    · exact lacking

theorem yields_matchDef {body : Production} (good : Yields Anywhere (· == .matchBody) body) :
    Yields (At .kwMatch) (· == .matchDef) (matchDef body) := by
  intro f s of found
  have opened := (Lays.opened .matchDef of).take found rfl
  have path := opened.place (yields_matchPath f _ opened.state trivial) (some .path)
  exact (path.place (good f _ path.state trivial) (some .body)).yielded rfl NodeKind.noConfusion

/-- Items in braces are in order if each of the productions of a body makes such items. -/
theorem Lays.body {item? : TokenKind → Option Production} {kinds : NodeKind → Bool} (lays : Lays f kind ps d)
    (found : d.isAt .leftBrace = true) (items : ∀ k p, item? k = some p → Yields (At k) kinds p) :
    Lays f kind (ps ++ [Piece.one .sign] ++ [Piece.many [⟨none, kinds⟩]] ++ [Piece.one .sign]) (d.body item?) := by
  refine Lays.expect (Lays.keeps ((lays.take found rfl).several _) fun d lays => ?_) .rightBrace rfl
  rw [bodyTurn]
  split
  · exact lays
  · cases known : item? d.state.peek.kind with
    | none =>
      have skipped := (⟨lays.state, lays.state, rfl⟩ : Near f f d.state d.state).skipUntil isBodySync
      exact lays.placeError (.of_error skipped.state.first skipped.significant (hasError_skipUntil _ _)) none
    | some p =>
      exact lays.placeMany (items _ p known f _ lays.state (beq_self_eq_true _)) (List.mem_singleton_self _)

/-! ## Functions -/

theorem yields_parameter : Yields Anywhere (· == .parameter) (branch .parameter fun p => p.takeAs none .identifier) :=
  fun _ _ of _ => ((Lays.opened .parameter of).takeAs none .identifier rfl NodeKind.noConfusion
    NodeKind.noConfusion).yielded rfl NodeKind.noConfusion

theorem lays_parameterTurn {slots : List Slot} (lays : Lays f kind (ps ++ [Piece.many slots]) d)
    (sign : Slot.sign ∈ slots) (param : Slot.only (some .param) .parameter ∈ slots) :
    Lays f kind (ps ++ [Piece.many slots]) (parameterTurn d).value := by
  rw [parameterTurn]
  split
  · exact lays
  · have placed : Lays f kind (ps ++ [Piece.many slots])
        (if d.isAt .identifier then d.place (some .param) (branch .parameter fun p => p.takeAs none .identifier)
          else d.place none stray) := by
      split
      · exact lays.placeMany (yields_parameter f _ lays.state trivial) param
      · exact lays.placeError (.of_stable stable_stray lays.state (hasError_stray _)) none
    exact placed.comma sign

section

variable {expression : Production} (good : Yields Anywhere NodeKind.isOperand expression)
include good

theorem yields_variableDef : Yields (At .kwLet) (· == .variableDef) (variableDef expression) := by
  intro f s of found
  have value := ((((Lays.opened .variableDef of).take found rfl).takeName (some .name)).expect .assign rfl).read good
    (some .value)
  exact (value.expect .semicolon rfl).yielded rfl NodeKind.noConfusion

theorem yields_returnStatement : Yields (At .kwReturn) (· == .returnStatement) (returnStatement expression) := by
  intro f s of found
  have value := ((Lays.opened .returnStatement of).take found rfl).read good (some .value)
  exact value.optionalSemicolon.yielded rfl NodeKind.noConfusion

theorem yields_functionBody : Yields Anywhere (· == .functionBody) (functionBody expression) := by
  intro f s of _
  rw [functionBody]
  refine (?_ : Lays f .functionBody (NodeKind.layout .functionBody) _).yielded rfl NodeKind.noConfusion
  dsimp only
  split
  · rename_i found
    refine (Lays.opened .functionBody of).body found fun k p known => ?_
    split at known
    · cases known
      exact fun f s of found => (yields_variableDef good f s of found).mono fun k same => by
        rw [beq_iff_eq.mp same]
        rfl
    · cases known
      exact fun f s of found => (yields_returnStatement good f s of found).mono fun k same => by
        rw [beq_iff_eq.mp same]
        rfl
    · cases known
  · exact (Lays.opened .functionBody of).lacking none _ NodeKind.noConfusion

theorem yields_functionDef : Yields (At .kwFunction) (· == .functionDef) (functionDef expression) := by
  intro f s of found
  have named := ((Lays.opened .functionDef of).take found rfl).takeName (some .name)
  have opened := named.expect .leftParen rfl
  rw [functionDef, branch]
  dsimp only
  split
  · have params := (opened.several [.sign, .only (some .param) .parameter]).keeps fun d lays =>
      lays_parameterTurn lays (List.mem_cons_self ..) (List.mem_cons_of_mem _ (List.mem_cons_self ..))
    have closed := params.expect .rightParen rfl
    exact (closed.place (yields_functionBody good f _ closed.state trivial) (some .body)).yielded rfl
      NodeKind.noConfusion
  · rename_i absent
    rw [Draft.finds, Bool.or_eq_true, not_or] at absent
    have wrong : Lays f .functionDef
        [.one .sign, .one (.only (some .name) .identifier), .one .sign,
          .many [.sign, .only (some .param) .parameter], .one .sign] _ := opened.of_dirty (dirty_expect absent.1)
    exact (wrong.place (yields_functionBody good f _ wrong.state trivial) (some .body)).yielded rfl
      NodeKind.noConfusion

/-! ## Rules -/

omit good in
theorem lays_methodTurn {slots : List Slot} (lays : Lays f kind (ps ++ [Piece.many slots]) d)
    (sign : Slot.sign ∈ slots) (method : Slot.only (some .method) .method ∈ slots) :
    Lays f kind (ps ++ [Piece.many slots]) (methodTurn d).value := by
  rw [methodTurn]
  split
  · have placed : Lays f kind (ps ++ [Piece.many slots])
        (if isMethod d.state.peek.text then d.takeAs (some .method) .method else d.place none stray) := by
      split
      · exact lays.takeAsMany method rfl NodeKind.noConfusion NodeKind.noConfusion
      · exact lays.placeError (.of_stable stable_stray lays.state (hasError_stray _)) none
    exact placed.comma sign
  · exact lays

theorem yields_ruleDef : Yields (At .kwAllow) (· == .ruleDef) (ruleDef expression) := by
  intro f s of found
  have taken := ((Lays.opened .ruleDef of).take found rfl).several [.sign, .only (some .method) .method]
  rw [ruleDef, branch]
  dsimp only
  generalize (Draft.opened .ruleDef s).take = d at taken
  have methods : Lays f .ruleDef ([] ++ [Piece.one .sign] ++ [Piece.many [.sign, .only (some .method) .method]])
      (if d.isAt .identifier then d.loop methodTurn else d.lacking (some .method) .method) := by
    split
    · exact taken.keeps fun d lays =>
        lays_methodTurn lays (List.mem_cons_self ..) (List.mem_cons_of_mem _ (List.mem_cons_self ..))
    · exact taken.lacking _ _ NodeKind.noConfusion
  generalize (if d.isAt .identifier then d.loop methodTurn else d.lacking (some .method) .method) = d at methods
  refine (Lays.optionalSemicolon (?_ : Lays f .ruleDef ([] ++ [Piece.one .sign] ++
    [Piece.many [.sign, .only (some .method) .method]] ++ [Piece.maybe .sign] ++ [Piece.maybe .sign] ++
    [.maybe (.operand (some .condition))]) _)).yielded rfl NodeKind.noConfusion
  split
  · rename_i colon
    have word := ((methods.take colon rfl).relax.expect .kwIf rfl).relax
    exact word.placeMaybe (good f _ word.state trivial) _
  · exact ((methods.skip _).skip _).skip _

end

/-! ## Bodies and services -/

theorem yields_matchBodyAt (budget : Nat) : Yields Anywhere (· == .matchBody) (matchBodyAt budget) := by
  induction budget with
  | zero =>
    intro f s of _
    rw [matchBodyAt]
    refine (?_ : Lays f .matchBody (NodeKind.layout .matchBody) _).yielded rfl NodeKind.noConfusion
    have opened := Lays.opened .matchBody of
    dsimp only
    split
    · have skipped := (⟨of, of, rfl⟩ : Near f f s s).skipUntil fun _ => true
      exact opened.placeError (.of_error skipped.state.first skipped.significant (hasError_skipUntil _ _)) none
    · exact opened.lacking none _ NodeKind.noConfusion
  | succ budget ih =>
    intro f s of _
    rw [matchBodyAt]
    refine (?_ : Lays f .matchBody (NodeKind.layout .matchBody) _).yielded rfl NodeKind.noConfusion
    dsimp only
    split
    · rename_i found
      refine (Lays.opened .matchBody of).body found fun k p known => ?_
      split at known
      · cases known
        exact fun f s of found => (yields_matchDef ih f s of found).mono fun k same => by
          rw [beq_iff_eq.mp same]
          rfl
      · cases known
        exact fun f s of found => (yields_functionDef (yields_expressionAt budget).1 f s of found).mono
          fun k same => by rw [beq_iff_eq.mp same]; rfl
      · cases known
        exact fun f s of found => (yields_ruleDef (yields_expressionAt budget).1 f s of found).mono
          fun k same => by rw [beq_iff_eq.mp same]; rfl
      · cases known
    · exact (Lays.opened .matchBody of).lacking none _ NodeKind.noConfusion

theorem yields_serviceDef (limit : Nat) : Yields (At .kwService) (· == .serviceDef) (serviceDef limit) := by
  intro f s of found
  have taken := (Lays.opened .serviceDef of).take found rfl
  have named : Lays f .serviceDef ([] ++ [Piece.one .sign] ++ [Piece.one (.only (some .name) .serviceName)])
      (if (Draft.opened .serviceDef s).take.isAt .identifier then
        (Draft.opened .serviceDef s).take.place (some .name) serviceName
      else (Draft.opened .serviceDef s).take.lacking (some .name) .serviceName) := by
    split
    · exact taken.place (yields_serviceName f _ taken.state trivial) _
    · exact taken.lacking _ _ NodeKind.noConfusion
  exact (named.place (yields_matchBodyAt limit f _ named.state trivial) (some .body)).yielded rfl
    NodeKind.noConfusion

/-! ## Documents -/

/-- The items of a document are headers and services, as long as there are no errors. -/
theorem lays_items (f : SourceFile) (maxDepth : Int) :
    Lays f .sourceFile ([] ++ NodeKind.layout .sourceFile) (items f maxDepth) := by
  have turn : ∀ d, Lays f .sourceFile ([] ++ NodeKind.layout .sourceFile) d →
      Lays f .sourceFile ([] ++ NodeKind.layout .sourceFile) (topTurn (depthLimit maxDepth) d).value := by
    intro d lays
    have known : ∀ k : NodeKind, (k == .rulesVersion) = true → (k == .rulesVersion || k == .serviceDef) = true :=
      fun k same => by rw [same, Bool.true_or]
    have known' : ∀ k : NodeKind, (k == .serviceDef) = true → (k == .rulesVersion || k == .serviceDef) = true :=
      fun k same => by rw [same, Bool.or_true]
    rw [topTurn]
    split
    · exact lays
    · rename_i found
      have header := (yields_rulesVersion f d.state lays.state (beq_iff_eq.mpr found)).mono known
      show Lays f .sourceFile _ (d.place none rulesVersion)
      exact lays.placeMany header (List.mem_singleton_self _)
    · rename_i found
      have service := (yields_serviceDef (depthLimit maxDepth) f d.state lays.state (beq_iff_eq.mpr found)).mono known'
      show Lays f .sourceFile _ (d.place none (serviceDef _))
      exact lays.placeMany service (List.mem_singleton_self _)
    · have skipped := (⟨lays.state, lays.state, rfl⟩ : Near f f d.state d.state).skipUntil isTopSync
      exact lays.placeError (.of_error skipped.state.first skipped.significant (hasError_skipUntil _ _)) none
  have loop := ((Lays.opened .sourceFile (of_start f)).several _).keeps turn
  rw [items]
  split
  · exact loop
  · exact loop.lacking none _ NodeKind.noConfusion

end SecurityRules.Parser
