import SecurityRules.Proofs.ParseTree.Nodes
import SecurityRules.Rules.Build
import SecurityRules.Rules.Element

/-!
# What elements are made of

Every element of a typed document is made of one tree of the parse tree. `Makes` says of which: it has one
constructor for each way in which the builder makes an element. An `Origin` is an element above its tree, with the
same for all its parts.
-/

namespace SecurityRules

/-- The point of the name of a call. -/
def Element.callPoint? : Element → Option Point
  | .expr (.call _ _ nameSpan _) => some nameSpan.start
  | _ => none

namespace Build

/-! ## The builder's cases by name -/

section

variable (file : SourceFile) (nested : ParseTree → Option Expr) {t : ParseTree}

/-- What is accessed of a receiver, given its tree. -/
def fieldOf (field : ParseTree) : Option Expr :=
  match field.kind with
  | .fieldIdentifier =>
    some (.memberField field.span (some (.memberVariable field.span (field.text file))))
  | .functionCall =>
    (call? file nested field).map fun (name, nameSpan, args) =>
      .memberField field.span (some (.memberFunction field.span name nameSpan args))
  | _ => none

theorem memberField_eq : memberField file nested t = (presentChild? t .field).bind (fieldOf file nested) := rfl

/-- The index or range in a tree. -/
def placeOf (place : ParseTree) : Option Expr :=
  if isPresent place && place.kind == .range then
    some (.range place.span (exprIn nested place .start) (exprIn nested place .stop))
  else nested place

theorem indexPlace_eq : indexPlace nested t = (t.child? .index).bind (placeOf nested) := rfl

/-- The entry of a map in a tree. -/
def entryOf (entry : ParseTree) : Option Expr :=
  ofArity entry 3 (.mapEntry entry.span (exprIn nested entry .key) (exprIn nested entry .value))

theorem mapEntries_eq : mapEntries nested t = (t.childrenIn .entry).filterMap (entryOf nested) := rfl

/-- The expression of a segment of a path. -/
def segmentOf (segment : ParseTree) : Option Expr :=
  match segment.kind with
  | .pathSegment => some (segmentLiteral file segment)
  | .interpolation => exprIn nested segment .expression
  | _ => none

theorem pathSegments_eq : pathSegments file nested t =
    ((t.childrenIn .segment).filter isPresent).filterMap (segmentOf file nested) := rfl

end

section

variable (f : SourceFile) (limit : Nat) {t : ParseTree}

/-- The function that an item of a body is. -/
def functionIn (t : ParseTree) : Option FunctionDecl :=
  if t.kind = .functionDef then (function? f limit t).1 else none

/-- The rule that an item of a body is. -/
def ruleIn (t : ParseTree) : Option Rule := if t.kind = .ruleDef then some (rule f limit t) else none

/-- The match of a tree. -/
def block (t : ParseTree) : MatchBlock :=
  .mk t.span ((t.child? .path).map (matchPath f)) ((t.child? .body).bind fun body => (matchBody f limit body).1)

/-- The match that an item of a body is. -/
def blockIn (t : ParseTree) : Option MatchBlock := if t.kind = .matchDef then some (block f limit t) else none

/-- What has no place in an item of a body. -/
def lostIn (t : ParseTree) : List Unmapped :=
  match t.kind with
  | .matchDef => (t.child? .body).toList.flatMap fun body => (matchBody f limit body).2
  | .functionDef => (function? f limit t).2
  | .error => [unmapped f t]
  | _ => []

theorem bodyItem_eq : bodyItem f limit t =
    { functions := (functionIn f limit t).toList, rules := (ruleIn f limit t).toList,
      blocks := (blockIn f limit t).toList, unmapped := lostIn f limit t } := by
  rw [bodyItem]
  split
  · rename_i kind
    cases body : t.child? .body <;> simp [functionIn, ruleIn, blockIn, lostIn, block, kind, body]
  all_goals simp_all [functionIn, ruleIn, blockIn, lostIn]

/-- A body sorts its items, in the order in which they stand. -/
theorem matchBody_eq : matchBody f limit t =
    if isOpened t then
      (some (.mk t.span (t.children.filterMap (functionIn f limit)) (t.children.filterMap (ruleIn f limit))
        (t.children.filterMap (blockIn f limit))), t.children.flatMap (lostIn f limit))
    else (none, []) := by
  have items : (t.children.attach.map fun child => bodyItem f limit child.1) =
      t.children.map (bodyItem f limit) :=
    List.attach_map_val
  rw [matchBody]
  dsimp only
  rw [items]
  simp only [List.flatMap_map, bodyItem_eq, List.filterMap_eq_flatMap_toList]

end

/-! ## The relation -/

/-- The builder makes the element of the tree. -/
inductive Makes (f : SourceFile) (limit : Nat) : ParseTree → Element → Prop
  | expr {budget : Nat} {t : ParseTree} {x : Expr} (read : exprAt f budget t = some x) : Makes f limit t (.expr x)
  | receiver (budget : Nat) (t : ParseTree) : Makes f limit t (.expr (.memberObject t.span (exprAt f budget t)))
  | field {budget : Nat} {t : ParseTree} {x : Expr} (read : fieldOf f (exprAt f budget) t = some x) :
    Makes f limit t (.expr x)
  | fieldName (t : ParseTree) : Makes f limit t (.expr (.memberVariable t.span (t.text f)))
  | fieldCall {budget : Nat} {t : ParseTree} {name : Bytes} {nameSpan : Span} {args : List Expr}
    (read : call? f (exprAt f budget) t = some (name, nameSpan, args)) :
    Makes f limit t (.expr (.memberFunction t.span name nameSpan args))
  | place {budget : Nat} {t : ParseTree} {x : Expr} (read : placeOf (exprAt f budget) t = some x) :
    Makes f limit t (.expr x)
  | entry {budget : Nat} {t : ParseTree} {x : Expr} (read : entryOf (exprAt f budget) t = some x) :
    Makes f limit t (.expr x)
  | segment (t : ParseTree) : Makes f limit t (.expr (segmentLiteral f t))
  | typeName (t : ParseTree) : Makes f limit t (.expr (.reference t.span (t.text f)))
  | declaredName (t : ParseTree) : Makes f limit t (.declaredName ⟨t.span, t.text f⟩)
  | method (t : ParseTree) : Makes f limit t (.method ⟨t.span, t.text f⟩)
  | pathPart {t : ParseTree} {p : PathPart} (read : pathPart? f t = some p) : Makes f limit t (.pathPart p)
  | matchPath (t : ParseTree) : Makes f limit t (.matchPath (matchPath f t))
  | letDefinition {t : ParseTree} {d : LetDefinition} (read : letDefinition? f limit t = some d) :
    Makes f limit t (.letDefinition d)
  | functionBody {t : ParseTree} {b : FunctionBody} (read : (functionBody f limit t).1 = some b) :
    Makes f limit t (.functionBody b)
  | function {t : ParseTree} {x : FunctionDecl} (read : (function? f limit t).1 = some x) :
    Makes f limit t (.function x)
  | rule (t : ParseTree) : Makes f limit t (.rule (rule f limit t))
  | block {t : ParseTree} (kind : t.kind = .matchDef) : Makes f limit t (.matchBlock (block f limit t))
  | matchBody {t : ParseTree} {b : MatchBody} (read : (matchBody f limit t).1 = some b) :
    Makes f limit t (.matchBody b)
  /-- The body of a service without one, or of a document without a service. -/
  | noBody (t : ParseTree) : Makes f limit t (.matchBody (.mk t.span [] [] []))
  | document (root : ParseTree) : Makes f limit root (.tree (build f root limit).tree)

variable {f : SourceFile} {limit : Nat} {t : ParseTree}

theorem span_exprOf {nested : ParseTree → Option Expr} {x : Expr} (read : exprOf f nested t = some x) :
    x.span = t.span := by
  unfold exprOf ofArity at read
  split at read
  all_goals grind [Expr.span, Option.map_eq_some_iff]

theorem span_exprAt {budget : Nat} {x : Expr} (read : exprAt f budget t = some x) : x.span = t.span := by
  cases budget with
  | zero => cases read
  | succ budget =>
    rw [exprAt] at read
    split at read
    · exact span_exprOf read
    · cases read

/-- An element has the span of its tree. -/
theorem Makes.span_eq {e : Element} (made : Makes f limit t e) : e.span = t.span := by
  cases made with
  | expr read => exact span_exprAt read
  | field read =>
    unfold fieldOf at read
    split at read <;> grind [Element.span, Expr.span, Option.map_eq_some_iff]
  | place read =>
    unfold placeOf at read
    split at read
    · rw [← Option.some.inj read]
      rfl
    · exact span_exprAt read
  | entry read =>
    unfold entryOf ofArity at read
    split at read
    · rw [← Option.some.inj read]
      rfl
    · cases read
  | pathPart read =>
    unfold pathPart? at read
    split at read <;> grind [Element.span, Option.map_eq_some_iff]
  | letDefinition read =>
    obtain ⟨name, _, rfl⟩ := Option.map_eq_some_iff.mp read
    rfl
  | functionBody read =>
    unfold Build.functionBody at read
    split at read
    · rw [← Option.some.inj read]
      rfl
    · cases read
  | function read =>
    unfold function? at read
    split at read
    · rw [← Option.some.inj read]
      rfl
    · cases read
  | matchBody read =>
    rw [matchBody_eq] at read
    split at read
    · rw [← Option.some.inj read]
      rfl
    · cases read
  | document =>
    unfold build
    split <;> rfl
  | _ => rfl

end Build

end SecurityRules
