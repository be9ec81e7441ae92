import SecurityRules.Parser.Expression

/-!
# Declarations

Headers, services, matches, functions and rules. Match bodies nest; they share the limit on nesting with
the expressions inside them.
-/

namespace SecurityRules.Parser

/-- `rules_version = '2';` -/
def rulesVersion : Production :=
  branch .rulesVersion fun d =>
    let d := d.take.expect .assign
    let d := if d.isAt .string then d.takeAs (some .version) .string
      else d.lacking (some .version) .string
    d.expect .semicolon

/-- A dot directly behind the name so far, and the next part of the name. -/
def serviceNameTurn (d : Draft) : Turn Draft :=
  if d.isAt .dot && d.state.isAdjacent && d.state.peekSecond.kind == .identifier then
    .again (d.take.takeAs none .identifier)
  else .done d

/-- A name such as `cloud.firestore`. -/
def serviceName : Production :=
  branch .serviceName fun d => (d.takeAs none .identifier).loop serviceNameTurn

/-- A capture of a match path: `{name}` or `{name=**}`. -/
def captureSegment : Production :=
  branch .singleSegment fun d =>
    let d := d.take.takeName (some .name)
    let d := if d.isAt .assign then (d.ofKind .multiSegment).take.expect .starStar else d
    d.expect .rightBrace

/-- One segment of a match path, with the slash in front of it if it is there. -/
def matchPathTurn (d : Draft) : Turn Draft :=
  let d := if d.isAt .slash then d.take else d
  if d.isAt .leftBrace then slashTurn (d.place (some .segment) captureSegment)
  else if isSegmentToken d.state.peek.kind then
    slashTurn (d.place (some .segment) (segment .collectionSegment))
  else .done (d.lacking (some .segment) .collectionSegment)

/-- A match path such as `/users/{id}/{rest=**}`. -/
def matchPath : Production :=
  branch .matchPath fun d =>
    if d.isAt .slash then d.loop matchPathTurn
    else
      let d := d.lacking none (.token .slash)
      if d.isAtAny [.identifier, .leftBrace] then d.loop matchPathTurn else d

/-- One parameter and the comma behind it. -/
def parameterTurn (d : Draft) : Turn Draft :=
  if d.isAt .rightParen || d.state.isAtSync then .done d
  else
    let d :=
      if d.isAt .identifier then
        d.place (some .param) (branch .parameter fun p => p.takeAs none .identifier)
      else d.place none stray
    if d.isAt .comma then .again d.take else .done d

/-- `let name = value;` -/
def variableDef (expression : Production) : Production :=
  branch .variableDef fun d =>
    (((d.take.takeName (some .name)).expect .assign).place (some .value) expression).expect .semicolon

/-- Takes a semicolon if there is one. -/
def Draft.optionalSemicolon (d : Draft) : Draft := if d.isAt .semicolon then d.take else d

/-- `return value;`, where the semicolon may be left out. -/
def returnStatement (expression : Production) : Production :=
  branch .returnStatement fun d => (d.take.place (some .value) expression).optionalSemicolon

/-- One item of a body in braces, chosen by its first token. -/
def bodyTurn (item? : TokenKind → Option Production) (d : Draft) : Turn Draft :=
  if d.isAtAny [.rightBrace, .endOfInput] then .done d
  else .again (d.place none ((item? d.state.peek.kind).getD (skipUntil isBodySync)))

/-- Items in braces. -/
def Draft.body (d : Draft) (item? : TokenKind → Option Production) : Draft :=
  (d.take.loop (bodyTurn item?)).expect .rightBrace

/-- The statements of a function. -/
def functionBody (expression : Production) : Production :=
  branch .functionBody fun d =>
    if d.isAt .leftBrace then
      d.body fun
        | .kwLet => some (variableDef expression)
        | .kwReturn => some (returnStatement expression)
        | _ => none
    else d.lacking none (.token .leftBrace)

/-- `function name(a, b) { ... }` -/
def functionDef (expression : Production) : Production :=
  branch .functionDef fun d =>
    let d := d.take.takeName (some .name)
    let found := d.finds .leftParen
    let d := d.expect .leftParen
    let d := if found then (d.loop parameterTurn).expect .rightParen else d
    d.place (some .body) (functionBody expression)

/-- The operations a rule can allow. -/
def methods : List String := ["read", "write", "get", "list", "create", "update", "delete"]

/-- Whether a word names an operation. -/
def isMethod (word : Bytes) : Bool := methods.any (Bytes.ofString · == word)

/-- One operation and the comma behind it. -/
def methodTurn (d : Draft) : Turn Draft :=
  if d.isAt .identifier then
    let d :=
      if isMethod d.state.peek.text then d.takeAs (some .method) .method else d.place none stray
    if d.isAt .comma then .again d.take else .done d
  else .done d

/-- `allow read, write: if condition;` -/
def ruleDef (expression : Production) : Production :=
  branch .ruleDef fun d =>
    let d := d.take
    let d := if d.isAt .identifier then d.loop methodTurn else d.lacking (some .method) .method
    let d :=
      if d.isAt .colon then (d.take.expect .kwIf).place (some .condition) expression else d
    d.optionalSemicolon

/-- `match /path { ... }` -/
def matchDef (body : Production) : Production :=
  branch .matchDef fun d => (d.take.place (some .path) matchPath).place (some .body) body

/-- A match body in which `budget` more bodies or expressions may nest. Without an opening brace it is only
the placeholder of that brace. -/
def matchBodyAt : (budget : Nat) → Production
  | 0, s =>
    branch .matchBody
      (fun d =>
        if d.isAt .leftBrace then d.place none (skipUntil fun _ => true)
        else d.lacking none (.token .leftBrace))
      s
  | budget + 1, s =>
    branch .matchBody
      (fun d =>
        if d.isAt .leftBrace then
          d.body fun
            | .kwMatch => some (matchDef (matchBodyAt budget))
            | .kwFunction => some (functionDef (expressionAt budget))
            | .kwAllow => some (ruleDef (expressionAt budget))
            | _ => none
        else d.lacking none (.token .leftBrace))
      s

/-- `service name { ... }` -/
def serviceDef (budget : Nat) : Production :=
  branch .serviceDef fun d =>
    let d := d.take
    let d := if d.isAt .identifier then d.place (some .name) serviceName
      else d.lacking (some .name) .serviceName
    d.place (some .body) (matchBodyAt budget)

end SecurityRules.Parser
