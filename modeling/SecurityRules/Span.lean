import SecurityRules.Text.Bytes

/-!
# Points and spans

A point is a row and a byte column, both counted from zero in 32-bit words. A span is closed: its end
is the first byte of the last character of a construct, so both ends lie inside it.
-/

namespace SecurityRules

/-- A row and a byte column inside a document. -/
structure Point where
  row : UInt32 := 0
  column : UInt32 := 0
deriving Repr, DecidableEq, Inhabited

namespace Point

/-- Document order: by row, then by column. -/
def before (p q : Point) : Bool := p.row < q.row || (p.row == q.row && p.column < q.column)

/-- `row:column`. -/
def render (p : Point) : Bytes :=
  Bytes.decimal p.row.toNat ++ ":" ++ Bytes.decimal p.column.toNat

/-- `line:column`, both counted from one. -/
def renderFromOne (p : Point) : Bytes :=
  Bytes.decimal (p.row + 1).toNat ++ ":" ++ Bytes.decimal (p.column + 1).toNat

end Point

/-- A closed range of points. -/
structure Span where
  start : Point := {}
  stop : Point := {}
deriving Repr, DecidableEq, Inhabited

namespace Span

/-- The span between two points, whichever comes first. -/
def between (p q : Point) : Span := if q.before p then ⟨q, p⟩ else ⟨p, q⟩

/-- Whether `p` lies in the span, both ends included. -/
def contains (s : Span) (p : Point) : Bool := !p.before s.start && !s.stop.before p

/-- Whether both ends of `t` lie in `s`. -/
def containsSpan (s t : Span) : Bool := s.contains t.start && s.contains t.stop

/-- The smallest span that holds both. -/
def cover (s t : Span) : Span where
  start := if t.start.before s.start then t.start else s.start
  stop := if s.stop.before t.stop then t.stop else s.stop

/-- Whether the span is a single point. -/
def isPoint (s : Span) : Bool := s.start == s.stop

/-- `row:column-row:column`. -/
def render (s : Span) : Bytes := s.start.render ++ "-" ++ s.stop.render

/-- `line:column-line:column`, counted from one. -/
def renderFromOne (s : Span) : Bytes := s.start.renderFromOne ++ "-" ++ s.stop.renderFromOne

end Span

end SecurityRules
