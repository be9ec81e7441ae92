import SecurityRules.CommandLine.Run
import SecurityRules.Proofs.Highlight.Marks
import SecurityRules.Proofs.Lookup.Completeness
import SecurityRules.Proofs.Outline.Symbols
import SecurityRules.Proofs.Report.Positions
import SecurityRules.Proofs.SourceFile.Positions

/-!
# Where declarations are said to stand

The place of a declaration is printed with a column of bytes, and a position that is typed has a column of characters.
So the place that is printed is the place of the name only if all characters in front of it on its row are of one byte;
otherwise it lies behind it, by as many characters as there are bytes too many. The place that findings are shown at,
with a column of characters, is read back as it is.
-/

namespace SecurityRules

open Utf8 (Boundary)

/-! ## Byte columns that are read as columns of characters -/

namespace Utf8

variable {s : Bytes} {n : Nat}

/-- There are as many characters as bytes exactly if each is of one byte. -/
theorem count_eq_length_iff (s : Bytes) : count s = s.length ↔ ∀ d ∈ decodeAll s, d.size = 1 := by
  induction s using induct with
  | nil =>
    rw [count, decodeAll]
    simp
  | cons b rest ih =>
    have tail := (tail_continues b rest).1
    have positive := size_pos b rest
    have fewer := count_le_length (rest.drop ((decodeFrom b rest).size - 1))
    rw [List.length_drop] at ih fewer
    rw [decodeAll_cons, List.forall_mem_cons, ← ih, count, decodeAll_cons, List.length_cons, List.length_cons, ← count]
    constructor
    · intro same
      exact ⟨by omega, by omega⟩
    · rintro ⟨single, same⟩
      omega

end Utf8

namespace Position

variable {file : SourceFile} {s : Bytes} {n m : Nat}

/-- Counted as characters, the bytes in front of a boundary lead behind it by as many characters as they are too
many. -/
theorem bytesOfCharacters_of_boundary (here : Boundary s n) :
    bytesOfCharacters n s = n + bytesOfCharacters (n - Utf8.count (s.take n)) (s.drop n) := by
  have bytes : ((Utf8.decodeAll (s.take n)).map (·.size)).sum = n := by
    rw [Utf8.sum_size_decodeAll, List.length_take, Nat.min_eq_left here.le_length]
  have fewer : (Utf8.decodeAll (s.take n)).length ≤ n :=
    Nat.le_trans (Utf8.count_le_length _) (List.length_take_le _ _)
  rw [bytesOfCharacters, here.decodeAll_append, List.take_append, List.take_of_length_le fewer, List.map_append,
    List.sum_append, bytes, bytesOfCharacters, Utf8.count]

theorem bytesOfCharacters_le (n : Nat) (s : Bytes) : bytesOfCharacters n s ≤ s.length := by
  have whole := Utf8.sum_size_decodeAll s
  rw [← List.take_append_drop n (Utf8.decodeAll s), List.map_append, List.sum_append] at whole
  rw [bytesOfCharacters]
  omega

theorem bytesOfCharacters_pos (some : 0 < n) (more : s ≠ []) : 0 < bytesOfCharacters n s := by
  obtain ⟨b, rest, rfl⟩ := List.exists_cons_of_ne_nil more
  obtain ⟨n, rfl⟩ := Nat.exists_eq_succ_of_ne_zero (Nat.ne_of_gt some)
  have positive := Utf8.size_pos b rest
  rw [bytesOfCharacters, Utf8.decodeAll_cons, List.take_succ_cons, List.map_cons, List.sum_cons]
  omega

/-- A point as it is printed, with its column of bytes, is read with that column as one of characters. -/
theorem parse_renderFromOne {p : Point} (known : p.row.toNat < file.lineCount) (row : p.row.toNat + 1 < 2 ^ 32)
    (column : p.column.toNat + 1 < 2 ^ 32) : parse file p.renderFromOne =
      .ok ⟨p.row, .ofNat (bytesOfCharacters p.column.toNat (file.line p.row))⟩ := by
  have limit : Number.maxSigned = 2 ^ 63 - 1 := by decide
  have nextRow : (p.row + 1).toNat = p.row.toNat + 1 := by
    rw [UInt32.toNat_add]
    exact Nat.mod_eq_of_lt row
  have nextColumn : (p.column + 1).toNat = p.column.toNat + 1 := by
    rw [UInt32.toNat_add]
    exact Nat.mod_eq_of_lt column
  rw [Point.renderFromOne, nextRow, nextColumn, parse_decimal (Nat.le_add_left 1 _) known (Nat.le_add_left 1 _)
    (by omega) (by omega), Nat.add_sub_cancel, Nat.add_sub_cancel, UInt32.ofNat_toNat]

end Position

/-! ## The points of a file on their rows -/

namespace SourceFile.IsRead

variable {f : SourceFile} {a : Nat} (read : f.IsRead)
include read

theorem row_le_rowStart {row : Nat} (known : row ≤ f.lineBreaks.length) : row ≤ f.rowStart row := by
  induction row with
  | zero => exact Nat.zero_le _
  | succ row ih =>
    have here := ih (Nat.le_of_succ_le known)
    have forward := read.rowStart_le_rowStop (Nat.le_of_succ_le known)
    rw [rowStart_succ known]
    omega

/-- Neither the row of a point nor its column lies behind its offset. -/
theorem pointAt_le (inside : a ≤ f.size) : (f.pointAt a).row.toNat ≤ a ∧ (f.pointAt a).column.toNat ≤ a := by
  obtain ⟨row, column⟩ := pointAt_eq read.small inside
  have low := rowStart_rowOf_le (f := f) (a := a)
  have behind := read.row_le_rowStart (f.rowOf_le a)
  omega

/-- A boundary of the file is a boundary of its row. -/
theorem boundary_pointAt (inside : a ≤ f.size) (here : Boundary f.content a) :
    Boundary (f.line (f.pointAt a).row) (f.pointAt a).column.toNat := by
  obtain ⟨row, column⟩ := pointAt_eq read.small inside
  have low := rowStart_rowOf_le (f := f) (a := a)
  have high := le_rowStop_rowOf inside
  have known := f.rowOf_le a
  rw [line, lineBounds_eq (row ▸ known), row, column]
  apply Boundary.take _ (Nat.sub_le_sub_right high _)
  apply Boundary.drop read.boundary_rowStart
  rwa [Nat.add_sub_cancel' low]

end SourceFile.IsRead

/-- A boundary on a row of a file, printed with its column of bytes and read with a column of characters. -/
theorem Position.renderFromOne_read {f : SourceFile} {p : Point} (read : f.IsRead) (known : f.HasPoint p)
    (row : p.row.toNat + 1 < 2 ^ 32) (column : p.column.toNat + 1 < 2 ^ 32)
    (here : Boundary (f.line p.row) p.column.toNat) :
    let front := (f.line p.row).take p.column.toNat
    parse f p.renderFromOne = .ok ⟨p.row, .ofNat (p.column.toNat +
        bytesOfCharacters (front.length - Utf8.count front) ((f.line p.row).drop p.column.toNat))⟩ ∧
      ((∀ c ∈ Utf8.decodeAll front, c.size = 1) → parse f p.renderFromOne = .ok p) ∧
      (front.length < (f.line p.row).length → (∃ c ∈ Utf8.decodeAll front, c.size ≠ 1) →
        ∃ q, parse f p.renderFromOne = .ok q ∧ p.before q = true) := by
  intro front
  have length : front.length = p.column.toNat := by
    rw [List.length_take, Nat.min_eq_left here.le_length]
  have told : parse f p.renderFromOne = .ok ⟨p.row, .ofNat (p.column.toNat +
      bytesOfCharacters (front.length - Utf8.count front) ((f.line p.row).drop p.column.toNat))⟩ := by
    rw [parse_renderFromOne known.row row column, bytesOfCharacters_of_boundary here, length]
  refine ⟨told, fun single => ?_, fun goesOn ⟨c, member, wider⟩ => ⟨_, told, ?_⟩⟩
  · have count := (Utf8.count_eq_length_iff front).mpr single
    have none : bytesOfCharacters 0 ((f.line p.row).drop p.column.toNat) = 0 := by simp [bytesOfCharacters]
    rw [told, count, Nat.sub_self, none, Nat.add_zero, UInt32.ofNat_toNat]
  · have fewer : Utf8.count front < front.length := by
      apply Nat.lt_of_le_of_ne (Utf8.count_le_length front)
      intro same
      exact wider ((Utf8.count_eq_length_iff front).mp same c member)
    have more : (f.line p.row).drop p.column.toNat ≠ [] := by
      rw [Ne, List.drop_eq_nil_iff]
      omega
    have further := bytesOfCharacters_pos (Nat.sub_pos_of_lt fewer) more
    have within := bytesOfCharacters_le (front.length - Utf8.count front) ((f.line p.row).drop p.column.toNat)
    rw [List.length_drop] at within
    have short := read.length_line (Nat.le_of_lt_succ known.row)
    have stop : f.rowStop p.row.toNat ≤ f.size := read.rowStop_le_size
    have size := read.small.size
    generalize bytesOfCharacters (front.length - Utf8.count front) ((f.line p.row).drop p.column.toNat) = m at *
    have fits : (UInt32.ofNat (p.column.toNat + m)).toNat = p.column.toNat + m :=
      UInt32.toNat_ofNat_of_lt (show _ < 2 ^ 32 by omega)
    rw [Point.before_iff, Point.rank, Point.rank, fits]
    dsimp only
    omega

/-! ## The names of declarations -/

namespace Declaration

/-- The declaration as an element of the document. -/
def element : Declaration → Element
  | function f => .function f
  | capture p => .pathPart p
  | letDefinition d => .letDefinition d

end Declaration

/-- What a reference can refer to in a scope is a part of the scope or of a part of it; of path parts only captures of
one segment count. -/
theorem Scope.of_mem_candidates {reference : Reference} {scope : Element} {d : Declaration}
    (member : d ∈ candidates reference scope) :
    (d.element ∈ scope.children ∨ ∃ e ∈ scope.children, d.element ∈ e.children) ∧
      ∀ p, d = .capture p → p.kind = .single := by
  unfold candidates at member
  split at member
  · obtain ⟨g, kept, rfl⟩ := List.mem_map.mp member
    have inside := (List.mem_filter.mp kept).1
    refine ⟨Or.inl (by simp [Element.children, Declaration.element, inside]), ?_⟩
    intro p same
    cases same
  · rename_i block
    obtain ⟨p, kept, rfl⟩ := List.mem_map.mp member
    obtain ⟨inside, named⟩ := List.mem_filter.mp kept
    rw [Bool.and_eq_true, beq_iff_eq] at named
    refine ⟨Or.inr ?_, fun q same => ?_⟩
    · cases written : block.path with
      | none => simp [written] at inside
      | some path =>
        refine ⟨.matchPath path, by simp [Element.children, written], ?_⟩
        simpa [written, Element.children, Declaration.element] using inside
    · rw [← Declaration.capture.inj same]
      exact named.1
  · obtain ⟨l, kept, rfl⟩ := List.mem_map.mp member
    have inside := (List.mem_filter.mp kept).1
    refine ⟨Or.inl (by simp [Element.children, Declaration.element, inside]), ?_⟩
    intro p same
    cases same
  · cases member

namespace Build.Origin

open ParseTree (Regular)
open OutlineSymbol (filled_name)

variable {f : SourceFile} {limit : Nat} {o : Origin}

theorem mem_nodes_of_mem_chainAt {p : Point} {q : Origin} (member : q ∈ o.chainAt p) : q ∈ o.nodes := by
  induction o using Origin.induct with
  | step o ih =>
    rw [chainAt_eq] at member
    rcases List.mem_cons.mp member with rfl | member
    · exact mem_nodes.mpr (Or.inl rfl)
    cases next : o.parts.find? (·.span.contains p) with
    | none =>
      rw [next] at member
      cases member
    | some part =>
      rw [next] at member
      have inside := List.mem_of_find?_eq_some next
      exact mem_nodes.mpr (Or.inr ⟨part, inside, ih part inside member⟩)

theorem Grounded.exists_part (grounded : Grounded f limit o) {e : Element} (child : e ∈ o.element.children) :
    ∃ part ∈ o.parts, part.element = e := by
  rw [← grounded.elements] at child
  exact List.mem_map.mp child

/-- A declaration is named for a tree with a width in the tree that it is made of. -/
theorem Grounded.exists_name (grounded : Grounded f limit o) (regular : Regular f o.source) {d : Declaration}
    (same : o.element = d.element) (single : ∀ p, d = .capture p → p.kind = .single) :
    ∃ n ∈ o.source.nodes, n.isEmpty = false ∧ d.nameSpan = n.span := by
  have made := grounded.made
  rw [same] at made
  cases d with
  | function g =>
    cases made with
    | function read =>
      obtain ⟨name, found, rfl⟩ := function?_eq_some read
      obtain ⟨inside, filled⟩ := filled_name regular found
      exact ⟨name, inside, filled, rfl⟩
  | letDefinition l =>
    cases made with
    | letDefinition read =>
      obtain ⟨name, found, rfl⟩ := Option.map_eq_some_iff.mp read
      obtain ⟨inside, filled⟩ := filled_name regular found
      exact ⟨name, inside, filled, rfl⟩
  | capture p =>
    have kind := single p rfl
    have span : p.span = o.source.span := made.span_eq
    cases made with
    | pathPart read =>
      obtain ⟨name, found⟩ : ∃ name, presentChild? o.source .name = some name := by
        unfold pathPart? at read
        split at read
        · rw [← Option.some.inj read] at kind
          cases kind
        · obtain ⟨name, found, _⟩ := Option.map_eq_some_iff.mp read
          exact ⟨name, found⟩
        · obtain ⟨name, found, _⟩ := Option.map_eq_some_iff.mp read
          exact ⟨name, found⟩
        · cases read
      obtain ⟨inside, filled⟩ := filled_name regular found
      have wide := (regular.filled_of_mem inside filled).1
      refine ⟨o.source, o.source.self_mem_nodes, ?_, span⟩
      rw [Bool.eq_false_iff, Ne, ParseTree.isEmpty_iff]
      omega

/-- So is a declaration that a reference can refer to in an element. -/
theorem Grounded.name_of_candidate (grounded : Grounded f limit o) (regular : Regular f o.source)
    {reference : Reference} {d : Declaration} (member : d ∈ Scope.candidates reference o.element) :
    ∃ n ∈ o.source.nodes, n.isEmpty = false ∧ d.nameSpan = n.span := by
  obtain ⟨place, single⟩ := Scope.of_mem_candidates member
  obtain ⟨q, node, same⟩ : ∃ q ∈ o.nodes, q.element = d.element := by
    rcases place with child | ⟨e, child, below⟩
    · obtain ⟨part, inside, same⟩ := grounded.exists_part child
      exact ⟨part, mem_nodes.mpr (Or.inr ⟨part, inside, mem_nodes.mpr (Or.inl rfl)⟩), same⟩
    · obtain ⟨part, inside, rfl⟩ := grounded.exists_part child
      obtain ⟨inner, deeper, same⟩ := (grounded.of_part inside).exists_part below
      refine ⟨inner, mem_nodes.mpr (Or.inr ⟨part, inside, ?_⟩), same⟩
      exact mem_nodes.mpr (Or.inr ⟨inner, deeper, mem_nodes.mpr (Or.inl rfl)⟩)
  have source := grounded.source_mem node
  obtain ⟨n, inside, filled, span⟩ := (grounded.of_mem node).exists_name (regular.of_mem source) same single
  exact ⟨n, ParseTree.nodes_trans inside source, filled, span⟩

end Build.Origin

namespace Document

open Build (Origin)
open ParseTree (Regular)

/-- A declaration that is found is named for a tree of the document that has a width. -/
theorem exists_name_of_definition {uri : Bytes} {version : Int} {f : SourceFile} {options : AnalysisOptions}
    {p : Point} {d : Declaration} (found : (analyze uri version f options).definition p = .ok d) :
    ∃ n, Regular f n ∧ n.isEmpty = false ∧ d.nameSpan = n.span := by
  rw [definition, Scope.resolve] at found
  split at found
  case h_2 => cases found
  rename_i e reference outer target
  obtain ⟨rest, chain, _⟩ := Scope.target?_eq_some target
  obtain ⟨scope, member, candidate⟩ := Scope.mem_candidates_of_resolveIn found
  have inChain : scope ∈ (analyze uri version f options).lookup p := by
    rw [chain]
    exact List.mem_append_left _ member
  have regular := regular_parse (f := f) options.maxDepth
  have drawn : ∃ body : Origin, Origin.Grounded f (Parser.depthLimit options.maxDepth) _ ∧ _ :=
    Origin.exists_document regular
  obtain ⟨body, grounded, below⟩ := drawn
  have groundedBody := grounded.of_part (List.mem_singleton_self body)
  have reached : scope ∈ (Element.tree (analyze uri version f options).built.tree).chainAt p := by
    rw [Document.lookup, RulesTree.lookup] at inChain
    split at inChain
    · exact inChain
    · cases inChain
  rw [show (Element.tree (analyze uri version f options).built.tree).chainAt p = _ from (grounded.chainAt p).symm]
    at reached
  obtain ⟨q, inside, rfl⟩ := List.mem_map.mp reached
  rcases Origin.mem_nodes.mp (Origin.mem_nodes_of_mem_chainAt inside) with rfl | ⟨part, isBody, node⟩
  -- The document itself declares nothing.
  · cases reference <;> cases candidate
  obtain rfl := List.mem_singleton.mp isBody
  rcases below with ⟨c, child, source⟩ | ⟨_, bare⟩
  · have regularBody := (regular c child).of_mem source
    have regularQ := regularBody.of_mem (groundedBody.source_mem node)
    obtain ⟨n, inside, filled, span⟩ := (groundedBody.of_mem node).name_of_candidate regularQ candidate
    exact ⟨n, regularQ.of_mem inside, filled, span⟩
  · obtain rfl : q = part := by
      rw [Origin.nodes_of_bare bare] at node
      exact List.mem_singleton.mp node
    have none : q.element.children = [] := by
      rw [← groundedBody.elements, bare]
      rfl
    rcases (Scope.of_mem_candidates candidate).1 with inside | ⟨e, inside, _⟩
    · rw [none] at inside
      cases inside
    · rw [none] at inside
      cases inside

end Document

namespace CommandLine

/-- The document that the command loads and the declaration that it finds in it for the reference at a position. -/
def found? (given : Given) (s : Surroundings) (path position : Bytes) : Option (Document × Declaration) := do
  let settings ← (settingsFor given s).toOption
  let document ← (loadDocument settings s path).toOption
  let point ← (Position.parse document.file position).toOption
  let declaration ← (document.definition point).toOption
  return (document, declaration)

variable {given : Given} {s : Surroundings} {path position : Bytes} {document : Document} {d : Declaration}

theorem toOption_eq_some {ε α : Type} {x : Except ε α} {a : α} (found : x.toOption = some a) : x = .ok a := by
  cases x with
  | error e => cases found
  | ok b => exact congrArg Except.ok (Option.some.inj found)

theorem of_found? (found : found? given s path position = some (document, d)) : ∃ settings point,
    settingsFor given s = .ok settings ∧ loadDocument settings s path = .ok document ∧
      Position.parse document.file position = .ok point ∧ document.definition point = .ok d := by
  simp only [found?, bind, Option.bind_eq_some_iff, pure, Option.some.injEq, Prod.mk.injEq] at found
  obtain ⟨settings, known, _, loaded, point, read, _, declared, rfl, rfl⟩ := found
  exact ⟨settings, point, toOption_eq_some known, toOption_eq_some loaded, toOption_eq_some read,
    toOption_eq_some declared⟩

/-- Where a declaration is said to stand. -/
theorem declarationLines_eq (path : Bytes) (file : SourceFile) (d : Declaration) : declarationLines path file d =
    Bytes.ofString d.kindName ++ " " ++ d.name ++ " defined at " ++ path ++ ":" ++ d.nameSpan.start.renderFromOne ++
      "\n  " ++ file.line d.span.start.row ++ "\n" := by
  simp [declarationLines, Point.renderFromOne]

theorem out_of_found? (found : found? given s path position = some (document, d)) :
    (printDeclaration given s path position).out = declarationLines path document.file d := by
  obtain ⟨settings, point, known, loaded, read, declared⟩ := of_found? found
  simp only [printDeclaration, answering, known, loaded, read, declared, Except.mapError, bind, Except.bind, pure,
    Except.pure]

theorem loadDocument_eq_ok {settings : Settings} (loaded : loadDocument settings s path = .ok document) :
    ∃ text, document = Document.analyze path 0 (SourceFile.ofBytes path text false) settings.analysisOptions := by
  unfold loadDocument Check.loadFile at loaded
  cases content : s.disk.read path with
  | error e =>
    rw [content] at loaded
    cases loaded
  | ok text =>
    rw [content] at loaded
    exact ⟨text, (Except.ok.inj loaded).symm⟩

/-- The place that is printed for a declaration, typed as a position, leads to the name, or further on the row of the
name by as many characters as there are bytes too many in front of the name. It leads to the name if all characters in
front of it on its row are of one byte, and otherwise behind it unless the row ends there. The place that findings are
shown at leads to the name wherever it stands. -/
theorem printed_place_read (found : found? given s path position = some (document, d))
    (small : document.file.size < 2 ^ 32) :
    let start := d.nameSpan.start
    let row := document.file.line start.row
    let front := row.take start.column.toNat
    let read := Position.parse document.file start.renderFromOne
    (printDeclaration given s path position).out = Bytes.ofString d.kindName ++ " " ++ d.name ++ " defined at " ++
        path ++ ":" ++ start.renderFromOne ++ "\n  " ++ document.file.line d.span.start.row ++ "\n" ∧
      read = .ok ⟨start.row, .ofNat (start.column.toNat +
        Position.bytesOfCharacters (front.length - Utf8.count front) (row.drop start.column.toNat))⟩ ∧
      ((∀ c ∈ Utf8.decodeAll front, c.size = 1) → read = .ok start) ∧
      (front.length < row.length → (∃ c ∈ Utf8.decodeAll front, c.size ≠ 1) →
        ∃ q, read = .ok q ∧ start.before q = true) ∧
      Position.parse document.file (Bytes.decimal (Report.displayPosition document.file start).1 ++ ":" ++
        Bytes.decimal (Report.displayPosition document.file start).2) = .ok start := by
  intro start row front read
  obtain ⟨settings, point, _, loaded, _, declared⟩ := of_found? found
  have isRead : document.file.IsRead := by
    obtain ⟨text, rfl⟩ := loadDocument_eq_ok loaded
    exact SourceFile.isRead_ofBytes small
  obtain ⟨n, regular, filled, named⟩ : ∃ n, ParseTree.Regular document.file n ∧ n.isEmpty = false ∧
      d.nameSpan = n.span := by
    obtain ⟨text, rfl⟩ := loadDocument_eq_ok loaded
    exact Document.exists_name_of_definition declared
  obtain ⟨last, span, _⟩ := regular.exists_last
  have wide := (regular.filled_of_mem n.self_mem_nodes filled).2
  have bounded := regular.sound.bounded
  have inside : n.start ≤ document.file.size := by omega
  have place : document.file.pointAt n.start = start := by
    show _ = d.nameSpan.start
    rw [named, span]
  have known := isRead.hasPoint_pointAt inside
  have here := isRead.boundary_pointAt inside regular.edges.1.boundary
  have near := isRead.pointAt_le inside
  rw [place] at known here near
  obtain ⟨told, single, wider⟩ := Position.renderFromOne_read isRead known (by omega) (by omega) here
  exact ⟨(out_of_found? found).trans (declarationLines_eq _ _ _), told, single, wider,
    Report.parse_displayPosition _ _ known.row here⟩

/-- A document with a character of two bytes in front of a declaration. -/
def sampleAccent : Bytes := Bytes.ofString
  "service s \x7b /* é */ function f() \x7b return true; \x7d match /a \x7b allow read: if f(); \x7d \x7d"

/-- A directory with one document. -/
def sampleSurroundings : Surroundings where
  disk := { root := .directory [("a.rules", .file sampleAccent)] }

theorem printed_place_read_sampleAccent : ∃ document d,
    found? {} sampleSurroundings "a.rules" "1:77" = some (document, d) ∧ document.file.size < 2 ^ 32 ∧
      d.nameSpan.start = ⟨0, 30⟩ ∧
      (∃ q, Position.parse document.file d.nameSpan.start.renderFromOne = .ok q ∧
        d.nameSpan.start.before q = true) ∧
      Position.parse document.file (Bytes.decimal (Report.displayPosition document.file d.nameSpan.start).1 ++ ":" ++
        Bytes.decimal (Report.displayPosition document.file d.nameSpan.start).2) = .ok d.nameSpan.start := by
  have run : (found? {} sampleSurroundings "a.rules" "1:77").map (fun (document, d) =>
      (document.file.size, document.file.line 0, d.nameSpan.start)) =
        some (sampleAccent.length, sampleAccent, ⟨0, 30⟩) := by
    decide +kernel
  obtain ⟨⟨document, d⟩, found, same⟩ := Option.map_eq_some_iff.mp run
  simp only [Prod.mk.injEq] at same
  obtain ⟨size, row, start⟩ := same
  have small : document.file.size < 2 ^ 32 := by
    rw [size]
    decide +kernel
  obtain ⟨-, -, -, wider, shown⟩ := printed_place_read found small
  refine ⟨document, d, found, small, start, ?_, shown⟩
  rw [start] at wider ⊢
  rw [row] at wider
  exact wider (by decide +kernel) ⟨⟨0xE9, 2⟩, by decide +kernel, by decide⟩

/-- The name stands at the thirtieth character of its row. The place that is printed is that of its byte, the
thirty-first, and read back it is the point behind the name. -/
theorem printed_place_misses_name : (printDeclaration {} sampleSurroundings "a.rules" "1:77").out =
      Bytes.ofString "function f defined at a.rules:1:31\n  " ++ sampleAccent ++ Bytes.ofString "\n" ∧
    (found? {} sampleSurroundings "a.rules" "1:77").map (fun (document, d) =>
      (d.nameSpan.start, (Position.parse document.file "1:30").toOption,
        (Position.parse document.file "1:31").toOption)) = some (⟨0, 30⟩, some ⟨0, 30⟩, some ⟨0, 31⟩) := by
  decide +kernel

end CommandLine

end SecurityRules
