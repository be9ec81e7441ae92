import SecurityRules.Proofs.Landmark.Legible
import SecurityRules.Proofs.Origin.Makes

/-!
# Expressions keep their landmarks

Of a tree that is legible and does not nest too deep the builder makes an expression with the same landmarks. The
induction is on the nesting still allowed; each kind of tree is read off its layout.
-/

namespace SecurityRules

open Build

variable {f : SourceFile} {parent : NodeKind} {t c : ParseTree}

namespace ParseTree

/-- An element has the landmarks of a tree. -/
def Tells (f : SourceFile) (parent : NodeKind) (t : ParseTree) (e : Element) : Prop :=
  ∀ around, (e.landmarks around).Perm (t.landmarks f parent around)

/-- Elements have the landmarks of the trees of a list. -/
def TellsAll (f : SourceFile) (parent : NodeKind) (cs : List ParseTree) (es : List Element) : Prop :=
  ∀ around, (es.flatMap (Element.landmarks around)).Perm (cs.flatMap (landmarks f parent around))

/-- A tree without landmarks. -/
def IsSilent (f : SourceFile) (parent : NodeKind) (t : ParseTree) : Prop :=
  ∀ around, t.landmarks f parent around = []

/-! ## Landmarks of legible trees -/

theorem landmarks_childless (childless : t.children = []) (around : List Landmark) :
    t.landmarks f parent around = (t.landmark? f parent).toList.map (around, ·) := by
  rw [landmarks_eq, childless, List.flatMap_nil, List.append_nil]

theorem landmarks_loose (loose : Parser.IsLoose c) (around : List Landmark) : c.landmarks f parent around = [] := by
  rw [landmarks_childless loose.children, landmark?, loose.kind]
  rfl

/-- Comments are no landmarks. -/
theorem flatMap_significant (loose : ∀ c ∈ t.children, c.isExtra = true → Parser.IsLoose c) (around : List Landmark) :
    t.children.flatMap (landmarks f parent around) = t.significant.flatMap (landmarks f parent around) := by
  rw [significant]
  generalize t.children = cs at loose
  induction cs with
  | nil => rfl
  | cons c rest ih =>
    have behind := ih fun u member => loose u (List.mem_cons_of_mem c member)
    cases isExtra : c.isExtra with
    | true =>
      rw [List.flatMap_cons, List.filter_cons_of_neg (by simp [isExtra]), behind,
        landmarks_loose (loose c (List.mem_cons_self ..) isExtra), List.nil_append]
    | false =>
      rw [List.flatMap_cons, List.filter_cons_of_pos (by simp [isExtra]), behind, List.flatMap_cons]

/-! ## Elements that have the landmarks of a tree -/

section

variable {e : Element} {es es' : List Element} {cs cs' : List ParseTree}

theorem TellsAll.nil : TellsAll f parent [] [] := fun _ => .refl _

theorem TellsAll.silent (silent : c.IsSilent f parent) (rest : TellsAll f parent cs es) :
    TellsAll f parent (c :: cs) es := by
  intro around
  rw [List.flatMap_cons, silent, List.nil_append]
  exact rest around

theorem TellsAll.cons (tells : c.Tells f parent e) (rest : TellsAll f parent cs es) :
    TellsAll f parent (c :: cs) (e :: es) := by
  intro around
  rw [List.flatMap_cons, List.flatMap_cons]
  exact (tells around).append (rest around)

theorem TellsAll.append (front : TellsAll f parent cs es) (back : TellsAll f parent cs' es') :
    TellsAll f parent (cs ++ cs') (es ++ es') := by
  intro around
  rw [List.flatMap_append, List.flatMap_append]
  exact (front around).append (back around)

/-- What is made of some of the trees of a list, where the others have no landmarks. -/
theorem TellsAll.filterMap {α : Type} {make : ParseTree → Option α} {wrap : α → Element} {keep : ParseTree → Bool}
    (each : ∀ c ∈ cs, keep c = true ∧ (∃ x, make c = some x ∧ c.Tells f parent (wrap x)) ∨
      keep c = false ∧ c.IsSilent f parent) :
    TellsAll f parent cs (((cs.filter keep).filterMap make).map wrap) := by
  induction cs with
  | nil => exact .nil
  | cons c rest ih =>
    have behind := ih fun u member => each u (List.mem_cons_of_mem c member)
    rcases each c (List.mem_cons_self ..) with ⟨kept, x, made, tells⟩ | ⟨dropped, silent⟩
    · rw [List.filter_cons_of_pos kept, List.filterMap_cons_some made, List.map_cons]
      exact .cons tells behind
    · rw [List.filter_cons_of_neg (by simp [dropped])]
      exact .silent silent behind

/-- What stands for nothing itself has the landmarks of its children. -/
theorem Ordered.landmarks_through (ordered : c.Ordered) (bare : c.landmark? f parent = none)
    (around : List Landmark) :
    c.landmarks f parent around = c.significant.flatMap (landmarks f c.kind around) := by
  rw [landmarks_eq, bare, flatMap_significant ordered.loose]
  simp

theorem TellsAll.through (ordered : c.Ordered) (bare : c.landmark? f parent = none)
    (parts : TellsAll f c.kind c.significant es) : TellsAll f parent [c] es := by
  intro around
  rw [List.flatMap_singleton, ordered.landmarks_through bare]
  exact parts around

/-- An element with the landmark of a tree and parts with those of its children. -/
theorem tells_of_loose (loose : ∀ c ∈ t.children, c.isExtra = true → Parser.IsLoose c)
    (own : e.landmark? = t.landmark? f parent) (parts : TellsAll f t.kind t.significant e.children) :
    t.Tells f parent e := by
  intro around
  rw [Element.landmarks_eq, landmarks_eq, own, flatMap_significant loose]
  exact List.Perm.append_left _ (parts _)

theorem Ordered.tells (ordered : t.Ordered) (own : e.landmark? = t.landmark? f parent)
    (parts : TellsAll f t.kind t.significant e.children) : t.Tells f parent e :=
  tells_of_loose ordered.loose own parts

/-- An element of which a part has all landmarks. -/
theorem Tells.wrap {part : Element} (tells : t.Tells f parent part) (bare : e.landmark? = none)
    (only : e.children = [part]) : t.Tells f parent e := by
  intro around
  rw [Element.landmarks_eq, bare, only]
  simpa using tells around

/-- A tree of which a child has all landmarks. -/
theorem Ordered.tells_through (ordered : t.Ordered) (bare : t.landmark? f parent = none)
    (parts : TellsAll f t.kind t.significant [e]) : t.Tells f parent e := by
  intro around
  rw [ordered.landmarks_through bare]
  simpa using parts around

end

/-- Trees with an empty layout are leaves. -/
theorem Ordered.bare (ordered : t.Ordered) (bare : t.kind.layout = []) : t.significant = [] := by
  rw [← fits_nil_iff, ← bare]
  exact ordered.fits

theorem Ordered.silent_leaf (ordered : c.Ordered) (bare : c.kind.layout = []) (none : c.landmark? f parent = none) :
    c.IsSilent f parent := by
  intro around
  rw [landmarks_childless (ordered.children_eq_nil (ordered.bare bare)), none]
  rfl

theorem Ordered.silent_token (ordered : c.Ordered) (sign : NodeKind.isToken c.kind = true) : c.IsSilent f parent := by
  obtain ⟨k, kind⟩ := NodeKind.isToken_iff.mp sign
  exact ordered.silent_leaf (by rw [kind]; rfl) (by rw [landmark?, kind])

/-- A name is no landmark, except that of a `let`. -/
theorem Ordered.silent_name (ordered : c.Ordered) (fits : (Slot.only (some .name) .identifier).Fits c)
    (other : parent ≠ .variableDef) : c.IsSilent f parent := by
  have role : c.role = some .name := fits.1
  refine ordered.silent_leaf (by rw [fits.kind_eq]; rfl) ?_
  rw [landmark?, fits.kind_eq]
  simp [isLabel, role, other]

/-- What stands between signs. -/
theorem Ordered.sign_or (ordered : t.Ordered) (slot : Slot)
    (listed : ∀ s ∈ t.kind.layout.flatMap Piece.slots, s = Slot.sign ∨ s = slot) (member : c ∈ t.significant) :
    Slot.sign.Fits c ∨ slot.Fits c := by
  obtain ⟨s, known, fits⟩ := ordered.fits.exists_slot member
  rcases listed s known with rfl | rfl
  · exact Or.inl fits
  · exact Or.inr fits

theorem Ordered.tells_leaf {e : Element} (ordered : t.Ordered) (bare : t.kind.layout = [])
    (own : e.landmark? = t.landmark? f parent) (childless : e.children = []) : t.Tells f parent e := by
  refine ordered.tells own ?_
  rw [ordered.bare bare, childless]
  exact .nil

end ParseTree

namespace Build

open ParseTree (AllLegible Tells TellsAll IsSilent)

/-! ## What expressions are read as -/

/-- What is read of a tree has its landmarks. -/
def ReadAs (f : SourceFile) (parent : NodeKind) (t : ParseTree) (read : Option Expr) : Prop :=
  ∃ x, read = some x ∧ t.Tells f parent (.expr x)

/-- Expressions are read with all their landmarks, as long as they nest at most `b` deep. -/
def Told (f : SourceFile) (nested : ParseTree → Option Expr) (b : Nat) : Prop :=
  ∀ c parent, c.AllLegible f → c.isAsked parent = true → c.nesting parent ≤ b → ReadAs f parent c (nested c)

/-- Whether an expression in a role of a tree of a given kind is read as one. -/
def isFree (parent : NodeKind) (role : Option Role) : Bool :=
  role != some .name && role != some .version && role != some .field && parent != .serviceName && parent != .parameter

theorem isAsked_of_fits {role : Option Role} (fits : (Slot.operand role).Fits c) (free : isFree parent role = true) :
    c.isAsked parent = true := by
  have operand : c.kind.isOperand = true := fits.2
  have same : c.role = role := fits.1
  simp only [isFree, Bool.and_eq_true, bne_iff_ne] at free
  simp [ParseTree.isAsked, ParseTree.isLabel, operand, same, free]

theorem silent_sign (all : t.AllLegible f) (member : c ∈ t.significant) (fits : Slot.sign.Fits c) :
    c.IsSilent f parent :=
  (all.child (ParseTree.mem_children_of_significant member)).self.ordered.silent_token fits.2

theorem ofArity_of_length {α : Type} {n : Nat} (value : α) (length : t.significant.length = n) :
    ofArity t n value = some value := by
  rw [ofArity, hasArity, length, beq_self_eq_true, if_pos rfl]

theorem presentChild?_of_ordered {role : Role} (found : t.child? role = some c) (ordered : c.Ordered) :
    presentChild? t role = some c := by
  rw [presentChild?, found, Option.filter_some, if_pos ordered.isPresent]

/-- A number is a number of its spelling, whether a double can hold it or not. -/
theorem ofNumber_spec (raw : Bytes) : (Literal.ofNumber raw).nodeKind = .number ∧ (Literal.ofNumber raw).raw = raw := by
  rw [Literal.ofNumber]
  dsimp only
  split <;> exact ⟨rfl, rfl⟩

/-- The token of an operator is spelled as the operator is. -/
theorem binaryOperator_of_token {k : TokenKind} {kind : NodeKind}
    (joins : (Parser.infixOperator? k).map (·.2) = some kind) :
    k.isFixed = true ∧ ∃ op, BinaryOperator.ofSymbol? (Bytes.ofString k.name) = some op ∧
      op.nodeKind = kind ∧ op.symbol = k.name := by
  cases k
  all_goals cases joins
  all_goals exact ⟨rfl, _, rfl, rfl, rfl⟩

/-- The operator between two operands. -/
theorem operator_of_fits (all : c.AllLegible f) {kind : NodeKind}
    (fits : Slot.Fits ⟨some .operator, NodeKind.isOperatorOf kind⟩ c) :
    c.IsSilent f parent ∧ ∃ op, BinaryOperator.ofSymbol? (c.text f) = some op ∧ op.nodeKind = kind ∧
      Bytes.ofString op.symbol = c.text f := by
  have joins : NodeKind.isOperatorOf kind c.kind = true := fits.2
  cases token : c.kind with
  | token k =>
    rw [token] at joins
    obtain ⟨fixed, op, found, same, symbol⟩ := binaryOperator_of_token (eq_of_beq joins)
    refine ⟨all.self.ordered.silent_token (by rw [token]; rfl), op, ?_, same, ?_⟩
    · rw [all.self.spelled k token fixed, found]
    · rw [all.self.spelled k token fixed, symbol]
  | _ =>
    rw [token] at joins
    cases joins

/-- The operator in front of an operand. -/
theorem prefix_of_fits (all : c.AllLegible f) (fits : Slot.Fits ⟨some .operator, NodeKind.isPrefixSign⟩ c) :
    c.IsSilent f parent ∧ Bytes.ofString (UnaryOperator.ofSymbol (c.text f)).symbol = c.text f := by
  have sign : NodeKind.isPrefixSign c.kind = true := fits.2
  rw [NodeKind.isPrefixSign, Bool.or_eq_true, beq_iff_eq, beq_iff_eq] at sign
  rcases sign with token | token
  all_goals
    refine ⟨all.self.ordered.silent_token (by rw [token]; rfl), ?_⟩
    rw [all.self.spelled _ token rfl]
    decide +kernel

section

variable {nested : ParseTree → Option Expr} {b : Nat} (told : Told f nested b) (all : t.AllLegible f)
  (deep : ParseTree.nestingAll t.kind t.children ≤ b)
include told all deep

theorem readAs_slot {role : Option Role} (member : c ∈ t.significant) (fits : (Slot.operand role).Fits c)
    (free : isFree t.kind role = true) : ReadAs f t.kind c (nested c) :=
  told c t.kind (all.child (ParseTree.mem_children_of_significant member)) (isAsked_of_fits fits free)
    (Nat.le_trans (ParseTree.nesting_le_nestingAll (ParseTree.mem_children_of_significant member)) deep)

theorem readAs_exprIn {role : Role} (found : t.child? role = some c) (fits : (Slot.operand (some role)).Fits c)
    (free : isFree t.kind (some role) = true) : ReadAs f t.kind c (exprIn nested t role) := by
  have member := ParseTree.mem_children_of_child? found
  rw [exprIn, found, Option.bind_some]
  exact told c t.kind (all.child member) (isAsked_of_fits fits free)
    (Nat.le_trans (ParseTree.nesting_le_nestingAll member) deep)

theorem readAs_ternary (kind : t.kind = .ternary) : ReadAs f parent t (exprOf f nested t) := by
  have ordered := all.self.ordered
  have fits := ordered.fits
  rw [kind] at fits
  unfold NodeKind.layout at fits
  simp only [fits_one_iff, fits_nil_iff] at fits
  obtain ⟨c₁, _, shape, fits₁, c₂, _, rfl, fits₂, c₃, _, rfl, fits₃, c₄, _, rfl, fits₄, c₅, _, rfl, fits₅, rfl⟩ := fits
  obtain ⟨x₁, read₁, tells₁⟩ := readAs_exprIn told all deep
    (by simp [ordered.child?_eq, shape, fits₁.1]) fits₁ (by rw [kind]; rfl)
  obtain ⟨x₃, read₃, tells₃⟩ := readAs_exprIn told all deep
    (by simp [ordered.child?_eq, shape, fits₁.1, fits₂.1, fits₃.1]) fits₃ (by rw [kind]; rfl)
  obtain ⟨x₅, read₅, tells₅⟩ := readAs_exprIn told all deep
    (by simp [ordered.child?_eq, shape, fits₁.1, fits₂.1, fits₃.1, fits₄.1, fits₅.1]) fits₅ (by rw [kind]; rfl)
  refine ⟨.ternary t.span (some x₁) (some x₃) (some x₅), ?_, ordered.tells ?_ ?_⟩
  · rw [exprOf, kind]
    dsimp only
    rw [ofArity_of_length _ (by rw [shape]; rfl), read₁, read₃, read₅]
  · rw [ParseTree.landmark?, kind]
    rfl
  · rw [shape]
    exact .cons tells₁ (.silent (silent_sign all (by simp [shape]) fits₂) (.cons tells₃
      (.silent (silent_sign all (by simp [shape]) fits₄) (.cons tells₅ .nil))))

/-- Two operands and the operator between them. -/
theorem readAs_joined (joined : t.kind.layout = NodeKind.layout.joined t.kind)
    (same : exprOf f nested t = ofArity t 3
      (.binary t.span ((BinaryOperator.ofSymbol? (operatorText f t)).getD .unknown) (exprIn nested t .left)
        (exprIn nested t .right)))
    (own : t.landmark? f parent = some { kind := t.kind, span := t.span, text := operatorText f t })
    (free : isFree t.kind (some .left) = true) : ReadAs f parent t (exprOf f nested t) := by
  have ordered := all.self.ordered
  have fits := ordered.fits
  rw [joined] at fits
  simp only [NodeKind.layout.joined, fits_one_iff, fits_nil_iff] at fits
  obtain ⟨c₁, _, shape, fits₁, c₂, _, rfl, fits₂, c₃, _, rfl, fits₃, rfl⟩ := fits
  obtain ⟨x₁, read₁, tells₁⟩ := readAs_exprIn told all deep
    (by simp [ordered.child?_eq, shape, fits₁.1]) fits₁ free
  obtain ⟨x₃, read₃, tells₃⟩ := readAs_exprIn told all deep
    (by simp [ordered.child?_eq, shape, fits₁.1, fits₂.1, fits₃.1]) fits₃ free
  have child : c₂ ∈ t.children := ParseTree.mem_children_of_significant (by simp [shape])
  have operator : operatorText f t = c₂.text f := by
    simp [operatorText, ordered.child?_eq, shape, fits₁.1, fits₂.1]
  obtain ⟨silent, op, found, kind, symbol⟩ := operator_of_fits (all.child child) fits₂
  refine ⟨.binary t.span op (some x₁) (some x₃), ?_, ordered.tells ?_ ?_⟩
  · rw [same, ofArity_of_length _ (by rw [shape]; rfl), read₁, read₃, operator, found]
    rfl
  · rw [own, operator, ← kind, ← symbol]
    rfl
  · rw [shape]
    exact .cons tells₁ (.silent silent (.cons tells₃ .nil))

/-- An operand and the name of a type. -/
theorem readAs_typeComparison (kind : t.kind = .typeComparison) : ReadAs f parent t (exprOf f nested t) := by
  have ordered := all.self.ordered
  have fits := ordered.fits
  rw [kind] at fits
  unfold NodeKind.layout at fits
  simp only [fits_one_iff, fits_nil_iff] at fits
  obtain ⟨c₁, _, shape, fits₁, c₂, _, rfl, fits₂, c₃, _, rfl, fits₃, rfl⟩ := fits
  obtain ⟨x₁, read₁, tells₁⟩ := readAs_exprIn told all deep
    (by simp [ordered.child?_eq, shape, fits₁.1]) fits₁ (by rw [kind]; rfl)
  have child₂ : c₂ ∈ t.children := ParseTree.mem_children_of_significant (by simp [shape])
  have child₃ : c₃ ∈ t.children := ParseTree.mem_children_of_significant (by simp [shape])
  have right : t.child? .right = some c₃ := by
    simp [ordered.child?_eq, shape, fits₁.1, fits₂.1, fits₃.1]
  have operator : operatorText f t = c₂.text f := by
    simp [operatorText, ordered.child?_eq, shape, fits₁.1, fits₂.1]
  obtain ⟨silent, op, _, joins, symbol⟩ := operator_of_fits (all.child child₂) fits₂
  obtain rfl : op = .hasType := by cases op <;> first | rfl | cases joins
  have ordered₃ := (all.child child₃).self.ordered
  have tells₃ : c₃.Tells f t.kind (.expr (.reference c₃.span (c₃.text f))) := by
    refine ordered₃.tells_leaf (by rw [fits₃.kind_eq]; rfl) ?_ rfl
    rw [ParseTree.landmark?, fits₃.kind_eq]
    rfl
  refine ⟨.binary t.span .hasType (some x₁) (some (.reference c₃.span (c₃.text f))), ?_, ordered.tells ?_ ?_⟩
  · rw [exprOf, kind]
    dsimp only
    rw [ofArity_of_length _ (by rw [shape]; rfl), read₁, presentChild?_of_ordered right ordered₃]
    rfl
  · rw [ParseTree.landmark?, kind, operator, ← symbol]
    rfl
  · rw [shape]
    exact .cons tells₁ (.silent silent (.cons tells₃ .nil))

theorem readAs_unary (kind : t.kind = .unary) : ReadAs f parent t (exprOf f nested t) := by
  have ordered := all.self.ordered
  have fits := ordered.fits
  rw [kind] at fits
  unfold NodeKind.layout at fits
  simp only [fits_one_iff, fits_nil_iff] at fits
  obtain ⟨c₁, _, shape, fits₁, c₂, _, rfl, fits₂, rfl⟩ := fits
  obtain ⟨x₂, read₂, tells₂⟩ := readAs_exprIn told all deep
    (by simp [ordered.child?_eq, shape, fits₁.1, fits₂.1]) fits₂ (by rw [kind]; rfl)
  have child : c₁ ∈ t.children := ParseTree.mem_children_of_significant (by simp [shape])
  have operator : operatorText f t = c₁.text f := by
    simp [operatorText, ordered.child?_eq, shape, fits₁.1]
  obtain ⟨silent, symbol⟩ := prefix_of_fits (all.child child) fits₁
  refine ⟨.unary t.span (UnaryOperator.ofSymbol (c₁.text f)) (some x₂), ?_, ordered.tells ?_ ?_⟩
  · rw [exprOf, kind]
    dsimp only
    rw [ofArity_of_length _ (by rw [shape]; rfl), read₂, operator]
  · rw [ParseTree.landmark?, kind, operator]
    dsimp only [Element.landmark?, Expr.landmark?]
    rw [symbol]
  · rw [shape]
    exact .silent silent (.cons tells₂ .nil)

theorem readAs_parenthesized (kind : t.kind = .parenthesized) : ReadAs f parent t (exprOf f nested t) := by
  have ordered := all.self.ordered
  have fits := ordered.fits
  rw [kind] at fits
  unfold NodeKind.layout at fits
  simp only [fits_one_iff, fits_nil_iff] at fits
  obtain ⟨c₁, _, shape, fits₁, c₂, _, rfl, fits₂, c₃, _, rfl, fits₃, rfl⟩ := fits
  obtain ⟨x₂, read₂, tells₂⟩ := readAs_exprIn told all deep
    (by simp [ordered.child?_eq, shape, fits₁.1, fits₂.1]) fits₂ (by rw [kind]; rfl)
  refine ⟨.group t.span (some x₂), ?_, ordered.tells ?_ ?_⟩
  · rw [exprOf, kind]
    dsimp only
    rw [ofArity_of_length _ (by rw [shape]; rfl), read₂]
  · rw [ParseTree.landmark?, kind]
    rfl
  · rw [shape]
    exact .silent (silent_sign all (by simp [shape]) fits₁) (.cons tells₂
      (.silent (silent_sign all (by simp [shape]) fits₃) .nil))

/-- A key and a value. -/
theorem readAs_entry (kind : t.kind = .mapEntry) : ReadAs f parent t (entryOf nested t) := by
  have ordered := all.self.ordered
  have fits := ordered.fits
  rw [kind] at fits
  unfold NodeKind.layout at fits
  simp only [fits_one_iff, fits_nil_iff] at fits
  obtain ⟨c₁, _, shape, fits₁, c₂, _, rfl, fits₂, c₃, _, rfl, fits₃, rfl⟩ := fits
  obtain ⟨x₁, read₁, tells₁⟩ := readAs_exprIn told all deep
    (by simp [ordered.child?_eq, shape, fits₁.1]) fits₁ (by rw [kind]; rfl)
  obtain ⟨x₃, read₃, tells₃⟩ := readAs_exprIn told all deep
    (by simp [ordered.child?_eq, shape, fits₁.1, fits₂.1, fits₃.1]) fits₃ (by rw [kind]; rfl)
  refine ⟨.mapEntry t.span (some x₁) (some x₃), ?_, ordered.tells ?_ ?_⟩
  · rw [entryOf, ofArity_of_length _ (by rw [shape]; rfl), read₁, read₃]
  · rw [ParseTree.landmark?, kind]
    rfl
  · rw [shape]
    exact .cons tells₁ (.silent (silent_sign all (by simp [shape]) fits₂) (.cons tells₃ .nil))

/-- A part that may be there. -/
theorem tellsAll_optional {o : Option ParseTree} {role : Option Role} (members : ∀ c ∈ o, c ∈ t.significant)
    (fits : ∀ c ∈ o, (Slot.operand role).Fits c) (free : isFree t.kind role = true) :
    TellsAll f t.kind o.toList ((o.bind nested).toList.map .expr) := by
  cases o with
  | none => exact .nil
  | some c =>
    obtain ⟨x, read, tells⟩ := readAs_slot told all deep (members c rfl) (fits c rfl) free
    rw [Option.bind_some, read]
    exact .cons tells .nil

/-- The bounds of a range may both be left out. -/
theorem readAs_range (kind : t.kind = .range) : ReadAs f parent t (placeOf nested t) := by
  have ordered := all.self.ordered
  have fits := ordered.fits
  rw [kind] at fits
  unfold NodeKind.layout at fits
  simp only [fits_optional_iff, fits_one_iff, fits_nil_iff] at fits
  obtain ⟨o₁, _, shape, fits₁, c₂, _, rfl, fits₂, o₃, _, rfl, fits₃, rfl⟩ := fits
  have start : exprIn nested t .start = o₁.bind nested := by
    simp [exprIn, ParseTree.child?_eq_head?, ordered.childrenIn_eq, shape, filter_toList_of_fits fits₁, fits₂.1,
      filter_toList_of_fits fits₃]
  have stop : exprIn nested t .stop = o₃.bind nested := by
    simp [exprIn, ParseTree.child?_eq_head?, ordered.childrenIn_eq, shape, filter_toList_of_fits fits₁, fits₂.1,
      filter_toList_of_fits fits₃]
  refine ⟨.range t.span (o₁.bind nested) (o₃.bind nested), ?_, ordered.tells ?_ ?_⟩
  · rw [placeOf, kind, ordered.isPresent, start, stop]
    rfl
  · rw [ParseTree.landmark?, kind]
    rfl
  · have parts : (Element.expr (.range t.span (o₁.bind nested) (o₃.bind nested))).children =
        (o₁.bind nested).toList.map .expr ++ (o₃.bind nested).toList.map .expr := by
      cases o₁.bind nested <;> cases o₃.bind nested <;> rfl
    rw [parts, shape]
    refine (tellsAll_optional told all deep (by simp +contextual [shape]) fits₁ (by rw [kind]; rfl)).append
      (.silent (silent_sign all (by simp [shape]) fits₂) ?_)
    simpa using tellsAll_optional told all deep (by simp +contextual [shape]) fits₃ (by rw [kind]; rfl)

/-- A receiver and the index or range behind it. -/
theorem readAs_indexing (kind : t.kind = .indexing) : ReadAs f parent t (exprOf f nested t) := by
  have ordered := all.self.ordered
  have fits := ordered.fits
  rw [kind] at fits
  unfold NodeKind.layout at fits
  simp only [fits_one_iff, fits_nil_iff] at fits
  obtain ⟨c₁, _, shape, fits₁, c₂, _, rfl, fits₂, c₃, _, rfl, fits₃, c₄, _, rfl, fits₄, rfl⟩ := fits
  obtain ⟨x₁, read₁, tells₁⟩ := readAs_exprIn told all deep
    (by simp [ordered.child?_eq, shape, fits₁.1]) fits₁ (by rw [kind]; rfl)
  have child : c₃ ∈ t.children := ParseTree.mem_children_of_significant (by simp [shape])
  obtain ⟨x₃, read₃, tells₃⟩ : ReadAs f t.kind c₃ (placeOf nested c₃) := by
    by_cases isRange : c₃.kind = .range
    · exact readAs_range told (all.child child) (Nat.le_trans (ParseTree.nestingAll_le_of_mem child) deep) isRange
    · have operand : c₃.kind.isOperand = true := by simpa [isRange] using fits₃.2
      rw [placeOf, if_neg (by simp [isRange])]
      exact readAs_slot told all deep (by simp [shape]) ⟨fits₃.1, operand⟩ (by rw [kind]; rfl)
  have place : indexPlace nested t = some x₃ := by
    rw [indexPlace_eq, ← read₃]
    simp [ordered.child?_eq, shape, fits₁.1, fits₂.1, fits₃.1]
  refine ⟨.index t.span (some x₁) (some x₃), ?_, ordered.tells ?_ ?_⟩
  · rw [exprOf, kind]
    dsimp only
    rw [ofArity_of_length _ (by rw [shape]; rfl), read₁, place]
  · rw [ParseTree.landmark?, kind]
    rfl
  · rw [shape]
    exact .cons tells₁ (.silent (silent_sign all (by simp [shape]) fits₂) (.cons tells₃
      (.silent (silent_sign all (by simp [shape]) fits₄) .nil)))

/-- The arguments of a call stand between signs. -/
theorem readAs_argument (kind : t.kind = .argumentList) (member : c ∈ t.significant) :
    c.isNamed = true ∧ ReadAs f t.kind c (nested c) ∨ c.isNamed = false ∧ c.IsSilent f t.kind := by
  rcases all.self.ordered.sign_or (.operand none) (by rw [kind]; unfold NodeKind.layout; simp [Piece.slots]) member
    with fits | fits
  · refine Or.inr ⟨?_, silent_sign all member fits⟩
    obtain ⟨k, sign⟩ := NodeKind.isToken_iff.mp fits.2
    rw [ParseTree.isNamed, sign]
    rfl
  · have named : c.kind.isOperand = true := fits.2
    rw [NodeKind.isOperand, Bool.and_eq_true] at named
    exact Or.inl ⟨named.2, readAs_slot told all deep member fits (by rw [kind]; rfl)⟩

/-- The name of a call and its arguments. -/
theorem tellsAll_call (kind : t.kind = .functionCall) :
    ∃ args, call? f nested t = some (t.nameText f, t.nameSpan, args) ∧ args.length = t.argumentCount ∧
      TellsAll f t.kind t.significant (args.map .expr) := by
  have ordered := all.self.ordered
  have fits := ordered.fits
  rw [kind] at fits
  unfold NodeKind.layout at fits
  simp only [fits_one_iff, fits_nil_iff] at fits
  obtain ⟨c₁, _, shape, fits₁, c₂, _, rfl, fits₂, rfl⟩ := fits
  have name : t.child? .name = some c₁ := by simp [ordered.child?_eq, shape, fits₁.1]
  have given : t.child? .arguments = some c₂ := by simp [ordered.child?_eq, shape, fits₁.1, fits₂.1]
  have child₁ := ParseTree.mem_children_of_child? name
  have child₂ := ParseTree.mem_children_of_child? given
  have ordered₁ := (all.child child₁).self.ordered
  have ordered₂ := (all.child child₂).self.ordered
  have listed : c₂.namedChildren.filter (!·.isExtra) = c₂.significant.filter (·.isNamed) := by
    rw [ParseTree.namedChildren, ParseTree.significant, List.filter_filter, List.filter_filter]
    simp only [Bool.and_comm]
  have each : ∀ c ∈ c₂.significant, c.isNamed = true ∧ ReadAs f c₂.kind c (nested c) ∨
      c.isNamed = false ∧ c.IsSilent f c₂.kind := fun c member =>
    readAs_argument told (all.child child₂) (Nat.le_trans (ParseTree.nestingAll_le_of_mem child₂) deep) fits₂.kind_eq
      member
  refine ⟨(c₂.significant.filter (·.isNamed)).filterMap nested, ?_, ?_, ?_⟩
  · rw [call?, hasArity, shape, presentChild?_of_ordered name ordered₁, arguments, given, ParseTree.nameText,
      ParseTree.nameSpan, name]
    simp [listed]
  · rw [ParseTree.argumentCount, given, Option.map_some, listed, Option.getD_some, List.filterMap_length_eq_length]
    intro c member
    rcases each c (List.mem_filter.mp member).1 with ⟨_, x, read, _⟩ | ⟨dropped, _⟩
    · rw [read]
      rfl
    · rw [(List.mem_filter.mp member).2] at dropped
      cases dropped
  · rw [shape]
    refine .silent (ordered₁.silent_name fits₁ (by rw [kind]; exact NodeKind.noConfusion)) (.through ordered₂ ?_ ?_)
    · rw [ParseTree.landmark?, fits₂.kind_eq]
    · exact .filterMap each

theorem readAs_functionCall (kind : t.kind = .functionCall) (free : t.role ≠ some .field) :
    ReadAs f parent t (exprOf f nested t) := by
  obtain ⟨args, read, length, tells⟩ := tellsAll_call told all deep kind
  refine ⟨.call t.span (t.nameText f) t.nameSpan args, ?_, all.self.ordered.tells ?_ tells⟩
  · rw [exprOf, kind]
    dsimp only
    rw [read]
    rfl
  · rw [ParseTree.landmark?, kind]
    simp [Element.landmark?, Expr.landmark?, length, free]

/-- A name or a call that is accessed of a receiver. -/
theorem readAs_field (kind : t.kind = .fieldIdentifier ∨ t.kind = .functionCall) (role : t.role = some .field) :
    ReadAs f parent t (fieldOf f nested t) := by
  have ordered := all.self.ordered
  rcases kind with kind | kind
  · refine ⟨.memberField t.span (some (.memberVariable t.span (t.text f))), by rw [fieldOf, kind], ?_⟩
    have tells : t.Tells f parent (.expr (.memberVariable t.span (t.text f))) := by
      refine ordered.tells_leaf (by rw [kind]; rfl) ?_ rfl
      rw [ParseTree.landmark?, kind]
      rfl
    exact tells.wrap rfl rfl
  · obtain ⟨args, read, length, parts⟩ := tellsAll_call told all deep kind
    refine ⟨.memberField t.span (some (.memberFunction t.span (t.nameText f) t.nameSpan args)), ?_, ?_⟩
    · rw [fieldOf, kind]
      dsimp only
      rw [read]
      rfl
    · have tells : t.Tells f parent (.expr (.memberFunction t.span (t.nameText f) t.nameSpan args)) := by
        refine ordered.tells ?_ parts
        rw [ParseTree.landmark?, kind]
        simp [Element.landmark?, Expr.landmark?, length, role]
      exact tells.wrap rfl rfl

/-- A receiver and what is accessed of it. -/
theorem readAs_member (kind : t.kind = .member) : ReadAs f parent t (exprOf f nested t) := by
  have ordered := all.self.ordered
  have fits := ordered.fits
  rw [kind] at fits
  unfold NodeKind.layout at fits
  simp only [fits_one_iff, fits_nil_iff] at fits
  obtain ⟨c₁, _, shape, fits₁, c₂, _, rfl, fits₂, c₃, _, rfl, fits₃, rfl⟩ := fits
  have receiver : t.child? .object = some c₁ := by simp [ordered.child?_eq, shape, fits₁.1]
  have accessed : t.child? .field = some c₃ := by simp [ordered.child?_eq, shape, fits₁.1, fits₂.1, fits₃.1]
  have child₁ := ParseTree.mem_children_of_child? receiver
  have child₃ := ParseTree.mem_children_of_child? accessed
  obtain ⟨x₁, read₁, tells₁⟩ := readAs_slot told all deep (by simp [shape]) fits₁ (by rw [kind]; rfl)
  obtain ⟨x₃, read₃, tells₃⟩ := readAs_field told (all.child child₃)
    (Nat.le_trans (ParseTree.nestingAll_le_of_mem child₃) deep) (by simpa using fits₃.2) fits₃.1
  refine ⟨.member t.span (some (.memberObject c₁.span (some x₁))) (some x₃), ?_, ordered.tells ?_ ?_⟩
  · rw [exprOf, kind]
    dsimp only
    rw [ofArity_of_length _ (by rw [shape]; rfl), memberObject, memberField_eq,
      presentChild?_of_ordered receiver (all.child child₁).self.ordered,
      presentChild?_of_ordered accessed (all.child child₃).self.ordered, Option.map_some, read₁, Option.bind_some, read₃]
  · rw [ParseTree.landmark?, kind]
    rfl
  · rw [shape]
    exact .cons (tells₁.wrap rfl rfl) (.silent (silent_sign all (by simp [shape]) fits₂) (.cons tells₃ .nil))

/-! ### Lists, maps and paths -/

theorem readAs_list (kind : t.kind = .list) : ReadAs f parent t (exprOf f nested t) := by
  have ordered := all.self.ordered
  refine ⟨.list t.span ((t.childrenIn .element).filterMap nested), by rw [exprOf, kind], ordered.tells ?_ ?_⟩
  · rw [ParseTree.landmark?, kind]
    rfl
  · rw [ordered.childrenIn_eq]
    refine .filterMap fun c member => ?_
    rcases ordered.sign_or (.operand (some .element)) (by rw [kind]; unfold NodeKind.layout; simp [Piece.slots]) member
      with fits | fits
    · exact Or.inr ⟨by simp [fits.1], silent_sign all member fits⟩
    · exact Or.inl ⟨by simp [fits.1], readAs_slot told all deep member fits (by rw [kind]; rfl)⟩

theorem readAs_map (kind : t.kind = .map) : ReadAs f parent t (exprOf f nested t) := by
  have ordered := all.self.ordered
  refine ⟨.map t.span (mapEntries nested t), by rw [exprOf, kind], ordered.tells ?_ ?_⟩
  · rw [ParseTree.landmark?, kind]
    rfl
  · rw [mapEntries_eq, ordered.childrenIn_eq]
    refine .filterMap fun c member => ?_
    have child := ParseTree.mem_children_of_significant member
    rcases ordered.sign_or (.only (some .entry) .mapEntry) (by rw [kind]; unfold NodeKind.layout; simp [Piece.slots]) member
      with fits | fits
    · exact Or.inr ⟨by simp [fits.1], silent_sign all member fits⟩
    · exact Or.inl ⟨by simp [fits.1], readAs_entry told (all.child child)
        (Nat.le_trans (ParseTree.nestingAll_le_of_mem child) deep) fits.kind_eq⟩

/-- An expression between the segments of a path. -/
theorem readAs_interpolation (kind : t.kind = .interpolation) :
    ReadAs f parent t (exprIn nested t .expression) := by
  have ordered := all.self.ordered
  have fits := ordered.fits
  rw [kind] at fits
  unfold NodeKind.layout at fits
  simp only [fits_one_iff, fits_nil_iff] at fits
  obtain ⟨c₁, _, shape, fits₁, c₂, _, rfl, fits₂, c₃, _, rfl, fits₃, c₄, _, rfl, fits₄, rfl⟩ := fits
  obtain ⟨x₃, read₃, tells₃⟩ := readAs_exprIn told all deep
    (by simp [ordered.child?_eq, shape, fits₁.1, fits₂.1, fits₃.1]) fits₃ (by rw [kind]; rfl)
  refine ⟨x₃, read₃, ordered.tells_through (by rw [ParseTree.landmark?, kind]) ?_⟩
  rw [shape]
  exact .silent (silent_sign all (by simp [shape]) fits₁) (.silent (silent_sign all (by simp [shape]) fits₂)
    (.cons tells₃ (.silent (silent_sign all (by simp [shape]) fits₄) .nil)))

theorem readAs_segment (kind : t.kind = .pathSegment ∨ t.kind = .interpolation) :
    ReadAs f parent t (segmentOf f nested t) := by
  rw [segmentOf]
  rcases kind with kind | kind
  · rw [kind]
    refine ⟨segmentLiteral f t, rfl, all.self.ordered.tells_leaf (by rw [kind]; rfl) ?_ rfl⟩
    rw [ParseTree.landmark?, kind]
    rfl
  · rw [kind]
    exact readAs_interpolation told all deep kind

theorem readAs_path (kind : t.kind = .path) : ReadAs f parent t (exprOf f nested t) := by
  have ordered := all.self.ordered
  refine ⟨.path t.span (pathSegments f nested t), by rw [exprOf, kind], ordered.tells ?_ ?_⟩
  · rw [ParseTree.landmark?, kind]
    rfl
  · rw [pathSegments_eq, ordered.childrenIn_eq, List.filter_filter]
    refine .filterMap fun c member => ?_
    have child := ParseTree.mem_children_of_significant member
    rcases ordered.sign_or ⟨some .segment, fun kind => kind == .pathSegment || kind == .interpolation⟩
      (by rw [kind]; unfold NodeKind.layout; simp [Piece.slots]) member with fits | fits
    · exact Or.inr ⟨by simp [fits.1], silent_sign all member fits⟩
    · exact Or.inl ⟨by simp [fits.1, (all.child child).self.ordered.isPresent], readAs_segment told (all.child child)
        (Nat.le_trans (ParseTree.nestingAll_le_of_mem child) deep) (by simpa using fits.2)⟩

/-! ### All expressions -/

omit told deep in
theorem readAs_literal {value : Literal} (bare : t.kind.layout = [])
    (own : t.landmark? f parent = some { kind := value.nodeKind, span := t.span, text := value.raw }) :
    ReadAs f parent t (some (.literal t.span value)) :=
  ⟨_, rfl, all.self.ordered.tells_leaf bare (by rw [own]; rfl) rfl⟩

/-- Whatever is asked for is read, one level below what it nests. -/
theorem readAs_exprOf (asked : t.isAsked parent = true) : ReadAs f parent t (exprOf f nested t) := by
  simp only [ParseTree.isAsked, Bool.and_eq_true, Bool.not_eq_true', bne_iff_ne] at asked
  obtain ⟨⟨operand, label⟩, free⟩ := asked
  cases kind : t.kind with
  | ternary => exact readAs_ternary told all deep kind
  | disjunction | conjunction | relation | contains | addition | multiplication =>
    refine readAs_joined told all deep ?_ ?_ ?_ ?_
    · rw [kind]
      rfl
    · rw [exprOf, kind]
    · rw [ParseTree.landmark?, kind]
    · rw [kind]
      rfl
  | typeComparison => exact readAs_typeComparison told all deep kind
  | unary => exact readAs_unary told all deep kind
  | member => exact readAs_member told all deep kind
  | indexing => exact readAs_indexing told all deep kind
  | functionCall => exact readAs_functionCall told all deep kind free
  | list => exact readAs_list told all deep kind
  | map => exact readAs_map told all deep kind
  | parenthesized => exact readAs_parenthesized told all deep kind
  | path => exact readAs_path told all deep kind
  | identifier =>
    rw [exprOf, kind]
    refine ⟨.reference t.span (t.text f), rfl, all.self.ordered.tells_leaf (by rw [kind]; rfl) ?_ rfl⟩
    rw [ParseTree.landmark?, kind]
    dsimp only
    rw [label]
    rfl
  | number =>
    rw [exprOf, kind]
    refine readAs_literal all (by rw [kind]; rfl) ?_
    rw [ParseTree.landmark?, kind, (ofNumber_spec _).1, (ofNumber_spec _).2]
  | string =>
    rw [exprOf, kind]
    refine readAs_literal all (by rw [kind]; rfl) ?_
    rw [ParseTree.landmark?, kind]
    dsimp only
    rw [label]
    rfl
  | boolean | null =>
    rw [exprOf, kind]
    refine readAs_literal all (by rw [kind]; rfl) ?_
    rw [ParseTree.landmark?, kind]
    rfl
  | token k =>
    rw [kind, NodeKind.isOperand, NodeKind.isNamed, Bool.and_false] at operand
    cases operand
  | _ =>
    rw [kind] at operand
    cases operand

end

/-- The expression of a legible tree has all its landmarks. -/
theorem told_exprAt (f : SourceFile) (b : Nat) : Told f (exprAt f b) b := by
  induction b with
  | zero =>
    intro c parent _ asked deep
    rw [ParseTree.nesting_eq, asked, Bool.toNat_true] at deep
    omega
  | succ b ih =>
    intro c parent all asked deep
    rw [ParseTree.nesting_eq, asked, Bool.toNat_true, Nat.add_comm, Nat.add_le_add_iff_right] at deep
    rw [exprAt, if_pos all.self.ordered.isPresent]
    exact readAs_exprOf ih all deep asked

end Build

end SecurityRules
