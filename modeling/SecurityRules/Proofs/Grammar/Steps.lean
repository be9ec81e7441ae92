import SecurityRules.Proofs.Grammar.Rules
import SecurityRules.Proofs.Parser.Expressions

/-!
# Steps of a draft against phrases of the grammar

A step of a draft follows a phrase if a result without errors has read what the phrase derives, and if
whatever the phrase derives is read without errors. The second half needs to know what comes behind the
phrase, since the parser always reads on as far as it can, and that the nesting allowed is enough for the
text.
-/

namespace SecurityRules.Parser

open Grammar

/-! ## The text ahead -/

/-- The significant tokens ahead as lexemes. -/
def State.words (s : State) : List Lexeme := lexemes s.lastStop s.rest

/-- The kind of the first lexeme. -/
def headKind : List Lexeme → TokenKind
  | [] => .endOfInput
  | t :: _ => t.kind

theorem length_lexemes (stop : Nat) (ts : List Token) : (lexemes stop ts).length = ts.length := by
  induction ts generalizing stop with
  | nil => rfl
  | cons t rest ih => rw [lexemes, List.length_cons, List.length_cons, ih]

theorem State.length_words (s : State) : s.words.length = s.rest.length := length_lexemes _ _

theorem State.peek_kind (s : State) : s.peek.kind = headKind s.words := by
  rw [State.peek, State.words]
  cases s.rest with
  | nil => rfl
  | cons t rest => rfl

theorem State.words_advance (s : State) : s.advance.words = s.words.tail := by
  rw [State.advance, State.words]
  split
  · rename_i ended
    rw [State.words, ended]
    rfl
  · rename_i split
    rw [State.words, split]
    rfl

theorem State.peekSecond_kind (s : State) : s.peekSecond.kind = headKind s.words.tail := by
  rw [← State.words_advance, ← State.peek_kind, State.peek_advance]

theorem State.isAt_eq (s : State) (kind : TokenKind) : s.isAt kind = (headKind s.words == kind) := by
  rw [State.isAt, State.peek_kind]

theorem State.isAdjacent_eq {s : State} {t : Lexeme} {us : List Lexeme} (ahead : s.words = t :: us) :
    s.isAdjacent = t.isGlued := by
  rw [State.words] at ahead
  rw [State.isAdjacent, State.peek]
  cases rest : s.rest with
  | nil =>
    rw [rest] at ahead
    cases ahead
  | cons u rest' =>
    rw [rest, lexemes] at ahead
    rw [← (List.cons.inj ahead).1]
    rfl

theorem State.peek_text {s : State} {t : Lexeme} {us : List Lexeme} (ahead : s.words = t :: us) :
    s.peek.text = t.text := by
  rw [State.words] at ahead
  rw [State.peek]
  cases rest : s.rest with
  | nil =>
    rw [rest] at ahead
    cases ahead
  | cons u rest' =>
    rw [rest, lexemes] at ahead
    rw [← (List.cons.inj ahead).1]
    rfl

theorem headKind_eq {ts : List Lexeme} {kind : TokenKind} (found : headKind ts = kind)
    (other : kind ≠ .endOfInput) : ∃ t us, ts = t :: us ∧ t.kind = kind := by
  cases ts with
  | nil => exact absurd found.symm other
  | cons t us => exact ⟨t, us, rfl, found⟩

/-! ## Drafts without errors -/

/-- A state whose tokens and comments are what the lexer makes: no token is at the end of the input, and what
waits to be placed are comments without errors. -/
structure State.Tidy (s : State) : Prop where
  tokens : ∀ t ∈ s.rest, t.kind ≠ .endOfInput
  comments : ∀ c ∈ s.pending, c.hasError = false
  labelled : ∀ c ∈ s.pending, c.kind = .comment

/-- Whether nothing in the draft is an error or a placeholder. -/
def Draft.isClean (d : Draft) : Bool := !d.tree.hasError

abbrev Draft.words (d : Draft) : List Lexeme := d.state.words

theorem hasError_eq_any (t : ParseTree) : t.hasError = (t.isFlagged || t.children.any ParseTree.hasError) := by
  rw [ParseTree.hasError_eq, ParseTree.nodes_eq, List.any_cons, List.any_flatMap]
  congr 2
  funext c
  rw [ParseTree.hasError_eq]

theorem hasError_push (t c : ParseTree) : (t.push c).hasError = (t.hasError || c.hasError) := by
  rw [hasError_eq_any, hasError_eq_any t, ParseTree.isFlagged_push, ParseTree.children_push, List.any_append]
  simp [Bool.or_assoc]

theorem hasError_inRole (t : ParseTree) (r : Option Role) : (t.inRole r).hasError = t.hasError := by
  rw [hasError_eq_any, hasError_eq_any t, ParseTree.isFlagged_inRole, ParseTree.children_inRole]

theorem State.Tidy.advance {s : State} (tidy : s.Tidy) : s.advance.Tidy := by
  rw [State.advance]
  split
  · exact tidy
  · rename_i t rest split
    refine ⟨?_, ?_, ?_⟩
    · intro u member
      exact tidy.tokens u (by rw [split]; exact List.mem_cons_of_mem t member)
    · intro c member
      rcases List.mem_append.mp member with old | new
      · exact tidy.comments c old
      · obtain ⟨u, _, rfl⟩ := List.mem_map.mp new
        rfl
    · intro c member
      rcases List.mem_append.mp member with old | new
      · exact tidy.labelled c old
      · obtain ⟨u, _, rfl⟩ := List.mem_map.mp new
        rfl

theorem hasError_placeComment {limit : Nat} {comments : List ParseTree}
    (clean : ∀ c ∈ comments, c.hasError = false) (t : ParseTree) (kept : List ParseTree) :
    ((comments.foldl (placeComment limit) (t, kept)).1.hasError = t.hasError) ∧
      ∀ c ∈ (comments.foldl (placeComment limit) (t, kept)).2, c ∈ kept ∨ c ∈ comments := by
  induction comments generalizing t kept with
  | nil => exact ⟨rfl, fun c member => Or.inl member⟩
  | cons c rest ih =>
    have cleanC := clean c (List.mem_cons_self ..)
    have cleanRest := fun u member => clean u (List.mem_cons_of_mem c member)
    rw [List.foldl_cons]
    by_cases inside : (t.stop ≤ c.start && c.start < limit) = true
    · have placed : placeComment limit (t, kept) c = (t.push c, kept) := by
        simp only [placeComment]
        rw [if_pos inside]
      obtain ⟨same, from_⟩ := ih cleanRest (t.push c) kept
      rw [placed]
      refine ⟨?_, fun u member => ?_⟩
      · rw [same, hasError_push, cleanC, Bool.or_false]
      · exact (from_ u member).imp_right (List.mem_cons_of_mem c)
    · have placed : placeComment limit (t, kept) c = (t, kept ++ [c]) := by
        simp only [placeComment]
        rw [if_neg inside]
      obtain ⟨same, from_⟩ := ih cleanRest t (kept ++ [c])
      rw [placed]
      refine ⟨same, fun u member => ?_⟩
      rcases from_ u member with old | new
      · rcases List.mem_append.mp old with old | last
        · exact Or.inl old
        · rw [List.mem_singleton.mp last]
          exact Or.inr (List.mem_cons_self ..)
      · exact Or.inr (List.mem_cons_of_mem c new)

theorem words_attach (d : Draft) (role : Option Role) (c : ParseTree) :
    (d.attach role c).words = d.words := by
  rw [Draft.attach]
  split <;> rfl

theorem tidy_attach {d : Draft} (tidy : d.state.Tidy) (role : Option Role) (c : ParseTree) :
    (d.attach role c).state.Tidy := by
  rw [Draft.attach]
  split
  · exact tidy
  · have old : ∀ u ∈ (d.state.pending.foldl (placeComment c.start) (d.tree, [])).2,
        u ∈ d.state.pending := by
      intro u member
      rcases (hasError_placeComment tidy.comments d.tree []).2 u member with none | old
      · exact absurd none List.not_mem_nil
      · exact old
    exact ⟨tidy.tokens, fun u member => tidy.comments u (old u member),
      fun u member => tidy.labelled u (old u member)⟩

theorem isClean_attach {d : Draft} (tidy : d.state.Tidy) (role : Option Role) (c : ParseTree) :
    (d.attach role c).isClean = (d.isClean && !c.hasError) := by
  rw [Draft.attach]
  split
  · rw [Draft.isClean, hasError_push, hasError_inRole, Draft.isClean, Bool.not_or]
  · have same : (d.state.pending.foldl (placeComment c.start) (d.tree, [])).1.hasError = d.tree.hasError :=
      (hasError_placeComment tidy.comments d.tree []).1
    show (!((_ : ParseTree).push (c.inRole role)).hasError) = _
    rw [hasError_push, hasError_inRole, same, Draft.isClean, Bool.not_or]

/-- Errors stay in a tree that gains children. -/
theorem hasError_placeComment_of {limit : Nat} {comments : List ParseTree} {t : ParseTree}
    {kept : List ParseTree} (wrong : t.hasError = true) :
    (comments.foldl (placeComment limit) (t, kept)).1.hasError = true := by
  induction comments generalizing t kept with
  | nil => exact wrong
  | cons c rest ih =>
    rw [List.foldl_cons]
    simp only [placeComment]
    split
    · exact ih (by rw [hasError_push, wrong, Bool.true_or])
    · exact ih wrong

theorem clean_of_attach {d : Draft} {role : Option Role} {c : ParseTree}
    (clean : (d.attach role c).isClean = true) : d.isClean = true ∧ c.hasError = false := by
  rw [Draft.isClean, Bool.not_eq_true'] at clean
  rw [Draft.isClean, Bool.not_eq_true']
  rw [Draft.attach] at clean
  split at clean
  · rw [hasError_push, hasError_inRole] at clean
    exact Bool.or_eq_false_iff.mp clean
  · dsimp only at clean
    rw [hasError_push, hasError_inRole] at clean
    obtain ⟨tree, child⟩ := Bool.or_eq_false_iff.mp clean
    refine ⟨?_, child⟩
    rw [Bool.eq_false_iff]
    intro wrong
    rw [hasError_placeComment_of wrong] at tree
    exact Bool.false_ne_true tree.symm

/-! ## Steps that follow a phrase -/

/-- The way from the draft `d` to the draft `d'` follows a phrase, in front of texts of which `ok` holds and
for texts of at most `most` tokens. -/
structure Follows (most : Nat) (φ : Phrase Symbol) (ok : List Lexeme → Prop) (d d' : Draft) : Prop where
  earlier : d'.isClean = true → d.isClean = true
  sound : d.state.Tidy → d'.isClean = true → d'.state.Tidy ∧ Derives rules φ d.words d'.words
  complete : d.state.Tidy → d.isClean = true → d.words.length ≤ most →
    ∀ rest, Derives rules φ d.words rest → ok rest → d'.isClean = true ∧ d'.words = rest

/-- What a production reads from the state `s` follows a phrase. -/
def FollowsAt (most : Nat) (φ : Phrase Symbol) (ok : List Lexeme → Prop) (s : State)
    (r : ParseTree × State) : Prop :=
  Follows most φ ok (Draft.opened .sourceFile s) ⟨r.1, r.2⟩

/-- Any text. -/
def anything : List Lexeme → Prop := fun _ => True

namespace Follows

variable {most : Nat} {φ ψ : Phrase Symbol} {ok ok' : List Lexeme → Prop} {d d' d'' : Draft}

theorem here : Follows most .empty ok d d where
  earlier := id
  sound := fun tidy _ => ⟨tidy, .empty⟩
  complete := fun _ clean _ _ derived _ => ⟨clean, derives_empty.mp derived⟩

/-- One way behind the other follows what both together derive. The second may be limited to shorter texts. -/
theorem compose {fewer : Nat} {χ : Phrase Symbol} (first : Follows most φ ok' d d')
    (second : Follows fewer ψ ok d' d'')
    (join : Derives rules φ d.words d'.words → ∀ vs, Derives rules ψ d'.words vs → Derives rules χ d.words vs)
    (split : d.words.length ≤ most → ∀ rest, Derives rules χ d.words rest → ok rest →
      ∃ us, ok' us ∧ Derives rules φ d.words us ∧
        (d'.words = us → us.length ≤ fewer ∧ Derives rules ψ us rest)) :
    Follows most χ ok d d'' where
  earlier := fun clean => first.earlier (second.earlier clean)
  sound := by
    intro tidy clean
    obtain ⟨tidy', head⟩ := first.sound tidy (second.earlier clean)
    obtain ⟨tidy'', tail⟩ := second.sound tidy' clean
    exact ⟨tidy'', join head _ tail⟩
  complete := by
    intro tidy clean short rest derived good
    obtain ⟨us, good', head, behind⟩ := split short rest derived good
    obtain ⟨clean', words⟩ := first.complete tidy clean short us head good'
    obtain ⟨short', tail⟩ := behind words
    have tidy' := (first.sound tidy clean').1
    exact second.complete tidy' clean' (by rw [words]; exact short') rest (by rw [words]; exact tail) good

/-- One way behind the other. -/
theorem bind (first : Follows most φ ok' d d') (second : Follows most ψ ok d' d'')
    (fits : ∀ us vs, Derives rules ψ us vs → ok vs → ok' us) : Follows most (φ ++ ψ) ok d d'' := by
  refine first.compose second (fun head vs tail => .seq head tail) fun short rest derived good => ?_
  obtain ⟨us, head, tail⟩ := derives_seq.mp derived
  exact ⟨us, fits us rest tail good, head, fun _ => ⟨Nat.le_trans head.length_le short, tail⟩⟩

/-- A way behind one that takes a token may be limited to shorter texts. -/
theorem bind_shorter {sort : Lexeme → Bool} (first : Follows (most + 1) φ ok' d d')
    (second : Follows most ψ ok d' d'') (starts : Starts rules sort φ)
    (fits : ∀ us vs, Derives rules ψ us vs → ok vs → ok' us) : Follows (most + 1) (φ ++ ψ) ok d d'' := by
  refine first.compose second (fun head vs tail => .seq head tail) fun short rest derived good => ?_
  obtain ⟨us, head, tail⟩ := derives_seq.mp derived
  have shorter := (starts _ us head).1
  exact ⟨us, fits us rest tail good, head, fun _ => ⟨by omega, tail⟩⟩

/-- A way whose first part cannot end as it does without errors follows every phrase that starts with what that
part follows. -/
theorem void {χ : Phrase Symbol} (first : Follows most φ ok' d d')
    (never : d'.isClean = true → ¬ Derives rules φ d.words d'.words)
    (kept : d''.isClean = true → d'.isClean = true)
    (heads : ∀ rest, Derives rules χ d.words rest → ok rest → ∃ us, ok' us ∧ Derives rules φ d.words us) :
    Follows most χ ok d d'' where
  earlier := fun clean => first.earlier (kept clean)
  sound := fun tidy clean => absurd (first.sound tidy (kept clean)).2 (never (kept clean))
  complete := by
    intro tidy clean short rest derived good
    obtain ⟨us, good', head⟩ := heads rest derived good
    have clean' := (first.complete tidy clean short us head good').1
    exact absurd (first.sound tidy clean').2 (never clean')

theorem mono {fewer : Nat} (follows : Follows most φ ok d d') (less : fewer ≤ most)
    (narrower : ∀ rest, ok' rest → ok rest) : Follows fewer φ ok' d d' where
  earlier := follows.earlier
  sound := follows.sound
  complete := fun tidy clean short rest derived good =>
    follows.complete tidy clean (Nat.le_trans short less) rest derived (narrower rest good)

/-- A way that ends in an error follows every phrase that derives longer texts only. -/
theorem exhausted (wrong : d'.isClean = false)
    (long : ∀ rest, Derives rules φ d.words rest → ok rest → most < d.words.length) :
    Follows most φ ok d d' where
  earlier := by
    intro clean
    exact absurd (wrong.symm.trans clean) Bool.false_ne_true
  sound := by
    intro _ clean
    exact absurd (wrong.symm.trans clean) Bool.false_ne_true
  complete := fun _ _ short rest derived good => absurd short (Nat.not_le_of_lt (long rest derived good))

/-- A way that ends in an error follows every phrase that derives nothing. -/
theorem dirty (wrong : d'.isClean = false)
    (underivable : ∀ rest, Derives rules φ d.words rest → ok rest → False) : Follows most φ ok d d' :=
  exhausted wrong fun rest derived good => absurd good fun good => underivable rest derived good

theorem left (follows : Follows most φ ok d d')
    (only : ∀ rest, Derives rules ψ d.words rest → ok rest → False) : Follows most (φ ||| ψ) ok d d' where
  earlier := follows.earlier
  sound := fun tidy clean => ⟨(follows.sound tidy clean).1, .left (follows.sound tidy clean).2⟩
  complete := by
    intro tidy clean short rest derived good
    rcases derives_or.mp derived with chosen | chosen
    · exact follows.complete tidy clean short rest chosen good
    · exact absurd good (fun good => only rest chosen good)

theorem right (follows : Follows most ψ ok d d')
    (only : ∀ rest, Derives rules φ d.words rest → ok rest → False) : Follows most (φ ||| ψ) ok d d' where
  earlier := follows.earlier
  sound := fun tidy clean => ⟨(follows.sound tidy clean).1, .right (follows.sound tidy clean).2⟩
  complete := by
    intro tidy clean short rest derived good
    rcases derives_or.mp derived with chosen | chosen
    · exact absurd good (fun good => only rest chosen good)
    · exact follows.complete tidy clean short rest chosen good

/-- A phrase that may be left out is read, where the text may not end in front of it. -/
theorem maybe_left (follows : Follows most φ ok d d') (ahead : ¬ ok d.words) : Follows most (.maybe φ) ok d d' := by
  refine follows.left fun rest derived good => ahead ?_
  rw [derives_empty.mp derived]
  exact good

/-- A phrase that may be left out is left out. -/
theorem maybe_none (absent : ∀ rest, ¬ Derives rules φ d.words rest) : Follows most (.maybe φ) ok d d :=
  here.right fun rest derived _ => absent rest derived

/-- A phrase may be replaced by one that derives the same from the text ahead. -/
theorem congr (follows : Follows most φ ok d d')
    (same : ∀ rest, Derives rules ψ d.words rest ↔ Derives rules φ d.words rest) :
    Follows most ψ ok d d' where
  earlier := follows.earlier
  sound := fun tidy clean => ⟨(follows.sound tidy clean).1, (same _).mpr (follows.sound tidy clean).2⟩
  complete := fun tidy clean short rest derived good =>
    follows.complete tidy clean short rest ((same rest).mp derived) good

theorem symbol {name : Symbol} (follows : Follows most (rules name) ok d d') :
    Follows most (.symbol name) ok d d' :=
  follows.congr fun _ => derives_symbol

/-- Adding what a production has read. -/
theorem attach {role : Option Role} {r : ParseTree × State} (follows : FollowsAt most φ ok d.state r) :
    Follows most φ ok d (({ d with state := r.2 } : Draft).attach role r.1) where
  earlier := fun clean => (clean_of_attach clean).1
  sound := by
    intro tidy clean
    have child : (⟨r.1, r.2⟩ : Draft).isClean = true := by
      rw [Draft.isClean, Bool.not_eq_true']
      exact (clean_of_attach clean).2
    obtain ⟨tidy', derived⟩ := follows.sound tidy child
    refine ⟨tidy_attach (d := ⟨d.tree, r.2⟩) tidy' role r.1, ?_⟩
    rw [words_attach]
    exact derived
  complete := by
    intro tidy clean short rest derived good
    obtain ⟨child, words⟩ := follows.complete tidy rfl short rest derived good
    have tidy' := (follows.sound tidy child).1
    rw [Draft.isClean, Bool.not_eq_true'] at child
    have child : r.1.hasError = false := child
    refine ⟨?_, ?_⟩
    · rw [isClean_attach (d := ⟨d.tree, r.2⟩) tidy' role r.1, child, Bool.not_false, Bool.and_true]
      exact clean
    · rw [words_attach]
      exact words

theorem place {role : Option Role} {p : Production} (follows : FollowsAt most φ ok d.state (p d.state)) :
    Follows most φ ok d (d.place role p) := by
  rw [Draft.place_eq]
  exact attach follows

/-- A draft whose first child is the tree of another draft goes on where that draft stands. -/
theorem wrap {kind : NodeKind} {role : Option Role}
    (follows : Follows most φ ok ((Draft.opened kind d.state).attach role d.tree) d') (other : kind ≠ .error) :
    Follows most φ ok d d' := by
  have clean : ((Draft.opened kind d.state).attach role d.tree).isClean = d.isClean := by
    show (!((ParseTree.childless kind {}).push (d.tree.inRole role)).hasError) = _
    rw [hasError_push, hasError_inRole, hasError_eq_any (ParseTree.childless kind {})]
    simp [Draft.isClean, ParseTree.childless, ParseTree.isFlagged, ParseTree.isError, ParseTree.kind,
      ParseTree.isMissing, ParseTree.children, other]
  refine ⟨fun clean' => ?_, follows.sound, fun tidy clean' => ?_⟩
  · rw [← clean]
    exact follows.earlier clean'
  · rw [← clean] at clean'
    exact follows.complete tidy clean'

/-- The tree so far becomes the first child of a new one. -/
theorem enclose (kind : NodeKind) (role : Option Role) (fill : Draft → Draft)
    (follows : ∀ n : Draft, n.state = d.state → Follows most φ ok n (fill n)) (other : kind ≠ .error) :
    Follows most φ ok d ⟨(Parser.branch kind (fun n => fill (n.attach role d.tree)) d.state).1,
      (Parser.branch kind (fun n => fill (n.attach role d.tree)) d.state).2⟩ :=
  wrap (follows _ rfl) other

/-- The tree that is read by the steps from a new draft on. -/
theorem finish {kind : NodeKind} {s : State} (follows : Follows most φ ok (Draft.opened kind s) d)
    (other : kind ≠ .error) : FollowsAt most φ ok s (d.tree, d.state) where
  earlier := fun _ => rfl
  sound := follows.sound
  complete := by
    intro tidy _ short rest derived good
    refine follows.complete tidy ?_ short rest derived good
    rw [Draft.isClean, hasError_eq_any]
    simp [Draft.opened, ParseTree.childless, ParseTree.isFlagged, ParseTree.isError, ParseTree.kind,
      ParseTree.isMissing, ParseTree.children, other]

theorem branch {kind : NodeKind} {fill : Draft → Draft} {s : State}
    (follows : Follows most φ ok (Draft.opened kind s) (fill (Draft.opened kind s))) (other : kind ≠ .error) :
    FollowsAt most φ ok s (Parser.branch kind fill s) :=
  follows.finish other

theorem assoc {χ : Phrase Symbol} (follows : Follows most (φ ++ (ψ ++ χ)) ok d d') :
    Follows most (φ ++ ψ ++ χ) ok d d' := by
  refine follows.congr fun rest => ?_
  constructor
  · intro derived
    obtain ⟨us, both, last⟩ := derives_seq.mp derived
    obtain ⟨ws, first, second⟩ := derives_seq.mp both
    exact derives_seq.mpr ⟨ws, first, derives_seq.mpr ⟨us, second, last⟩⟩
  · intro derived
    obtain ⟨ws, first, both⟩ := derives_seq.mp derived
    obtain ⟨us, second, last⟩ := derives_seq.mp both
    exact derives_seq.mpr ⟨us, derives_seq.mpr ⟨ws, first, second⟩, last⟩

end Follows

/-! ## Errors -/

/-- What further children leave alone. -/
theorem attach_keeps {α : Type} {g : ParseTree → α} (pushed : ∀ t c, g (t.push c) = g t) (d : Draft)
    (role : Option Role) (c : ParseTree) : g (d.attach role c).tree = g d.tree := by
  have folded : ∀ (comments : List ParseTree) (limit : Nat) (t : ParseTree) (kept : List ParseTree),
      g (comments.foldl (placeComment limit) (t, kept)).1 = g t := by
    intro comments limit
    induction comments with
    | nil => exact fun t kept => rfl
    | cons c rest ih =>
      intro t kept
      rw [List.foldl_cons]
      simp only [placeComment]
      split
      · rw [ih, pushed]
      · exact ih t _
  rw [Draft.attach]
  split
  · exact pushed _ _
  · dsimp only
    rw [pushed, folded]

theorem kind_attach (d : Draft) (role : Option Role) (c : ParseTree) :
    (d.attach role c).tree.kind = d.tree.kind := attach_keeps ParseTree.kind_push d role c

theorem isFlagged_attach (d : Draft) (role : Option Role) (c : ParseTree) :
    (d.attach role c).tree.isFlagged = d.tree.isFlagged := attach_keeps ParseTree.isFlagged_push d role c

theorem hasError_of_kind {t : ParseTree} (kind : t.kind = .error) : t.hasError = true := by
  rw [hasError_eq_any, ParseTree.isFlagged, ParseTree.isError, kind]
  rfl

theorem hasError_placeholder (s : State) (kind : NodeKind) : (s.placeholder kind).hasError = true := by
  rw [hasError_eq_any]
  simp [State.placeholder, ParseTree.isFlagged, ParseTree.isMissing]

theorem hasError_stray (s : State) : (stray s).1.hasError = true := by
  apply hasError_of_kind
  rw [stray, branch]
  dsimp only
  split
  · rfl
  · exact kind_attach _ _ _

theorem kind_toError {n : Nested} (kind : n.draft.tree.kind = .error) : n.toError.1.kind = .error := by
  rw [Nested.toError]
  split
  · rfl
  · exact kind

theorem kind_skipUntil (stop : TokenKind → Bool) (s : State) : (skipUntil stop s).1.kind = .error := by
  apply kind_toError
  refine iterate_keeps (P := fun n : Nested => n.draft.tree.kind = .error) rfl ?_
  intro n kind
  rcases draft_skipTurn stop n with same | ⟨_, taken⟩
  · rw [same]
    exact kind
  · rw [taken]
    exact (kind_attach _ _ _).trans kind

theorem kind_collapse (s : State) : (collapse s).1.kind = .error := by
  apply kind_toError
  refine iterate_keeps (P := fun n : Nested => n.draft.tree.kind = .error) rfl ?_
  intro n kind
  rw [collapseTurn]
  split
  · exact kind
  · split
    · exact kind
    · exact (kind_attach _ _ _).trans kind

theorem hasError_skipUntil (stop : TokenKind → Bool) (s : State) : (skipUntil stop s).1.hasError = true :=
  hasError_of_kind (kind_skipUntil stop s)

theorem hasError_collapse (s : State) : (collapse s).1.hasError = true := hasError_of_kind (kind_collapse s)

theorem dirty_attach {d : Draft} {role : Option Role} {c : ParseTree} (wrong : c.hasError = true) :
    (d.attach role c).isClean = false := by
  rw [Bool.eq_false_iff]
  intro clean
  rw [(clean_of_attach clean).2] at wrong
  exact Bool.false_ne_true wrong

theorem dirty_lacking (d : Draft) (role : Option Role) (kind : NodeKind) :
    (d.lacking role kind).isClean = false :=
  dirty_attach (hasError_placeholder _ _)

/-! ## Reading one token -/

section

variable {most : Nat} {ok : List Lexeme → Prop} {d : Draft} {sort : Lexeme → Bool}

theorem Follows.leafOf {s : State} {leaf : NodeKind} {t : Lexeme} {us : List Lexeme}
    (ahead : s.words = t :: us) (fits : sort t = true) (other : leaf ≠ .error) :
    FollowsAt most (.word sort) ok s (Parser.leafOf leaf s) where
  earlier := fun _ => rfl
  sound := by
    intro tidy _
    refine ⟨State.Tidy.advance tidy, ?_⟩
    have words : s.advance.words = us := by
      rw [State.words_advance, ahead]
      rfl
    show Derives rules _ s.words s.advance.words
    rw [words, ahead]
    exact .word fits
  complete := by
    intro _ _ _ rest derived _
    obtain ⟨u, split, _⟩ := derives_word.mp derived
    refine ⟨?_, ?_⟩
    · rw [Draft.isClean, hasError_eq_any]
      simp [Parser.leafOf, State.leaf, ParseTree.childless, ParseTree.isFlagged, ParseTree.isError,
        ParseTree.kind, ParseTree.isMissing, ParseTree.children, other]
    · show s.advance.words = rest
      rw [State.words_advance]
      have split : s.words = u :: rest := split
      rw [split]
      rfl

theorem Follows.takeAs (role : Option Role) {leaf : NodeKind} {t : Lexeme} {us : List Lexeme}
    (ahead : d.words = t :: us) (fits : sort t = true) (other : leaf ≠ .error) :
    Follows most (.word sort) ok d (d.takeAs role leaf) :=
  Follows.place (Follows.leafOf ahead fits other)

theorem leafKind_ne_error (kind : TokenKind) : leafKind kind ≠ .error := by
  rw [leafKind.eq_def]
  split <;> exact NodeKind.noConfusion

theorem Follows.take (role : Option Role) {t : Lexeme} {us : List Lexeme} (ahead : d.words = t :: us)
    (fits : sort t = true) : Follows most (.word sort) ok d (d.take role) :=
  Follows.takeAs role ahead fits (leafKind_ne_error _)

theorem Draft.isAt_eq (d : Draft) (kind : TokenKind) : d.isAt kind = (headKind d.words == kind) :=
  State.isAt_eq d.state kind

theorem words_of_isAt {kind : TokenKind} (found : d.isAt kind = true) (other : kind ≠ .endOfInput) :
    ∃ t us, d.words = t :: us ∧ t.kind = kind := by
  rw [Draft.isAt_eq, beq_iff_eq] at found
  exact headKind_eq found other

theorem isAt_of_token {kind : TokenKind} {rest : List Lexeme}
    (derived : Derives rules (.token kind) d.words rest) : d.isAt kind = true := by
  obtain ⟨t, split, same⟩ := derives_token.mp derived
  rw [Draft.isAt_eq, split, beq_iff_eq]
  exact same

theorem Follows.takeToken (role : Option Role) {kind : TokenKind} (found : d.isAt kind = true)
    (other : kind ≠ .endOfInput) : Follows most (.token kind) ok d (d.take role) := by
  obtain ⟨t, us, ahead, same⟩ := words_of_isAt found other
  exact Follows.take role ahead (by rw [same]; exact beq_self_eq_true kind)

theorem Follows.takeTokenAs (role : Option Role) {kind : TokenKind} {leaf : NodeKind}
    (found : d.isAt kind = true) (other : kind ≠ .endOfInput) (known : leaf ≠ .error) :
    Follows most (.token kind) ok d (d.takeAs role leaf) := by
  obtain ⟨t, us, ahead, same⟩ := words_of_isAt found other
  exact Follows.takeAs role ahead (by rw [same]; exact beq_self_eq_true kind) known

theorem dirty_expect {kind : TokenKind} (absent : ¬ d.isAt kind = true) : (d.expect kind).isClean = false := by
  rw [Draft.expect, if_neg absent]
  split
  · rw [Bool.eq_false_iff]
    intro clean
    have passed : (stray d.state).1.hasError = false := (clean_of_attach (clean_of_attach clean).1).2
    rw [hasError_stray] at passed
    exact Bool.false_ne_true passed.symm
  · exact dirty_lacking _ _ _

theorem Follows.expect {kind : TokenKind} (other : kind ≠ .endOfInput) :
    Follows most (.token kind) ok d (d.expect kind) := by
  by_cases found : d.isAt kind = true
  · rw [Draft.expect, if_pos found]
    exact Follows.takeToken none found other
  · exact Follows.dirty (dirty_expect found) fun rest derived _ => found (isAt_of_token derived)

theorem Follows.takeName (role : Option Role) :
    Follows most (.token .identifier) ok d (d.takeName role) := by
  rw [Draft.takeName]
  split
  · rename_i found
    exact Follows.takeTokenAs role found TokenKind.noConfusion NodeKind.noConfusion
  · rename_i absent
    exact Follows.dirty (dirty_lacking _ _ _) fun rest derived _ => absent (isAt_of_token derived)

end

/-! ## Loops -/

section

variable {most : Nat} {φ : Phrase Symbol} {ok inner : List Lexeme → Prop} {d : Draft}
  {turn : Draft → Turn Draft}

/-- The phrase `χ` takes the first items of a repetition, at least one, off a text. -/
structure Heads (φ χ : Phrase Symbol) (ok inner : List Lexeme → Prop) (ts : List Lexeme) : Prop where
  items : ∀ us, Derives rules χ ts us → Derives rules (.many φ) ts us
  split : ∀ rest, Derives rules (.many φ) ts rest → ok rest →
    ∃ us, inner us ∧ us.length < ts.length ∧ Derives rules χ ts us ∧ Derives rules (.many φ) us rest

/-- A loop whose turns each read some of the items, as long as one can start. -/
theorem Follows.repeated (going : List Lexeme → Prop)
    (goes : ∀ d : Draft, going d.words → ∃ next χ inner, turn d = .again next ∧
      Follows most χ inner d next ∧ Heads φ χ ok inner d.words)
    (stops : ∀ d : Draft, ¬ going d.words → turn d = .done d)
    (first : ∀ ts us, Derives rules φ ts us → going ts) :
    Follows most (.many φ) ok d (d.loop turn) := by
  rw [Draft.loop]
  fun_induction iterate Draft.state turn d with
  | case1 v next found =>
    by_cases open' : going v.words
    · obtain ⟨other, _, _, again, _⟩ := goes v open'
      rw [found] at again
      cases again
    · rw [stops v open'] at found
      rw [← Turn.done.inj found]
      refine ⟨id, fun tidy _ => ⟨tidy, .none⟩, fun _ clean _ rest derived _ => ⟨clean, ?_⟩⟩
      rcases derives_many.mp derived with same | ⟨us, head, _⟩
      · exact same
      · exact absurd (first _ us head) open'
  | case2 v next found shorter ih =>
    by_cases open' : going v.words
    · obtain ⟨other, χ, inner, again, items, heads⟩ := goes v open'
      rw [found] at again
      obtain rfl := Turn.again.inj again
      refine items.compose ih (fun head vs => (heads.items _ head).many_append) ?_
      intro short rest derived good
      obtain ⟨us, good', less, head, tail⟩ := heads.split rest derived good
      exact ⟨us, good', head, fun _ => ⟨Nat.le_trans (Nat.le_of_lt less) short, tail⟩⟩
    · rw [stops v open'] at found
      cases found
  | case3 v next found longer =>
    by_cases open' : going v.words
    · obtain ⟨other, χ, inner, again, items, heads⟩ := goes v open'
      rw [found] at again
      obtain rfl := Turn.again.inj again
      refine ⟨items.earlier, fun tidy clean => ?_, fun tidy clean short rest derived good => ?_⟩
      · obtain ⟨tidy', head⟩ := items.sound tidy clean
        exact ⟨tidy', heads.items _ head⟩
      · obtain ⟨us, good', less, head, _⟩ := heads.split rest derived good
        rw [← (items.complete tidy clean short us head good').2, Draft.words, Draft.words,
          State.length_words, State.length_words] at less
        exact absurd less longer
    · rw [stops v open'] at found
      cases found

/-- A loop whose turns each read an item as long as one can start. -/
theorem Follows.loop (going inner : List Lexeme → Prop) {sort : Lexeme → Bool}
    (goes : ∀ d : Draft, going d.words → ∃ next, turn d = .again next ∧ Follows most φ inner d next)
    (stops : ∀ d : Draft, ¬ going d.words → turn d = .done d) (starts : Starts rules sort φ)
    (first : ∀ ts us, Derives rules φ ts us → going ts) (ended : ∀ vs, ok vs → ¬ going vs)
    (fits : ∀ us vs, Derives rules (.many φ) us vs → ok vs → inner us) :
    Follows most (.many φ) ok d (d.loop turn) := by
  refine Follows.repeated going (fun v open' => ?_) stops first
  obtain ⟨next, again, item⟩ := goes v open'
  refine ⟨next, φ, inner, again, item, fun us head => .more head .none, fun rest derived good => ?_⟩
  rcases derives_many.mp derived with rfl | ⟨us, head, behind⟩
  · exact absurd open' (ended _ good)
  · exact ⟨us, fits us rest behind good, (starts _ us head).1, head, behind⟩

theorem words_takeAs (d : Draft) (role : Option Role) (leaf : NodeKind) :
    (d.takeAs role leaf).words = d.words.tail := by
  rw [Draft.takeAs, Draft.place_eq, words_attach]
  exact State.words_advance d.state

theorem words_take (d : Draft) (role : Option Role) : (d.take role).words = d.words.tail :=
  words_takeAs d role _

/-- Behind an item that a comma follows: the comma, and what is read behind that. -/
theorem Follows.commaTail (found : d.isAt .comma = true) (ended : ∀ vs, ok vs → headKind vs ≠ .comma)
    {d' : Draft} (more : Follows most (.maybe (.commaList φ)) ok d.take d') :
    Follows most (.maybe (.token .comma ++ .maybe (.commaList φ))) ok d d' := by
  have taken : Follows most (.token .comma) anything d d.take :=
    Follows.takeToken none found TokenKind.noConfusion
  refine (taken.bind more fun _ _ _ _ => trivial).maybe_left fun good => ended _ good ?_
  rw [Draft.isAt_eq, beq_iff_eq] at found
  exact found

/-- A loop over items between commas. -/
theorem Follows.commaLoop (going : List Lexeme → Prop) (item : Draft → Draft)
    (goes : ∀ d : Draft, going d.words → Follows most φ inner d (item d) ∧
      turn d = if (item d).isAt .comma then .again (item d).take else .done (item d))
    (stops : ∀ d : Draft, ¬ going d.words → turn d = .done d)
    (first : ∀ ts us, Derives rules φ ts us → going ts)
    (ended : ∀ vs, ok vs → ¬ going vs ∧ headKind vs ≠ .comma)
    (fits : ∀ us, headKind us = .comma ∨ ok us → inner us) (open' : going d.words) :
    Follows most (.commaList φ) ok d (d.loop turn) := by
  have item_tail : ∀ v v' : Draft, going v.words →
      Follows most (.maybe (.token .comma ++ .maybe (.commaList φ))) ok (item v) v' →
      Follows most (.commaList φ) ok v v' := by
    intro v v' open' tail
    refine ((goes v open').1.bind tail fun us vs derived good => fits us ?_).congr fun _ => derives_commaList_seq
    rcases derives_maybe.mp derived with comma | rfl
    · obtain ⟨ws, found, _⟩ := derives_seq.mp comma
      obtain ⟨t, rfl, kind⟩ := derives_token.mp found
      exact Or.inl kind
    · exact Or.inr good
  have noItem : ∀ v : Draft, ¬ going v.words → ∀ rest, ¬ Derives rules (.commaList φ) v.words rest := by
    intro v closed rest derived
    obtain ⟨us, head, _⟩ := derives_commaList.mp derived
    exact closed (first _ us head)
  rw [Draft.loop]
  fun_induction iterate Draft.state turn d with
  | case1 v next found =>
    have turned := (goes v open').2
    rw [found] at turned
    split at turned
    · cases turned
    · rename_i absent
      rw [Turn.done.inj turned]
      refine item_tail v _ open' (Follows.maybe_none fun rest derived => ?_)
      obtain ⟨us, comma, _⟩ := derives_seq.mp derived
      exact absent (isAt_of_token comma)
  | case2 v next found shorter ih =>
    have turned := (goes v open').2
    rw [found] at turned
    split at turned
    · rename_i isComma
      obtain rfl := Turn.again.inj turned
      refine item_tail v _ open' (Follows.commaTail isComma (fun vs good => (ended vs good).2) ?_)
      by_cases more : going (item v).take.words
      · exact (ih more).maybe_left fun good => (ended _ good).1 more
      · have stays : iterate Draft.state turn (item v).take = (item v).take := by
          rw [iterate, stops _ more]
        rw [stays]
        exact Follows.maybe_none (noItem _ more)
    · cases turned
  | case3 v next found longer =>
    have turned := (goes v open').2
    rw [found] at turned
    split at turned
    · rename_i isComma
      obtain rfl := Turn.again.inj turned
      -- An item that is read leaves no more tokens than there were, and the comma is one of them.
      refine (goes v open').1.void (fun _ derived => longer ?_) (fun clean => (clean_of_attach clean).1) ?_
      · obtain ⟨t, us, ahead, _⟩ := words_of_isAt isComma TokenKind.noConfusion
        have less := derived.length_le
        rw [ahead, List.length_cons] at less
        rw [← State.length_words, ← State.length_words]
        show (item v).take.words.length < v.words.length
        rw [words_take, ahead]
        exact less
      · intro rest derived good
        obtain ⟨us, head, others⟩ := derives_commaList.mp derived
        rcases others with rfl | ⟨t, ws, rfl, kind, _⟩
        · exact ⟨us, fits us (Or.inr good), head⟩
        · exact ⟨t :: ws, fits (t :: ws) (Or.inl kind), head⟩
    · cases turned

/-- Whether the text goes on with a slash that touches the last token. -/
theorem gluedSlash_iff {d : Draft} : (d.isAt .slash && d.state.isAdjacent) = true ↔
    ∃ t ∈ d.words.head?, isGluedSlash t = true := by
  rw [Draft.isAt_eq]
  cases words : d.words with
  | nil => simp [headKind]
  | cons t us =>
    rw [State.isAdjacent_eq words]
    simp [headKind, isGluedSlash]

/-- A loop over parts behind slashes. -/
theorem Follows.slashLoop {part : Phrase Symbol}
    (goes : ∀ d : Draft, d.isAt .slash = true →
      ∃ next, Follows most (.token .slash ++ part) anything d next ∧
        (turn d = slashTurn next ∨ turn d = .done next ∧ next.isClean = false))
    (open' : d.isAt .slash = true) : Follows most (slashed part) ok d (d.loop turn) := by
  have starts : Starts rules (fun t => t.kind == .slash) (.token .slash ++ part) := Starts.word.seq
  have heads : ∀ v : Draft, ∀ rest, Derives rules (slashed part) v.words rest → ok rest →
      ∃ us, anything us ∧ Derives rules (.token .slash ++ part) v.words us := by
    intro v rest derived _
    obtain ⟨us, head, _⟩ := derives_slashed.mp derived
    exact ⟨us, trivial, head⟩
  rw [Draft.loop]
  fun_induction iterate Draft.state turn d with
  | case1 v last found =>
    obtain ⟨next, follows, turned⟩ := goes v open'
    rw [found] at turned
    rcases turned with turned | ⟨turned, wrong⟩
    · rw [slashTurn] at turned
      split at turned
      · cases turned
      · rename_i absent
        rw [Turn.done.inj turned]
        have free : Free isGluedSlash next.words := by
          intro t head
          rw [Bool.eq_false_iff]
          exact fun glued => absent (gluedSlash_iff.mpr ⟨t, head, glued⟩)
        refine follows.compose (.here : Follows most .empty ok next next) (fun head vs same => ?_) ?_
        · exact derives_slashed.mpr ⟨_, head, Or.inl ⟨derives_empty.mp same, free⟩⟩
        · intro short rest derived good
          obtain ⟨us, head, others⟩ := derives_slashed.mp derived
          refine ⟨us, trivial, head, fun words => ⟨Nat.le_trans head.length_le short, ?_⟩⟩
          rcases others with ⟨same, _⟩ | ⟨glued, _⟩
          · exact derives_empty.mpr same
          · rw [← words] at glued
            exact absurd (gluedSlash_iff.mpr glued) absent
    · rw [Turn.done.inj turned]
      exact follows.void (fun clean _ => Bool.false_ne_true (wrong.symm.trans clean)) id (heads v)
  | case2 v last found shorter ih =>
    obtain ⟨next, follows, turned⟩ := goes v open'
    rw [found] at turned
    rcases turned with turned | ⟨turned, _⟩
    · rw [slashTurn] at turned
      split at turned
      · rename_i glued
        obtain rfl := Turn.again.inj turned
        have others := ih (Bool.and_eq_true_iff.mp glued).1
        refine follows.compose others (fun head vs behind => ?_) ?_
        · exact derives_slashed.mpr ⟨_, head, Or.inr ⟨gluedSlash_iff.mp glued, behind⟩⟩
        · intro short rest derived good
          obtain ⟨us, head, behind⟩ := derives_slashed.mp derived
          refine ⟨us, trivial, head, fun words => ⟨Nat.le_trans head.length_le short, ?_⟩⟩
          rcases behind with ⟨_, free⟩ | ⟨_, behind⟩
          · obtain ⟨t, first, isGlued⟩ := gluedSlash_iff.mp glued
            rw [words] at first
            rw [free t first] at isGlued
            exact absurd isGlued Bool.false_ne_true
          · exact behind
      · cases turned
    · cases turned
  | case3 v last found longer =>
    obtain ⟨next, follows, turned⟩ := goes v open'
    rw [found] at turned
    rcases turned with turned | ⟨turned, _⟩
    · rw [slashTurn] at turned
      split at turned
      · obtain rfl := Turn.again.inj turned
        refine follows.void (fun _ derived => longer ?_) id (heads v)
        rw [← State.length_words, ← State.length_words]
        exact (starts _ _ derived).1
      · cases turned
    · cases turned

end

end SecurityRules.Parser
