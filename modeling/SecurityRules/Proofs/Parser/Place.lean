import SecurityRules.Parser.State
import SecurityRules.Proofs.Token.Layout

/-!
# Where the parser stands in a file

A state that has taken all tokens up to an offset is determined by that offset, but for the comments it has
passed before. `State.At` says so; reading a token moves from one such state to the next one.
-/

namespace SecurityRules

namespace SourceFile

variable (f : SourceFile)

/-- The tokens that start from one offset on up to another. -/
def tokensIn (low high : Nat) : List Token :=
  f.tokens.filter fun t => decide (low ≤ t.start) && decide (t.start < high)

/-- The leaf of a comment. -/
def commentLeaf (t : Token) : ParseTree :=
  ParseTree.childless .comment (Extent.ofRange f t.start t.stop)

/-- The leaves of the comments that start from one offset on up to another. -/
def commentsIn (low high : Nat) : List ParseTree :=
  ((f.tokensIn low high).filter (·.kind.isComment)).map f.commentLeaf

theorem mem_tokensIn {low high : Nat} {t : Token} :
    t ∈ f.tokensIn low high ↔ t ∈ f.tokens ∧ low ≤ t.start ∧ t.start < high := by
  simp [tokensIn]

theorem tokensIn_append {low middle high : Nat} (lower : low ≤ middle) (upper : middle ≤ high) :
    f.tokensIn low middle ++ f.tokensIn middle high = f.tokensIn low high :=
  Sorted.filter_range_append Token.start lower upper f.laid_tokens.start_lt

theorem commentsIn_append {low middle high : Nat} (lower : low ≤ middle) (upper : middle ≤ high) :
    f.commentsIn low middle ++ f.commentsIn middle high = f.commentsIn low high := by
  rw [commentsIn, commentsIn, ← List.map_append, ← List.filter_append, f.tokensIn_append lower upper]
  rfl

theorem tokensIn_eq_nil {low high : Nat} (empty : high ≤ low) : f.tokensIn low high = [] := by
  rw [tokensIn, List.filter_eq_nil_iff]
  intro t _
  simp only [Bool.and_eq_true, decide_eq_true_eq]
  omega

theorem commentsIn_eq_nil {low high : Nat} (empty : high ≤ low) : f.commentsIn low high = [] := by
  rw [commentsIn, f.tokensIn_eq_nil empty]
  rfl

theorem tokensIn_whole : f.tokensIn 0 f.size = f.tokens := by
  rw [tokensIn, List.filter_eq_self]
  intro t member
  have filled := f.laid_tokens.filled t member
  have bounded := f.laid_tokens.bounded t member
  simp only [Nat.zero_le, decide_true, Bool.true_and, decide_eq_true_eq]
  omega

/-- Nothing but a token itself starts inside it. -/
theorem tokensIn_token {t : Token} (member : t ∈ f.tokens) : f.tokensIn t.start t.stop = [t] := by
  have filled := f.laid_tokens.filled t member
  obtain ⟨before, behind, split⟩ := List.append_of_mem member
  have apart := f.laid_tokens.apart
  rw [split, List.pairwise_append, List.pairwise_cons] at apart
  obtain ⟨_, ⟨later, _⟩, earlier⟩ := apart
  rw [tokensIn, split, List.filter_append, List.filter_cons_of_pos (by simp [filled])]
  have noneBefore : before.filter
      (fun u => decide (t.start ≤ u.start) && decide (u.start < t.stop)) = [] := by
    rw [List.filter_eq_nil_iff]
    intro u memberU
    have := earlier u memberU t (List.mem_cons_self ..)
    have := f.laid_tokens.filled u (by rw [split]; exact List.mem_append_left _ memberU)
    simp only [Bool.and_eq_true, decide_eq_true_eq]
    omega
  have noneBehind : behind.filter
      (fun u => decide (t.start ≤ u.start) && decide (u.start < t.stop)) = [] := by
    rw [List.filter_eq_nil_iff]
    intro u memberU
    have := later u memberU
    simp only [Bool.and_eq_true, decide_eq_true_eq]
    omega
  rw [noneBefore, noneBehind, List.nil_append]

theorem mem_commentsIn {low high : Nat} {c : ParseTree} (member : c ∈ f.commentsIn low high) :
    ∃ t ∈ f.tokensIn low high, t.kind.isComment = true ∧ c = f.commentLeaf t := by
  obtain ⟨t, kept, rfl⟩ := List.mem_map.mp member
  obtain ⟨inside, isComment⟩ := List.mem_filter.mp kept
  exact ⟨t, inside, isComment, rfl⟩

theorem start_of_mem_commentsIn {low high : Nat} {c : ParseTree} (member : c ∈ f.commentsIn low high) :
    low ≤ c.start ∧ c.start < high := by
  obtain ⟨t, inside, _, rfl⟩ := f.mem_commentsIn member
  exact ((f.mem_tokensIn).mp inside).2

/-- The comments in front of an offset. -/
theorem filter_commentsIn {low middle high : Nat} (lower : low ≤ middle) (upper : middle ≤ high) :
    (f.commentsIn low high).filter (fun c => decide (c.start < middle)) = f.commentsIn low middle := by
  have front : (f.commentsIn low middle).filter (fun c => decide (c.start < middle)) =
      f.commentsIn low middle := by
    rw [List.filter_eq_self]
    intro c member
    simpa using (f.start_of_mem_commentsIn member).2
  have behind : (f.commentsIn middle high).filter (fun c => decide (c.start < middle)) = [] := by
    rw [List.filter_eq_nil_iff]
    intro c member
    have := (f.start_of_mem_commentsIn member).1
    simp only [decide_eq_true_eq]
    omega
  rw [← f.commentsIn_append lower upper, List.filter_append, front, behind, List.append_nil]

/-- The leaves of comments lie behind each other. -/
theorem commentsIn_apart (low high : Nat) :
    (f.commentsIn low high).Pairwise fun a b => a.stop ≤ b.start := by
  rw [commentsIn, List.pairwise_map]
  exact ((f.laid_tokens.filter _).filter _).apart

end SourceFile

namespace Parser.State

/-- A state of a file that has taken the tokens before the offset `lastStop`, and passed the comments before
the token behind it. -/
structure At (f : SourceFile) (s : State) : Prop where
  file : s.file = f
  rest : s.rest = f.tokens.filter fun t => !t.kind.isComment && decide (s.lastStop ≤ t.start)
  comments : s.comments = f.tokens.filter fun t => t.kind.isComment && decide (s.peek.start ≤ t.start)
  pending : s.pending = s.pending.filter (fun c => decide (c.start < s.lastStop)) ++
    f.commentsIn s.lastStop s.peek.start
  edge : f.IsEdge s.lastStop

variable {f : SourceFile} {s : State}

theorem peek_of_rest {t : Token} {rest : List Token} (ahead : s.rest = t :: rest) : s.peek = t := by
  rw [peek, ahead]
  rfl

theorem peek_of_end (ended : s.rest = []) : s.peek = Token.endAt s.file.size := by
  rw [peek, ended]
  rfl

namespace At

theorem mem_rest (at' : At f s) {t : Token} (member : t ∈ s.rest) :
    t ∈ f.tokens ∧ t.kind.isComment = false ∧ s.lastStop ≤ t.start := by
  rw [at'.rest] at member
  obtain ⟨inside, kept⟩ := List.mem_filter.mp member
  simpa [inside] using kept

/-- The next token is one of the file, unless the input is used up. -/
theorem peek_mem (at' : At f s) (ahead : s.rest ≠ []) :
    s.peek ∈ f.tokens ∧ s.peek.kind.isComment = false ∧ s.lastStop ≤ s.peek.start := by
  cases split : s.rest with
  | nil => exact absurd split ahead
  | cons t rest =>
    rw [peek_of_rest split]
    exact at'.mem_rest (by rw [split]; exact List.mem_cons_self ..)

theorem bounded (at' : At f s) : s.lastStop ≤ f.size := at'.edge.bounded

theorem lastStop_le_peek (at' : At f s) : s.lastStop ≤ s.peek.start := by
  by_cases ahead : s.rest = []
  · rw [peek_of_end ahead, at'.file]
    exact at'.bounded
  · exact (at'.peek_mem ahead).2.2

theorem peek_le_size (at' : At f s) : s.peek.start ≤ f.size := by
  by_cases ahead : s.rest = []
  · rw [peek_of_end ahead, at'.file]
    exact Nat.le_refl _
  · have member := (at'.peek_mem ahead).1
    have := f.laid_tokens.filled _ member
    have := f.laid_tokens.bounded _ member
    omega

theorem edge_peek (at' : At f s) : f.IsEdge s.peek.start := by
  by_cases ahead : s.rest = []
  · rw [peek_of_end ahead, at'.file]
    exact Or.inr (Or.inl rfl)
  · exact Or.inr (Or.inr ⟨s.peek, (at'.peek_mem ahead).1, Or.inl rfl⟩)

/-- Only the next token can stand where the input goes on. -/
theorem peek_start_le (at' : At f s) {t : Token} (member : t ∈ s.rest) : s.peek.start ≤ t.start := by
  cases split : s.rest with
  | nil => rw [split] at member; exact absurd member (List.not_mem_nil)
  | cons u rest =>
    rw [peek_of_rest split]
    rw [split] at member
    rcases List.mem_cons.mp member with rfl | member
    · exact Nat.le_refl _
    · have sorted := (f.laid_tokens.filter fun t =>
        !t.kind.isComment && decide (s.lastStop ≤ t.start)).start_lt
      rw [← at'.rest, split] at sorted
      exact Nat.le_of_lt ((List.pairwise_cons.mp sorted).1 t member)

/-- In front of the next token there are only comments. -/
theorem isComment_of_gap (at' : At f s) {t : Token} (inside : t ∈ f.tokensIn s.lastStop s.peek.start) :
    t.kind.isComment = true := by
  obtain ⟨member, low, high⟩ := (f.mem_tokensIn).mp inside
  by_cases isComment : t.kind.isComment = true
  · exact isComment
  · have ahead : t ∈ s.rest := by
      rw [at'.rest, List.mem_filter]
      simp [member, low, isComment]
    have := at'.peek_start_le ahead
    omega

/-- The comments passed do not reach behind the next token. -/
theorem pending_lt (at' : At f s) {c : ParseTree} (member : c ∈ s.pending) : c.start < s.peek.start := by
  have below := at'.lastStop_le_peek
  rw [at'.pending] at member
  rcases List.mem_append.mp member with old | new
  · have := (List.mem_filter.mp old).2
    simp only [decide_eq_true_eq] at this
    omega
  · exact (f.start_of_mem_commentsIn new).2

/-- A token that starts in front of the next one has ended there. -/
theorem stop_le_peek (at' : At f s) {t : Token} (member : t ∈ f.tokens) (before : t.start < s.peek.start) :
    t.stop ≤ s.peek.start := by
  by_cases ahead : s.rest = []
  · rw [peek_of_end ahead, at'.file]
    exact f.laid_tokens.bounded t member
  · exact f.laid_tokens.stop_le_of_start_lt member (at'.peek_mem ahead).1 before

/-- Of the comments passed, those from an offset on are told apart from older ones. -/
theorem older_append {old : List ParseTree} {low high : Nat} (older : ∀ c ∈ old, c.start < low) :
    old ++ f.commentsIn low high =
      (old ++ f.commentsIn low high).filter (fun c => decide (c.start < low)) ++
        f.commentsIn low high := by
  have kept : old.filter (fun c => decide (c.start < low)) = old := by
    rw [List.filter_eq_self]
    intro c member
    simpa using older c member
  have dropped : (f.commentsIn low high).filter (fun c => decide (c.start < low)) = [] := by
    rw [List.filter_eq_nil_iff]
    intro c member
    have := f.start_of_mem_commentsIn member
    simp only [decide_eq_true_eq]
    omega
  rw [List.filter_append, kept, dropped, List.append_nil]

/-- Which comments passed earlier are still pending does not matter for where the state stands. -/
theorem withPending (at' : At f s) {old : List ParseTree} (older : ∀ c ∈ old, c.start < s.lastStop) :
    At f { s with pending := old ++ f.commentsIn s.lastStop s.peek.start } where
  file := at'.file
  rest := at'.rest
  comments := at'.comments
  pending := older_append older
  edge := at'.edge

/-- Passing the comments in front of the next token. -/
theorem passComments (s : State) (old : List ParseTree) (low : Nat) (file : s.file = f)
    (rest : s.rest = f.tokens.filter fun t => !t.kind.isComment && decide (s.lastStop ≤ t.start))
    (comments : s.comments = f.tokens.filter fun t => t.kind.isComment && decide (low ≤ t.start))
    (pending : s.pending = old) (edge : f.IsEdge s.lastStop) (below : low ≤ s.lastStop)
    (gap : ∀ t ∈ f.tokens, t.kind.isComment = true → low ≤ t.start → s.lastStop ≤ t.start)
    (older : ∀ c ∈ old, c.start < s.lastStop) (ahead : s.lastStop ≤ s.peek.start) :
    At f s.passComments ∧ s.passComments.pending = old ++ f.commentsIn s.lastStop s.peek.start := by
  have sorted := (f.laid_tokens.filter fun t => t.kind.isComment && decide (low ≤ t.start)).start_lt
  have passed : s.comments.takeWhile (fun t => decide (t.start < s.peek.start)) =
      (f.tokensIn s.lastStop s.peek.start).filter (·.kind.isComment) := by
    rw [comments, Sorted.takeWhile_eq_filter Token.start _ sorted, List.filter_filter,
      SourceFile.tokensIn, List.filter_filter]
    apply List.filter_congr
    intro t member
    have := gap t member
    rw [Bool.eq_iff_iff]
    simp only [Bool.and_eq_true, decide_eq_true_eq]
    constructor
    · rintro ⟨high, isComment, low⟩
      exact ⟨isComment, this isComment low, high⟩
    · rintro ⟨isComment, low', high⟩
      exact ⟨high, isComment, by omega⟩
  have left : s.comments.drop
      (s.comments.takeWhile (fun t => decide (t.start < s.peek.start))).length =
      f.tokens.filter fun t => t.kind.isComment && decide (s.peek.start ≤ t.start) := by
    rw [Sorted.drop_takeWhile, comments, Sorted.dropWhile_eq_filter Token.start _ sorted, List.filter_filter]
    apply List.filter_congr
    intro t _
    rw [Bool.eq_iff_iff]
    simp only [Bool.and_eq_true, decide_eq_true_eq]
    constructor
    · rintro ⟨high, isComment, _⟩
      exact ⟨isComment, high⟩
    · rintro ⟨isComment, high⟩
      exact ⟨high, isComment, by omega⟩
  have leaves : s.passComments.pending = old ++ f.commentsIn s.lastStop s.peek.start := by
    rw [State.passComments]
    simp only [passed, pending, leaf, file]
    rfl
  refine ⟨⟨file, rest, left, ?_, edge⟩, leaves⟩
  show s.passComments.pending =
    s.passComments.pending.filter (fun c => decide (c.start < s.lastStop)) ++
      f.commentsIn s.lastStop s.peek.start
  rw [leaves]
  exact older_append older

/-- The significant tokens behind a token that is one of them. -/
theorem rest_behind (at' : At f s) {t : Token} {rest : List Token} (ahead : s.rest = t :: rest) :
    rest = f.tokens.filter fun u => !u.kind.isComment && decide (t.stop ≤ u.start) := by
  obtain ⟨member, _, low⟩ := at'.mem_rest (by rw [ahead]; exact List.mem_cons_self ..)
  have filled := f.laid_tokens.filled t member
  have laid := f.laid_tokens.filter fun u => !u.kind.isComment && decide (s.lastStop ≤ u.start)
  rw [← at'.rest, ahead] at laid
  have behind := (List.pairwise_cons.mp laid.apart).1
  have narrowed : (f.tokens.filter fun u => !u.kind.isComment && decide (t.stop ≤ u.start)) =
      s.rest.filter fun u => decide (t.stop ≤ u.start) := by
    rw [at'.rest, List.filter_filter]
    apply List.filter_congr
    intro u _
    rw [Bool.eq_iff_iff]
    simp only [Bool.and_eq_true, decide_eq_true_eq]
    constructor
    · rintro ⟨significant, later⟩
      exact ⟨later, significant, by omega⟩
    · rintro ⟨later, significant, _⟩
      exact ⟨significant, later⟩
  rw [narrowed, ahead, List.filter_cons_of_neg (by simp only [decide_eq_true_eq]; omega)]
  symm
  rw [List.filter_eq_self]
  intro u memberU
  simpa using behind u memberU

/-- A state behind the next token has fewer tokens ahead. -/
theorem rest_shorter {s' : State} (at' : At f s) (behind : At f s') (ahead : s.rest ≠ [])
    (beyond : s.peek.stop ≤ s'.lastStop) : s'.rest.length < s.rest.length := by
  obtain ⟨t, rest, split⟩ := List.exists_cons_of_ne_nil ahead
  rw [peek_of_rest split] at beyond
  have narrowed : s'.rest = rest.filter fun u => decide (s'.lastStop ≤ u.start) := by
    rw [behind.rest, at'.rest_behind split, List.filter_filter]
    apply List.filter_congr
    intro u _
    rw [Bool.eq_iff_iff]
    simp only [Bool.and_eq_true, decide_eq_true_eq]
    constructor
    · rintro ⟨significant, later⟩
      exact ⟨later, significant, Nat.le_trans beyond later⟩
    · rintro ⟨later, significant, _⟩
      exact ⟨significant, later⟩
  rw [narrowed, split, List.length_cons]
  exact Nat.lt_succ_of_le (List.length_filter_le _ _)

/-- Taking a token: the state stands behind it and has passed the comments that follow it. -/
theorem advance (at' : At f s) {t : Token} {rest : List Token} (ahead : s.rest = t :: rest) :
    At f s.advance ∧ s.advance.lastStop = t.stop ∧ s.advance.rest = rest ∧
      s.advance.pending = s.pending ++ f.commentsIn t.stop s.advance.peek.start := by
  obtain ⟨member, significant, low⟩ := at'.mem_rest (by rw [ahead]; exact List.mem_cons_self ..)
  have filled := f.laid_tokens.filled t member
  have peek := peek_of_rest ahead
  have moved : s.advance = State.passComments { s with rest, lastStop := t.stop } := by
    rw [State.advance, ahead]
  have restEq := at'.rest_behind ahead
  have comments := at'.comments
  rw [peek] at comments
  have placed := passComments { s with rest, lastStop := t.stop } s.pending t.start at'.file restEq comments rfl
    (Or.inr (Or.inr ⟨t, member, Or.inr rfl⟩)) (Nat.le_of_lt filled)
    ?gap ?older ?behind
  · rw [moved]
    exact ⟨placed.1, rfl, rfl, placed.2⟩
  case gap =>
    intro c memberC isComment behind
    by_cases inside : c.start < t.stop
    · have same : c ∈ f.tokensIn t.start t.stop := (f.mem_tokensIn).mpr ⟨memberC, behind, inside⟩
      rw [f.tokensIn_token member] at same
      rw [List.mem_singleton.mp same, significant] at isComment
      exact absurd isComment Bool.false_ne_true
    · exact Nat.le_of_not_lt inside
  case older =>
    intro c memberC
    have := at'.pending_lt memberC
    rw [peek] at this
    exact Nat.lt_trans this filled
  case behind =>
    show t.stop ≤ (State.peek { s with rest, lastStop := t.stop }).start
    cases rest with
    | nil =>
      rw [peek_of_end rfl]
      show t.stop ≤ s.file.size
      rw [at'.file]
      exact f.laid_tokens.bounded t member
    | cons u rest =>
      rw [peek_of_rest rfl]
      have kept : u ∈ u :: rest := List.mem_cons_self ..
      rw [restEq] at kept
      have := (List.mem_filter.mp kept).2
      simp only [Bool.and_eq_true, decide_eq_true_eq] at this
      exact this.2

/-- The parser starts with all tokens ahead. -/
theorem start (f : SourceFile) : At f (State.start f) := by
  let whole : State :=
    { file := f
      rest := f.tokens.filter fun t => !t.kind.isComment
      comments := f.tokens.filter fun t => t.kind.isComment
      pending := []
      lastStop := 0 }
  have placed := passComments (f := f) whole [] 0 rfl ?rest ?comments rfl
    (Or.inl rfl) (Nat.le_refl _) (fun t _ _ low => low) (fun c member => absurd member List.not_mem_nil)
    (Nat.zero_le _)
  · exact placed.1
  case rest =>
    apply List.filter_congr
    intro t _
    simp [whole]
  case comments =>
    apply List.filter_congr
    intro t _
    simp

end At

end Parser.State

end SecurityRules
