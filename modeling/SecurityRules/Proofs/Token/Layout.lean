import SecurityRules.SourceFile
import SecurityRules.Token.Lexer

/-!
# Where tokens lie

The tokens of a text lie behind each other inside it, and each takes at least one byte. What stands
between two of them is white space, so an offset belongs to at most one token.
-/

namespace SecurityRules

namespace Sorted

/-- In a list sorted by a key, the entries up to a key come before all others. -/
theorem takeWhile_eq_filter {α : Type} (key : α → Nat) (bound : Nat) {l : List α}
    (sorted : l.Pairwise fun a b => key a < key b) :
    l.takeWhile (fun a => decide (key a < bound)) = l.filter (fun a => decide (key a < bound)) := by
  induction l with
  | nil => rfl
  | cons a rest ih =>
    obtain ⟨behind, sorted⟩ := List.pairwise_cons.mp sorted
    by_cases low : key a < bound
    · rw [List.takeWhile_cons_of_pos (by simpa using low), List.filter_cons_of_pos (by simpa using low),
        ih sorted]
    · rw [List.takeWhile_cons_of_neg (by simpa using low), List.filter_cons_of_neg (by simpa using low)]
      symm
      rw [List.filter_eq_nil_iff]
      intro b member
      have := behind b member
      simp only [decide_eq_true_eq]
      omega

theorem dropWhile_eq_filter {α : Type} (key : α → Nat) (bound : Nat) {l : List α}
    (sorted : l.Pairwise fun a b => key a < key b) :
    l.dropWhile (fun a => decide (key a < bound)) = l.filter (fun a => decide (bound ≤ key a)) := by
  induction l with
  | nil => rfl
  | cons a rest ih =>
    obtain ⟨behind, sorted⟩ := List.pairwise_cons.mp sorted
    by_cases low : key a < bound
    · rw [List.dropWhile_cons_of_pos (by simpa using low), List.filter_cons_of_neg (by simpa using low),
        ih sorted]
    · rw [List.dropWhile_cons_of_neg (by simpa using low)]
      symm
      rw [List.filter_eq_self]
      intro b member
      rcases List.mem_cons.mp member with rfl | member
      · simpa using low
      · have := behind b member
        simp only [decide_eq_true_eq]
        omega

theorem drop_takeWhile {α : Type} (p : α → Bool) (l : List α) :
    l.drop (l.takeWhile p).length = l.dropWhile p := by
  calc l.drop (l.takeWhile p).length
      = (l.takeWhile p ++ l.dropWhile p).drop (l.takeWhile p).length := by
        rw [List.takeWhile_append_dropWhile]
    _ = l.dropWhile p := List.drop_left

/-- The entries of a sorted list from one key up to another, cut at a key between them. -/
theorem filter_range_append {α : Type} (key : α → Nat) {low middle high : Nat}
    (lower : low ≤ middle) (upper : middle ≤ high) {l : List α}
    (sorted : l.Pairwise fun a b => key a < key b) :
    l.filter (fun a => decide (low ≤ key a) && decide (key a < middle)) ++
        l.filter (fun a => decide (middle ≤ key a) && decide (key a < high)) =
      l.filter (fun a => decide (low ≤ key a) && decide (key a < high)) := by
  induction l with
  | nil => rfl
  | cons a rest ih =>
    obtain ⟨behind, sorted⟩ := List.pairwise_cons.mp sorted
    have rest := ih sorted
    by_cases first : key a < middle
    · have second : ¬ middle ≤ key a := by omega
      by_cases inside : low ≤ key a
      · have : key a < high := by omega
        simp [first, second, inside, this, ← rest]
      · simp [inside, second, ← rest]
    · have none_left : List.filter (fun a => decide (low ≤ key a) && decide (key a < middle)) ‹_› = [] := by
        rw [List.filter_eq_nil_iff]
        intro b member
        have := behind b member
        simp only [Bool.and_eq_true, decide_eq_true_eq]
        omega
      rw [none_left, List.nil_append] at rest
      have lowest : low ≤ key a := by omega
      have middle' : middle ≤ key a := by omega
      simp [List.filter_cons, first, lowest, middle', none_left, rest]

end Sorted

/-- Tokens that lie behind each other in a text of `size` bytes, none of them empty. -/
structure Token.Laid (size : Nat) (tokens : List Token) : Prop where
  apart : tokens.Pairwise fun a b => a.stop ≤ b.start
  filled : ∀ t ∈ tokens, t.start < t.stop
  bounded : ∀ t ∈ tokens, t.stop ≤ size

/-- The tokens of a file, comments included, without the empty one at the end. -/
def SourceFile.tokens (f : SourceFile) : List Token :=
  (Lexer.tokens f.content).filter (·.kind != .endOfInput)

namespace Token.Laid

variable {size : Nat} {tokens : List Token}

theorem filter (laid : Laid size tokens) (p : Token → Bool) : Laid size (tokens.filter p) where
  apart := laid.apart.filter p
  filled := fun t member => laid.filled t (List.mem_filter.mp member).1
  bounded := fun t member => laid.bounded t (List.mem_filter.mp member).1

theorem append {others : List Token} (laid : Laid size (tokens ++ others)) :
    Laid size tokens ∧ Laid size others ∧ ∀ a ∈ tokens, ∀ b ∈ others, a.stop ≤ b.start := by
  obtain ⟨apart, apart', between⟩ := List.pairwise_append.mp laid.apart
  exact ⟨⟨apart, fun t member => laid.filled t (List.mem_append_left _ member),
    fun t member => laid.bounded t (List.mem_append_left _ member)⟩,
    ⟨apart', fun t member => laid.filled t (List.mem_append_right _ member),
    fun t member => laid.bounded t (List.mem_append_right _ member)⟩, between⟩

theorem start_lt (laid : Laid size tokens) : tokens.Pairwise fun a b => a.start < b.start := by
  refine laid.apart.imp_of_mem ?_
  intro a b memberA memberB apart
  exact Nat.lt_of_lt_of_le (laid.filled a memberA) apart

/-- Of two tokens the one that starts first has ended when the other one starts. -/
theorem stop_le_of_start_lt (laid : Laid size tokens) {a b : Token} (memberA : a ∈ tokens)
    (memberB : b ∈ tokens) (before : a.start < b.start) : a.stop ≤ b.start := by
  obtain ⟨front, behind, split⟩ := List.append_of_mem memberA
  have apart := laid.apart
  rw [split, List.pairwise_append, List.pairwise_cons] at apart
  obtain ⟨_, ⟨later, _⟩, earlier⟩ := apart
  rw [split, List.mem_append, List.mem_cons] at memberB
  rcases memberB with memberB | rfl | memberB
  · have wrong := earlier b memberB a (List.mem_cons_self ..)
    have filled := laid.filled b (by rw [split]; exact List.mem_append_left _ memberB)
    omega
  · exact absurd before (Nat.lt_irrefl _)
  · exact later b memberB

end Token.Laid

namespace Lexer

theorem Cursor.skipBlanks_offset (c : Cursor) :
    c.skipBlanks.offset + c.skipBlanks.rest.length = c.offset + c.rest.length := by
  have split := congrArg List.length (List.takeWhile_append_dropWhile (p := isBlank) (l := c.rest))
  rw [List.length_append] at split
  simp only [Cursor.skipBlanks]
  omega

theorem Cursor.offset_le_skipBlanks (c : Cursor) : c.offset ≤ c.skipBlanks.offset := by
  simp only [Cursor.skipBlanks]
  omega

/-- A token lies between the cursor in front of it and the cursor behind it, and what is left of the
text is what stands behind the token. -/
theorem Cursor.next_bounds (c : Cursor) (found : c.skipBlanks.rest ≠ []) :
    c.offset ≤ c.next.1.start ∧ c.next.1.start < c.next.1.stop ∧
      c.next.2.offset = c.next.1.stop ∧
      c.next.2.offset + c.next.2.rest.length = c.offset + c.rest.length := by
  have total := c.skipBlanks_offset
  have ahead := c.offset_le_skipBlanks
  unfold Cursor.next
  split
  · rename_i shape
    simp [shape] at found
  · rename_i offset b rest shape
    simp only [shape, List.length_cons] at total ahead
    refine ⟨ahead, ?_, rfl, ?_⟩
    · simp [tokenAt]
    · simp only [tokenAt, List.length_cons, List.length_take, List.length_drop]
      omega

/-- The tokens from a cursor on lie behind each other up to the end of the text. -/
theorem laid_tokensFrom (c : Cursor) :
    let tokens := (tokensFrom c).filter (·.kind != .endOfInput)
    Token.Laid (c.offset + c.rest.length) tokens ∧ ∀ t ∈ tokens, c.offset ≤ t.start := by
  fun_induction tokensFrom c with
  | case1 c ended =>
    have kind : c.next.1.kind = .endOfInput := by
      unfold Cursor.next
      split
      · rfl
      · rename_i shape
        simp [shape] at ended
    simp only [List.filter_cons, kind, bne_self_eq_false, Bool.false_eq_true, ↓reduceIte,
      List.filter_nil, List.not_mem_nil, false_implies, implies_true, and_true]
    exact ⟨List.Pairwise.nil, by simp, by simp⟩
  | case2 c found ih =>
    obtain ⟨front, filled, joined, total⟩ := c.next_bounds found
    obtain ⟨laid, behind⟩ := ih
    rw [total] at laid
    rw [joined] at behind total
    rw [List.filter_cons]
    split
    · refine ⟨⟨List.pairwise_cons.mpr ⟨behind, laid.apart⟩, ?_, ?_⟩, ?_⟩
      · intro t member
        rcases List.mem_cons.mp member with rfl | member
        · exact filled
        · exact laid.filled t member
      · intro t member
        rcases List.mem_cons.mp member with rfl | member
        · omega
        · exact laid.bounded t member
      · intro t member
        rcases List.mem_cons.mp member with rfl | member
        · exact front
        · have := behind t member
          omega
    · refine ⟨laid, ?_⟩
      intro t member
      have := behind t member
      omega

end Lexer

/-- The tokens of a file lie behind each other inside it. -/
theorem SourceFile.laid_tokens (f : SourceFile) : Token.Laid f.size f.tokens := by
  have laid := (Lexer.laid_tokensFrom (Lexer.Cursor.start f.content)).1
  simp only [Lexer.Cursor.start, Nat.zero_add] at laid
  exact laid

/-- The places at which a token can start or end, and the ends of the file. -/
def SourceFile.IsEdge (f : SourceFile) (n : Nat) : Prop :=
  n = 0 ∨ n = f.size ∨ ∃ t ∈ f.tokens, n = t.start ∨ n = t.stop

theorem SourceFile.IsEdge.bounded {f : SourceFile} {n : Nat} (edge : f.IsEdge n) : n ≤ f.size := by
  rcases edge with rfl | rfl | ⟨t, member, here⟩
  · exact Nat.zero_le _
  · exact Nat.le_refl _
  · have filled := f.laid_tokens.filled t member
    have bounded := f.laid_tokens.bounded t member
    omega

theorem SourceFile.kind_ne_endOfInput (f : SourceFile) {t : Token} (member : t ∈ f.tokens) :
    t.kind ≠ .endOfInput := by
  have kept := (List.mem_filter.mp member).2
  simpa using kept

end SecurityRules
