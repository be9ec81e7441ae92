import SecurityRules.Proofs.Token.Heads

/-!
# Tokens tile a text

The tokens of a text and the white space between them are the whole text, and the empty token stands behind it. A
reader that takes the tokens one by one, with looks ahead in between, gets exactly these tokens.
-/

namespace SecurityRules.Lexer

/-! ## Only the end of a text is one -/

theorem measureName_ne_end (b : UInt8) (rest : Bytes) : (measureName b rest).1 ≠ .endOfInput := by
  unfold measureName
  dsimp only
  split
  · cases found : TokenKind.keyword? _ with
    | none => exact TokenKind.noConfusion
    | some k =>
      have reserved : k ∈ TokenKind.keywords := List.mem_of_find?_eq_some found
      rintro rfl
      revert reserved
      decide
  · exact TokenKind.noConfusion

/-- What the lexer measures at a byte is never the end of the text. -/
theorem measure_ne_end (b : UInt8) (rest : Bytes) : (measure b rest).1 ≠ .endOfInput := by
  unfold measure
  split
  · rename_i found
    unfold measureComment? at found
    repeat' split at found
    all_goals
      cases found
      try exact TokenKind.noConfusion
  · split
    · exact measureName_ne_end b rest
    · split
      · exact TokenKind.noConfusion
      · split
        · dsimp only
          split <;> exact TokenKind.noConfusion
        · exact (measureSign_other b rest).2

/-! ## One token -/

variable {text : Bytes} {c : Cursor}

/-- At the end of the text the next token is the empty one, and the cursor stays there. -/
theorem Cursor.next_of_ended (ended : c.skipBlanks.rest = []) :
    c.next = (Token.endAt (c.offset + c.rest.length), ⟨c.offset + c.rest.length, []⟩) := by
  have total := c.skipBlanks_offset
  rw [ended, List.length_nil, Nat.add_zero] at total
  unfold next
  split
  · rename_i offset shape
    rw [shape] at total
    rw [← total]
  · rename_i shape
    rw [shape] at ended
    cases ended

theorem Cursor.next_of_found (found : c.skipBlanks.rest ≠ []) :
    c.next.1.kind ≠ .endOfInput ∧ c.next.1.start = c.skipBlanks.offset := by
  unfold next
  split
  · rename_i shape
    rw [shape] at found
    exact absurd rfl found
  · rename_i offset b rest shape
    rw [shape]
    exact ⟨measure_ne_end b rest, rfl⟩

/-- What the cursor passes over in front of a token is white space. -/
theorem Cursor.IsIn.isBlank_of_passed (inText : c.IsIn text) {i : Nat} {b : UInt8} (found : text[i]? = some b)
    (low : c.offset ≤ i) (high : i < c.skipBlanks.offset) : isBlank b = true := by
  have here : c.rest[i - c.offset]? = some b := by
    rw [inText, List.getElem?_drop, Nat.add_sub_cancel' low]
    exact found
  have passed : i - c.offset < (c.rest.takeWhile isBlank).length := by
    have high : i < c.offset + (c.rest.takeWhile isBlank).length := high
    omega
  have member : b ∈ c.rest.takeWhile isBlank := by
    have first : (c.rest.takeWhile isBlank ++ c.rest.dropWhile isBlank)[i - c.offset]? =
        (c.rest.takeWhile isBlank)[i - c.offset]? := List.getElem?_append_left passed
    rw [List.takeWhile_append_dropWhile, here] at first
    exact List.mem_of_getElem? first.symm
  exact List.all_eq_true.mp List.all_takeWhile b member

/-- The text of a token are the bytes from its start up to its end. -/
theorem text_of_measured {t : Token} (measured : t.Measured text) :
    t.text = (text.drop t.start).take (t.stop - t.start) := by
  obtain ⟨b, rest, head, _, same⟩ := measured
  rw [head]
  generalize t.start = offset at same
  subst same
  simp only [tokenAt, List.length_cons, List.length_take, Nat.add_sub_cancel_left, List.take_succ_cons]
  rw [List.take_eq_take_min]

/-! ## All tokens -/

/-- Tokens that tile a text. -/
structure Tiling (text : Bytes) (tokens : List Token) : Prop where
  /-- The empty token at the end of the text is the last one, and no other one is of its kind. -/
  ended : ∃ front, tokens = front ++ [Token.endAt text.length] ∧ ∀ t ∈ front, t.kind ≠ .endOfInput
  filled : ∀ t ∈ tokens, t.kind ≠ .endOfInput → t.start < t.stop
  bounded : ∀ t ∈ tokens, t.stop ≤ text.length
  spelled : ∀ t ∈ tokens, t.text = (text.drop t.start).take (t.stop - t.start)
  apart : tokens.Pairwise fun a b => a.stop ≤ b.start
  /-- What belongs to no token is a space, tab, LF, CR, FF or VT. -/
  blank : ∀ i b, text[i]? = some b → (∀ t ∈ tokens, ¬ (t.start ≤ i ∧ i < t.stop)) →
    b ∈ ([0x20, 0x09, 0x0A, 0x0D, 0x0C, 0x0B] : List UInt8)

theorem ended_tokensFrom (c : Cursor) : ∃ front, tokensFrom c = front ++ [Token.endAt (c.offset + c.rest.length)] ∧
    ∀ t ∈ front, t.kind ≠ .endOfInput := by
  fun_induction tokensFrom c with
  | case1 c ended =>
    rw [Cursor.next_of_ended ended]
    exact ⟨[], rfl, by simp⟩
  | case2 c found ih =>
    obtain ⟨front, shape, significant⟩ := ih
    rw [shape, (c.next_bounds found).2.2.2]
    refine ⟨c.next.1 :: front, rfl, ?_⟩
    intro t member
    rcases List.mem_cons.mp member with rfl | behind
    · exact (Cursor.next_of_found found).1
    · exact significant t behind

/-- A byte behind a cursor is white space or belongs to a token. -/
theorem isBlank_of_outside (c : Cursor) (inText : c.IsIn text) {i : Nat} {b : UInt8} (found : text[i]? = some b)
    (low : c.offset ≤ i) (outside : ∀ t ∈ tokensFrom c, ¬ (t.start ≤ i ∧ i < t.stop)) : isBlank b = true := by
  fun_induction tokensFrom c with
  | case1 c ended =>
    have total := c.skipBlanks_offset
    rw [ended, inText, List.length_drop] at total
    have inside := (List.getElem?_eq_some_iff.mp found).1
    refine inText.isBlank_of_passed found low ?_
    simp only [List.length_nil] at total
    omega
  | case2 c ahead ih =>
    by_cases passed : i < c.skipBlanks.offset
    · exact inText.isBlank_of_passed found low passed
    · obtain ⟨_, start⟩ := Cursor.next_of_found ahead
      obtain ⟨_, _, joined, _⟩ := c.next_bounds ahead
      have beyond := outside _ (List.mem_cons_self ..)
      exact ih inText.next (by omega) fun t member => outside t (List.mem_cons_of_mem _ member)

theorem isBlank_iff {b : UInt8} : isBlank b = true ↔ b ∈ ([0x20, 0x09, 0x0A, 0x0D, 0x0C, 0x0B] : List UInt8) := by
  simp [isBlank, or_assoc]

theorem tiling_tokens (text : Bytes) : Tiling text (tokens text) := by
  obtain ⟨front, shape, significant⟩ : ∃ front, tokens text = front ++ [Token.endAt text.length] ∧
      ∀ t ∈ front, t.kind ≠ .endOfInput := by
    simpa [Cursor.start, tokens] using ended_tokensFrom (Cursor.start text)
  have kept : (tokens text).filter (·.kind != .endOfInput) = front := by
    rw [shape, List.filter_append, List.filter_eq_self.mpr fun t member => by simpa using significant t member]
    simp [Token.endAt]
  have laid : Token.Laid text.length front := by
    have laid := (laid_tokensFrom (Cursor.start text)).1
    rw [← tokens, kept] at laid
    simpa [Cursor.start] using laid
  have measured := measured_tokensFrom (Cursor.start text) rfl
  rw [← tokens, shape] at measured
  rw [shape]
  refine ⟨⟨front, rfl, significant⟩, ?_, ?_, ?_, ?_, ?_⟩
  · intro t member other
    rcases List.mem_append.mp member with token | last
    · exact laid.filled t token
    · rw [List.mem_singleton.mp last] at other
      exact absurd rfl other
  · intro t member
    rcases List.mem_append.mp member with token | last
    · exact laid.bounded t token
    · rw [List.mem_singleton.mp last]
      exact Nat.le_refl _
  · intro t member
    rcases List.mem_append.mp member with token | last
    · exact text_of_measured (measured t member (significant t token))
    · rw [List.mem_singleton.mp last]
      simp [Token.endAt]
  · refine List.pairwise_append.mpr ⟨laid.apart, List.pairwise_singleton _ _, fun a token b last => ?_⟩
    rw [List.mem_singleton.mp last]
    exact laid.bounded a token
  · intro i b found outside
    rw [← shape] at outside
    exact isBlank_iff.mp (isBlank_of_outside (Cursor.start text) rfl found (Nat.zero_le i) outside)

/-! ## Reading token by token -/

/-- What can be asked of a reader. -/
inductive Call where
  | next | peek
deriving Repr, DecidableEq

/-- The answer to a call and the reader behind it. -/
def Reader.answer (r : Reader) : Call → Token × Reader
  | .next => r.next
  | .peek => r.peek

/-- The answers to calls, one after the other. -/
def Reader.answers : Reader → List Call → List Token
  | _, [] => []
  | r, call :: calls => (r.answer call).1 :: (r.answer call).2.answers calls

/-- The answers to those calls that take a token. -/
def Reader.taken (r : Reader) (calls : List Call) : List Token :=
  ((calls.zip (r.answers calls)).filter (·.1 == .next)).map (·.2)

/-- The token after `n` others. -/
def Cursor.nth (c : Cursor) : Nat → Token
  | 0 => c.next.1
  | n + 1 => c.next.2.nth n

/-- The token that a reader takes after `n` others. -/
def Reader.nth (r : Reader) (n : Nat) : Token :=
  match r.ahead, n with
  | none, n => r.cursor.nth n
  | some t, 0 => t
  | some _, n + 1 => r.cursor.nth n

theorem Cursor.nth_of_ended (offset n : Nat) : Cursor.nth ⟨offset, []⟩ n = Token.endAt offset := by
  induction n with
  | zero => rfl
  | succ n ih => exact ih

/-- Behind the last token the empty one is read again and again. -/
theorem Cursor.nth_eq (c : Cursor) (n : Nat) :
    c.nth n = (tokensFrom c).getD n (Token.endAt (c.offset + c.rest.length)) := by
  fun_induction tokensFrom c generalizing n with
  | case1 c ended =>
    cases n with
    | zero => rfl
    | succ n =>
      rw [nth, next_of_ended ended, nth_of_ended]
      rfl
  | case2 c found ih =>
    cases n with
    | zero => rfl
    | succ n =>
      rw [nth, ih n, (c.next_bounds found).2.2.2]
      rfl

theorem Reader.next_eq (r : Reader) : r.next.1 = r.nth 0 ∧ ∀ n, r.next.2.nth n = r.nth (n + 1) := by
  obtain ⟨cursor, ahead⟩ := r
  cases ahead with
  | none => exact ⟨rfl, fun _ => rfl⟩
  | some t => exact ⟨rfl, fun _ => rfl⟩

/-- A look ahead shows the next token and changes nothing. -/
theorem Reader.peek_eq (r : Reader) : r.peek.1 = r.nth 0 ∧ ∀ n, r.peek.2.nth n = r.nth n := by
  obtain ⟨cursor, ahead⟩ := r
  cases ahead with
  | none => exact ⟨rfl, fun n => by cases n <;> rfl⟩
  | some t => exact ⟨rfl, fun n => by cases n <;> rfl⟩

/-- The number of tokens that calls take. -/
def takes (calls : List Call) : Nat := calls.count .next

theorem takes_next (calls : List Call) : takes (.next :: calls) = takes calls + 1 := List.count_cons_self

theorem takes_peek (calls : List Call) : takes (.peek :: calls) = takes calls := List.count_cons_of_ne (by decide)

/-- Each call is answered by the token at the number of tokens taken before. -/
theorem Reader.getElem?_answers (r : Reader) (calls : List Call) (i : Nat) (inside : i < calls.length) :
    (r.answers calls)[i]? = some (r.nth (takes (calls.take i))) := by
  induction calls generalizing r i with
  | nil => exact absurd inside (Nat.not_lt_zero i)
  | cons call calls ih =>
    cases i with
    | zero =>
      cases call with
      | next => exact congrArg some r.next_eq.1
      | peek => exact congrArg some r.peek_eq.1
    | succ i =>
      have later := ih (r.answer call).2 i (Nat.lt_of_succ_lt_succ inside)
      rw [answers, List.getElem?_cons_succ, later, List.take_succ_cons]
      cases call with
      | next => rw [answer, r.next_eq.2, takes_next]
      | peek => rw [answer, r.peek_eq.2, takes_peek]

theorem Reader.taken_eq (r : Reader) (calls : List Call) : r.taken calls = (List.range (takes calls)).map r.nth := by
  induction calls generalizing r with
  | nil => rfl
  | cons call calls ih =>
    cases call with
    | next =>
      have later : r.next.2.taken calls = (List.range (takes calls)).map fun n => r.nth (n + 1) := by
        rw [ih]
        exact List.map_congr_left fun n _ => r.next_eq.2 n
      have split : r.taken (.next :: calls) = r.next.1 :: r.next.2.taken calls := rfl
      rw [split, later, r.next_eq.1, takes_next, List.range_succ_eq_map, List.map_cons, List.map_map]
      rfl
    | peek =>
      have split : r.taken (.peek :: calls) = r.peek.2.taken calls := rfl
      rw [split, ih, takes_peek]
      exact List.map_congr_left fun n _ => r.peek_eq.2 n

/-- Reading token by token gives these tokens, and the empty one behind them again and again. -/
structure ReadBy (text : Bytes) (tokens : List Token) : Prop where
  /-- The tokens taken are the first ones, as many as the calls take. -/
  taken : ∀ calls, (Reader.start text).taken calls =
    tokens.take (takes calls) ++ List.replicate (takes calls - tokens.length) (Token.endAt text.length)
  /-- A look ahead shows what is taken next, however often it is repeated. -/
  shown : ∀ (calls : List Call) (i j : Nat), i < j → calls[j]? = some .next → (∀ k, i ≤ k → k < j → calls[k]? = some .peek) →
    ((Reader.start text).answers calls)[i]? = ((Reader.start text).answers calls)[j]?

theorem nth_start (text : Bytes) (n : Nat) :
    (Reader.start text).nth n = (tokens text).getD n (Token.endAt text.length) := by
  have here := (Cursor.start text).nth_eq n
  rw [← tokens] at here
  simpa [Reader.nth, Reader.start, Cursor.start] using here

/-- The first `n` entries of a list, and a filling behind its end. -/
theorem map_getD_range {α : Type} (l : List α) (filling : α) (n : Nat) :
    (List.range n).map (fun i => l.getD i filling) = l.take n ++ List.replicate (n - l.length) filling := by
  induction n generalizing l with
  | zero => simp
  | succ n ih =>
    rw [List.range_succ_eq_map, List.map_cons, List.map_map]
    cases l with
    | nil =>
      have rest := ih []
      simp only [List.getD_nil, List.take_nil, List.length_nil, Nat.sub_zero, List.nil_append] at rest
      simp only [List.getD_nil, List.take_nil, List.length_nil, Nat.sub_zero, List.nil_append, List.replicate_succ]
      exact congrArg (filling :: ·) rest
    | cons a l =>
      rw [List.take_succ_cons, List.length_cons, Nat.add_sub_add_right, List.cons_append, ← ih l]
      rfl

theorem takes_of_peeks {calls : List Call} {i j : Nat} (order : i ≤ j)
    (peeks : ∀ k, i ≤ k → k < j → calls[k]? = some .peek) : takes (calls.take j) = takes (calls.take i) := by
  induction order with
  | refl => rfl
  | @step j order ih =>
    have before := ih fun k low high => peeks k low (Nat.lt_succ_of_lt high)
    rw [List.take_add_one, peeks j order (Nat.lt_succ_self j), takes, List.count_append]
    exact before

theorem readBy_tokens (text : Bytes) : ReadBy text (tokens text) where
  taken := fun calls => by
    rw [Reader.taken_eq, ← map_getD_range]
    exact List.map_congr_left fun n _ => nth_start text n
  shown := fun calls i j order next peeks => by
    have inside : j < calls.length := (List.getElem?_eq_some_iff.mp next).1
    rw [Reader.getElem?_answers _ _ i (Nat.lt_trans order inside), Reader.getElem?_answers _ _ j inside,
      takes_of_peeks (Nat.le_of_lt order) peeks]

/-- The tokens of a text tile it, and reading them one by one gives the same tokens. -/
theorem tokens_tile (text : Bytes) : Tiling text (tokens text) ∧ ReadBy text (tokens text) :=
  ⟨tiling_tokens text, readBy_tokens text⟩

end SecurityRules.Lexer
