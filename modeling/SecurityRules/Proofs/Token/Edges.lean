import SecurityRules.Proofs.Text.Fields
import SecurityRules.Proofs.Token.Heads

/-!
# Tokens are made of whole characters

The places where tokens start and end are boundaries of the characters of the text, also where the text is no
well-formed UTF-8.
-/

namespace SecurityRules

open Utf8 (Boundary isAscii)

namespace Lexer

/-- The bytes up to an offset are all characters of their own. -/
def Plain (s : Bytes) (n : Nat) : Prop := n ≤ s.length ∧ ∀ b ∈ s.take n, isAscii b = true

namespace Plain

variable {s : Bytes} {n m : Nat}

theorem boundary (plain : Plain s n) : Boundary s n := .of_forall plain.1 plain.2

theorem zero (s : Bytes) : Plain s 0 := ⟨Nat.zero_le _, by simp⟩

theorem add (front : Plain s n) (back : Plain (s.drop n) m) : Plain s (n + m) := by
  obtain ⟨short, ascii⟩ := front
  obtain ⟨short', ascii'⟩ := back
  rw [List.length_drop] at short'
  refine ⟨by omega, fun b member => ?_⟩
  rw [List.take_add] at member
  rcases List.mem_append.mp member with first | second
  · exact ascii b first
  · exact ascii' b second

theorem cons {b : UInt8} (ascii : isAscii b = true) (back : Plain s n) : Plain (b :: s) (n + 1) := by
  refine ⟨Nat.succ_le_succ back.1, fun c member => ?_⟩
  rw [List.take_succ_cons] at member
  rcases List.mem_cons.mp member with rfl | later
  · exact ascii
  · exact back.2 c later

theorem takeWhile {p : UInt8 → Bool} (ascii : ∀ b, p b = true → isAscii b = true) (s : Bytes) :
    Plain s (s.takeWhile p).length := by
  refine ⟨(List.takeWhile_sublist p).length_le, fun b member => ?_⟩
  rw [← List.prefix_iff_eq_take.mp (List.takeWhile_prefix p)] at member
  exact ascii b (List.all_eq_true.mp List.all_takeWhile b member)

end Plain

theorem isAscii_of_isBlank (b : UInt8) (blank : isBlank b = true) : isAscii b = true := by
  simp only [isBlank, Bool.or_eq_true, beq_iff_eq] at blank
  obtain ((((rfl | rfl) | rfl) | rfl) | rfl) | rfl := blank <;> rfl

/-! ## Numbers -/

theorem plain_digitsLength (s : Bytes) : Plain s (digitsLength s) := .takeWhile Bytes.isAscii_of_isDigit s

theorem plain_fractionLength (s : Bytes) : Plain s (fractionLength s) := by
  unfold fractionLength
  split
  · rename_i d rest
    split
    · rename_i digit
      rw [Nat.add_comm 2]
      exact ((plain_digitsLength rest).cons (Bytes.isAscii_of_isDigit d digit)).cons rfl
    · exact .zero _
  · exact .zero _

theorem plain_signLength (s : Bytes) : Plain s (signLength s) := by
  unfold signLength
  split
  · rename_i b rest
    split
    · rename_i sign
      refine (Plain.zero rest).cons ?_
      rcases Bool.or_eq_true_iff.mp sign with same | same
      · rw [beq_iff_eq.mp same]
        rfl
      · rw [beq_iff_eq.mp same]
        rfl
    · exact .zero _
  · exact .zero _

theorem plain_exponentLength (s : Bytes) : Plain s (exponentLength s) := by
  unfold exponentLength
  split
  · rename_i b rest
    split
    · rename_i letter
      dsimp only
      split
      · exact .zero _
      · rw [Nat.add_assoc, Nat.add_comm 1]
        refine ((plain_signLength rest).add (plain_digitsLength _)).cons ?_
        rcases Bool.or_eq_true_iff.mp letter with same | same
        · rw [beq_iff_eq.mp same]
          rfl
        · rw [beq_iff_eq.mp same]
          rfl
    · exact .zero _
  · exact .zero _

theorem plain_numberLength (s : Bytes) : Plain s (numberLength s) :=
  ((plain_digitsLength s).add (plain_fractionLength _)).add (plain_exponentLength _)

/-- What starts as a number takes at least one byte. -/
theorem numberLength_pos {b : UInt8} {rest : Bytes}
    (isNumber : (Bytes.isDigit b || fractionLength (b :: rest) != 0) = true) : 0 < numberLength (b :: rest) := by
  unfold numberLength
  dsimp only
  by_cases digit : Bytes.isDigit b = true
  · have whole : 0 < digitsLength (b :: rest) := by
      rw [digitsLength, List.takeWhile_cons_of_pos digit]
      exact Nat.succ_pos _
    omega
  · have none : digitsLength (b :: rest) = 0 := by
      rw [digitsLength, List.takeWhile_cons_of_neg digit]
      rfl
    have fraction : fractionLength (b :: rest) ≠ 0 := by simpa [digit] using isNumber
    rw [none, List.drop_zero]
    omega

/-! ## Names, strings and comments -/

/-- A name goes on with whole characters. -/
theorem boundary_nameLength (s : Bytes) : Boundary s (nameLength s) := by
  induction s using Utf8.induct with
  | nil =>
    rw [nameLength]
    exact .zero _
  | cons b rest ih =>
    rw [nameLength]
    split
    · exact .next ih
    · exact .zero _

/-- An offset at the end of a text, or next to a byte that is a character of its own. -/
inductive Marked : Bytes → Nat → Prop
  | stop (s : Bytes) : Marked s s.length
  | before {b : UInt8} (s : Bytes) (ascii : isAscii b = true) : Marked (b :: s) 0
  | behind {b : UInt8} (s : Bytes) (ascii : isAscii b = true) : Marked (b :: s) 1
  | cons (b : UInt8) {s : Bytes} {n : Nat} (later : Marked s n) : Marked (b :: s) (n + 1)

theorem Marked.cases {s : Bytes} {n : Nat} (marked : Marked s n) :
    n = s.length ∨ (∃ b, s[n]? = some b ∧ isAscii b = true) ∨
      ∃ m b, n = m + 1 ∧ s[m]? = some b ∧ isAscii b = true := by
  induction marked with
  | stop s => exact Or.inl rfl
  | before s ascii => exact Or.inr (Or.inl ⟨_, rfl, ascii⟩)
  | behind s ascii => exact Or.inr (Or.inr ⟨0, _, rfl, rfl, ascii⟩)
  | cons b _ ih =>
    rcases ih with rfl | ⟨c, found, ascii⟩ | ⟨m, c, rfl, found, ascii⟩
    · exact Or.inl rfl
    · exact Or.inr (Or.inl ⟨c, found, ascii⟩)
    · exact Or.inr (Or.inr ⟨m + 1, c, rfl, found, ascii⟩)

theorem Marked.boundary {s : Bytes} {n : Nat} (marked : Marked s n) : Boundary s n := by
  rcases marked.cases with rfl | ⟨b, found, ascii⟩ | ⟨m, b, rfl, found, ascii⟩
  · exact .length s
  · exact .of_isAscii found ascii
  · exact .behind_isAscii found ascii

/-- A string ends behind its closing quote, in front of a line feed, or with the text. -/
theorem marked_stringTail {quote : UInt8} (ascii : isAscii quote = true) (s : Bytes) :
    Marked s (stringTail quote s).1 := by
  fun_induction stringTail quote s with
  | case1 => exact .stop []
  | case2 b rest isQuote =>
    rw [beq_iff_eq.mp isQuote]
    exact .behind rest ascii
  | case3 b _ isEscape => exact .behind [] (by rw [beq_iff_eq.mp isEscape]; rfl)
  | case4 b _ _ c rest n closed tail ih =>
    rw [tail] at ih
    rw [Nat.add_comm 2]
    exact .cons _ (.cons _ ih)
  | case5 b rest _ _ isFeed => exact .before rest (by rw [beq_iff_eq.mp isFeed]; rfl)
  | case6 b rest _ _ _ n closed tail ih =>
    rw [tail] at ih
    rw [Nat.add_comm 1]
    exact .cons _ ih

/-- A block comment ends behind its closing sign, or with the text. -/
theorem marked_blockLength (s : Bytes) : Marked s (blockLength s) := by
  fun_induction blockLength s with
  | case1 rest => exact .cons _ (.behind rest rfl)
  | case2 b rest _ ih =>
    rw [Nat.add_comm 1]
    exact .cons _ ih
  | case3 => exact .stop []

theorem marked_line (s : Bytes) : Marked s (s.takeWhile (· != 0x0A)).length := by
  induction s with
  | nil => exact .stop []
  | cons b rest ih =>
    by_cases feed : b = 0x0A
    · rw [List.takeWhile_cons_of_neg (by simp [feed]), feed]
      exact .before rest rfl
    · rw [List.takeWhile_cons_of_pos (by simp [feed])]
      exact .cons b ih

/-! ## Tokens -/

theorem boundary_measureComment {b : UInt8} {rest : Bytes} {comment : TokenKind × Nat}
    (found : measureComment? b rest = some comment) : Boundary (b :: rest) (1 + comment.2) := by
  unfold measureComment? at found
  split at found
  · split at found
    · rw [← Option.some.inj found, Nat.add_comm 1, Nat.add_comm 1]
      exact ((marked_line _).cons _).cons b |>.boundary
    · rw [← Option.some.inj found, Nat.add_comm 1, Nat.add_comm 1]
      exact ((marked_blockLength _).cons _).cons b |>.boundary
    · cases found
  · cases found

theorem boundary_measureName (b : UInt8) (rest : Bytes) : Boundary (b :: rest) (1 + (measureName b rest).2) := by
  have positive := Utf8.size_pos b rest
  unfold measureName
  dsimp only
  split
  · have split : 1 + ((Utf8.decodeFrom b rest).size - 1 + nameLength (rest.drop ((Utf8.decodeFrom b rest).size - 1))) =
        (Utf8.decodeFrom b rest).size + nameLength (rest.drop ((Utf8.decodeFrom b rest).size - 1)) := by
      omega
    rw [split]
    exact .next (boundary_nameLength _)
  · rw [Nat.add_sub_cancel' positive]
    exact .first b rest

theorem boundary_measureSign {b : UInt8} (ascii : isAscii b = true) (rest : Bytes) :
    Boundary (b :: rest) (1 + (measureSign b rest).2) := by
  unfold measureSign
  split
  · rename_i found
    obtain ⟨c, head, sign⟩ := Option.bind_eq_some_iff.mp found
    obtain ⟨more, rfl⟩ := List.head?_eq_some_iff.mp head
    exact (((Plain.zero more).cons (twoByteSign?_sound sign).2.2.1).cons ascii).boundary
  · exact ((Plain.zero rest).cons ascii).boundary

/-- The bytes that the lexer measures are whole characters. -/
theorem boundary_measure (b : UInt8) (rest : Bytes) : Boundary (b :: rest) (1 + (measure b rest).2) := by
  unfold measure
  split
  · rename_i found
    exact boundary_measureComment found
  split
  · exact boundary_measureName b rest
  rename_i noName
  have ascii : isAscii b = true := by
    rw [Bool.or_eq_true, not_or] at noName
    simpa [isAscii] using noName.2
  split
  · rename_i isNumber
    rw [Nat.add_sub_cancel' (numberLength_pos isNumber)]
    exact (plain_numberLength _).boundary
  split
  · have marked := marked_stringTail ascii rest
    dsimp only
    rw [Nat.add_comm 1]
    exact (marked.cons b).boundary
  · exact boundary_measureSign ascii rest

theorem boundary_tokenAt (b : UInt8) (rest : Bytes) :
    Boundary (b :: rest) (b :: rest.take (measure b rest).2).length := by
  have here := boundary_measure b rest
  have short := here.le_length
  rw [List.length_cons] at short
  rw [List.length_cons, List.length_take, Nat.min_eq_left (by omega), Nat.add_comm]
  exact here

variable {text : Bytes}

/-- White space and tokens lead from boundary to boundary. -/
theorem boundary_skipBlanks {c : Cursor} (inText : c.IsIn text) (here : Boundary text c.offset) :
    Boundary text c.skipBlanks.offset := by
  refine here.trans ?_
  rw [← inText]
  exact (Plain.takeWhile isAscii_of_isBlank c.rest).boundary

theorem boundary_next {c : Cursor} (inText : c.IsIn text) (here : Boundary text c.offset)
    (found : c.skipBlanks.rest ≠ []) :
    Boundary text c.next.1.start ∧ Boundary text c.next.1.stop ∧ Boundary text c.next.2.offset := by
  have behind := inText.skipBlanks
  have start := boundary_skipBlanks inText here
  unfold Cursor.next
  split
  · rename_i shape
    rw [shape] at found
    exact absurd rfl found
  · rename_i offset b rest shape
    rw [shape] at behind start
    have stop : Boundary text (tokenAt offset b rest).stop := by
      refine start.trans ?_
      rw [← (behind : b :: rest = text.drop offset)]
      exact boundary_tokenAt b rest
    exact ⟨start, stop, stop⟩

theorem boundary_tokensFrom (c : Cursor) (inText : c.IsIn text) (here : Boundary text c.offset) :
    ∀ t ∈ tokensFrom c, t.kind ≠ .endOfInput → Boundary text t.start ∧ Boundary text t.stop := by
  fun_induction tokensFrom c with
  | case1 c ended =>
    intro t member significant
    have kind : c.next.1.kind = .endOfInput := by
      unfold Cursor.next
      split
      · rfl
      · rename_i shape
        simp [shape] at ended
    rw [List.mem_singleton.mp member] at significant
    exact absurd kind significant
  | case2 c found ih =>
    intro t member significant
    obtain ⟨start, stop, behind⟩ := boundary_next inText here found
    rcases List.mem_cons.mp member with rfl | member
    · exact ⟨start, stop⟩
    · exact ih inText.next behind t member significant

end Lexer

/-- Where a token can start or end, a character ends. -/
theorem SourceFile.IsEdge.boundary {f : SourceFile} {n : Nat} (edge : f.IsEdge n) : Boundary f.content n := by
  rcases edge with rfl | rfl | ⟨t, member, here⟩
  · exact .zero _
  · exact .length _
  · obtain ⟨start, stop⟩ := Lexer.boundary_tokensFrom (Lexer.Cursor.start f.content) rfl (.zero _) t
      (List.mem_filter.mp member).1 (f.kind_ne_endOfInput member)
    rcases here with rfl | rfl
    · exact start
    · exact stop

end SecurityRules
