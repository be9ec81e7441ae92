import SecurityRules.Proofs.Text.Boundary
import SecurityRules.Proofs.Token.Layout

/-!
# What tokens start with and what they look like

A token is what the lexer measures where the token starts. The first byte of a name or reserved word never continues
a character. A sign or reserved word is spelled as its kind is named.
-/

namespace SecurityRules

/-- A token is what the lexer measures in a text where the token starts, and it starts with no white space. -/
def Token.Measured (text : Bytes) (t : Token) : Prop :=
  ∃ b rest, text.drop t.start = b :: rest ∧ Lexer.isBlank b = false ∧ t = Lexer.tokenAt t.start b rest

namespace Lexer

/-- A cursor has what is left of a text. -/
def Cursor.IsIn (text : Bytes) (c : Cursor) : Prop := c.rest = text.drop c.offset

variable {text : Bytes} {c : Cursor}

theorem Cursor.IsIn.skipBlanks (inText : c.IsIn text) : c.skipBlanks.IsIn text := by
  unfold IsIn Cursor.skipBlanks at *
  dsimp only
  rw [← Sorted.drop_takeWhile, inText, List.drop_drop]

theorem head_skipBlanks {b : UInt8} {rest : Bytes} (shape : c.skipBlanks.rest = b :: rest) : isBlank b = false := by
  rw [Cursor.skipBlanks] at shape
  dsimp only at shape
  have head := List.head?_dropWhile_not isBlank c.rest
  rw [shape] at head
  simpa using head

theorem Cursor.IsIn.next (inText : c.IsIn text) : c.next.2.IsIn text := by
  have behind := inText.skipBlanks
  unfold Cursor.next
  split
  · rename_i offset shape
    rw [shape] at behind
    exact behind
  · rename_i offset b rest shape
    rw [shape] at behind
    have tail : rest = text.drop (offset + 1) := by
      rw [← List.drop_drop, ← (behind : b :: rest = text.drop offset)]
      rfl
    show rest.drop _ = text.drop (offset + (_ :: rest.take _).length)
    rw [List.length_cons, List.length_take, Nat.add_comm _ 1, ← Nat.add_assoc, ← List.drop_drop, ← tail]
    by_cases short : (measure b rest).2 ≤ rest.length
    · rw [Nat.min_eq_left short]
    · rw [Nat.min_eq_right (by omega), List.drop_length, List.drop_eq_nil_of_le (by omega)]

theorem Cursor.IsIn.measured (inText : c.IsIn text) (found : c.skipBlanks.rest ≠ []) :
    c.next.1.Measured text := by
  have behind := inText.skipBlanks
  unfold Cursor.next
  split
  · rename_i shape
    rw [shape] at found
    exact absurd rfl found
  · rename_i offset b rest shape
    rw [shape] at behind
    have behind : b :: rest = text.drop offset := behind
    exact ⟨b, rest, behind.symm, head_skipBlanks (congrArg Cursor.rest shape), rfl⟩

/-- All tokens from a cursor on are measured, the empty one at the end apart. -/
theorem measured_tokensFrom (c : Cursor) (inText : c.IsIn text) :
    ∀ t ∈ tokensFrom c, t.kind ≠ .endOfInput → t.Measured text := by
  fun_induction tokensFrom c with
  | case1 c ended =>
    intro t member significant
    have kind : c.next.1.kind = .endOfInput := by
      unfold Cursor.next
      split
      · rfl
      · rename_i shape
        simp [shape] at ended
    rw [List.mem_singleton.mp member] at significant
    exact absurd kind significant
  | case2 c found ih =>
    intro t member significant
    rcases List.mem_cons.mp member with rfl | member
    · exact inText.measured found
    · exact ih inText.next t member significant

end Lexer

theorem SourceFile.measured (f : SourceFile) {t : Token} (member : t ∈ f.tokens) : t.Measured f.content :=
  Lexer.measured_tokensFrom (Lexer.Cursor.start f.content) rfl t (List.mem_filter.mp member).1
    (f.kind_ne_endOfInput member)

/-! ## The heads of names -/

namespace Lexer

/-- What continues a character starts no name. -/
theorem startsName_eq_false {b : UInt8} {rest : Bytes} (continues : Utf8.isContinuation b = true) :
    startsName (Utf8.decodeFrom b rest).code = false := by
  obtain ⟨high, low⟩ := Utf8.range_of_isContinuation b continues
  rw [Utf8.decodeFrom.eq_def, if_neg (by simpa [Utf8.isAscii] using high), if_pos (by simp [low])]
  decide +kernel

end Lexer

/-- Whether a token is a name or a reserved word. -/
def TokenKind.isWord (k : TokenKind) : Bool := k == .identifier || k.isKeyword

namespace Lexer

/-- A sign of one byte is an ASCII byte that spells it; it is no word and does not end the text. -/
theorem oneByteSign?_sound : ∀ b : UInt8, ∀ k ∈ oneByteSign? b,
    k.isWord = false ∧ k ≠ .endOfInput ∧ Utf8.isAscii b = true ∧ [b] = Bytes.ofString k.name :=
  Utf8.forall_byte (by decide +kernel)

/-- So is a sign of two bytes. -/
theorem twoByteSign?_sound {b c : UInt8} {k : TokenKind} (found : twoByteSign? b c = some k) :
    k.isWord = false ∧ k ≠ .endOfInput ∧ Utf8.isAscii c = true ∧ [b, c] = Bytes.ofString k.name := by
  unfold twoByteSign? at found
  repeat' split at found
  all_goals cases found
  all_goals
    rename_i same
    simp only [Bool.and_eq_true, beq_iff_eq] at same
    obtain ⟨rfl, rfl⟩ := same
    decide +kernel

/-- What is measured as a sign is no word and does not end the text, also where it is invalid. -/
theorem measureSign_other (b : UInt8) (rest : Bytes) :
    (measureSign b rest).1.isWord = false ∧ (measureSign b rest).1 ≠ .endOfInput := by
  unfold measureSign
  split
  · rename_i found
    obtain ⟨_, _, sign⟩ := Option.bind_eq_some_iff.mp found
    obtain ⟨noWord, noEnd, -⟩ := twoByteSign?_sound sign
    exact ⟨noWord, noEnd⟩
  · cases found : oneByteSign? b with
    | none => exact ⟨rfl, TokenKind.noConfusion⟩
    | some k =>
      obtain ⟨noWord, noEnd, -⟩ := oneByteSign?_sound b k found
      exact ⟨noWord, noEnd⟩

theorem isWord_measureComment {b : UInt8} {rest : Bytes} {comment : TokenKind × Nat}
    (found : measureComment? b rest = some comment) : comment.1.isWord = false := by
  unfold measureComment? at found
  split at found
  · split at found
    · cases found
      rfl
    · cases found
      rfl
    · cases found
  · cases found

/-- Only where a name can start a name or reserved word is found. -/
theorem startsName_of_measure {b : UInt8} {rest : Bytes} (isWord : (measure b rest).1.isWord = true) :
    startsName (Utf8.decodeFrom b rest).code = true := by
  unfold measure at isWord
  split at isWord
  · rename_i found
    rw [isWord_measureComment found] at isWord
    cases isWord
  split at isWord
  · unfold measureName at isWord
    dsimp only at isWord
    split at isWord
    · assumption
    · cases isWord
  split at isWord
  · cases isWord
  split at isWord
  · dsimp only at isWord
    split at isWord <;> cases isWord
  · rw [(measureSign_other b rest).1] at isWord
    cases isWord

end Lexer

/-- A name or reserved word does not start in the middle of a character. -/
theorem Token.Measured.isContinuation_head {text : Bytes} {t : Token} (measured : t.Measured text)
    (isWord : t.kind.isWord = true) : ∃ b, text[t.start]? = some b ∧ Utf8.isContinuation b = false := by
  obtain ⟨b, rest, behind, _, same⟩ := measured
  refine ⟨b, ?_, ?_⟩
  · rw [← List.head?_drop, behind]
    rfl
  · rw [Bool.eq_false_iff]
    intro continues
    rw [same] at isWord
    have starts := Lexer.startsName_of_measure isWord
    rw [Lexer.startsName_eq_false continues] at starts
    cases starts

/-! ## What signs and reserved words look like -/

/-- The kinds with one spelling. -/
def TokenKind.isFixed : TokenKind → Bool
  | invalid | endOfInput | identifier | number | string | lineComment | blockComment => false
  | _ => true

namespace Lexer

variable {b : UInt8} {rest : Bytes}

theorem text_oneByteSign (b : UInt8) (fixed : ((oneByteSign? b).getD .invalid).isFixed = true) :
    [b] = Bytes.ofString ((oneByteSign? b).getD .invalid).name := by
  cases found : oneByteSign? b with
  | none =>
    rw [found] at fixed
    cases fixed
  | some k => exact (oneByteSign?_sound b k found).2.2.2

theorem text_measureSign (fixed : (measureSign b rest).1.isFixed = true) :
    b :: rest.take (measureSign b rest).2 = Bytes.ofString (measureSign b rest).1.name := by
  rw [measureSign] at fixed ⊢
  cases found : rest.head?.bind (twoByteSign? b) with
  | none =>
    rw [found] at fixed
    exact text_oneByteSign b fixed
  | some k =>
    obtain ⟨c, head, sign⟩ := Option.bind_eq_some_iff.mp found
    obtain ⟨rest', rfl⟩ : ∃ rest', rest = c :: rest' := List.head?_eq_some_iff.mp head
    exact (twoByteSign?_sound sign).2.2.2

theorem text_measureName (fixed : (measureName b rest).1.isFixed = true) :
    b :: rest.take (measureName b rest).2 = Bytes.ofString (measureName b rest).1.name := by
  rw [measureName] at fixed ⊢
  dsimp only at fixed ⊢
  split at fixed
  · rename_i starts
    rw [if_pos starts]
    generalize (Utf8.decodeFrom b rest).size - 1 + _ = n at fixed ⊢
    dsimp only at fixed ⊢
    cases found : TokenKind.keyword? (b :: rest.take n) with
    | none =>
      rw [found] at fixed
      cases fixed
    | some k =>
      have spelled : (Bytes.ofString k.name == b :: rest.take n) = true := by
        simpa using List.find?_some found
      exact (beq_iff_eq.mp spelled).symm
  · cases fixed

/-- What the lexer measures as a sign or reserved word is spelled like one. -/
theorem text_measure (fixed : (measure b rest).1.isFixed = true) :
    b :: rest.take (measure b rest).2 = Bytes.ofString (measure b rest).1.name := by
  rw [measure] at fixed ⊢
  cases comment : measureComment? b rest with
  | some found =>
    rw [comment] at fixed
    unfold measureComment? at comment
    repeat' split at comment
    all_goals
      cases comment
      try cases fixed
  | none =>
    rw [comment] at fixed
    dsimp only at fixed ⊢
    split at fixed
    · rename_i name
      rw [if_pos name]
      exact text_measureName fixed
    · rename_i name
      rw [if_neg name]
      split at fixed
      · cases fixed
      · rename_i number
        rw [if_neg number]
        split at fixed
        · dsimp only at fixed
          split at fixed <;> cases fixed
        · rename_i quoted
          rw [if_neg quoted]
          exact text_measureSign fixed

end Lexer

/-- A token of a kind with one spelling has that spelling. -/
theorem SourceFile.text_of_isFixed (f : SourceFile) {t : Token} (member : t ∈ f.tokens)
    (fixed : t.kind.isFixed = true) : t.text = Bytes.ofString t.kind.name := by
  obtain ⟨b, rest, _, _, same⟩ := f.measured member
  rw [same] at fixed ⊢
  exact Lexer.text_measure fixed

end SecurityRules
