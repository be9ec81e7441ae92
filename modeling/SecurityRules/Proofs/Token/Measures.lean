import SecurityRules.Proofs.Text.Boundary
import SecurityRules.Proofs.Token.Edges

/-!
# What measuring a token looks at

Which token starts at a byte, and how long it is, is settled by the bytes of that token and the one behind them.
Measuring looks at no byte that it does not count but to see that it stops, so a text may be cut behind a token. And a
byte that no number, name or sign goes on with ends them all, whatever stands behind it.
-/

namespace SecurityRules.Lexer

/-- The bytes that no token goes on with unless it is a string or comment: braces, semicolons and line feeds. -/
def isStop (b : UInt8) : Bool := b == 0x7B || b == 0x7D || b == 0x3B || b == 0x0A

variable {c d : UInt8}

theorem isStop_iff : isStop c = true ↔ c = 0x7B ∨ c = 0x7D ∨ c = 0x3B ∨ c = 0x0A := by
  simp [isStop, or_assoc]

/-- What such a byte is not. -/
theorem stop_apart : ∀ c : UInt8, isStop c = true → Bytes.isDigit c = false ∧ Utf8.isAscii c = true ∧
    continuesName c.toNat = false :=
  Utf8.forall_byte (by decide +kernel)

/-! ## One step of measuring -/

theorem fractionLength_cons_cons (a d : UInt8) (s : Bytes) :
    fractionLength (a :: d :: s) = if a == 0x2E && Bytes.isDigit d then 2 + digitsLength s else 0 := by
  unfold fractionLength
  split
  · rename_i shape
    obtain ⟨rfl, rfl, rfl⟩ : a = 0x2E ∧ d = _ ∧ s = _ := by simpa using shape
    rfl
  · rename_i other
    have dotless : a ≠ 0x2E := fun dot => other d s (by rw [dot])
    rw [beq_eq_false_iff_ne.mpr dotless, Bool.false_and]
    rfl

theorem fractionLength_singleton (a : UInt8) : fractionLength [a] = 0 := by
  unfold fractionLength
  split
  · rename_i shape
    cases shape
  · rfl

theorem stringTail_cons (quote b : UInt8) (s : Bytes) : stringTail quote (b :: s) =
    if b == quote then (1, true)
    else if b == 0x5C then
      match s with
      | [] => (1, false)
      | _ :: rest => (2 + (stringTail quote rest).1, (stringTail quote rest).2)
    else if b == 0x0A then (0, false)
    else (1 + (stringTail quote s).1, (stringTail quote s).2) := by
  rw [stringTail.eq_def]
  cases s <;> rfl

theorem blockLength_cons_cons (a b : UInt8) (s : Bytes) :
    blockLength (a :: b :: s) = if a == 0x2A && b == 0x2F then 2 else 1 + blockLength (b :: s) := by
  by_cases closed : a = 0x2A ∧ b = 0x2F
  · obtain ⟨rfl, rfl⟩ := closed
    rw [blockLength]
    rfl
  · rw [blockLength.eq_def]
    split
    · rename_i shape
      exact absurd (by simpa using shape : a = 0x2A ∧ b = 0x2F ∧ _) fun h => closed ⟨h.1, h.2.1⟩
    · rename_i shape
      obtain ⟨rfl, rfl⟩ := List.cons.inj shape
      rw [if_neg (by simpa using closed)]
    · rename_i shape
      cases shape

theorem blockLength_pos (a : UInt8) (s : Bytes) : 0 < blockLength (a :: s) := by
  rw [blockLength.eq_def]
  split
  · exact Nat.two_pos
  · exact Nat.lt_of_lt_of_le Nat.one_pos (Nat.le_add_right 1 _)
  · rename_i shape
    cases shape

theorem measureComment?_nil (b : UInt8) : measureComment? b [] = none := by
  unfold measureComment?
  split <;> rfl

theorem measureComment?_cons (b a : UInt8) (s : Bytes) : measureComment? b (a :: s) =
    if b == 0x2F then
      if a == 0x2F then some (.lineComment, 1 + (s.takeWhile (· != 0x0A)).length)
      else if a == 0x2A then some (.blockComment, 1 + blockLength s)
      else none
    else none := by
  unfold measureComment?
  split
  · split
    · rename_i shape
      obtain ⟨rfl, rfl⟩ := List.cons.inj shape
      rfl
    · rename_i shape
      obtain ⟨rfl, rfl⟩ := List.cons.inj shape
      rfl
    · rename_i noLine noBlock
      rw [if_neg fun line => noLine s (by rw [beq_iff_eq.mp line]),
        if_neg fun block => noBlock s (by rw [beq_iff_eq.mp block])]
  · rfl

/-! ## Texts cut behind a token -/

/-- A length at the head of a text that stays the same if the text is cut behind it. -/
def IsLocal (length : Bytes → Nat) : Prop := ∀ s k, length s ≤ k → length (s.take k) = length s

namespace IsLocal

variable {length more : Bytes → Nat}

/-- One length behind another. -/
theorem add (first : IsLocal length) (second : IsLocal more) :
    IsLocal fun s => length s + more (s.drop (length s)) := by
  intro s k inside
  dsimp only at inside ⊢
  rw [first s k (by omega), List.drop_take, second _ _ (by omega)]

theorem takeWhile (p : UInt8 → Bool) : IsLocal fun s => (s.takeWhile p).length := by
  intro s k inside
  dsimp only at inside ⊢
  induction s generalizing k with
  | nil => rw [List.take_nil]
  | cons b s ih =>
    by_cases going : p b = true
    · rw [List.takeWhile_cons_of_pos going, List.length_cons] at inside
      obtain ⟨k, rfl⟩ : ∃ j, k = j + 1 := ⟨k - 1, by omega⟩
      rw [List.take_succ_cons, List.takeWhile_cons_of_pos going, List.takeWhile_cons_of_pos going, List.length_cons,
        List.length_cons, ih k (by omega)]
    · rw [List.takeWhile_cons_of_neg going]
      cases k with
      | zero => rfl
      | succ k => rw [List.take_succ_cons, List.takeWhile_cons_of_neg going]

theorem digitsLength : IsLocal digitsLength := takeWhile Bytes.isDigit

theorem fractionLength : IsLocal fractionLength := by
  rintro (_ | ⟨a, _ | ⟨d, s⟩⟩) k inside
  · rw [List.take_nil]
  · rw [fractionLength_singleton]
    cases k with
    | zero => rfl
    | succ k => rw [List.take_succ_cons, List.take_nil, fractionLength_singleton]
  · rw [fractionLength_cons_cons] at inside ⊢
    rcases k with _ | _ | k
    · exact (Nat.le_zero.mp inside).symm
    · rw [List.take_succ_cons, List.take_zero, fractionLength_singleton]
      split at inside
      · omega
      · rename_i none
        rw [if_neg none]
    · rw [List.take_succ_cons, List.take_succ_cons, fractionLength_cons_cons]
      split
      · rename_i fraction
        rw [if_pos fraction] at inside
        rw [digitsLength s k (by omega)]
      · rfl

theorem exponentLength : IsLocal exponentLength := by
  have sign (s : Bytes) (k : Nat) : signLength (s.take (k + 1)) = signLength s := by cases s <;> rfl
  rintro (_ | ⟨a, s⟩) k inside
  · rw [List.take_nil]
  cases k with
  | zero => exact (Nat.le_zero.mp inside).symm
  | succ k =>
    rw [List.take_succ_cons]
    rw [Lexer.exponentLength] at inside ⊢
    rw [Lexer.exponentLength]
    split
    · rename_i letter
      rw [if_pos letter] at inside
      dsimp only at inside ⊢
      by_cases none : Lexer.digitsLength (s.drop (signLength s)) = 0
      · have cut : Lexer.digitsLength ((s.take k).drop (signLength (s.take k))) = 0 := by
          cases k with
          | zero => rfl
          | succ k => rw [sign, List.drop_take, digitsLength _ _ (by rw [none]; exact Nat.zero_le _), none]
        rw [none, cut]
        rfl
      · rw [if_neg (by simpa using none)] at inside
        obtain ⟨k, rfl⟩ : ∃ j, k = j + 1 := ⟨k - 1, by omega⟩
        rw [sign, List.drop_take, digitsLength _ _ (by omega)]
    · rfl

theorem numberLength : IsLocal numberLength := (digitsLength.add fractionLength).add exponentLength

theorem nameLength : IsLocal nameLength := by
  intro s
  induction s using Utf8.induct with
  | nil =>
    intro k _
    rw [List.take_nil]
  | cons b rest ih =>
    intro k inside
    rw [Lexer.nameLength] at inside
    cases k with
    | zero =>
      rw [List.take_zero, Lexer.nameLength, Lexer.nameLength]
      exact (Nat.le_zero.mp inside).symm
    | succ k =>
      rw [List.take_succ_cons, Lexer.nameLength, Lexer.nameLength]
      split at inside
      · rename_i continues
        have positive := Utf8.size_pos b rest
        rw [Utf8.decodeFrom_take b rest k (by omega), if_pos continues, List.drop_take, ih _ (by omega), if_pos continues]
      · rename_i stops
        rw [if_neg stops]
        rcases Utf8.decodeFrom_take_cases b rest k with same | cut
        · rw [same, if_neg stops]
        · rw [cut]
          exact if_neg (by decide +kernel)

theorem blockLength : IsLocal blockLength := by
  intro s
  induction s with
  | nil =>
    intro k _
    rw [List.take_nil]
  | cons a s ih =>
    intro k inside
    cases s with
    | nil =>
      have positive := blockLength_pos a []
      rw [List.take_of_length_le (Nat.le_trans positive inside)]
    | cons b s =>
      rw [blockLength_cons_cons] at inside
      split at inside
      · rename_i closed
        obtain ⟨k, rfl⟩ : ∃ j, k = j + 2 := ⟨k - 2, by omega⟩
        rw [List.take_succ_cons, List.take_succ_cons, blockLength_cons_cons, blockLength_cons_cons, if_pos closed,
          if_pos closed]
      · rename_i going
        have positive := blockLength_pos b s
        obtain ⟨k, rfl⟩ : ∃ j, k = j + 2 := ⟨k - 2, by omega⟩
        have later := ih (k + 1) (by omega)
        rw [List.take_succ_cons] at later
        rw [List.take_succ_cons, List.take_succ_cons, blockLength_cons_cons, blockLength_cons_cons, if_neg going,
          if_neg going, later]

end IsLocal

/-- A string stays the same if the text is cut behind it. -/
theorem stringTail_take (quote : UInt8) (s : Bytes) (k : Nat) (inside : (stringTail quote s).1 ≤ k) :
    stringTail quote (s.take k) = stringTail quote s := by
  fun_induction stringTail quote s generalizing k with
  | case1 => rw [List.take_nil]; rfl
  | case2 b rest isQuote =>
    obtain ⟨k, rfl⟩ : ∃ j, k = j + 1 := ⟨k - 1, by omega⟩
    rw [List.take_succ_cons, stringTail_cons, if_pos isQuote]
  | case3 b noQuote isEscape =>
    obtain ⟨k, rfl⟩ : ∃ j, k = j + 1 := ⟨k - 1, by omega⟩
    rw [List.take_succ_cons, List.take_nil, stringTail_cons, if_neg noQuote, if_pos isEscape]
  | case4 b noQuote isEscape c rest n closed tail ih =>
    obtain ⟨k, rfl⟩ : ∃ j, k = j + 2 := ⟨k - 2, by omega⟩
    rw [List.take_succ_cons, List.take_succ_cons, stringTail_cons, if_neg noQuote, if_pos isEscape]
    dsimp only
    rw [ih k (by rw [tail]; omega), tail]
  | case5 b rest noQuote noEscape isFeed =>
    cases k with
    | zero => rfl
    | succ k => rw [List.take_succ_cons, stringTail_cons, if_neg noQuote, if_neg noEscape, if_pos isFeed]
  | case6 b rest noQuote noEscape noFeed n closed tail ih =>
    obtain ⟨k, rfl⟩ : ∃ j, k = j + 1 := ⟨k - 1, by omega⟩
    rw [List.take_succ_cons, stringTail_cons, if_neg noQuote, if_neg noEscape, if_neg noFeed, ih k (by rw [tail]; omega),
      tail]

theorem measureComment?_pos {b : UInt8} {rest : Bytes} {comment : TokenKind × Nat}
    (found : measureComment? b rest = some comment) : 0 < comment.2 := by
  unfold measureComment? at found
  repeat' split at found
  all_goals
    cases found
    try exact Nat.lt_of_lt_of_le Nat.one_pos (Nat.le_add_right 1 _)

theorem measureComment?_take (b : UInt8) (rest : Bytes) (k : Nat)
    (inside : ∀ comment, measureComment? b rest = some comment → comment.2 ≤ k) :
    measureComment? b (rest.take k) = measureComment? b rest := by
  rcases rest with _ | ⟨a, s⟩
  · rw [List.take_nil]
  cases k with
  | zero =>
    cases found : measureComment? b (a :: s) with
    | none => exact measureComment?_nil b
    | some comment =>
      have positive := measureComment?_pos found
      have short := inside comment found
      omega
  | succ k =>
    rw [List.take_succ_cons]
    simp only [measureComment?_cons] at inside ⊢
    split
    · rename_i slash
      rw [if_pos slash] at inside
      split
      · rename_i line
        rw [if_pos line] at inside
        have short := inside _ rfl
        rw [show ((s.take k).takeWhile (· != 0x0A)).length = _ from IsLocal.takeWhile _ s k (by dsimp only; omega)]
      · rename_i noLine
        rw [if_neg noLine] at inside
        split
        · rename_i block
          rw [if_pos block] at inside
          have short := inside _ rfl
          rw [IsLocal.blockLength s k (by omega)]
        · rfl
    · rfl

theorem measureName_take (b : UInt8) (rest : Bytes) (k : Nat) (inside : (measureName b rest).2 ≤ k) :
    measureName b (rest.take k) = measureName b rest := by
  have first : (Utf8.decodeFrom b rest).size - 1 ≤ k := by
    rw [measureName] at inside
    dsimp only at inside
    split at inside
    · exact Nat.le_trans (Nat.le_add_right _ _) inside
    · exact inside
  rw [measureName] at inside ⊢
  rw [measureName, Utf8.decodeFrom_take b rest k first]
  dsimp only at inside ⊢
  split
  · rename_i starts
    rw [if_pos starts] at inside
    dsimp only at inside
    rw [List.drop_take, IsLocal.nameLength _ _ (by omega), List.take_take, Nat.min_eq_left inside]
  · rfl

theorem measureSign_take (b : UInt8) (rest : Bytes) (k : Nat) (inside : (measureSign b rest).2 ≤ k) :
    measureSign b (rest.take k) = measureSign b rest := by
  rcases rest with _ | ⟨a, s⟩
  · rw [List.take_nil]
  cases k with
  | zero =>
    rw [measureSign] at inside ⊢
    rw [measureSign]
    cases found : (a :: s).head?.bind (twoByteSign? b) with
    | none => rfl
    | some sign =>
      rw [found] at inside
      exact absurd inside (Nat.not_succ_le_zero 0)
  | succ k => rfl

theorem fractionLength_le_numberLength (s : Bytes) : fractionLength s ≤ numberLength s := by
  rcases s with _ | ⟨a, _ | ⟨d, s⟩⟩
  · exact Nat.zero_le _
  · rw [fractionLength_singleton]
    exact Nat.zero_le _
  · by_cases fraction : (a == 0x2E && Bytes.isDigit d) = true
    · -- No digit stands in front of the dot.
      rw [Bool.and_eq_true, beq_iff_eq] at fraction
      obtain ⟨rfl, -⟩ := fraction
      have none : digitsLength (0x2E :: d :: s) = 0 := rfl
      rw [numberLength, none, List.drop_zero, Nat.zero_add]
      exact Nat.le_add_right _ _
    · rw [fractionLength_cons_cons, if_neg fraction]
      exact Nat.zero_le _

/-- A fraction, if there is one, belongs to the number that is measured. -/
theorem fractionLength_le_of_measured {b : UInt8} {rest : Bytes} {other : TokenKind × Nat} {k : Nat}
    (inside : (if (Bytes.isDigit b || fractionLength (b :: rest) != 0) = true then
      (TokenKind.number, numberLength (b :: rest) - 1) else other).2 ≤ k) : fractionLength (b :: rest) ≤ k + 1 := by
  have most := fractionLength_le_numberLength (b :: rest)
  split at inside
  · dsimp only at inside
    omega
  · rename_i noNumber
    have none : fractionLength (b :: rest) = 0 := by simpa using (not_or.mp (mt Bool.or_eq_true_iff.mpr noNumber)).2
    omega

/-- Measuring finds the same in two texts if its parts do, as far as they reach no farther than the token. -/
theorem measure_congr {b : UInt8} {rest rest' : Bytes} {k : Nat} (inside : (measure b rest).2 ≤ k)
    (comment : (∀ found, measureComment? b rest = some found → found.2 ≤ k) →
      measureComment? b rest' = measureComment? b rest)
    (name : (measureName b rest).2 ≤ k → measureName b rest' = measureName b rest)
    (fraction : fractionLength (b :: rest) ≤ k + 1 → fractionLength (b :: rest') = fractionLength (b :: rest))
    (number : numberLength (b :: rest) ≤ k + 1 → numberLength (b :: rest') = numberLength (b :: rest))
    (string : (stringTail b rest).1 ≤ k → stringTail b rest' = stringTail b rest)
    (sign : (measureSign b rest).2 ≤ k → measureSign b rest' = measureSign b rest) :
    measure b rest' = measure b rest := by
  have sameComment := comment fun found known => by
    rw [measure, known] at inside
    exact inside
  rw [measure] at inside
  rw [measure, measure, sameComment]
  split
  · rfl
  rename_i noComment
  rw [noComment] at inside
  dsimp only at inside
  split
  · rename_i starts
    rw [if_pos starts] at inside
    exact name inside
  rename_i noName
  rw [if_neg noName] at inside
  -- Whether there is a fraction decides between a number and a sign, also where it is a sign.
  rw [fraction (fractionLength_le_of_measured inside)]
  split
  · rename_i starts
    rw [if_pos starts] at inside
    rw [number (Nat.le_succ_of_pred_le inside)]
  rename_i noNumber
  rw [if_neg noNumber] at inside
  split
  · rename_i quoted
    rw [if_pos quoted] at inside
    rw [string inside]
  · rename_i noString
    rw [if_neg noString] at inside
    exact sign inside

/-- The token that starts with a byte stays the same if the text is cut behind it. -/
theorem measure_take (b : UInt8) (rest : Bytes) (k : Nat) (inside : (measure b rest).2 ≤ k) :
    measure b (rest.take k) = measure b rest := by
  apply measure_congr inside (measureComment?_take b rest k) (measureName_take b rest k)
  case fraction => exact IsLocal.fractionLength (b :: rest) (k + 1)
  case number => exact IsLocal.numberLength (b :: rest) (k + 1)
  case string => exact stringTail_take b rest k
  case sign => exact measureSign_take b rest k

/-! ## Lengths that a byte ends -/

theorem decodeFrom_append (stop : isStop c = true) (b : UInt8) (v x : Bytes) :
    Utf8.decodeFrom b (v ++ c :: x) = Utf8.decodeFrom b v := by
  refine Utf8.decodeFrom_append_of_starts fun e head => ?_
  obtain rfl : c = e := by simpa using head
  exact Utf8.isContinuation_of_isAscii (stop_apart c stop).2.1

/-- A length at the head of a text that ends in front of a byte at the latest, whatever stands behind that byte. -/
def EndsAt (c : UInt8) (length : Bytes → Nat) : Prop :=
  ∀ v x : Bytes, length (v ++ c :: x) = length (v ++ [c]) ∧ length (v ++ [c]) ≤ v.length

namespace EndsAt

variable {length more : Bytes → Nat}

/-- One length behind another. -/
theorem add (first : EndsAt c length) (second : EndsAt c more) :
    EndsAt c fun s => length s + more (s.drop (length s)) := by
  intro v x
  obtain ⟨same, short⟩ := first v x
  have split (z : Bytes) : (v ++ c :: z).drop (length (v ++ [c])) = v.drop (length (v ++ [c])) ++ c :: z :=
    List.drop_append_of_le_length short
  obtain ⟨sameMore, shortMore⟩ := second (v.drop (length (v ++ [c]))) x
  rw [List.length_drop] at shortMore
  dsimp only
  rw [same, split, split, sameMore]
  exact ⟨rfl, by omega⟩

theorem takeWhile {p : UInt8 → Bool} (stops : p c = false) : EndsAt c fun s => (s.takeWhile p).length := by
  intro v x
  have stopped (z : Bytes) : (v ++ c :: z).takeWhile p = v.takeWhile p := by
    induction v with
    | nil => rw [List.nil_append, List.takeWhile_cons_of_neg (by simp [stops]), List.takeWhile_nil]
    | cons b v ih => rw [List.cons_append, List.takeWhile_cons, List.takeWhile_cons, ih]
  dsimp only
  rw [stopped, stopped]
  exact ⟨rfl, (List.takeWhile_sublist p).length_le⟩

variable (stop : isStop c = true)
include stop

theorem digitsLength : EndsAt c digitsLength := takeWhile (stop_apart c stop).1

theorem fractionLength : EndsAt c fractionLength := by
  intro v x
  have noDigit := (stop_apart c stop).1
  rcases v with _ | ⟨a, _ | ⟨d, v⟩⟩
  · rcases isStop_iff.mp stop with rfl | rfl | rfl | rfl <;> exact ⟨rfl, Nat.le_refl _⟩
  · have none (z : Bytes) : Lexer.fractionLength (a :: c :: z) = 0 := by
      rw [fractionLength_cons_cons, noDigit, Bool.and_false]
      rfl
    exact ⟨(none x).trans (none []).symm, by rw [List.cons_append, List.nil_append, none]; exact Nat.zero_le _⟩
  · obtain ⟨same, short⟩ := digitsLength stop v x
    simp only [List.cons_append, fractionLength_cons_cons, List.length_cons, same, true_and]
    split
    · omega
    · exact Nat.zero_le _

theorem signLength : EndsAt c signLength := by
  intro v x
  rcases v with _ | ⟨a, v⟩
  · rcases isStop_iff.mp stop with rfl | rfl | rfl | rfl <;> exact ⟨rfl, Nat.le_refl _⟩
  · refine ⟨rfl, ?_⟩
    rw [List.cons_append, Lexer.signLength, List.length_cons]
    split <;> omega

theorem exponentLength : EndsAt c exponentLength := by
  intro v x
  rcases v with _ | ⟨a, v⟩
  · rcases isStop_iff.mp stop with rfl | rfl | rfl | rfl <;> exact ⟨rfl, Nat.le_refl _⟩
  · obtain ⟨sameSign, shortSign⟩ := signLength stop v x
    have split (z : Bytes) : (v ++ c :: z).drop (Lexer.signLength (v ++ [c])) =
        v.drop (Lexer.signLength (v ++ [c])) ++ c :: z := List.drop_append_of_le_length shortSign
    obtain ⟨sameDigits, shortDigits⟩ := digitsLength stop (v.drop (Lexer.signLength (v ++ [c]))) x
    rw [List.length_drop] at shortDigits
    simp only [List.cons_append, Lexer.exponentLength, List.length_cons, sameSign, split, sameDigits, true_and]
    split
    · split
      · exact Nat.zero_le _
      · omega
    · exact Nat.zero_le _

theorem numberLength : EndsAt c numberLength :=
  ((digitsLength stop).add (fractionLength stop)).add (exponentLength stop)

/-- A name ends in front of such a byte, since the characters in front of it are decoded without it. -/
theorem nameLength : EndsAt c nameLength := by
  intro v x
  obtain ⟨-, ascii, stops⟩ := stop_apart c stop
  have stopped (z : Bytes) : Lexer.nameLength (c :: z) = 0 := by
    rw [Lexer.nameLength, Utf8.decodeFrom_of_isAscii ascii]
    dsimp only
    rw [if_neg (by rw [stops]; exact Bool.false_ne_true)]
  induction v using Utf8.induct with
  | nil => exact ⟨(stopped x).trans (stopped []).symm, by rw [List.nil_append, stopped]; exact Nat.zero_le _⟩
  | cons b v ih =>
    have same (z : Bytes) : Utf8.decodeFrom b (v ++ c :: z) = Utf8.decodeFrom b v :=
      decodeFrom_append stop b v z
    have short := (Utf8.tail_continues b v).1
    have split (z : Bytes) : (v ++ c :: z).drop ((Utf8.decodeFrom b v).size - 1) =
        v.drop ((Utf8.decodeFrom b v).size - 1) ++ c :: z := List.drop_append_of_le_length short
    obtain ⟨later, shortLater⟩ := ih
    have positive := Utf8.size_pos b v
    rw [List.length_drop] at shortLater
    rw [List.cons_append, List.cons_append, Lexer.nameLength, Lexer.nameLength, same, same, split, split, later,
      List.length_cons]
    split
    · exact ⟨rfl, by omega⟩
    · exact ⟨rfl, Nat.zero_le _⟩

omit stop in
/-- A length that ends in front of some byte stays the same if the text goes on with the other byte instead. -/
theorem swap (ends : EndsAt d length) (cuts : IsLocal length) {v x : Bytes} (y : Bytes)
    (inside : length (v ++ c :: x) ≤ v.length) : length (v ++ d :: y) = length (v ++ c :: x) := by
  obtain ⟨same, short⟩ := ends v y
  calc length (v ++ d :: y) = length (v ++ [d]) := same
    _ = length ((v ++ [d]).take v.length) := (cuts _ _ short).symm
    _ = length ((v ++ c :: x).take v.length) := by rw [List.take_left, List.take_left]
    _ = length (v ++ c :: x) := cuts _ _ inside

end EndsAt

/-! ## Tokens in front of a byte -/

/-- What a string takes nothing of is the end of a row. -/
theorem feed_of_stringTail {quote : UInt8} {x : Bytes} (none : (stringTail quote (c :: x)).1 = 0) :
    c = 0x0A ∧ c ≠ quote := by
  rw [stringTail_cons] at none
  split at none
  · cases none
  rename_i noQuote
  split at none
  · cases x with
    | nil => cases none
    | cons a x =>
      dsimp only at none
      omega
  split at none
  · rename_i feed
    exact ⟨beq_iff_eq.mp feed, by simpa using noQuote⟩
  · dsimp only at none
    omega

/-- A string that ends in front of a byte does not depend on what stands there, but only the end of a row ends a string
that is not closed. -/
theorem stringTail_append (quote : UInt8) (feed : c = 0x0A → d = 0x0A) {v x : Bytes} (y : Bytes)
    (inside : (stringTail quote (v ++ c :: x)).1 ≤ v.length) :
    stringTail quote (v ++ d :: y) = stringTail quote (v ++ c :: x) := by
  induction length : v.length using Nat.strongRecOn generalizing v with
  | ind n ih =>
    rcases v with _ | ⟨b, v⟩
    · obtain ⟨rfl, noQuote⟩ := feed_of_stringTail (Nat.le_zero.mp inside)
      obtain rfl := feed rfl
      rw [List.nil_append, List.nil_append, stringTail_cons, stringTail_cons, beq_false_of_ne noQuote]
      rfl
    · rw [List.length_cons] at length
      rw [List.cons_append, stringTail_cons, List.length_cons] at inside
      rw [List.cons_append, List.cons_append, stringTail_cons, stringTail_cons]
      split
      · rfl
      rename_i noQuote
      rw [if_neg noQuote] at inside
      split
      · rename_i escape
        rw [if_pos escape] at inside
        rcases v with _ | ⟨a, v⟩
        · dsimp only [List.nil_append, List.length_nil] at inside
          omega
        · rw [List.length_cons] at length inside
          dsimp only [List.cons_append] at inside ⊢
          rw [ih v.length (by omega) (v := v) (by omega) rfl]
      rename_i noEscape
      rw [if_neg noEscape] at inside
      split
      · rfl
      rename_i noBreak
      rw [if_neg noBreak] at inside
      dsimp only at inside
      rw [ih v.length (by omega) (v := v) (by omega) rfl]

theorem takeWhile_append_of_short {p : UInt8 → Bool} (stops : p c = false → p d = false) {v x : Bytes} (y : Bytes)
    (inside : ((v ++ c :: x).takeWhile p).length ≤ v.length) :
    (v ++ d :: y).takeWhile p = (v ++ c :: x).takeWhile p := by
  induction v with
  | nil =>
    rw [List.nil_append] at inside
    rw [List.nil_append, List.nil_append]
    cases goes : p c with
    | true =>
      rw [List.takeWhile_cons_of_pos goes] at inside
      exact absurd inside (Nat.not_succ_le_zero _)
    | false => rw [List.takeWhile_cons_of_neg (by simp [stops goes]), List.takeWhile_cons_of_neg (by simp [goes])]
  | cons b v ih =>
    rw [List.cons_append, List.cons_append, List.takeWhile_cons, List.takeWhile_cons]
    split
    · rename_i going
      rw [List.cons_append, List.takeWhile_cons_of_pos going] at inside
      rw [ih (Nat.le_of_succ_le_succ inside)]
    · rfl

/-- A block comment that ends in front of a byte has been closed. -/
theorem blockLength_append {v x : Bytes} (y : Bytes) (inside : blockLength (v ++ c :: x) ≤ v.length) :
    blockLength (v ++ d :: y) = blockLength (v ++ c :: x) := by
  have taken := blockLength_pos c x
  induction v with
  | nil => exact absurd inside (Nat.not_le_of_lt taken)
  | cons a v ih =>
    rcases v with _ | ⟨b, v⟩
    · rw [List.cons_append, List.nil_append, blockLength_cons_cons, List.length_singleton] at inside
      split at inside <;> omega
    · simp only [List.cons_append, blockLength_cons_cons a] at inside ih ⊢
      split
      · rfl
      · rename_i going
        rw [if_neg going, List.length_cons] at inside
        rw [ih (by omega)]

theorem measureComment?_append (stop : isStop d = true) (feed : c = 0x0A → d = 0x0A) (b : UInt8) {v x : Bytes} (y : Bytes)
    (inside : ∀ comment, measureComment? b (v ++ c :: x) = some comment → comment.2 ≤ v.length) :
    measureComment? b (v ++ d :: y) = measureComment? b (v ++ c :: x) := by
  rcases v with _ | ⟨a, v⟩
  · have none : measureComment? b (d :: y) = none := by
      rcases isStop_iff.mp stop with rfl | rfl | rfl | rfl <;> (unfold measureComment?; split <;> rfl)
    rw [List.nil_append, List.nil_append, none]
    cases found : measureComment? b (c :: x) with
    | none => rfl
    | some comment => exact absurd (inside comment found) (Nat.not_le_of_lt (measureComment?_pos found))
  · simp only [List.cons_append, List.length_cons, measureComment?_cons] at inside ⊢
    split
    · rename_i slash
      rw [if_pos slash] at inside
      split
      · rename_i line
        rw [if_pos line] at inside
        have short := inside _ rfl
        have same :=
          takeWhile_append_of_short (p := (· != 0x0A)) (c := c) (d := d) (v := v) (x := x) (by simpa using feed) y
          (by omega)
        rw [same]
      · rename_i noLine
        rw [if_neg noLine] at inside
        split
        · rename_i block
          rw [if_pos block] at inside
          have short := inside _ rfl
          rw [blockLength_append (c := c) (d := d) (v := v) (x := x) y (by omega)]
        · rfl
    · rfl

section

variable (stop : isStop d = true)
include stop

theorem measureName_append (b : UInt8) {v x : Bytes} (y : Bytes) (inside : (measureName b (v ++ c :: x)).2 ≤ v.length) :
    measureName b (v ++ d :: y) = measureName b (v ++ c :: x) := by
  have first : (Utf8.decodeFrom b (v ++ c :: x)).size - 1 ≤ v.length := by
    rw [measureName] at inside
    dsimp only at inside
    split at inside
    · exact Nat.le_trans (Nat.le_add_right _ _) inside
    · exact inside
  have same : Utf8.decodeFrom b (v ++ d :: y) = Utf8.decodeFrom b (v ++ c :: x) := by
    rw [decodeFrom_append stop, ← Utf8.decodeFrom_take b _ _ first, List.take_left]
  rw [measureName] at inside ⊢
  rw [measureName, same]
  generalize Utf8.decodeFrom b (v ++ c :: x) = character at first inside ⊢
  have split (e : UInt8) (z : Bytes) : (v ++ e :: z).drop (character.size - 1) = v.drop (character.size - 1) ++ e :: z :=
    List.drop_append_of_le_length first
  rw [split] at inside ⊢
  rw [split]
  dsimp only at inside ⊢
  by_cases starts : startsName character.code = true
  · rw [if_pos starts] at inside
    dsimp only at inside
    have later := (EndsAt.nameLength stop).swap .nameLength (v := v.drop (character.size - 1)) (x := x) (c := c) y
      (by rw [List.length_drop]; omega)
    rw [later, if_pos starts, if_pos starts, List.take_append_of_le_length inside, List.take_append_of_le_length inside]
  · rw [if_neg starts, if_neg starts]

theorem measureSign_append (b : UInt8) {v x : Bytes} (y : Bytes) (inside : (measureSign b (v ++ c :: x)).2 ≤ v.length) :
    measureSign b (v ++ d :: y) = measureSign b (v ++ c :: x) := by
  rcases v with _ | ⟨a, v⟩
  · have none : twoByteSign? b d = none := by
      rcases isStop_iff.mp stop with rfl | rfl | rfl | rfl <;> simp [twoByteSign?]
    rw [← measureSign_take b _ _ inside, List.take_left, measureSign, List.nil_append, List.head?_cons, Option.bind_some,
      none]
    rfl
  · rfl

/-- If a token ends in front of some byte, another one may stand there, whatever follows: one that no token goes on
with, and the end of a row if the token has been ended by one. -/
theorem measure_append (feed : c = 0x0A → d = 0x0A) (b : UInt8) {v x : Bytes} (y : Bytes)
    (inside : (measure b (v ++ c :: x)).2 ≤ v.length) : measure b (v ++ d :: y) = measure b (v ++ c :: x) := by
  apply measure_congr inside (measureComment?_append stop feed b y) (measureName_append stop b y)
  case fraction => exact (EndsAt.fractionLength stop).swap .fractionLength (v := b :: v) y
  case number => exact (EndsAt.numberLength stop).swap .numberLength (v := b :: v) y
  case string => exact stringTail_append b feed y
  case sign => exact measureSign_append stop b y

end

end SecurityRules.Lexer
