import SecurityRules.Proofs.Text.Boundary

/-!
# Joined line ends

A file keeps LF of each CR LF. Every offset of the file belongs to an offset of the raw text, that of CR where a pair
was joined. Cut there, raw text and file are cut into parts that belong to each other, and characters stay whole.
-/

namespace SecurityRules.SourceFile

open Utf8 (Boundary isAscii decodeFrom)

/-- Whether a byte and what follows it start with CR LF. -/
def IsPair (b : UInt8) (rest : Bytes) : Prop := b = 0x0D ∧ rest.head? = some 0x0A

/-- The offset of the raw text that belongs to an offset of the text with joined line ends. -/
def rawOffset : Bytes → Nat → Nat
  | _, 0 => 0
  | [], _ + 1 => 0
  | [_], _ + 1 => 1
  | b :: c :: rest, o + 1 =>
    if b == 0x0D && c == 0x0A then 2 + rawOffset rest o else 1 + rawOffset (c :: rest) o

variable {b : UInt8} {rest s : Bytes} {o n : Nat}

/-- What holds of a text as soon as it holds of what follows its first byte or pair holds of every text. -/
theorem lineEnd_induct {motive : Bytes → Prop} (nil : motive [])
    (pair : ∀ rest, motive rest → motive (0x0D :: 0x0A :: rest))
    (single : ∀ b rest, ¬IsPair b rest → motive rest → motive (b :: rest)) : ∀ s, motive s
  | [] => nil
  | [b] => single b [] (fun pair => by cases pair.2) nil
  | b :: c :: rest => by
    by_cases isPair : b = 0x0D ∧ c = 0x0A
    · obtain ⟨rfl, rfl⟩ := isPair
      exact pair rest (lineEnd_induct nil pair single rest)
    · refine single b (c :: rest) (fun found => isPair ⟨found.1, Option.some.inj found.2⟩) ?_
      exact lineEnd_induct nil pair single (c :: rest)

@[simp] theorem joinCrLf_pair (rest : Bytes) : joinCrLf (0x0D :: 0x0A :: rest) = 0x0A :: joinCrLf rest := by
  cases rest <;> rfl

theorem joinCrLf_single (single : ¬IsPair b rest) : joinCrLf (b :: rest) = b :: joinCrLf rest := by
  cases rest with
  | nil => rfl
  | cons c rest =>
    rw [joinCrLf, if_neg]
    intro pair
    obtain ⟨cr, lf⟩ := (Bool.and_eq_true _ _).mp pair
    exact single ⟨beq_iff_eq.mp cr, congrArg some (beq_iff_eq.mp lf)⟩

@[simp] theorem rawOffset_zero (s : Bytes) : rawOffset s 0 = 0 := by
  rw [rawOffset.eq_def]

@[simp] theorem rawOffset_nil (o : Nat) : rawOffset [] o = 0 := by
  cases o <;> rfl

@[simp] theorem rawOffset_pair (rest : Bytes) (o : Nat) :
    rawOffset (0x0D :: 0x0A :: rest) (o + 1) = 2 + rawOffset rest o := rfl

theorem rawOffset_single (single : ¬IsPair b rest) (o : Nat) :
    rawOffset (b :: rest) (o + 1) = 1 + rawOffset rest o := by
  cases rest with
  | nil => simp [rawOffset]
  | cons c rest =>
    rw [rawOffset, if_neg]
    intro pair
    obtain ⟨cr, lf⟩ := (Bool.and_eq_true _ _).mp pair
    exact single ⟨beq_iff_eq.mp cr, congrArg some (beq_iff_eq.mp lf)⟩

/-- Cutting a text makes no pair. -/
theorem not_isPair_take (single : ¬IsPair b rest) (n : Nat) : ¬IsPair b (rest.take n) := by
  rintro ⟨cr, lf⟩
  cases n with
  | zero => cases lf
  | succ n =>
    cases rest with
    | nil => cases lf
    | cons c rest => exact single ⟨cr, lf⟩

theorem rawOffset_le_length (s : Bytes) (o : Nat) : rawOffset s o ≤ s.length := by
  induction s using lineEnd_induct generalizing o with
  | nil => simp
  | pair rest ih =>
    cases o with
    | zero => simp
    | succ o =>
      have := ih o
      simp only [rawOffset_pair, List.length_cons]
      omega
  | single b rest single ih =>
    cases o with
    | zero => simp
    | succ o =>
      have := ih o
      rw [rawOffset_single single, List.length_cons]
      omega

/-- What lies in front of an offset belongs to what lies in front of the other. -/
theorem joinCrLf_take (s : Bytes) (o : Nat) : joinCrLf (s.take (rawOffset s o)) = (joinCrLf s).take o := by
  induction s using lineEnd_induct generalizing o with
  | nil => simp [joinCrLf]
  | pair rest ih =>
    cases o with
    | zero => rfl
    | succ o =>
      rw [rawOffset_pair, Nat.add_comm, List.take_succ_cons, List.take_succ_cons, joinCrLf_pair, joinCrLf_pair, ih,
        List.take_succ_cons]
  | single b rest single ih =>
    cases o with
    | zero => simp [joinCrLf]
    | succ o =>
      rw [rawOffset_single single, Nat.add_comm, List.take_succ_cons, joinCrLf_single (not_isPair_take single _),
        joinCrLf_single single, ih, List.take_succ_cons]

/-- And what lies behind it to what lies behind the other. -/
theorem joinCrLf_drop (s : Bytes) (o : Nat) : joinCrLf (s.drop (rawOffset s o)) = (joinCrLf s).drop o := by
  induction s using lineEnd_induct generalizing o with
  | nil => simp [joinCrLf]
  | pair rest ih =>
    cases o with
    | zero => simp
    | succ o =>
      rw [rawOffset_pair, Nat.add_comm, List.drop_succ_cons, List.drop_succ_cons, joinCrLf_pair, ih,
        List.drop_succ_cons]
  | single b rest single ih =>
    cases o with
    | zero => simp
    | succ o =>
      rw [rawOffset_single single, Nat.add_comm, List.drop_succ_cons, joinCrLf_single single, ih, List.drop_succ_cons]

theorem rawOffset_add (s : Bytes) (o n : Nat) :
    rawOffset s (o + n) = rawOffset s o + rawOffset (s.drop (rawOffset s o)) n := by
  induction s using lineEnd_induct generalizing o with
  | nil => simp
  | pair rest ih =>
    cases o with
    | zero => simp
    | succ o =>
      rw [Nat.succ_add, rawOffset_pair, rawOffset_pair, ih, Nat.add_comm 2 (rawOffset rest o), List.drop_succ_cons,
        List.drop_succ_cons]
      omega
  | single b rest single ih =>
    cases o with
    | zero => simp
    | succ o =>
      rw [Nat.succ_add, rawOffset_single single, rawOffset_single single, ih, Nat.add_comm 1 (rawOffset rest o),
        List.drop_succ_cons]
      omega

/-! ## The bytes that stay -/

/-- Whether a byte of a raw text stays when line ends are joined: any but CR directly before LF. -/
def isKept (s : Bytes) (i : Nat) : Bool := !(s[i]? == some 0x0D && s[i + 1]? == some 0x0A)

theorem isKept_succ (b : UInt8) (rest : Bytes) (i : Nat) : isKept (b :: rest) (i + 1) = isKept rest i := by
  rw [isKept, isKept, List.getElem?_cons_succ, List.getElem?_cons_succ]

theorem isKept_zero (single : ¬IsPair b rest) : isKept (b :: rest) 0 = true := by
  rw [isKept, List.getElem?_cons_zero, List.getElem?_cons_succ, ← List.head?_eq_getElem?]
  by_contra dropped
  obtain ⟨cr, lf⟩ := by simpa using dropped
  exact single ⟨cr, lf⟩

theorem isKept_pair (rest : Bytes) : isKept (0x0D :: 0x0A :: rest) 0 = false := rfl

/-- How many of the bytes in front of an offset stay, counted from the first byte on. -/
theorem countP_range_succ (b : UInt8) (rest : Bytes) (n : Nat) :
    (List.range (n + 1)).countP (isKept (b :: rest)) =
      (if isKept (b :: rest) 0 then 1 else 0) + (List.range n).countP (isKept rest) := by
  have shifted : isKept (b :: rest) ∘ Nat.succ = isKept rest := funext fun i => isKept_succ b rest i
  rw [List.range_succ_eq_map, List.countP_cons, List.countP_map, shifted, Nat.add_comm]

theorem countP_rawOffset (inside : o ≤ (joinCrLf s).length) :
    (List.range (rawOffset s o)).countP (isKept s) = o := by
  induction s using lineEnd_induct generalizing o with
  | nil =>
    obtain rfl : o = 0 := by simpa [joinCrLf] using inside
    rfl
  | pair rest ih =>
    cases o with
    | zero => rfl
    | succ o =>
      rw [joinCrLf_pair, List.length_cons] at inside
      have feed : isKept (0x0A :: rest) 0 = true := isKept_zero fun pair => absurd pair.1 (by decide)
      rw [rawOffset_pair, Nat.add_comm 2, countP_range_succ, countP_range_succ, ih (Nat.le_of_succ_le_succ inside),
        isKept_pair, feed, if_pos rfl, if_neg Bool.false_ne_true]
      omega
  | single b rest single ih =>
    cases o with
    | zero =>
      rw [rawOffset_zero]
      rfl
    | succ o =>
      rw [joinCrLf_single single, List.length_cons] at inside
      rw [rawOffset_single single, Nat.add_comm 1, countP_range_succ, ih (Nat.le_of_succ_le_succ inside),
        isKept_zero single, if_pos rfl]
      omega

/-- The byte at the offset that belongs to one of the file stays, unless that is a line feed. -/
theorem isKept_rawOffset (other : (joinCrLf s)[o]? ≠ some 0x0A) : isKept s (rawOffset s o) = true := by
  induction s using lineEnd_induct generalizing o with
  | nil => rfl
  | pair rest ih =>
    cases o with
    | zero =>
      rw [joinCrLf_pair] at other
      exact absurd rfl other
    | succ o =>
      rw [joinCrLf_pair, List.getElem?_cons_succ] at other
      rw [rawOffset_pair, Nat.add_comm 2, isKept_succ, isKept_succ]
      exact ih other
  | single b rest single ih =>
    cases o with
    | zero =>
      rw [rawOffset_zero]
      exact isKept_zero single
    | succ o =>
      rw [joinCrLf_single single, List.getElem?_cons_succ] at other
      rw [rawOffset_single single, Nat.add_comm 1, isKept_succ]
      exact ih other

/-! ## Text without line feeds -/

/-- In front of the first line feed nothing has been joined. -/
theorem rawOffset_of_line (inside : n ≤ (joinCrLf s).length) (line : ∀ b ∈ (joinCrLf s).take n, b ≠ 0x0A) :
    rawOffset s n = n ∧ s.take n = (joinCrLf s).take n := by
  induction s using lineEnd_induct generalizing n with
  | nil =>
    obtain rfl : n = 0 := by simpa [joinCrLf] using inside
    exact ⟨rfl, rfl⟩
  | pair rest ih =>
    cases n with
    | zero => exact ⟨rfl, rfl⟩
    | succ n =>
      rw [joinCrLf_pair, List.take_succ_cons] at line
      exact absurd rfl (line _ List.mem_cons_self)
  | single b rest single ih =>
    cases n with
    | zero => exact ⟨rawOffset_zero _, rfl⟩
    | succ n =>
      rw [joinCrLf_single single] at inside line ⊢
      rw [List.take_succ_cons] at line
      obtain ⟨same, taken⟩ := ih (Nat.le_of_succ_le_succ inside) fun c member =>
        line c (List.mem_cons_of_mem _ member)
      rw [rawOffset_single single, same, List.take_succ_cons, List.take_succ_cons, taken]
      exact ⟨Nat.add_comm 1 n, rfl⟩

/-! ## Characters -/

/-- Decoding a character looks at no byte behind the first that is a character of its own. -/
theorem decodeFrom_takeWhile (b : UInt8) (rest : Bytes) :
    decodeFrom b (rest.takeWhile fun c => !isAscii c) = decodeFrom b rest := by
  have second : ∀ c, isAscii c = true → Utf8.isSecond b c = false := by
    intro c ascii
    refine Bool.eq_false_iff.mpr fun second => ?_
    have continues := Utf8.isContinuation_of_isSecond second
    rw [Utf8.isContinuation_of_isAscii ascii] at continues
    cases continues
  have continues : ∀ c, isAscii c = true → Utf8.isContinuation c = false :=
    fun c ascii => Utf8.isContinuation_of_isAscii ascii
  rcases rest with _ | ⟨c, rest⟩
  · rfl
  rw [List.takeWhile_cons]
  by_cases first : isAscii c = true
  · simp [first, decodeFrom, second c first]
  rcases rest with _ | ⟨d, rest⟩
  · simp [first]
  rw [List.takeWhile_cons]
  by_cases next : isAscii d = true
  · simp [first, next, decodeFrom, continues d next]
  rcases rest with _ | ⟨e, rest⟩
  · simp [first, next]
  rw [List.takeWhile_cons]
  by_cases last : isAscii e = true
  · simp [first, next, last, decodeFrom, continues e last]
  · simp [first, next, last, decodeFrom]

theorem takeWhile_joinCrLf (s : Bytes) :
    (joinCrLf s).takeWhile (fun c => !isAscii c) = s.takeWhile fun c => !isAscii c := by
  induction s using lineEnd_induct with
  | nil => rfl
  | pair rest ih => rw [joinCrLf_pair]; rfl
  | single b rest single ih =>
    rw [joinCrLf_single single, List.takeWhile_cons, List.takeWhile_cons, ih]

theorem decodeFrom_joinCrLf (b : UInt8) (rest : Bytes) : decodeFrom b (joinCrLf rest) = decodeFrom b rest := by
  rw [← decodeFrom_takeWhile, takeWhile_joinCrLf, decodeFrom_takeWhile]

/-- Boundaries of the file belong to boundaries of the raw text. -/
theorem boundary_rawOffset (here : Boundary (joinCrLf s) o) : Boundary s (rawOffset s o) := by
  induction size : s.length using Nat.strongRecOn generalizing s o with
  | ind length ih =>
    subst size
    cases o with
    | zero =>
      rw [rawOffset_zero]
      exact .zero _
    | succ o =>
      cases s using lineEnd_induct with
      | nil =>
        rw [rawOffset_nil]
        exact .zero _
      | pair rest _ =>
        rw [joinCrLf_pair] at here
        have behind : Boundary (joinCrLf rest) o :=
          Boundary.drop (Boundary.first 0x0A (joinCrLf rest)) (Nat.add_comm o 1 ▸ here)
        have pair : Boundary (0x0D :: 0x0A :: rest) 2 :=
          (Boundary.first 0x0D (0x0A :: rest)).trans (Boundary.first 0x0A rest)
        exact pair.trans (ih rest.length (by simp only [List.length_cons]; omega) behind rfl)
      | single b rest single _ =>
        rw [joinCrLf_single single] at here
        generalize whole : b :: joinCrLf rest = text at here
        generalize far : o + 1 = place at here
        cases here with
        | zero => cases far
        | @next c more n behind =>
          obtain ⟨rfl, rfl⟩ := List.cons.inj whole
          rw [decodeFrom_joinCrLf] at behind far ⊢
          have tail := (Utf8.tail_continues b (joinCrLf rest)).1
          have apart := Utf8.tail_of_character b (joinCrLf rest)
          rw [decodeFrom_joinCrLf] at tail apart
          have positive := Utf8.size_pos b rest
          obtain ⟨same, -⟩ := rawOffset_of_line tail fun c member feed => by
            have wide := apart c member
            rw [feed] at wide
            cases wide
          have cut := joinCrLf_drop rest ((decodeFrom b rest).size - 1)
          rw [same] at cut
          rw [← cut] at behind
          have place : rawOffset (b :: rest) (o + 1) = (decodeFrom b rest).size +
              rawOffset (rest.drop ((decodeFrom b rest).size - 1)) n := by
            have split : o = (decodeFrom b rest).size - 1 + n := by omega
            rw [rawOffset_single single, split, rawOffset_add, same]
            omega
          rw [← far, place]
          exact .next (ih _ (by simp only [List.length_drop, List.length_cons]; omega) behind rfl)

end SecurityRules.SourceFile
