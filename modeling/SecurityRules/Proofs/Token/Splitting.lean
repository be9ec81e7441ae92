import SecurityRules.Proofs.Token.Heads
import SecurityRules.Proofs.Token.Measures
import SecurityRules.Proofs.Token.Tiling

/-!
# Texts that fall apart

Behind a brace or a semicolon the lexer starts anew: what it has made of the text up to there does not depend on what
follows. So the tokens of a text that is put together behind such a sign are those of its parts, one behind the other.

What stands around a token has no part in it: its text alone is that token, and so are the texts of all tokens of a text
one below the other. Only the last token of a text can be one that the end of the text has ended, so a line feed may
stand behind all others.
-/

namespace SecurityRules

/-- The same token in a text with `gap` more bytes in front. -/
def Token.shift (gap : Nat) (t : Token) : Token := { t with start := t.start + gap, stop := t.stop + gap }

/-- The signs that no other byte goes on. -/
def TokenKind.isFence : TokenKind → Bool
  | .leftBrace | .rightBrace | .semicolon => true
  | _ => false

namespace Lexer

/-- The bytes of these signs. -/
def isFenceByte (b : UInt8) : Bool := b == 0x7B || b == 0x7D || b == 0x3B

section

variable {c : UInt8}

theorem isFenceByte_iff : isFenceByte c = true ↔ c = 0x7B ∨ c = 0x7D ∨ c = 0x3B := by
  simp [isFenceByte, or_assoc]

/-- Such a byte is no white space, and ends numbers, names and signs. -/
theorem fence_apart : ∀ c : UInt8, isFenceByte c = true → isBlank c = false ∧ isStop c = true :=
  Utf8.forall_byte (by decide +kernel)

/-! ## Texts put together -/

/-- A brace or semicolon is a token of its own, whatever follows. -/
theorem measure_fence (fence : isFenceByte c = true) (x : Bytes) :
    measure c x = ((oneByteSign? c).getD .invalid, 0) := by
  rcases isFenceByte_iff.mp fence with rfl | rfl | rfl <;> (rw [measure]; cases x <;> rfl)

theorem tokenAt_fence (fence : isFenceByte c = true) (offset : Nat) (x : Bytes) :
    tokenAt offset c x = tokenAt offset c [] := by
  rw [tokenAt, tokenAt, measure_fence fence, measure_fence fence]
  rfl

theorem stop_tokenAt_fence (fence : isFenceByte c = true) (offset : Nat) :
    (tokenAt offset c []).stop = offset + 1 := by
  rw [tokenAt, measure_fence fence]
  rfl

theorem tokensFrom_nil (offset : Nat) : tokensFrom ⟨offset, []⟩ = [Token.endAt offset] := by
  rw [tokensFrom]
  rfl

theorem tokensFrom_cons_blank {b : UInt8} (blank : isBlank b = true) (offset : Nat) (rest : Bytes) :
    tokensFrom ⟨offset, b :: rest⟩ = tokensFrom ⟨offset + 1, rest⟩ := by
  have skipped : Cursor.skipBlanks ⟨offset, b :: rest⟩ = Cursor.skipBlanks ⟨offset + 1, rest⟩ := by
    rw [Cursor.skipBlanks, Cursor.skipBlanks]
    dsimp only
    rw [List.takeWhile_cons_of_pos blank, List.dropWhile_cons_of_pos blank, List.length_cons, Nat.add_assoc,
      Nat.add_comm 1]
  have next : Cursor.next ⟨offset, b :: rest⟩ = Cursor.next ⟨offset + 1, rest⟩ := by
    rw [Cursor.next, Cursor.next, skipped]
  rw [tokensFrom, skipped, next, ← tokensFrom]

theorem tokensFrom_cons {b : UInt8} (dark : isBlank b = false) (offset : Nat) (rest : Bytes) :
    tokensFrom ⟨offset, b :: rest⟩ =
      tokenAt offset b rest :: tokensFrom ⟨(tokenAt offset b rest).stop, rest.drop (measure b rest).2⟩ := by
  have stays : Cursor.skipBlanks ⟨offset, b :: rest⟩ = ⟨offset, b :: rest⟩ := by
    rw [Cursor.skipBlanks]
    dsimp only
    rw [List.takeWhile_cons_of_neg (by simp [dark]), List.dropWhile_cons_of_neg (by simp [dark])]
    rfl
  have next : Cursor.next ⟨offset, b :: rest⟩ =
      (tokenAt offset b rest, ⟨(tokenAt offset b rest).stop, rest.drop (measure b rest).2⟩) := by
    rw [Cursor.next, stays]
  rw [tokensFrom, stays, next]
  exact if_neg (List.cons_ne_nil _ _)

theorem tokensFrom_blank {blanks : Bytes} (blank : ∀ b ∈ blanks, isBlank b = true) (offset : Nat) (rest : Bytes) :
    tokensFrom ⟨offset, blanks ++ rest⟩ = tokensFrom ⟨offset + blanks.length, rest⟩ := by
  induction blanks generalizing offset with
  | nil => rfl
  | cons b blanks ih =>
    rw [List.cons_append, tokensFrom_cons_blank (blank b (List.mem_cons_self ..)),
      ih (fun u member => blank u (List.mem_cons_of_mem b member)), List.length_cons, Nat.add_assoc, Nat.add_comm 1]

/-- Tokens behind more bytes are the same ones, shifted. -/
theorem tokensFrom_shift (gap offset : Nat) (rest : Bytes) :
    tokensFrom ⟨offset + gap, rest⟩ = (tokensFrom ⟨offset, rest⟩).map (Token.shift gap) := by
  induction length : rest.length using Nat.strongRecOn generalizing offset rest with
  | ind n ih =>
    rcases rest with _ | ⟨b, rest⟩
    · rw [tokensFrom_nil, tokensFrom_nil]
      rfl
    · rw [List.length_cons] at length
      cases blank : isBlank b with
      | true =>
        rw [tokensFrom_cons_blank blank, tokensFrom_cons_blank blank, Nat.add_right_comm]
        exact ih rest.length (by omega) (offset + 1) rest rfl
      | false =>
        have shifted : tokenAt (offset + gap) b rest = (tokenAt offset b rest).shift gap := by
          rw [tokenAt, tokenAt, Token.shift]
          dsimp only
          rw [Nat.add_right_comm]
        rw [tokensFrom_cons blank, tokensFrom_cons blank, shifted, List.map_cons]
        exact congrArg _ (ih (rest.drop (measure b rest).2).length (by rw [List.length_drop]; omega) _ _ rfl)

/-- Tokens lie behind the place that they are read from, also the empty one at the end. -/
theorem le_start_of_mem_tokensFrom {cursor : Cursor} {t : Token} (member : t ∈ tokensFrom cursor) :
    cursor.offset ≤ t.start := by
  by_cases ended : t.kind = .endOfInput
  · obtain ⟨front, shape, other⟩ := ended_tokensFrom cursor
    rw [shape] at member
    rcases List.mem_append.mp member with early | last
    · exact absurd ended (other t early)
    · rw [List.mem_singleton.mp last]
      exact Nat.le_add_right _ _
  · exact (laid_tokensFrom cursor).2 t (List.mem_filter.mpr ⟨member, by simpa using ended⟩)

/-- If a brace or semicolon is a token of a text, then the tokens up to it are the same whatever follows, and the
tokens behind it are those of what follows. The induction is on the text in front of it, token by token. -/
theorem tokensFrom_append (fence : isFenceByte c = true) (x : Bytes) (offset : Nat) (v : Bytes)
    (found : ∃ t ∈ tokensFrom ⟨offset, v ++ c :: x⟩, t.start = offset + v.length) :
    ∃ front, ∀ y, tokensFrom ⟨offset, v ++ c :: y⟩ =
      front ++ tokenAt (offset + v.length) c [] :: tokensFrom ⟨offset + v.length + 1, y⟩ := by
  induction length : v.length using Nat.strongRecOn generalizing offset v with
  | ind n ih =>
    subst length
    rcases v with _ | ⟨b, v⟩
    · refine ⟨[], fun y => ?_⟩
      rw [List.nil_append, List.nil_append, tokensFrom_cons (fence_apart c fence).1, tokenAt_fence fence,
        measure_fence fence, List.drop_zero, stop_tokenAt_fence fence]
      rfl
    · simp only [List.cons_append, List.length_cons] at found ⊢
      cases blank : isBlank b with
      | true =>
        simp only [tokensFrom_cons_blank blank, Nat.add_comm v.length, ← Nat.add_assoc] at found ⊢
        exact ih v.length (Nat.lt_succ_self _) (offset + 1) v found rfl
      | false =>
        obtain ⟨t, member, start⟩ := found
        rw [tokensFrom_cons blank] at member
        have length : (b :: v).length = v.length + 1 := rfl
        have later : t ∈ tokensFrom ⟨(tokenAt offset b (v ++ c :: x)).stop,
            (v ++ c :: x).drop (measure b (v ++ c :: x)).2⟩ := by
          refine (List.mem_cons.mp member).resolve_left ?_
          rintro rfl
          have first : (tokenAt offset b (v ++ c :: x)).start = offset := rfl
          omega
        have inside : (measure b (v ++ c :: x)).2 ≤ v.length := by
          have bound := le_start_of_mem_tokensFrom later
          have stop : (tokenAt offset b (v ++ c :: x)).stop =
            offset + (b :: (v ++ c :: x).take (measure b (v ++ c :: x)).2).length := rfl
          dsimp only at bound
          rw [stop, List.length_cons, List.length_take, List.length_append, List.length_cons] at bound
          omega
        -- The first token ends in front of the sign, so all texts start with it.
        generalize length : (measure b (v ++ c :: x)).2 = n at inside later
        have same (y : Bytes) : measure b (v ++ c :: y) = measure b (v ++ c :: x) :=
          measure_append (fence_apart c fence).2 id b y (length ▸ inside)
        have taken (y : Bytes) : (v ++ c :: y).take n = v.take n := List.take_append_of_le_length inside
        have left (y : Bytes) : (v ++ c :: y).drop n = v.drop n ++ c :: y := List.drop_append_of_le_length inside
        have token (y : Bytes) : tokenAt offset b (v ++ c :: y) = tokenAt offset b (v ++ c :: x) := by
          rw [tokenAt, tokenAt, same, length, taken, taken]
        have stop : (tokenAt offset b (v ++ c :: x)).stop = offset + 1 + n := by
          show offset + (b :: (v ++ c :: x).take (measure b (v ++ c :: x)).2).length = _
          rw [length, taken, List.length_cons, List.length_take, Nat.min_eq_left inside, Nat.add_assoc, Nat.add_comm 1]
        rw [left, stop] at later
        have behind : offset + 1 + n + (v.drop n).length = offset + (v.length + 1) := by
          rw [List.length_drop]
          omega
        obtain ⟨front, others⟩ := ih (v.drop n).length (by rw [List.length_drop]; omega) _ _ ⟨t, later, by omega⟩ rfl
        refine ⟨tokenAt offset b (v ++ c :: x) :: front, fun y => ?_⟩
        rw [tokensFrom_cons blank, token, same, length, left, stop, others, behind]
        rfl

/-! ## Texts inserted into others -/

/-- The tokens of a text that stands at an offset, without the empty one at the end. -/
def realTokens (offset : Nat) (text : Bytes) : List Token :=
  (tokensFrom ⟨offset, text⟩).filter (·.kind != .endOfInput)

theorem realTokens_shift (gap offset : Nat) (text : Bytes) :
    realTokens (offset + gap) text = (realTokens offset text).map (Token.shift gap) := by
  rw [realTokens, tokensFrom_shift, List.filter_map]
  rfl

theorem realTokens_blank {blanks : Bytes} (blank : ∀ b ∈ blanks, isBlank b = true) (offset : Nat) (rest : Bytes) :
    realTokens offset (blanks ++ rest) = realTokens (offset + blanks.length) rest := by
  rw [realTokens, tokensFrom_blank blank, ← realTokens]

theorem exists_fenceByte {k : TokenKind} (fence : k.isFence = true) :
    k.isFixed = true ∧ ∃ c, isFenceByte c = true ∧ Bytes.ofString k.name = [c] := by
  unfold TokenKind.isFence at fence
  split at fence
  · exact ⟨rfl, 0x7B, rfl, by decide +kernel⟩
  · exact ⟨rfl, 0x7D, rfl, by decide +kernel⟩
  · exact ⟨rfl, 0x3B, rfl, by decide +kernel⟩
  · cases fence

/-- A brace or semicolon that is a token is one byte. -/
theorem split_of_isFence {text : Bytes} {t : Token} (member : t ∈ realTokens 0 text) (fence : t.kind.isFence = true) :
    ∃ c v x, isFenceByte c = true ∧ text = v ++ c :: x ∧ t = tokenAt v.length c [] := by
  obtain ⟨inside, real⟩ := List.mem_filter.mp member
  obtain ⟨b, rest, behind, -, same⟩ := measured_tokensFrom ⟨0, text⟩ rfl t inside (by simpa using real)
  obtain ⟨fixed, c, fenceByte, name⟩ := exists_fenceByte fence
  have kind : t.kind = (measure b rest).1 := by
    rw [same]
    rfl
  have fixed' : (measure b rest).1.isFixed = true := kind ▸ fixed
  have spelled := text_measure fixed'
  rw [← kind, name] at spelled
  obtain ⟨rfl, -⟩ := List.cons.inj spelled
  have low : t.start < text.length := by
    by_contra beyond
    rw [List.drop_eq_nil_of_le (Nat.le_of_not_lt beyond)] at behind
    cases behind
  refine ⟨b, text.take t.start, rest, fenceByte, ?_, ?_⟩
  · rw [← behind, List.take_append_drop]
  · rw [List.length_take, Nat.min_eq_left (Nat.le_of_lt low), ← tokenAt_fence fenceByte _ rest]
    exact same

/-- The tokens up to a brace or semicolon that is one of them do not depend on what follows. -/
theorem realTokens_append {text : Bytes} {t : Token} (member : t ∈ realTokens 0 text) (fence : t.kind.isFence = true) :
    ∃ front, front.getLast? = some t ∧ ∀ y, realTokens 0 (text.take t.stop ++ y) = front ++ realTokens t.stop y := by
  obtain ⟨c, v, x, fenceByte, rfl, token⟩ := split_of_isFence member fence
  have inside : t ∈ tokensFrom ⟨0, v ++ c :: x⟩ := (List.mem_filter.mp member).1
  have real : (t.kind != .endOfInput) = true := (List.mem_filter.mp member).2
  have stop : t.stop = v.length + 1 := by rw [token, stop_tokenAt_fence fenceByte]
  obtain ⟨front, others⟩ := tokensFrom_append fenceByte x 0 v ⟨t, inside, by rw [token, Nat.zero_add]; rfl⟩
  refine ⟨front.filter (·.kind != .endOfInput) ++ [t], List.getLast?_concat, fun y => ?_⟩
  have cut : (v ++ c :: x).take (v.length + 1) = v ++ [c] := by simp [List.take_append, List.take_of_length_le]
  have kept (ts : List Token) : (t :: ts).filter (·.kind != .endOfInput) = t :: ts.filter (·.kind != .endOfInput) :=
    List.filter_cons_of_pos real
  rw [stop, cut, List.append_assoc, realTokens]
  show (tokensFrom ⟨0, v ++ c :: y⟩).filter _ = _
  rw [others, Nat.zero_add, ← token, List.filter_append, kept, List.append_assoc]
  rfl

/-- The tokens of a text with another one put in behind a brace or semicolon, between white space. The text that is put
in ends with such a sign too. -/
theorem realTokens_insert {text junk before after : Bytes} {t last : Token} (member : t ∈ realTokens 0 text)
    (fence : t.kind.isFence = true) (memberLast : last ∈ realTokens 0 junk) (fenceLast : last.kind.isFence = true)
    (whole : last.stop = junk.length) (blank : ∀ b ∈ before, isBlank b = true) (blank' : ∀ b ∈ after, isBlank b = true) :
    ∃ front back, front.getLast? = some t ∧ (∀ u ∈ back, t.stop ≤ u.start) ∧ realTokens 0 text = front ++ back ∧
      realTokens 0 (text.take t.stop ++ (before ++ junk ++ after ++ text.drop t.stop)) =
        front ++ (realTokens 0 junk).map (Token.shift (t.stop + before.length)) ++
          back.map (Token.shift (before.length + junk.length + after.length)) := by
  obtain ⟨front, ends, others⟩ := realTokens_append member fence
  obtain ⟨inner, -, othersInner⟩ := realTokens_append memberLast fenceLast
  rw [whole, List.take_length] at othersInner
  have alone : realTokens 0 junk = inner := by
    have end' : realTokens junk.length [] = [] := by
      rw [realTokens, tokensFrom_nil]
      rfl
    simpa [end'] using othersInner []
  have rest := others (text.drop t.stop)
  rw [List.take_append_drop] at rest
  refine ⟨front, realTokens t.stop (text.drop t.stop), ends, fun u behind => ?_, rest, ?_⟩
  · exact le_start_of_mem_tokensFrom (List.mem_filter.mp behind).1
  · have gap : t.stop + (before.length + junk.length + after.length) =
        junk.length + (t.stop + before.length) + after.length := by omega
    have first : realTokens (t.stop + before.length) (junk ++ (after ++ text.drop t.stop)) =
        (realTokens 0 junk).map (Token.shift (t.stop + before.length)) ++
          realTokens (junk.length + (t.stop + before.length) + after.length) (text.drop t.stop) := by
      have shifted := realTokens_shift (t.stop + before.length) 0 (junk ++ (after ++ text.drop t.stop))
      rw [Nat.zero_add] at shifted
      rw [shifted, othersInner, ← alone, List.map_append, realTokens_blank blank',
        ← realTokens_shift _ (junk.length + after.length), Nat.add_right_comm junk.length after.length]
    rw [others, List.append_assoc, List.append_assoc, realTokens_blank blank, first, ← gap, realTokens_shift _ t.stop,
      List.append_assoc]

end

/-! ## A token alone -/

variable {b : UInt8}

theorem measure_alone (b : UInt8) (rest : Bytes) : measure b (rest.take (measure b rest).2) = measure b rest :=
  measure_take b rest _ (Nat.le_refl _)

/-- A token that is not ended by the end of the text may have a line feed and any text behind it. -/
theorem measure_above {rest : Bytes} (more : rest.drop (measure b rest).2 ≠ []) (y : Bytes) :
    measure b (rest.take (measure b rest).2 ++ 0x0A :: y) = measure b rest := by
  obtain ⟨c, x, behind⟩ := List.exists_cons_of_ne_nil more
  have whole : rest.take (measure b rest).2 ++ c :: x = rest := by rw [← behind, List.take_append_drop]
  have short : (measure b rest).2 ≤ (rest.take (measure b rest).2).length := by
    rw [List.length_take]
    refine Nat.le_min.mpr ⟨Nat.le_refl _, Nat.le_of_not_lt fun beyond => more ?_⟩
    exact List.drop_eq_nil_of_le (Nat.le_of_lt beyond)
  have same := measure_append (c := c) (d := 0x0A) rfl (fun _ => rfl) b (v := rest.take (measure b rest).2) (x := x) y
    (by rw [whole]; exact short)
  rw [same, whole]

theorem realTokens_nil (offset : Nat) : realTokens offset [] = [] := by
  rw [realTokens, tokensFrom_nil]
  rfl

theorem realTokens_cons_blank (blank : isBlank b = true) (offset : Nat) (rest : Bytes) :
    realTokens offset (b :: rest) = realTokens (offset + 1) rest := by
  rw [realTokens, tokensFrom_cons_blank blank, ← realTokens]

theorem realTokens_cons (dark : isBlank b = false) (offset : Nat) (rest : Bytes) : realTokens offset (b :: rest) =
    tokenAt offset b rest :: realTokens (tokenAt offset b rest).stop (rest.drop (measure b rest).2) := by
  rw [realTokens, tokensFrom_cons dark]
  exact List.filter_cons_of_pos (bne_iff_ne.mpr (measure_ne_end b rest))

/-- The text of a token alone is that token. -/
theorem tokensFrom_alone (dark : isBlank b = false) (offset place : Nat) (rest : Bytes) :
    tokensFrom ⟨place, (tokenAt offset b rest).text⟩ = [tokenAt place b rest, Token.endAt (tokenAt place b rest).stop] := by
  have text : (tokenAt offset b rest).text = b :: rest.take (measure b rest).2 := rfl
  have same : tokenAt place b (rest.take (measure b rest).2) = tokenAt place b rest := by
    rw [tokenAt, measure_alone, List.take_take, Nat.min_self]
    rfl
  rw [text, tokensFrom_cons dark, same, measure_alone, List.drop_take, Nat.sub_self, List.take_zero, tokensFrom_nil]

theorem realTokens_alone (dark : isBlank b = false) (offset place : Nat) (rest : Bytes) :
    realTokens place (tokenAt offset b rest).text = [tokenAt place b rest] := by
  rw [realTokens, tokensFrom_alone dark]
  exact List.filter_cons_of_pos (bne_iff_ne.mpr (measure_ne_end b rest))

/-- The text of a token on a row of its own is that token, if it is not ended by the end of the text. -/
theorem realTokens_above (dark : isBlank b = false) {rest : Bytes} (more : rest.drop (measure b rest).2 ≠ [])
    (offset place : Nat) (y : Bytes) : realTokens place ((tokenAt offset b rest).text ++ 0x0A :: y) =
      tokenAt place b rest :: realTokens ((tokenAt place b rest).stop + 1) y := by
  have text : (tokenAt offset b rest).text = b :: rest.take (measure b rest).2 := rfl
  have inside : (rest.take (measure b rest).2).length = (measure b rest).2 :=
    List.length_take_of_le (Nat.le_of_not_lt fun beyond => more (List.drop_eq_nil_of_le (Nat.le_of_lt beyond)))
  have taken : (rest.take (measure b rest).2 ++ 0x0A :: y).take (measure b rest).2 = rest.take (measure b rest).2 :=
    List.take_left' inside
  have left : (rest.take (measure b rest).2 ++ 0x0A :: y).drop (measure b rest).2 = 0x0A :: y := List.drop_left' inside
  have same : tokenAt place b (rest.take (measure b rest).2 ++ 0x0A :: y) = tokenAt place b rest := by
    rw [tokenAt, measure_above more, taken]
    rfl
  rw [text, List.cons_append, realTokens_cons dark, same, measure_above more, left]
  exact congrArg _ (realTokens_cons_blank rfl _ y)

/-! ## Tokens one below the other -/

/-- The texts of tokens one below the other. -/
def stacked (ts : List Token) : Bytes := Bytes.join [0x0A] (ts.map (·.text))

theorem stacked_cons_cons (t u : Token) (ts : List Token) :
    stacked (t :: u :: ts) = t.text ++ 0x0A :: stacked (u :: ts) := by
  rw [stacked, List.map_cons, List.map_cons, Bytes.join, List.append_assoc, List.singleton_append, ← List.map_cons]
  rfl

/-- The texts of all tokens one below the other are tokens with the same kinds and texts, wherever they stand. The
induction is on the text, token by token. -/
theorem realTokens_stacked (content : Bytes) : ∀ offset place : Nat,
    (realTokens place (stacked (realTokens offset content))).map (fun t => (t.kind, t.text)) =
      (realTokens offset content).map fun t => (t.kind, t.text) := by
  induction length : content.length using Nat.strongRecOn generalizing content with
  | ind n ih =>
    subst length
    intro offset place
    rcases content with _ | ⟨b, rest⟩
    · rw [realTokens_nil]
      exact congrArg _ (realTokens_nil place)
    rw [List.length_cons] at ih
    cases blank : isBlank b with
    | true =>
      rw [realTokens_cons_blank blank]
      exact ih rest.length (Nat.lt_succ_self _) rest rfl _ place
    | false =>
      have later := ih (rest.drop (measure b rest).2).length (by rw [List.length_drop]; omega) _ rfl
        (tokenAt offset b rest).stop
      rw [realTokens_cons blank]
      by_cases more : rest.drop (measure b rest).2 = []
      · rw [more, realTokens_nil]
        exact (congrArg (List.map _) (realTokens_alone blank offset place rest)).trans rfl
      generalize realTokens (tokenAt offset b rest).stop (rest.drop (measure b rest).2) = ts at later
      cases ts with
      | nil => exact (congrArg (List.map _) (realTokens_alone blank offset place rest)).trans rfl
      | cons t ts =>
        rw [stacked_cons_cons, realTokens_above blank more, List.map_cons, List.map_cons, later]
        rfl

/-- Tokens do not depend on what stands around them: the texts of all tokens of a text, joined by line feeds, are tokens
with the same kinds and texts in the same order, and each text alone is its token. -/
theorem tokens_joined (content : Bytes) :
    let ts := (tokens content).filter (·.kind != .endOfInput)
    ((tokens (Bytes.join [0x0A] (ts.map (·.text)))).filter (·.kind != .endOfInput)).map (fun t => (t.kind, t.text)) =
        ts.map (fun t => (t.kind, t.text)) ∧
      ∀ t ∈ ts, tokens t.text = [⟨t.kind, 0, t.text.length, t.text⟩, Token.endAt t.text.length] := by
  intro ts
  refine ⟨realTokens_stacked content 0 0, fun t member => ?_⟩
  obtain ⟨inside, real⟩ := List.mem_filter.mp member
  obtain ⟨b, rest, -, dark, same⟩ := measured_tokensFrom (Cursor.start content) rfl t inside (by simpa using real)
  have alone := tokensFrom_alone dark t.start 0 rest
  rw [← same] at alone
  rw [tokens, Cursor.start, alone, same, tokenAt, tokenAt]
  dsimp only
  rw [Nat.zero_add]

end Lexer

end SecurityRules
