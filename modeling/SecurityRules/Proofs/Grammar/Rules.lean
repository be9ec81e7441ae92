import SecurityRules.Parser.Declaration
import SecurityRules.Token

/-!
# The grammar of rules documents

A grammar reads lexemes: the kind and text of a token, and whether it touches the token in front of it. Phrases are the
right-hand sides of its rules; `Derives` says which lexemes a phrase takes off the front of a text.

There is one rule for each symbol. White space matters in three places: a dot in the name of a service and a slash
inside a path touch the token in front of them, and a path segment is a longest run of words, numbers and minus signs
that touch each other.
-/

namespace SecurityRules.Grammar

/-- A token as the grammar sees it. -/
structure Lexeme where
  kind : TokenKind
  text : Bytes
  /-- Whether nothing stands between the token and the one in front of it. -/
  isGlued : Bool
deriving DecidableEq

/-- Tokens as lexemes, given where the token in front of them ends. -/
def lexemes (stop : Nat) : List Token → List Lexeme
  | [] => []
  | t :: rest => ⟨t.kind, t.text, t.start == stop⟩ :: lexemes t.stop rest

/-- The right-hand side of a rule; `S` are the symbols of the grammar. -/
inductive Phrase (S : Type) where
  /-- One lexeme of a sort. -/
  | word (sort : Lexeme → Bool)
  | empty
  | seq (first second : Phrase S)
  | alt (left right : Phrase S)
  /-- Any number of times. -/
  | many (item : Phrase S)
  /-- Nothing, in front of anything but a lexeme of a sort. -/
  | stop (sort : Lexeme → Bool)
  | symbol (name : S)

namespace Phrase

variable {S : Type}

instance : Append (Phrase S) := ⟨seq⟩

instance : OrOp (Phrase S) := ⟨alt⟩

/-- One token of a kind. -/
def token (kind : TokenKind) : Phrase S := word fun t => t.kind == kind

/-- A phrase that may be left out. -/
def maybe (item : Phrase S) : Phrase S := item ||| empty

/-- Items between commas, where one more comma may follow the last one. -/
def commaList (item : Phrase S) : Phrase S :=
  item ++ many (token .comma ++ item) ++ maybe (token .comma)

end Phrase

/-- What a phrase takes off the front of a text, given the rules of the symbols: the first list is the text,
the second what is left of it. -/
inductive Derives {S : Type} (rule : S → Phrase S) : Phrase S → List Lexeme → List Lexeme → Prop
  | word {sort : Lexeme → Bool} {t : Lexeme} {rest : List Lexeme} (fits : sort t = true) :
    Derives rule (.word sort) (t :: rest) rest
  | empty {ts : List Lexeme} : Derives rule .empty ts ts
  | seq {φ ψ : Phrase S} {ts us vs : List Lexeme} (first : Derives rule φ ts us)
    (second : Derives rule ψ us vs) : Derives rule (.seq φ ψ) ts vs
  | left {φ ψ : Phrase S} {ts us : List Lexeme} (chosen : Derives rule φ ts us) :
    Derives rule (.alt φ ψ) ts us
  | right {φ ψ : Phrase S} {ts us : List Lexeme} (chosen : Derives rule ψ ts us) :
    Derives rule (.alt φ ψ) ts us
  | none {φ : Phrase S} {ts : List Lexeme} : Derives rule (.many φ) ts ts
  | more {φ : Phrase S} {ts us vs : List Lexeme} (first : Derives rule φ ts us)
    (others : Derives rule (.many φ) us vs) : Derives rule (.many φ) ts vs
  | stop {sort : Lexeme → Bool} {ts : List Lexeme} (ended : ∀ t ∈ ts.head?, sort t = false) :
    Derives rule (.stop sort) ts ts
  | symbol {name : S} {ts us : List Lexeme} (body : Derives rule (rule name) ts us) :
    Derives rule (.symbol name) ts us

section

variable {S : Type} {rule : S → Phrase S} {φ ψ : Phrase S} {ts us vs : List Lexeme}

theorem derives_word {sort : Lexeme → Bool} :
    Derives rule (.word sort) ts us ↔ ∃ t, ts = t :: us ∧ sort t = true := by
  constructor
  · intro derived
    cases derived with
    | word fits => exact ⟨_, rfl, fits⟩
  · rintro ⟨t, rfl, fits⟩
    exact .word fits

theorem derives_token {kind : TokenKind} :
    Derives rule (.token kind) ts us ↔ ∃ t, ts = t :: us ∧ t.kind = kind := by
  rw [Phrase.token, derives_word]
  simp only [beq_iff_eq]

theorem derives_empty : Derives rule .empty ts us ↔ ts = us := by
  constructor
  · intro derived
    cases derived with
    | empty => rfl
  · rintro rfl
    exact .empty

theorem derives_seq : Derives rule (φ ++ ψ) ts vs ↔ ∃ us, Derives rule φ ts us ∧ Derives rule ψ us vs := by
  constructor
  · intro derived
    cases derived with
    | seq first second => exact ⟨_, first, second⟩
  · rintro ⟨us, first, second⟩
    exact .seq first second

theorem derives_or : Derives rule (φ ||| ψ) ts us ↔ Derives rule φ ts us ∨ Derives rule ψ ts us := by
  constructor
  · intro derived
    cases derived with
    | left chosen => exact Or.inl chosen
    | right chosen => exact Or.inr chosen
  · rintro (chosen | chosen)
    · exact .left chosen
    · exact .right chosen

theorem derives_maybe : Derives rule (.maybe φ) ts us ↔ Derives rule φ ts us ∨ ts = us := by
  rw [Phrase.maybe, derives_or, derives_empty]

theorem derives_many :
    Derives rule (.many φ) ts vs ↔ ts = vs ∨ ∃ us, Derives rule φ ts us ∧ Derives rule (.many φ) us vs := by
  constructor
  · intro derived
    cases derived with
    | none => exact Or.inl rfl
    | more first others => exact Or.inr ⟨_, first, others⟩
  · rintro (rfl | ⟨us, first, others⟩)
    · exact .none
    · exact .more first others

theorem derives_stop {sort : Lexeme → Bool} :
    Derives rule (.stop sort) ts us ↔ ts = us ∧ ∀ t ∈ ts.head?, sort t = false := by
  constructor
  · intro derived
    cases derived with
    | stop ended => exact ⟨rfl, ended⟩
  · rintro ⟨rfl, ended⟩
    exact .stop ended

theorem derives_symbol {name : S} : Derives rule (.symbol name) ts us ↔ Derives rule (rule name) ts us := by
  constructor
  · intro derived
    cases derived with
    | symbol body => exact body
  · exact .symbol

/-- A list is an item, and behind it nothing, a comma, or a comma and a list. -/
theorem derives_commaList : Derives rule (.commaList φ) ts vs ↔
    ∃ us, Derives rule φ ts us ∧
      (us = vs ∨ ∃ t ws, us = t :: ws ∧ t.kind = .comma ∧ (ws = vs ∨ Derives rule (.commaList φ) ws vs)) := by
  have split : ∀ {ts vs}, Derives rule (.commaList φ) ts vs ↔ ∃ us, Derives rule φ ts us ∧
      ∃ ws, Derives rule (.many (.token .comma ++ φ)) us ws ∧ Derives rule (.maybe (.token .comma)) ws vs := by
    intro ts vs
    rw [Phrase.commaList, derives_seq]
    constructor
    · rintro ⟨ws, list, comma⟩
      obtain ⟨us, first, others⟩ := derives_seq.mp list
      exact ⟨us, first, ws, others, comma⟩
    · rintro ⟨us, first, ws, others, comma⟩
      exact ⟨ws, derives_seq.mpr ⟨us, first, others⟩, comma⟩
  constructor
  · intro derived
    obtain ⟨us, first, ws, others, comma⟩ := split.mp derived
    refine ⟨us, first, ?_⟩
    rcases derives_many.mp others with rfl | ⟨xs, next, behind⟩
    · rcases derives_maybe.mp comma with found | same
      · obtain ⟨t, rfl, kind⟩ := derives_token.mp found
        exact Or.inr ⟨t, vs, rfl, kind, Or.inl rfl⟩
      · exact Or.inl same
    · obtain ⟨ys, found, item⟩ := derives_seq.mp next
      obtain ⟨t, rfl, kind⟩ := derives_token.mp found
      exact Or.inr ⟨t, ys, rfl, kind, Or.inr (split.mpr ⟨xs, item, ws, behind, comma⟩)⟩
  · rintro ⟨us, first, rfl | ⟨t, ws, rfl, kind, rfl | list⟩⟩
    · exact split.mpr ⟨us, first, us, .none, derives_maybe.mpr (Or.inr rfl)⟩
    · exact split.mpr ⟨_, first, _, .none, derives_maybe.mpr (Or.inl (derives_token.mpr ⟨t, rfl, kind⟩))⟩
    · obtain ⟨xs, item, ys, others, comma⟩ := split.mp list
      have next := derives_seq.mpr ⟨ws, derives_token.mpr ⟨t, rfl, kind⟩, item⟩
      exact split.mpr ⟨_, first, ys, .more next others, comma⟩

/-- A list as one phrase behind the other. -/
theorem derives_commaList_seq : Derives rule (.commaList φ) ts vs ↔
    Derives rule (φ ++ .maybe (.token .comma ++ .maybe (.commaList φ))) ts vs := by
  rw [derives_commaList, derives_seq]
  refine exists_congr fun us => and_congr_right fun _ => ?_
  rw [derives_maybe, derives_seq]
  simp only [derives_token, derives_maybe]
  constructor
  · rintro (same | ⟨t, ws, rfl, kind, others⟩)
    · exact Or.inr same
    · exact Or.inl ⟨ws, ⟨t, rfl, kind⟩, others.symm⟩
  · rintro (⟨ws, ⟨t, rfl, kind⟩, others⟩ | same)
    · exact Or.inr ⟨t, ws, rfl, kind, others.symm⟩
    · exact Or.inl same

/-- What is left of a text is a part of it. -/
theorem Derives.length_le (derived : Derives rule φ ts us) : us.length ≤ ts.length := by
  induction derived with
  | word fits => exact Nat.le_succ _
  | empty => exact Nat.le_refl _
  | seq first second ihFirst ihSecond => exact Nat.le_trans ihSecond ihFirst
  | left chosen ih => exact ih
  | right chosen ih => exact ih
  | none => exact Nat.le_refl _
  | more first others ihFirst ihOthers => exact Nat.le_trans ihOthers ihFirst
  | stop ended => exact Nat.le_refl _
  | symbol body ih => exact ih

theorem Derives.many_append (first : Derives rule (.many φ) ts us) (second : Derives rule (.many φ) us vs) :
    Derives rule (.many φ) ts vs := by
  generalize shape : Phrase.many φ = ψ at first
  induction first with
  | word fits => cases shape
  | empty => cases shape
  | seq first second ihFirst ihSecond => cases shape
  | left chosen ih => cases shape
  | right chosen ih => cases shape
  | none =>
    obtain rfl := Phrase.many.inj shape
    exact second
  | more first others ihFirst ihOthers =>
    obtain rfl := Phrase.many.inj shape
    exact .more first (ihOthers second rfl)
  | stop ended => cases shape
  | symbol body ih => cases shape

/-- What holds of the end of a repetition and is kept in front of each item holds of its start. -/
theorem Derives.many_induct {P : List Lexeme → Prop} (derived : Derives rule (.many φ) ts vs) (last : P vs)
    (step : ∀ us ws, Derives rule φ us ws → Derives rule (.many φ) ws vs → P ws → P us) : P ts := by
  generalize shape : Phrase.many φ = ψ at derived
  induction derived with
  | word fits => cases shape
  | empty => cases shape
  | seq first second ihFirst ihSecond => cases shape
  | left chosen ih => cases shape
  | right chosen ih => cases shape
  | none => exact last
  | more first others ihFirst ihOthers =>
    obtain rfl := Phrase.many.inj shape
    exact step _ _ first others (ihOthers last step rfl)
  | stop ended => cases shape
  | symbol body ih => cases shape

end

/-! ## What a phrase starts with -/

section

variable {S : Type} (rule : S → Phrase S)

/-- A phrase takes at least one lexeme, the first of which is of a sort. -/
def Starts (sort : Lexeme → Bool) (φ : Phrase S) : Prop :=
  ∀ ts us, Derives rule φ ts us → us.length < ts.length ∧ ∃ t ∈ ts.head?, sort t = true

/-- A phrase takes nothing, or first a lexeme of a sort. -/
def Opens (sort : Lexeme → Bool) (φ : Phrase S) : Prop :=
  ∀ ts us, Derives rule φ ts us → ts = us ∨ ∃ t ∈ ts.head?, sort t = true

variable {rule} {sort other : Lexeme → Bool} {φ ψ : Phrase S}

theorem Starts.word : Starts rule sort (.word sort) := by
  intro ts us derived
  obtain ⟨t, rfl, fits⟩ := derives_word.mp derived
  exact ⟨Nat.lt_succ_self _, t, rfl, fits⟩

theorem Starts.seq (first : Starts rule sort φ) : Starts rule sort (φ ++ ψ) := by
  intro ts vs derived
  obtain ⟨us, head, tail⟩ := derives_seq.mp derived
  exact ⟨Nat.lt_of_le_of_lt tail.length_le (first ts us head).1, (first ts us head).2⟩

theorem Starts.mono (starts : Starts rule sort φ) (wider : ∀ t, sort t = true → other t = true) :
    Starts rule other φ := by
  intro ts us derived
  obtain ⟨shorter, t, head, fits⟩ := starts ts us derived
  exact ⟨shorter, t, head, wider t fits⟩

theorem Starts.or (left : Starts rule sort φ) (right : Starts rule sort ψ) :
    Starts rule sort (φ ||| ψ) := by
  intro ts us derived
  rcases derives_or.mp derived with chosen | chosen
  · exact left ts us chosen
  · exact right ts us chosen

theorem Starts.symbol {name : S} (body : Starts rule sort (rule name)) :
    Starts rule sort (.symbol name) := by
  intro ts us derived
  exact body ts us (derives_symbol.mp derived)

theorem Opens.many (item : Starts rule sort φ) : Opens rule sort (.many φ) := by
  intro ts us derived
  rcases derives_many.mp derived with same | ⟨ws, first, _⟩
  · exact Or.inl same
  · exact Or.inr (item ts ws first).2

theorem Opens.maybe (item : Starts rule sort φ) : Opens rule sort (.maybe φ) := by
  intro ts us derived
  rcases derives_maybe.mp derived with chosen | same
  · exact Or.inr (item ts us chosen).2
  · exact Or.inl same

end

/-! ## What may follow a phrase -/

/-- The next lexeme, if there is one, is not of a sort. -/
def Free (sort : Lexeme → Bool) (ts : List Lexeme) : Prop := ∀ t ∈ ts.head?, sort t = false

/-- One of several kinds. -/
def oneOf (kinds : List TokenKind) (t : Lexeme) : Bool := kinds.contains t.kind

theorem Free.of_opens {S : Type} {rule : S → Phrase S} {sort other : Lexeme → Bool} {φ : Phrase S}
    {ts us : List Lexeme} (free : Free other us) (derived : Derives rule φ ts us)
    (opens : Opens rule sort φ) (apart : ∀ t, sort t = true → other t = false) : Free other ts := by
  rcases opens ts us derived with rfl | ⟨t, head, fits⟩
  · exact free
  · intro u headU
    rw [Option.mem_def] at head headU
    rw [head] at headU
    rw [← Option.some.inj headU]
    exact apart t fits

theorem oneOf_apart {kinds others : List TokenKind} (apart : kinds.all (fun k => !others.contains k) = true)
    (t : Lexeme) (fits : oneOf kinds t = true) : oneOf others t = false := by
  rw [List.all_eq_true] at apart
  have found : t.kind ∈ kinds := by simpa [oneOf] using fits
  simpa [oneOf] using apart t.kind found

theorem Free.mono {sort other : Lexeme → Bool} {ts : List Lexeme} (free : Free other ts)
    (wider : ∀ t, sort t = true → other t = true) : Free sort ts := by
  intro t head
  rw [Bool.eq_false_iff]
  intro fits
  exact Bool.false_ne_true ((free t head).symm.trans (wider t fits))

/-! ## The rules -/

/-- The symbols of the grammar. -/
inductive Symbol where
  | file | header | service | body | matchBlock | matchPath | capture | segment
  | function | functionBody | letStatement | returnStatement | rule
  | expression | joined | operand | accessed | primary | field | index | arguments
  | list | map | entry | path | interpolation
deriving DecidableEq

/-- A slash that touches the token in front of it. -/
def isGluedSlash (t : Lexeme) : Bool := t.kind == .slash && t.isGlued

/-- A token of a path segment that touches the one in front of it. -/
def isGluedSegment (t : Lexeme) : Bool := Parser.isSegmentToken t.kind && t.isGlued

/-- A word that names an operation. -/
def isOperation (t : Lexeme) : Bool := t.kind == .identifier && Parser.isMethod t.text

/-- An infix operator that takes an expression on its right. -/
def isInfix (t : Lexeme) : Bool :=
  match Parser.infixOperator? t.kind with
  | some (_, kind) => kind != .typeComparison
  | none => false

open Phrase in
/-- The rule of each symbol. -/
def rules : Symbol → Phrase Symbol
  | .file => many (symbol .header) ++ symbol .service ++ many (symbol .header ||| symbol .service)
  | .header => token .kwRulesVersion ++ token .assign ++ token .string ++ token .semicolon
  | .service =>
    token .kwService ++
      (token .identifier ++ many (word (fun t => t.kind == .dot && t.isGlued) ++ token .identifier)) ++
      symbol .body
  | .body =>
    token .leftBrace ++ many (symbol .matchBlock ||| symbol .function ||| symbol .rule) ++
      token .rightBrace
  | .matchBlock => token .kwMatch ++ symbol .matchPath ++ symbol .body
  | .matchPath =>
    token .slash ++ (symbol .capture ||| symbol .segment) ++
      many (word isGluedSlash ++ (symbol .capture ||| symbol .segment))
  | .capture =>
    token .leftBrace ++ token .identifier ++ maybe (token .assign ++ token .starStar) ++
      token .rightBrace
  | .segment => word (Parser.isSegmentToken ·.kind) ++ many (word isGluedSegment) ++ stop isGluedSegment
  | .function =>
    token .kwFunction ++ token .identifier ++ token .leftParen ++
      maybe (commaList (token .identifier)) ++ token .rightParen ++ symbol .functionBody
  | .functionBody =>
    token .leftBrace ++ many (symbol .letStatement ||| symbol .returnStatement) ++ token .rightBrace
  | .letStatement =>
    token .kwLet ++ token .identifier ++ token .assign ++ symbol .expression ++ token .semicolon
  | .returnStatement => token .kwReturn ++ symbol .expression ++ maybe (token .semicolon)
  | .rule =>
    token .kwAllow ++ commaList (word isOperation) ++
      maybe (token .colon ++ token .kwIf ++ symbol .expression) ++ maybe (token .semicolon)
  | .expression =>
    symbol .joined ++
      maybe (token .question ++ symbol .expression ++ token .colon ++ symbol .expression)
  | .joined =>
    symbol .operand ++
      many (word isInfix ++ symbol .operand ||| token .kwIs ++ token .identifier)
  | .operand => word (oneOf [.bang, .minus]) ++ symbol .operand ||| symbol .accessed
  | .accessed =>
    symbol .primary ++
      many (token .dot ++ symbol .field ||| token .leftBracket ++ symbol .index ++ token .rightBracket)
  | .primary =>
    token .identifier ++ maybe (symbol .arguments) |||
      word (oneOf [.number, .string, .kwTrue, .kwFalse, .kwNull]) |||
      token .leftParen ++ symbol .expression ++ token .rightParen |||
      symbol .list ||| symbol .map ||| symbol .path
  | .field =>
    word (fun t => t.kind == .identifier || t.kind.isKeyword) ++ maybe (symbol .arguments)
  | .index =>
    symbol .expression |||
      maybe (symbol .expression) ++ token .colon ++ maybe (symbol .expression)
  | .arguments =>
    token .leftParen ++ maybe (commaList (symbol .expression)) ++ token .rightParen
  | .list => token .leftBracket ++ maybe (commaList (symbol .expression)) ++ token .rightBracket
  | .map => token .leftBrace ++ maybe (commaList (symbol .entry)) ++ token .rightBrace
  | .entry => symbol .expression ++ token .colon ++ symbol .expression
  | .path =>
    token .slash ++ (symbol .interpolation ||| symbol .segment) ++
      many (word isGluedSlash ++ (symbol .interpolation ||| symbol .segment)) ++ stop isGluedSlash
  | .interpolation => token .dollar ++ token .leftParen ++ symbol .expression ++ token .rightParen

/-- Parts behind slashes, of which all but the first touch the token in front of them, as many as there are. -/
def slashed (part : Phrase Symbol) : Phrase Symbol :=
  .token .slash ++ part ++ .many (.word isGluedSlash ++ part) ++ .stop isGluedSlash

/-- One part, and behind it no slash that touches it, or more parts. -/
theorem derives_slashed {part : Phrase Symbol} {ts vs : List Lexeme} :
    Derives rules (slashed part) ts vs ↔ ∃ us, Derives rules (.token .slash ++ part) ts us ∧
      (us = vs ∧ Free isGluedSlash us ∨
        (∃ t ∈ us.head?, isGluedSlash t = true) ∧ Derives rules (slashed part) us vs) := by
  have split : ∀ {ts vs}, Derives rules (slashed part) ts vs ↔
      ∃ us, Derives rules (.token .slash ++ part) ts us ∧
        Derives rules (.many (.word isGluedSlash ++ part)) us vs ∧ Free isGluedSlash vs := by
    intro ts vs
    rw [slashed, derives_seq]
    constructor
    · rintro ⟨ws, list, ended⟩
      obtain ⟨us, first, others⟩ := derives_seq.mp list
      obtain ⟨rfl, free⟩ := derives_stop.mp ended
      exact ⟨us, first, others, free⟩
    · rintro ⟨us, first, others, free⟩
      exact ⟨vs, derives_seq.mpr ⟨us, first, others⟩, derives_stop.mpr ⟨rfl, free⟩⟩
  constructor
  · intro derived
    obtain ⟨us, first, others, free⟩ := split.mp derived
    refine ⟨us, first, ?_⟩
    rcases derives_many.mp others with rfl | ⟨xs, next, behind⟩
    · exact Or.inl ⟨rfl, free⟩
    · obtain ⟨ys, slash, item⟩ := derives_seq.mp next
      obtain ⟨t, rfl, glued⟩ := derives_word.mp slash
      have kind : t.kind = .slash := beq_iff_eq.mp (Bool.and_eq_true_iff.mp glued).1
      refine Or.inr ⟨⟨t, rfl, glued⟩, split.mpr ⟨xs, ?_, behind, free⟩⟩
      exact derives_seq.mpr ⟨ys, derives_token.mpr ⟨t, rfl, kind⟩, item⟩
  · rintro ⟨us, first, ⟨rfl, free⟩ | ⟨⟨t, head, glued⟩, behind⟩⟩
    · exact split.mpr ⟨us, first, .none, free⟩
    · obtain ⟨xs, next, others, free⟩ := split.mp behind
      obtain ⟨ys, slash, item⟩ := derives_seq.mp next
      obtain ⟨u, rfl, _⟩ := derives_token.mp slash
      obtain rfl := Option.some.inj head
      refine split.mpr ⟨_, first, .more (derives_seq.mpr ⟨ys, derives_word.mpr ⟨u, rfl, glued⟩, item⟩) others,
        free⟩

end SecurityRules.Grammar
