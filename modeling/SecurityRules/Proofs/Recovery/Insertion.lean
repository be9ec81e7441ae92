import SecurityRules.Proofs.Recovery.Declarations
import SecurityRules.Proofs.Recovery.Gap
import SecurityRules.Proofs.Recovery.Stray

/-!
# Loops around an insertion

A stray statement is put into a text behind a brace or semicolon. A loop over items reads the same items of both texts
in front of the place, one more at the place or around it, and the same items again behind it.
-/

namespace SecurityRules

/-! ## Tokens from an offset on -/

namespace SourceFile

variable {f : SourceFile} {a b n : Nat} {u : Token}

/-- No token lies around the end of another one. -/
theorem IsEdge.apart (edge : f.IsEdge n) (member : u ∈ f.tokens) : n ≤ u.start ∨ u.stop ≤ n := by
  have filled := f.laid_tokens.filled u member
  rcases edge with rfl | rfl | ⟨t, token, here⟩
  · exact .inl (Nat.zero_le _)
  · exact .inr (f.laid_tokens.bounded u member)
  · have filledT := f.laid_tokens.filled t token
    rcases Nat.lt_trichotomy t.start u.start with less | same | more
    · have := f.laid_tokens.stop_le_of_start_lt token member less
      omega
    · have same : u ∈ f.tokensIn t.start t.stop := (f.mem_tokensIn).mpr ⟨member, by omega, by omega⟩
      rw [f.tokensIn_token token, List.mem_singleton] at same
      rw [same]
      omega
    · have := f.laid_tokens.stop_le_of_start_lt member token more
      omega

theorem significantFrom_filter (low : a ≤ b) :
    f.significantFrom b = (f.significantFrom a).filter fun t => decide (b ≤ t.start) := by
  rw [significantFrom, significantFrom, List.filter_filter]
  refine List.filter_congr fun t _ => ?_
  rw [Bool.eq_iff_iff]
  simp only [Bool.and_eq_true, decide_eq_true_eq]
  constructor
  · rintro ⟨significant, behind⟩
    exact ⟨behind, significant, Nat.le_trans low behind⟩
  · rintro ⟨behind, significant, -⟩
    exact ⟨significant, behind⟩

theorem length_significantFrom_le (low : a ≤ b) :
    (f.significantFrom b).length ≤ (f.significantFrom a).length := by
  rw [significantFrom_filter low]
  exact List.length_filter_le _ _

/-- A token between two offsets is ahead of the first one only. -/
theorem length_significantFrom_lt (member : u ∈ f.tokens) (significant : u.kind.isComment = false) (low : a ≤ u.start)
    (high : u.start < b) : (f.significantFrom b).length < (f.significantFrom a).length := by
  rw [significantFrom_filter (Nat.le_of_lt (Nat.lt_of_le_of_lt low high)), List.length_filter_lt_length_iff_exists]
  refine ⟨u, List.mem_filter.mpr ⟨member, ?_⟩, ?_⟩
  · simp [significant, low]
  · simp [high]

end SourceFile

namespace Parser

open Grammar
open ParseTree (Gains Twins Straddles)

theorem State.At.rest_eq {f : SourceFile} {s : State} (place : State.At f s) :
    s.rest = f.significantFrom s.lastStop := place.rest

/-- A tree without errors takes tokens. -/
theorem Reading.shorter {f : SourceFile} {s s' : State} {t : ParseTree} (reading : Reading f s t s')
    (clean : t.hasError = false) : s'.rest.length < s.rest.length := by
  obtain ⟨u, inside, significant, -⟩ := reading.exists_last clean
  obtain ⟨member, low, high⟩ := (f.mem_tokensIn).mp inside
  rw [reading.rest_eq, reading.rest_eq_stop]
  exact SourceFile.length_significantFrom_lt member significant low high

/-- A stray statement that is put into a text behind a brace or semicolon. -/
structure Insertion extends Parting where
  /-- The offset of the place in the first text. -/
  place : Nat
  stray : List Lexeme
  /-- The words of the second text behind the statement. -/
  behind : List Lexeme
  ahead'_eq : ahead' = stray ++ behind
  near : unglued behind = unglued ahead
  isStray : IsStray (stray.map (·.kind))
  ahead_eq : ahead = lexemes place (first.significantFrom place)
  edge : ∃ t ∈ first.tokens, t.kind.isComment = false ∧ t.stop = place

namespace Insertion

variable (ι : Insertion)

/-- What the statement becomes. -/
def error : Shape := .node .error false none [] (ι.stray.map leafShape)

variable {ι} {s s' v : State} {t : ParseTree} {n : Nat}

theorem length_le (ι : Insertion) : ι.ahead.length ≤ ι.ahead'.length := by
  have length : ∀ ts : List Lexeme, (unglued ts).length = ts.length := by
    intro ts
    cases ts <;> rfl
  have same := congrArg List.length ι.near
  rw [length, length] at same
  rw [ι.ahead'_eq, List.length_append]
  omega

theorem length_ahead (ι : Insertion) : ι.ahead.length = (ι.first.significantFrom ι.place).length := by
  rw [ι.ahead_eq, length_lexemes]

/-! ## Where a state stands -/

/-- Whether a state is in front of the place can be told from its offset. -/
theorem inner_iff (edge : ι.first.IsEdge n) (rest : s.rest = ι.first.significantFrom n) : ι.Inner s ↔ n < ι.place := by
  rw [Parting.Inner, rest, ι.length_ahead]
  constructor
  · intro shorter
    by_contra behind
    exact absurd (SourceFile.length_significantFrom_le (Nat.le_of_not_lt behind)) (Nat.not_le_of_lt shorter)
  · intro before
    obtain ⟨u, member, significant, stop⟩ := ι.edge
    have filled := ι.first.laid_tokens.filled u member
    rcases edge.apart member with low | high
    · exact SourceFile.length_significantFrom_lt member significant low (by omega)
    · omega

theorem inner_iff_lastStop (place : State.At ι.first s) : ι.Inner s ↔ s.lastStop < ι.place :=
  inner_iff place.edge place.rest

theorem inner_iff_start (reading : Reading ι.first s t v) : ι.Inner s ↔ t.start < ι.place := by
  refine inner_iff ?_ reading.rest_eq
  rcases reading.edge with edge | ⟨edge, _⟩
  · exact edge ▸ reading.origin.edge
  · exact edge ▸ reading.origin.edge_peek

/-- A state with fewer tokens ahead than there are behind the place is beyond it. -/
theorem place_lt (place : State.At ι.first s) (beyond : s.rest.length < ι.ahead.length) : ι.place < s.lastStop := by
  by_contra before
  have more := SourceFile.length_significantFrom_le (f := ι.first) (Nat.le_of_not_lt before)
  rw [← ι.length_ahead, ← place.rest_eq] at more
  omega

theorem place_le (place : State.At ι.first s) (reached : ¬ι.Inner s) : ι.place ≤ s.lastStop :=
  Nat.le_of_not_lt fun before => reached ((inner_iff_lastStop place).mpr before)

/-- At the place the next token is the first one behind it. -/
theorem peek_kind (place : State.At ι.first s) (here : s.rest.length = ι.ahead.length) :
    s.peek.kind = headKind ι.ahead := by
  have low := place_le place (by rw [Parting.Inner, here]; exact Nat.lt_irrefl _)
  have same : s.rest = ι.first.significantFrom ι.place := by
    rw [ι.length_ahead, place.rest_eq, SourceFile.significantFrom_filter low] at here
    rw [place.rest_eq, SourceFile.significantFrom_filter low]
    exact List.filter_eq_self.mpr (List.length_filter_eq_length_iff.mp here)
  rw [State.peek_kind, State.words, ι.ahead_eq, same]
  cases ι.first.significantFrom ι.place <;> rfl

/-- A state that is not beyond the place has taken no token behind it. -/
theorem lastStop_le (place : State.At ι.first s) (behind : s.IsBehindToken ι.first)
    (before : ι.ahead.length ≤ s.rest.length) : s.lastStop ≤ ι.place := by
  obtain ⟨u, member, significant, stop⟩ := behind
  obtain ⟨t, token, -, here⟩ := ι.edge
  have filled := ι.first.laid_tokens.filled u member
  have edge : ι.first.IsEdge ι.place := .inr (.inr ⟨t, token, .inr here.symm⟩)
  rcases edge.apart member with low | high
  · have fewer := SourceFile.length_significantFrom_lt member significant low (b := s.lastStop) (by omega)
    rw [← ι.length_ahead, ← place.rest_eq] at fewer
    omega
  · omega

/-! ## Behind the place -/

/-- Drafts behind the place, of which the second has the statement in it. -/
structure Behind (ι : Insertion) (d d' : Draft) : Prop where
  tree : Gains ι.first ι.second ι.place ι.error d.tree d'.tree
  state : Near ι.first ι.second d.state d'.state
  low : ι.place ≤ d.state.lastStop

variable {d d' : Draft} {kind : NodeKind} {reach : Nat} {p : Production} {role : Option Role}

theorem same_attach {f f' : SourceFile} {r r' : ParseTree × State} {t t' : ParseTree} (same : Parser.Same f f' r.2 r'.2) :
    Parser.Same f f' ((⟨t, r.2⟩ : Draft).attach role r.1).state ((⟨t', r'.2⟩ : Draft).attach role r'.1).state where
  first := (attached_attach ⟨t, r.2⟩ role r.1).state_of same.first
  second := (attached_attach ⟨t', r'.2⟩ role r'.1).state_of same.second
  words := (words_attach ⟨t, r.2⟩ role r.1).trans (same.words.trans (words_attach ⟨t', r'.2⟩ role r'.1).symm)

/-- Behind the place both drafts gain the same trees. -/
theorem Behind.place (behind : ι.Behind d d') (role : Option Role) (reads : Reads ι.first d.state (p d.state))
    (pair : Parser.Pair ι.first ι.second (p d.state) (p d'.state)) (clean : (p d.state).1.hasError = false) :
    ι.Behind (d.place role p) (d'.place role p) ∧
      Parser.Same ι.first ι.second (d.place role p).state (d'.place role p).state := by
  have reading := reads.reading
  obtain ⟨u, inside, -, stop⟩ := reading.exists_last clean
  obtain ⟨member, low, -⟩ := (ι.first.mem_tokensIn).mp inside
  have filled := ι.first.laid_tokens.filled u member
  have start := Nat.le_trans behind.low reading.low
  have same := @same_attach role _ _ _ _ d.tree d'.tree pair.state
  refine ⟨⟨?_, same.near, ?_⟩, same⟩
  · exact gains_attach_behind behind.tree pair.state.first pair.state.second pair.tree.twins pair.significant start (by omega)
  · rw [Draft.place_eq, Draft.lastStop_attach]
    show ι.place ≤ (p d.state).2.lastStop
    rw [← reading.stop]
    omega

/-- What has been read so far ends where the parser stands. -/
theorem children_le {f : SourceFile} (growing : Growing f kind s reach d) :
    ∀ u ∈ d.tree.children, u.stop ≤ d.state.lastStop := by
  intro u member
  cases growing with
  | bare place other reaches => cases member
  | grown grown =>
    rw [← grown.reading.stop]
    exact (grown.reading.self_sound.inside grown.reading.forward_children member).2

/-- A tree around the place leads behind it. -/
theorem behind_around {q : Production} (grows : ι.Grows d d') (growing : Growing ι.first kind s reach d)
    (inner : ι.Inner d.state) (reading : Reading ι.first d.state (p d.state).1 (p d.state).2)
    (beyond : (p d.state).2.rest.length < ι.ahead.length)
    (gains : Gains ι.first ι.second ι.place ι.error (p d.state).1 (q d'.state).1)
    (same : Parser.Same ι.first ι.second (p d.state).2 (q d'.state).2) :
    ι.Behind (d.place role p) (d'.place role q) := by
  have lastStop := (inner_iff_lastStop growing.place_state).mp inner
  have start := (inner_iff_start reading).mp inner
  have stop := place_lt reading.place beyond
  refine ⟨?_, (same_attach same).near, ?_⟩
  · exact gains_attach_around grows.tree (fun u member => Nat.le_trans (children_le growing u member) (Nat.le_of_lt lastStop))
      same.first same.second gains reading.significant ⟨start, reading.stop ▸ stop⟩
  · rw [Draft.place_eq, Draft.lastStop_attach]
    exact Nat.le_of_lt stop

/-! ## Loops over items -/

/-- A turn of a loop over items, each of which is chosen by its first token. -/
def itemsTurn (stops : TokenKind → Bool) (item : TokenKind → Production) (d : Draft) : Turn Draft :=
  if stops d.state.peek.kind then .done d else .again (d.place none (item d.state.peek.kind))

/-- What a loop over items does, turn by turn. -/
theorem loop_itemsTurn (stops : TokenKind → Bool) (item : TokenKind → Production) (d : Draft) :
    d.loop (itemsTurn stops item) =
      if stops d.state.peek.kind then d
      else if (d.place none (item d.state.peek.kind)).state.rest.length < d.state.rest.length then
        (d.place none (item d.state.peek.kind)).loop (itemsTurn stops item)
      else d.place none (item d.state.peek.kind) := by
  rw [loop_eq, itemsTurn]
  split
  · rfl
  · by_cases shorter : (d.place none (item d.state.peek.kind)).state.rest.length < d.state.rest.length
    · exact (if_pos (decide_eq_true shorter)).trans (if_pos shorter).symm
    · exact (if_neg fun goes => shorter (of_decide_eq_true goes)).trans (if_neg shorter).symm

/-- Items that are read whatever the first one of their tokens touches. -/
structure Items (ι : Insertion) (stops : TokenKind → Bool) (item : TokenKind → Production) : Prop where
  reads : ∀ s, State.At ι.first s → stops s.peek.kind = false → Reads ι.first s (item s.peek.kind s)
  near : ∀ s s', Near ι.first ι.second s s' → stops s.peek.kind = false →
    Parser.Pair ι.first ι.second (item s.peek.kind s) (item s.peek.kind s')

variable {stops : TokenKind → Bool} {item : TokenKind → Production}

theorem Items.grown_loop (items : ι.Items stops item) (grown : Grown ι.first kind s reach d) :
    Grown ι.first kind s reach (d.loop (itemsTurn stops item)) := by
  refine iterate_keeps grown fun v grown => ?_
  rw [itemsTurn]
  split
  · exact grown
  · rename_i going
    exact Growing.place (.grown grown) none (items.reads _ grown.reading.place (by simpa using going))

theorem clean_of_loop (d : Draft) (clean : (d.loop (itemsTurn stops item)).isClean = true) : d.isClean = true := by
  induction length : d.state.rest.length using Nat.strongRecOn generalizing d with
  | ind n ih =>
    rw [loop_itemsTurn] at clean
    split at clean
    · exact clean
    · split at clean
      · rename_i shorter
        have next := ih _ (length ▸ shorter) (d.place none (item d.state.peek.kind)) clean rfl
        exact (clean_of_attach next).1
      · exact (clean_of_attach clean).1

/-- Behind the place both loops read the same items. The induction is on the tokens ahead. -/
theorem Behind.loop (items : ι.Items stops item) (behind : ι.Behind d d') (growing : Growing ι.first kind s reach d)
    (clean : (d.loop (itemsTurn stops item)).isClean = true) :
    ι.Behind (d.loop (itemsTurn stops item)) (d'.loop (itemsTurn stops item)) := by
  induction length : d.state.rest.length using Nat.strongRecOn generalizing d d' with
  | ind n ih =>
    have kinds := behind.state.peek.1
    have lengths := behind.state.length_rest
    rw [loop_itemsTurn stops item d] at clean ⊢
    rw [loop_itemsTurn stops item d', ← kinds]
    cases stopped : stops d.state.peek.kind with
    | true => exact behind
    | false =>
      rw [if_neg (by simp [stopped])] at clean
      rw [if_neg Bool.false_ne_true, if_neg Bool.false_ne_true]
      have reads := items.reads _ growing.place_state stopped
      have cleanItem : (d.place none (item d.state.peek.kind)).isClean = true := by
        split at clean
        · exact clean_of_loop _ clean
        · exact clean
      have cleanTree := (clean_of_attach cleanItem).2
      obtain ⟨next, same⟩ := behind.place none reads (items.near _ _ behind.state stopped) cleanTree
      have shorter : (d.place none (item d.state.peek.kind)).state.rest.length < d.state.rest.length := by
        rw [Draft.place_eq, Draft.rest_attach]
        exact reads.reading.shorter cleanTree
      rw [if_pos shorter] at clean
      rw [if_pos shorter, if_pos (by rw [← same.near.length_rest, ← lengths]; exact shorter)]
      exact ih _ (length ▸ shorter) next (.grown (growing.place none reads)) clean rfl

/-- Children stay. -/
theorem mem_children_attach {c : ParseTree} (c' : ParseTree) (member : c ∈ d.tree.children) :
    c ∈ (d.attach role c').tree.children := by
  obtain ⟨comments, children, -⟩ := (attached_attach d role c').children
  rw [children, List.append_assoc]
  exact List.mem_append_left _ member

theorem mem_children_place (d : Draft) (role : Option Role) (p : Production) :
    (p d.state).1.inRole role ∈ (d.place role p).tree.children := by
  obtain ⟨comments, children, -⟩ := (attached_attach ⟨d.tree, (p d.state).2⟩ role (p d.state).1).children
  rw [Draft.place_eq, children]
  exact List.mem_append_right _ (List.mem_singleton_self _)

theorem mem_children_loop {c : ParseTree} (member : c ∈ d.tree.children) :
    c ∈ (d.loop (itemsTurn stops item)).tree.children := by
  refine iterate_keeps (P := fun v : Draft => c ∈ v.tree.children) member fun v kept => ?_
  rw [itemsTurn]
  split
  · exact kept
  · exact mem_children_attach _ kept

/-- What a loop over items does around the place, on its way to a final draft. An item that ends at the place may need
something; something else is known at the place. -/
structure Crosses (ι : Insertion) (stops : TokenKind → Bool) (item : TokenKind → Production)
    (needs : TokenKind → Prop) (known : Prop) (final : Draft) : Prop where
  /-- Items in front of the place. -/
  carries : ∀ kind s, ι.CarriesAt (needs kind) known (item kind) s
  ready : ∀ d kind s reach, d.state.Of ι.first → Growing ι.first kind s reach d → stops d.state.peek.kind = false →
    (item d.state.peek.kind d.state).1.hasError = false →
    (d.place none (item d.state.peek.kind)).state.rest.length = ι.ahead.length →
    (d.place none (item d.state.peek.kind)).loop (itemsTurn stops item) = final → needs d.state.peek.kind
  /-- The place is inside an item. -/
  around : ∀ s s', State.At ι.first s → ι.Same s s' → ι.Inner s → stops s.peek.kind = false →
    (item s.peek.kind s).1.hasError = false → (item s.peek.kind s).2.rest.length < ι.ahead.length →
    (item s.peek.kind s).1.inRole none ∈ final.tree.children →
    Gains ι.first ι.second ι.place ι.error (item s.peek.kind s).1 (item s.peek.kind s').1 ∧
      Parser.Same ι.first ι.second (item s.peek.kind s).2 (item s.peek.kind s').2
  /-- The place is between two items. -/
  here : known → ∀ d d' kind s reach, ι.Grows d d' → Growing ι.first kind s reach d → d.state.rest.length = ι.ahead.length →
    d.loop (itemsTurn stops item) = final → ∃ next, itemsTurn stops item d' = .again next ∧
      next.state.rest.length < d'.state.rest.length ∧ ι.Behind d next

theorem loop_of_again {next : Draft} (again : itemsTurn stops item d = .again next)
    (shorter : next.state.rest.length < d.state.rest.length) :
    d.loop (itemsTurn stops item) = next.loop (itemsTurn stops item) := iterate_again again shorter

/-- A loop that gets across the place has the statement in its tree then. The induction is on the tokens ahead. -/
theorem Crosses.loop {needs : TokenKind → Prop} {known : Prop} {final : Draft}
    (crosses : ι.Crosses stops item needs known final) (items : ι.Items stops item) (grows : ι.Grows d d')
    (growing : Growing ι.first kind s reach d) (stands : ι.Stands known d.state)
    (same : d.loop (itemsTurn stops item) = final) (clean : final.isClean = true)
    (across : ¬ι.Inner final.state) : ι.Behind final (d'.loop (itemsTurn stops item)) := by
  induction length : d.state.rest.length using Nat.strongRecOn generalizing d d' with
  | ind n ih =>
    rcases stands with inner | ⟨here, held⟩
    · cases stopped : stops d.state.peek.kind with
      | true =>
        rw [loop_itemsTurn, if_pos stopped] at same
        exact absurd (same ▸ inner) across
      | false =>
        have reads := items.reads _ growing.place_state stopped
        have turn : itemsTurn stops item d = .again (d.place none (item d.state.peek.kind)) :=
          if_neg (by simp [stopped])
        have turn' : itemsTurn stops item d' = .again (d'.place none (item d.state.peek.kind)) := by
          rw [itemsTurn, ← grows.state.kind inner]
          exact if_neg (by simp [stopped])
        have cleanItem : (d.place none (item d.state.peek.kind)).isClean = true := by
          rw [← same, loop_itemsTurn, if_neg (by simp [stopped])] at clean
          split at clean
          · exact clean_of_loop _ clean
          · exact clean
        have cleanTree := (clean_of_attach cleanItem).2
        have shorter := reads.reading.shorter cleanTree
        have rest : (d.place none (item d.state.peek.kind)).state.rest = (item d.state.peek.kind d.state).2.rest := by
          rw [Draft.place_eq, Draft.rest_attach]
        have rest' : (d'.place none (item d.state.peek.kind)).state.rest = (item d.state.peek.kind d'.state).2.rest := by
          rw [Draft.place_eq, Draft.rest_attach]
        have next := loop_of_again turn (rest ▸ shorter)
        have grown := growing.place none reads
        rw [next] at same
        have lengths := grows.state.length
        by_cases before : ι.ahead.length ≤ (item d.state.peek.kind d.state).2.rest.length
        · have stands : ι.Stands (needs d.state.peek.kind) (item d.state.peek.kind d.state).2 := by
            rcases Nat.lt_or_eq_of_le before with less | equal
            · exact .inl less
            · exact .inr ⟨equal.symm, crosses.ready d kind s reach grows.state.first growing stopped cleanTree
                (by rw [rest, equal]) same⟩
          obtain ⟨pair, stood⟩ := (crosses.carries _ d.state).same cleanTree stands d'.state grows.state
          have lengths' := pair.state.length
          rw [loop_of_again turn' (by rw [rest']; omega)]
          have grows' : ι.Grows (d.place none (item d.state.peek.kind)) (d'.place none (item d.state.peek.kind)) :=
            pair.attach grows.tree grows.significant none
          have stands' : ι.Stands known (d.place none (item d.state.peek.kind)).state := by
            rw [Parting.Stands, Parting.Inner, rest]
            exact stood
          exact ih _ (by rw [rest, ← length]; exact shorter) grows' (.grown grown) stands' same rfl
        · have beyond := Nat.lt_of_not_le before
          obtain ⟨gains, states⟩ := crosses.around _ d'.state growing.place_state grows.state inner stopped cleanTree
            beyond (same ▸ mem_children_loop (mem_children_place ..))
          have behind : ι.Behind (d.place none (item d.state.peek.kind)) (d'.place none (item d.state.peek.kind)) :=
            behind_around grows growing inner reads.reading beyond gains states
          have lengths' := states.length_rest
          have more := ι.length_le
          have ahead : ι.ahead.length < d.state.rest.length := inner
          rw [loop_of_again turn' (by rw [rest']; omega)]
          subst same
          exact behind.loop items (.grown grown) clean
    · obtain ⟨next, again, shorter, behind⟩ := crosses.here held d d' kind s reach grows growing here same
      rw [loop_of_again again shorter]
      subst same
      exact behind.loop items growing clean

end Insertion

end Parser

end SecurityRules
