import SecurityRules.Check.Run
import SecurityRules.Proofs.Lookup.Points

/-!
# What a bag keeps

Collected diagnostics are cut at the limit, sorted, and freed of repetitions, in this order. What fits and says
something of its own is kept, of repetitions the worst one. The sort key does not look at messages, and what makes a
repetition does not look at severities; the two go together because of repetitions the worst one is sorted to the
front. So there is an error among the collected findings if and only if there is one among those that fitted.
-/

namespace SecurityRules

theorem Point.rank_inj {p q : Point} : p.rank = q.rank ↔ p = q := by
  obtain ⟨row, column⟩ := p
  obtain ⟨row', column'⟩ := q
  have := column.toNat_lt
  have := column'.toNat_lt
  simp only [rank, Point.mk.injEq, ← UInt32.toNat_inj]
  omega

theorem Severity.eq_iff_level {a b : Severity} : a = b ↔ a.level.toNat = b.level.toNat := by
  rw [UInt8.toNat_inj]
  cases a
  cases b
  simp

namespace Diagnostic

variable {c d e : Diagnostic}

/-! ## The order of reports -/

/-- The place of a finding in the order of reports. -/
def rank (d : Diagnostic) : Nat :=
  ((d.span.start.rank * 2 ^ 64 + d.span.stop.rank) * 2 ^ 8 + (255 - d.severity.level.toNat)) * 2 ^ 16 +
    d.code.number.toNat

theorem before_iff : d.before e = true ↔ d.rank < e.rank := by
  have bound : ∀ p : Point, p.rank < 2 ^ 64 := fun p => by
    have := p.row.toNat_lt
    have := p.column.toNat_lt
    rw [Point.rank]
    omega
  have := bound d.span.stop
  have := bound e.span.stop
  have := d.severity.level.toNat_lt
  have := e.severity.level.toNat_lt
  have := d.code.number.toNat_lt
  have := e.code.number.toNat_lt
  simp only [before, ne_eq, ite_not, ← Point.rank_inj, Severity.eq_iff_level]
  split
  · split
    · split
      · rw [decide_eq_true_eq, UInt16.lt_iff_toNat_lt, rank, rank]
        omega
      · rw [decide_eq_true_eq, UInt8.lt_iff_toNat_lt, rank, rank]
        omega
    · rw [Point.before_iff, rank, rank]
      omega
  · rw [Point.before_iff, rank, rank]
    omega

theorem rank_le_iff : d.rank ≤ e.rank ↔ (!e.before d) = true := by
  rw [Bool.not_eq_true', ← Bool.not_eq_true, before_iff, Nat.not_lt]

theorem notBefore_trans (c d e : Diagnostic) (first : (!d.before c) = true) (second : (!e.before d) = true) :
    (!e.before c) = true :=
  rank_le_iff.mp (Nat.le_trans (rank_le_iff.mpr first) (rank_le_iff.mpr second))

theorem notBefore_total (d e : Diagnostic) : (!e.before d || !d.before e) = true := by
  rw [Bool.or_eq_true, ← rank_le_iff, ← rank_le_iff]
  exact Nat.le_total ..

/-- Of two findings about one place the worse one comes first. -/
theorem level_le_of_rank_le (ordered : d.rank ≤ e.rank) (same : d.span = e.span) :
    e.severity.level ≤ d.severity.level := by
  have := d.severity.level.toNat_lt
  have := e.severity.level.toNat_lt
  have := d.code.number.toNat_lt
  have := e.code.number.toNat_lt
  rw [rank, rank, same] at ordered
  rw [UInt8.le_iff_toNat_le]
  omega

/-- The order of reports: by start, by end, the worse first, by code. -/
def IsUpTo (d e : Diagnostic) : Prop :=
  d.span.start.before e.span.start = true ∨ d.span.start = e.span.start ∧
    (d.span.stop.before e.span.stop = true ∨ d.span.stop = e.span.stop ∧
      (e.severity.level < d.severity.level ∨ d.severity = e.severity ∧ d.code.number ≤ e.code.number))

/-- The place in the order of reports is made of the things that reports are ordered by. -/
theorem isUpTo_of_rank_le (ordered : d.rank ≤ e.rank) : d.IsUpTo e := by
  have := d.severity.level.toNat_lt
  have := d.code.number.toNat_lt
  have := d.span.stop.column.toNat_lt
  have := d.span.stop.row.toNat_lt
  have := e.severity.level.toNat_lt
  have := e.code.number.toNat_lt
  have := e.span.stop.column.toNat_lt
  have := e.span.stop.row.toNat_lt
  simp only [IsUpTo, Point.before_iff, ← Point.rank_inj, UInt8.lt_iff_toNat_lt, UInt16.le_iff_toNat_le,
    Severity.eq_iff_level]
  simp only [rank, Point.rank] at ordered ⊢
  omega

/-! ## Repetitions -/

/-- Two findings say the same of the same place, however bad they take it to be. -/
def SaysSame (d e : Diagnostic) : Prop := d.code = e.code ∧ d.span = e.span ∧ d.message = e.message

theorem repeats_iff : d.repeats e = true ↔ d.SaysSame e := by simp [repeats, SaysSame, and_assoc]

theorem SaysSame.refl (d : Diagnostic) : d.SaysSame d := ⟨rfl, rfl, rfl⟩

theorem SaysSame.symm (same : d.SaysSame e) : e.SaysSame d := ⟨same.1.symm, same.2.1.symm, same.2.2.symm⟩

theorem SaysSame.trans (first : c.SaysSame d) (second : d.SaysSame e) : c.SaysSame e :=
  ⟨first.1.trans second.1, first.2.1.trans second.2.1, first.2.2.trans second.2.2⟩

end Diagnostic

namespace Bag

variable {seen ds : List Diagnostic} {d e : Diagnostic}

/-! ## Adding -/

theorem capacity_empty (limit : Int) :
    (empty limit).capacity = if 0 < limit ∧ limit ≤ 65535 then limit.toNat else 65535 := by
  have outside : (decide (limit ≤ 0) || decide ((maxCapacity : Int) < limit)) = true ↔
      ¬(0 < limit ∧ limit ≤ 65535) := by
    have largest : (maxCapacity : Int) = 65535 := rfl
    simp only [largest, Bool.or_eq_true, decide_eq_true_eq]
    omega
  simp only [empty, outside, ite_not]
  rfl

theorem capacity_empty_pos (limit : Int) : 0 < (empty limit).capacity := by
  rw [capacity_empty]
  split <;> omega

theorem addAll_empty (limit : Int) (ds : List Diagnostic) : (empty limit).addAll ds =
    ({ empty limit with items := ds.take (empty limit).capacity }, ds.length - (empty limit).capacity) := by
  simp [addAll, empty]

/-! ## Leaving repetitions out -/

theorem firsts_sublist (seen ds : List Diagnostic) : (firsts seen ds).Sublist ds := by
  induction ds generalizing seen with
  | nil => simp [firsts]
  | cons d rest ih =>
    rw [firsts]
    split
    · exact (ih seen).cons d
    · exact (ih (d :: seen)).cons_cons d

/-- What is kept repeats neither what was seen before nor anything else that is kept. -/
theorem pairwise_firsts (seen ds : List Diagnostic) : (∀ e ∈ firsts seen ds, ∀ s ∈ seen, ¬s.SaysSame e) ∧
    (firsts seen ds).Pairwise fun d e => ¬d.SaysSame e := by
  induction ds generalizing seen with
  | nil => simp [firsts]
  | cons d rest ih =>
    rw [firsts]
    split
    · exact ih seen
    · rename_i new
      obtain ⟨apart, distinct⟩ := ih (d :: seen)
      have newer : ∀ s ∈ seen, ¬s.SaysSame d := fun s member same =>
        new (List.any_eq_true.mpr ⟨s, member, Diagnostic.repeats_iff.mpr same.symm⟩)
      refine ⟨fun e member s inside => ?_, List.pairwise_cons.mpr ⟨fun e member => ?_, distinct⟩⟩
      · rcases List.mem_cons.mp member with rfl | member
        · exact newer s inside
        · exact apart e member s (List.mem_cons_of_mem d inside)
      · exact apart e member d (List.mem_cons_self ..)

/-- The first finding that says something is kept. -/
theorem find?_firsts (new : ∀ s ∈ seen, ¬s.SaysSame d) :
    (firsts seen ds).find? (·.repeats d) = ds.find? (·.repeats d) := by
  induction ds generalizing seen with
  | nil => rfl
  | cons first rest ih =>
    rw [firsts]
    split
    · rename_i repeated
      obtain ⟨s, inside, same⟩ := List.any_eq_true.mp repeated
      have other : ¬first.repeats d = true := fun found =>
        new s inside ((Diagnostic.repeats_iff.mp same).symm.trans (Diagnostic.repeats_iff.mp found))
      simp [ih new, other]
    · by_cases found : first.repeats d = true
      · simp [found]
      · simp only [List.find?_cons, found]
        refine ih fun s inside => ?_
        rcases List.mem_cons.mp inside with rfl | inside
        · exact fun same => found (Diagnostic.repeats_iff.mpr same)
        · exact new s inside

/-- Where nothing is repeated nothing is left out. -/
theorem firsts_of_pairwise (apart : ∀ e ∈ ds, ∀ s ∈ seen, ¬s.SaysSame e)
    (distinct : ds.Pairwise fun d e => ¬d.SaysSame e) : firsts seen ds = ds := by
  induction ds generalizing seen with
  | nil => rfl
  | cons d rest ih =>
    obtain ⟨first, distinct⟩ := List.pairwise_cons.mp distinct
    have new : ¬seen.any d.repeats = true := by
      intro repeated
      obtain ⟨s, inside, same⟩ := List.any_eq_true.mp repeated
      exact apart d (List.mem_cons_self ..) s inside (Diagnostic.repeats_iff.mp same).symm
    rw [firsts, if_neg new, ih ?_ distinct]
    intro e member s inside
    rcases List.mem_cons.mp inside with rfl | inside
    · exact first e member
    · exact apart e (List.mem_cons_of_mem d member) s inside

/-- Only one of findings that do not repeat each other says what a given one says. -/
theorem filter_repeats (distinct : ds.Pairwise fun d e => ¬d.SaysSame e) (member : e ∈ ds) (same : e.SaysSame d) :
    ds.filter (·.repeats d) = [e] := by
  have kept : e ∈ ds.filter (·.repeats d) := List.mem_filter.mpr ⟨member, Diagnostic.repeats_iff.mpr same⟩
  have alike : ∀ x ∈ ds.filter (·.repeats d), x.SaysSame d := fun x inside =>
    Diagnostic.repeats_iff.mp (List.mem_filter.mp inside).2
  have apart := distinct.filter (·.repeats d)
  generalize ds.filter (·.repeats d) = found at kept alike apart
  match found with
  | [] => cases kept
  | [x] => rw [List.mem_singleton.mp kept]
  | x :: y :: rest =>
    have first := alike x (List.mem_cons_self ..)
    have second := alike y (List.mem_cons_of_mem x (List.mem_cons_self ..))
    exact absurd (first.trans second.symm) ((List.pairwise_cons.mp apart).1 y (List.mem_cons_self ..))

/-! ## Sorting -/

theorem mem_sort (b : Bag) : d ∈ b.sort.items ↔ d ∈ b.items := (List.mergeSort_perm _ _).mem_iff

theorem pairwise_sort (b : Bag) : b.sort.items.Pairwise fun d e => d.rank ≤ e.rank := by
  have sorted := List.pairwise_mergeSort Diagnostic.notBefore_trans Diagnostic.notBefore_total b.items
  exact sorted.imp Diagnostic.rank_le_iff.mpr

theorem sort_of_pairwise {b : Bag} (sorted : b.items.Pairwise fun d e => d.rank ≤ e.rank) : b.sort = b := by
  rw [sort, List.mergeSort_of_pairwise (sorted.imp Diagnostic.rank_le_iff.mp)]

/-- Findings with the same place in the order of reports stay in the order in which they were. -/
theorem find?_sort (b : Bag) {p : Diagnostic → Bool} (alike : ∀ d e, p d = true → p e = true → d.rank = e.rank) :
    b.sort.items.find? p = b.items.find? p := by
  have level : (b.items.filter p).Pairwise fun d e => (!e.before d) = true := by
    refine List.pairwise_of_forall_mem_list fun d first e second => Diagnostic.rank_le_iff.mp (Nat.le_of_eq ?_)
    exact alike d e (List.mem_filter.mp first).2 (List.mem_filter.mp second).2
  have part : (b.items.filter p).Sublist b.sort.items :=
    List.sublist_mergeSort Diagnostic.notBefore_trans Diagnostic.notBefore_total level List.filter_sublist
  have part := part.filter p
  rw [List.filter_filter] at part
  simp only [Bool.and_self] at part
  have same := part.eq_of_length ((List.mergeSort_perm _ _).filter p).length_eq.symm
  rw [← List.head?_filter, ← List.head?_filter, ← same]

/-! ## What is left -/

/-- What is left of findings: in the order of reports, nothing twice, nothing that was not there, and of those that say
the same of the same place the worst, of equally bad ones the first. -/
structure IsDigestOf (kept ds : List Diagnostic) : Prop where
  ordered : kept.Pairwise Diagnostic.IsUpTo
  distinct : kept.Pairwise fun d e => ¬d.SaysSame e
  known : ∀ e ∈ kept, e ∈ ds
  worst : ∀ d ∈ ds, ∃ e, kept.filter (·.repeats d) = [e] ∧
    (∀ d' ∈ ds, d'.SaysSame d → d'.severity.level ≤ e.severity.level) ∧
    ds.find? (fun d' => d'.repeats d && d'.severity == e.severity) = some e

/-- In the order of reports the first finding that says something is the worst one. -/
theorem worst_of_find? (sorted : ds.Pairwise fun d e => d.rank ≤ e.rank) (found : ds.find? (·.repeats d) = some e) :
    ∀ d' ∈ ds, d'.SaysSame d → d'.severity.level ≤ e.severity.level := by
  obtain ⟨same, before, behind, rfl, other⟩ := List.find?_eq_some_iff_append.mp found
  have same := Diagnostic.repeats_iff.mp same
  intro d' member same'
  rcases List.mem_append.mp member with earlier | later
  · exact absurd (Diagnostic.repeats_iff.mpr same') (by simpa using other d' earlier)
  · rcases List.mem_cons.mp later with rfl | later
    · exact UInt8.le_refl _
    · have ordered := (List.pairwise_cons.mp (List.pairwise_append.mp sorted).2.1).1 d' later
      exact Diagnostic.level_le_of_rank_le ordered (same.trans same'.symm).2.1

theorem isDigestOf_dedup_sort (b : Bag) : IsDigestOf b.sort.dedup.1.items b.items := by
  have sorted := pairwise_sort b
  have part : (firsts [] b.sort.items).Sublist b.sort.items := firsts_sublist [] _
  have distinct := (pairwise_firsts [] b.sort.items).2
  refine ⟨(sorted.sublist part).imp Diagnostic.isUpTo_of_rank_le, distinct,
    fun e member => (mem_sort b).mp (part.mem member), fun d member => ?_⟩
  obtain ⟨e, found⟩ : ∃ e, b.sort.items.find? (·.repeats d) = some e := by
    rw [← Option.isSome_iff_exists, List.find?_isSome]
    exact ⟨d, (mem_sort b).mpr member, Diagnostic.repeats_iff.mpr (.refl d)⟩
  have new : ∀ s ∈ ([] : List Diagnostic), ¬s.SaysSame d := by simp
  have kept := (find?_firsts new).trans found
  have same : e.SaysSame d := Diagnostic.repeats_iff.mp (List.find?_eq_some_iff_append.mp found).1
  refine ⟨e, filter_repeats distinct (List.mem_of_find?_eq_some kept) same, ?_, ?_⟩
  · intro d' member' same'
    exact worst_of_find? sorted found d' ((mem_sort b).mpr member') same'
  · rw [← find?_sort b]
    · obtain ⟨-, before, behind, split, other⟩ := List.find?_eq_some_iff_append.mp found
      refine List.find?_eq_some_iff_append.mpr ⟨by simp [Diagnostic.repeats_iff.mpr same], before, behind, split, ?_⟩
      intro d' earlier
      simp [show d'.repeats d = false by simpa using other d' earlier]
    · simp only [Bool.and_eq_true, beq_iff_eq, Diagnostic.repeats_iff]
      rintro d₁ d₂ ⟨first, severity₁⟩ ⟨second, severity₂⟩
      rw [Diagnostic.rank, Diagnostic.rank, first.2.1, second.2.1, first.1, second.1, severity₁, severity₂]

/-- Nothing new is kept, and for an error something at least as bad is. -/
theorem hasErrors_dedup_sort (b : Bag) : b.sort.dedup.1.hasErrors = b.hasErrors := by
  have digest := isDigestOf_dedup_sort b
  rw [hasErrors, hasErrors, Bool.eq_iff_iff, List.any_eq_true, List.any_eq_true]
  constructor
  · rintro ⟨e, member, isError⟩
    exact ⟨e, digest.known e member, isError⟩
  · rintro ⟨d, member, isError⟩
    obtain ⟨e, kept, worst, -⟩ := digest.worst d member
    have inside : e ∈ b.sort.dedup.1.items.filter (·.repeats d) := by
      rw [kept]
      exact List.mem_singleton_self e
    have worse := worst d member (.refl d)
    exact ⟨e, (List.mem_filter.mp inside).1, decide_eq_true (UInt8.le_trans (of_decide_eq_true isError) worse)⟩

/-- Of the findings that fit, in the order in which they are added, everything is kept but repetitions, and everything
that is not kept is counted. Sorting and leaving out repetitions once more changes nothing. -/
theorem digest_collected (limit : Int) (ds : List Diagnostic) :
    let added := (empty limit).addAll ds
    let kept := added.1.sort.dedup
    (empty limit).capacity = (if 0 < limit ∧ limit ≤ 65535 then limit.toNat else 65535) ∧
      added.2 = ds.length - (empty limit).capacity ∧
      IsDigestOf kept.1.items (ds.take (empty limit).capacity) ∧
      kept.1.items.length + kept.2 + added.2 = ds.length ∧
      kept.1.sort = kept.1 ∧ kept.1.dedup = (kept.1, 0) := by
  intro added kept
  have shape := addAll_empty limit ds
  have items : added.1.items = ds.take (empty limit).capacity := congrArg (fun r => r.1.items) shape
  have dropped : added.2 = ds.length - (empty limit).capacity := congrArg Prod.snd shape
  have digest := isDigestOf_dedup_sort added.1
  have part : (firsts [] added.1.sort.items).Sublist added.1.sort.items := firsts_sublist [] _
  have length : added.1.sort.items.length = added.1.items.length := (List.mergeSort_perm _ _).length_eq
  refine ⟨capacity_empty limit, dropped, items ▸ digest, ?_, sort_of_pairwise ((pairwise_sort _).sublist part), ?_⟩
  · have shorter := part.length_le
    have room : added.1.items.length = min (empty limit).capacity ds.length := by rw [items, List.length_take]
    show (firsts [] added.1.sort.items).length +
      (added.1.sort.items.length - (firsts [] added.1.sort.items).length) + added.2 = ds.length
    omega
  · have same : firsts [] kept.1.items = kept.1.items := firsts_of_pairwise (by simp) digest.distinct
    simp [dedup, same]

end Bag

namespace Check

/-- There is an error among the collected findings if and only if there is one among the first ones, as many as fit. -/
theorem hasErrors_collect (limit : Int) (ds : List Diagnostic) :
    (collect limit ds).1.hasErrors = (ds.take (Bag.empty limit).capacity).any (·.severity.isError) :=
  Bag.hasErrors_dedup_sort _

end Check

end SecurityRules
