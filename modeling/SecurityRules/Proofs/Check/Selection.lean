import Mathlib
import SecurityRules.Proofs.Check.Listing
import SecurityRules.Proofs.Text.Order

/-!
# Every selected file is listed

A path that is given covers the file that it leads to, or the files below the directory that it leads to whose names are
wanted and that no hidden directory holds. The list has an entry for each file and each anchor of a path that covers it,
and so it has a file twice exactly if paths with different anchors cover it: repeated paths are one entry once they are
cleaned, but a relative path and an absolute one are not.
-/

namespace SecurityRules

open SlashPath (IsName anchor clean)

namespace Disk

open SlashPath (IsName IsResolved anchor parents clean ofElements)

variable {d : Disk} {place : List Bytes} {path other : Bytes}

theorem foldl_lexical_names {names : List Bytes} (good : ∀ name ∈ names, IsName name) (place : List Bytes) :
    names.foldl lexical place = place ++ names := by
  induction names generalizing place with
  | nil => exact (List.append_nil place).symm
  | cons name rest ih =>
    obtain ⟨first, others⟩ := List.forall_mem_cons.mp good
    rw [List.foldl_cons, lexical, if_neg first.isBelow, if_neg first.isNoParent, ih others, List.append_assoc]
    rfl

/-- The place that a cleaned path means. -/
theorem placeOf_ofElements {rooted : Bool} {ups : Nat} {names : List Bytes} (resolved : IsResolved rooted ups names) :
    d.placeOf (ofElements rooted (parents ups ++ names)) =
      (parents ups).foldl lexical (if rooted then [] else SlashPath.resolvedElements d.workingDirectory) ++ names := by
  rw [placeOf, start, resolved.isAbsolute_ofElements]
  by_cases leads : rooted = true ∨ parents ups ++ names ≠ []
  · rw [SlashPath.elements_ofElements rooted (fun e member => resolved.isElement member) leads, List.foldl_append,
      foldl_lexical_names resolved.names]
  · obtain ⟨relative, none⟩ := not_or.mp leads
    rw [not_not] at none
    rw [none, (List.append_eq_nil_iff.mp none).1, (List.append_eq_nil_iff.mp none).2, Bool.eq_false_iff.mpr relative,
      List.append_nil]
    rfl

/-- Cleaned paths with one anchor that mean one place are the same. -/
theorem eq_of_placeOf_eq (cleanPath : clean path = path) (cleanOther : clean other = other)
    (sameAnchor : anchor path = anchor other) (samePlace : d.placeOf path = d.placeOf other) : path = other := by
  obtain ⟨names, resolved, -, shape⟩ := SlashPath.exists_clean path
  obtain ⟨names', resolved', -, shape'⟩ := SlashPath.exists_clean other
  rw [cleanPath] at shape
  rw [cleanOther, ← sameAnchor] at shape'
  rw [← sameAnchor] at resolved'
  rw [shape, shape', placeOf_ofElements resolved, placeOf_ofElements resolved'] at samePlace
  rw [shape, shape', List.append_cancel_left samePlace]

end Disk

/-- What stands below an entry stands at the place behind that of the entry. -/
theorem Disk.look_of_entry? {d : Disk} {base : List Bytes} {entry : DiskEntry} (here : d.entry? base = some entry)
    (sub : List Bytes) : d.look (base ++ sub) = entry.look sub := by
  rw [look, DiskEntry.look, List.foldlM_append]
  change Option.map _ (Option.bind ( d.entry? base) _) = _
  rw [here]
  rfl

namespace Check

variable {d : Disk} {patterns paths : List Bytes} {root path : Bytes} {q : List Bytes}

/-! ## What paths cover -/

/-- The paths of a check, given those of a command. -/
def rootsOf (paths : List Bytes) : List Bytes := if paths.isEmpty then [Bytes.ofString "."] else paths

/-- The patterns of a check, given those that are set. -/
def wanted (patterns : List Bytes) : List Bytes := if patterns.isEmpty then defaultPatterns else patterns

/-- A path covers the file at a place: it leads to the file, or to a directory above it with no hidden directory in
between, and the name of the file is wanted. -/
def Covers (d : Disk) (patterns : List Bytes) (root : Bytes) (q : List Bytes) : Prop :=
  ∃ base, d.follow root = .ok base ∧ (∃ content, d.look q = some (some content)) ∧
    (q = base ∨ ∃ above name, q = base ++ above ++ [name] ∧ (∀ n ∈ above, isHidden n = false) ∧
      Glob.matchesAny patterns name = true)

/-- A cleaned path with the anchor of a given one leads to a file that the given one covers. -/
structure Entry (d : Disk) (patterns : List Bytes) (root path : Bytes) : Prop where
  cleaned : clean path = path
  anchor : SlashPath.anchor path = SlashPath.anchor root
  covers : ∃ q, d.follow path = .ok q ∧ Covers d patterns root q

theorem placeOf_of_follow (followed : d.follow path = .ok q) : d.placeOf path = q :=
  (Disk.foldl_lexical_of_foldlM followed).symm

/-- Entries for one place with one anchor are the same. -/
theorem Entry.eq_of_follow {root' path' : Bytes} (entry : Entry d patterns root path)
    (entry' : Entry d patterns root' path') (anchor : SlashPath.anchor root = SlashPath.anchor root')
    (followed : d.follow path = .ok q) (followed' : d.follow path' = .ok q) : path = path' := by
  apply Disk.eq_of_placeOf_eq (d := d) entry.cleaned entry'.cleaned
  · rw [entry.anchor, entry'.anchor, anchor]
  · rw [placeOf_of_follow followed, placeOf_of_follow followed']

theorem pathBelow_clean {sub : List Bytes} (filled : root ≠ []) (below : sub ≠ []) (good : ∀ name ∈ sub, IsName name) :
    clean (pathBelow root sub) = pathBelow root sub ∧ anchor (pathBelow root sub) = anchor root := by
  induction sub generalizing root with
  | nil => exact absurd rfl below
  | cons name rest ih =>
    obtain ⟨first, others⟩ := List.forall_mem_cons.mp good
    obtain ⟨cleaned, anchored⟩ := SlashPath.join_name filled first
    cases rest with
    | nil => exact ⟨cleaned, anchored⟩
    | cons next rest =>
      obtain ⟨cleaned', anchored'⟩ := ih (SlashPath.join_ne_nil (Or.inl filled)) (List.cons_ne_nil _ _) others
      exact ⟨cleaned', anchored'.trans anchored⟩

section

variable (home : d.look (SlashPath.resolvedElements d.workingDirectory) = some none)
include home

/-- A cleaned path leads to the same file. -/
theorem follow_clean_of_file {content : Bytes} (followed : d.follow root = .ok q)
    (there : d.look q = some (some content)) : d.follow (clean root) = .ok q := by
  have resolved := Disk.foldlM_resolvedElements followed
  rw [Disk.follow, Disk.start, SlashPath.isAbsolute_clean, ← Disk.start]
  by_cases leads : SlashPath.isAbsolute root = true ∨ SlashPath.resolvedElements root ≠ []
  · rw [SlashPath.elements_clean leads]
    exact resolved
  · -- Such a path leads to the working directory, which is no file.
    obtain ⟨relative, none⟩ := not_or.mp leads
    rw [not_not] at none
    rw [none, Disk.start, if_neg relative] at resolved
    rw [← Except.ok.inj resolved, home] at there
    cases there

variable (proper : d.root.IsProper)
include proper

omit home in
/-- What a walk finds below a directory that a path leads to. -/
theorem follow_of_mem_filesOf {entries : List (Bytes × DiskEntry)} {base place : List Bytes} {content : Bytes}
    (filled : root ≠ []) (followed : d.follow root = .ok base) (here : d.entry? base = some (.directory entries))
    (found : (place, content) ∈ DiskEntry.filesOf isHidden [] entries) :
    d.look (base ++ place) = some (some content) ∧ d.follow (pathBelow root place) = .ok (base ++ place) ∧
      clean (pathBelow root place) = pathBelow root place ∧ anchor (pathBelow root place) = anchor root ∧
      place ≠ [] ∧ ∀ n ∈ place.dropLast, isHidden n = false := by
  have properHere := DiskEntry.isProper_of_foldlM proper here
  obtain ⟨name, sub, at', below, visible⟩ := (DiskEntry.mem_filesOf_iff entries properHere).mp found
  rw [List.nil_append] at at'
  dsimp only at at' below
  rw [← at'] at below visible
  have there : d.look (base ++ place) = some (some content) := (Disk.look_of_entry? here place).trans below
  have filledPlace : place ≠ [] := by
    rw [at']
    exact List.cons_ne_nil _ _
  have isThere : (d.look (base ++ place)).isSome = true := by
    rw [there]
    rfl
  have good := DiskEntry.names_of_look properHere (by rw [below]; rfl)
  have taken := Disk.foldlM_step_names isThere good
  have names : ∀ n ∈ place, IsName n := fun n member => (good n member).1
  obtain ⟨-, reached⟩ := Disk.follow_pathBelow filled followed names taken
  obtain ⟨cleaned, anchored⟩ := pathBelow_clean filled filledPlace names
  exact ⟨there, reached, cleaned, anchored, filledPlace, visible⟩

omit proper in
/-- The path of a file stands for that file. -/
theorem exists_filesAt_eq_file {base : List Bytes} {content : Bytes} (stat : d.stat root = .ok (.file content))
    (followed : d.follow root = .ok base) (there : d.look base = some (some content)) :
    ∃ found, filesAt d patterns root = .ok found ∧ (∀ path ∈ found, Entry d patterns root path) ∧
      ∀ q, Covers d patterns root q → ∃ path ∈ found, d.follow path = .ok q := by
  have reached := follow_clean_of_file home followed there
  rw [filesAt, stat]
  refine ⟨_, rfl, fun path member => ?_, fun q covers => ?_⟩
  · rw [List.mem_singleton.mp member]
    exact ⟨SlashPath.clean_clean root, SlashPath.anchor_clean root, base, reached, base, followed, ⟨content, there⟩,
      Or.inl rfl⟩
  · obtain ⟨base', followed', ⟨content', there'⟩, rfl | ⟨above, name, rfl, -⟩⟩ := covers
    · exact ⟨_, List.mem_singleton_self _, by rw [reached, ← followed, followed']⟩
    · -- Nothing lies below a file.
      obtain rfl := Except.ok.inj (followed.symm.trans followed')
      obtain ⟨first, sub, split⟩ := List.exists_cons_of_ne_nil (List.concat_ne_nil name above)
      rw [List.append_assoc, split] at there'
      have isThere : (d.root.look (base ++ first :: sub)).isSome = true := by
        rw [← Disk.look, there']
        rfl
      have isDirectory : d.look base = some none := (Disk.look_append isThere).1
      rw [there] at isDirectory
      cases isDirectory

omit home in
/-- The path of a directory stands for the files below it that it covers. -/
theorem exists_filesAt_eq_directory {base : List Bytes} {entries : List (Bytes × DiskEntry)}
    (stat : d.stat root = .ok (.directory entries)) (filled : root ≠ []) (followed : d.follow root = .ok base)
    (here : d.entry? base = some (.directory entries)) :
    ∃ found, filesAt d patterns root = .ok found ∧ (∀ path ∈ found, Entry d patterns root path) ∧
      ∀ q, Covers d patterns root q → ∃ path ∈ found, d.follow path = .ok q := by
  rw [filesAt, stat]
  refine ⟨_, rfl, fun path member => ?_, fun q covers => ?_⟩
  · obtain ⟨⟨place, content⟩, kept, rfl⟩ := List.mem_map.mp member
    obtain ⟨found, matched⟩ := List.mem_filter.mp kept
    obtain ⟨there, reached, cleaned, anchored, filledPlace, visible⟩ :=
      follow_of_mem_filesOf proper filled followed here found
    obtain ⟨above, name, rfl⟩ := (List.eq_nil_or_concat' place).resolve_left filledPlace
    rw [List.dropLast_concat] at visible
    dsimp only at matched
    rw [List.getLast?_concat] at matched
    refine ⟨cleaned, anchored, _, reached, base, followed, ⟨content, there⟩, Or.inr ⟨above, name, ?_, visible, matched⟩⟩
    rw [List.append_assoc]
  · obtain ⟨base', followed', ⟨content, there⟩, rfl | ⟨above, name, rfl, visible, matched⟩⟩ := covers
    · have isDirectory : d.look q = some none := by
        rw [← Except.ok.inj (followed.symm.trans followed'), ← List.append_nil base, Disk.look_of_entry? here]
        rfl
      rw [isDirectory] at there
      cases there
    · obtain rfl := Except.ok.inj (followed.symm.trans followed')
      have properHere := DiskEntry.isProper_of_foldlM proper here
      have below : (DiskEntry.directory entries).look (above ++ [name]) = some (some content) := by
        rw [← Disk.look_of_entry? here, ← List.append_assoc]
        exact there
      have found : (above ++ [name], content) ∈ DiskEntry.filesOf isHidden [] entries := by
        rw [DiskEntry.mem_filesOf_iff entries properHere]
        obtain ⟨first, sub, split⟩ := List.exists_cons_of_ne_nil (List.concat_ne_nil name above)
        refine ⟨first, sub, split, split ▸ below, ?_⟩
        rw [← split, List.dropLast_concat]
        exact visible
      obtain ⟨-, reached, -⟩ := follow_of_mem_filesOf proper filled followed here found
      refine ⟨_, List.mem_map.mpr ⟨_, List.mem_filter.mpr ⟨found, ?_⟩, rfl⟩, ?_⟩
      · dsimp only
        rw [List.getLast?_concat]
        exact matched
      · rw [List.append_assoc]
        exact reached

/-- One path stands for entries of the files that it covers, and for each of them. -/
theorem exists_filesAt_eq (present : ∃ entry, d.stat root = .ok entry) :
    ∃ found, filesAt d patterns root = .ok found ∧ (∀ path ∈ found, Entry d patterns root path) ∧
      ∀ q, Covers d patterns root q → ∃ path ∈ found, d.follow path = .ok q := by
  obtain ⟨entry, stat⟩ := present
  obtain ⟨base, seen, here⟩ := Disk.entry?_of_stat stat
  obtain ⟨filled, followed, look⟩ := Disk.follow_of_sight seen
  cases entry with
  | file content => exact exists_filesAt_eq_file home stat followed look
  | directory entries => exact exists_filesAt_eq_directory proper stat filled followed here

end

/-! ## Lists of files -/

theorem mem_withoutRepeats (ps : List Bytes) : path ∈ withoutRepeats ps ↔ path ∈ ps := by
  refine ⟨mem_of_mem_withoutRepeats ps, fun member => ?_⟩
  induction ps using withoutRepeats.induct with
  | case1 => exact member
  | case2 p => exact member
  | case3 p rest ih =>
    rw [withoutRepeats, if_pos rfl]
    apply ih
    rcases List.mem_cons.mp member with rfl | later
    · exact List.mem_cons_self ..
    · exact later
  | case4 p next rest other ih =>
    rw [withoutRepeats, if_neg other]
    rcases List.mem_cons.mp member with rfl | later
    · exact List.mem_cons_self ..
    · exact List.mem_cons_of_mem _ (ih later)

/-- Without repetitions a sorted list is strictly ascending. -/
theorem pairwise_withoutRepeats {ps : List Bytes} (sorted : ps.Pairwise fun s t => Bytes.notAfter s t = true) :
    (withoutRepeats ps).Pairwise fun s t => Bytes.before s t = true := by
  induction ps using withoutRepeats.induct with
  | case1 => exact .nil
  | case2 p => exact List.pairwise_singleton _ p
  | case3 p rest ih =>
    rw [withoutRepeats, if_pos rfl]
    exact ih (List.pairwise_cons.mp sorted).2
  | case4 p next rest other ih =>
    obtain ⟨first, others⟩ := List.pairwise_cons.mp sorted
    rw [withoutRepeats, if_neg other, List.pairwise_cons]
    refine ⟨fun q member => ?_, ih others⟩
    have strictly : Bytes.before p next = true := by
      apply Bytes.before_of_ne (Ne.symm other)
      simpa [Bytes.notAfter] using first next (List.mem_cons_self ..)
    rcases List.mem_cons.mp (mem_of_mem_withoutRepeats _ member) with rfl | later
    · exact strictly
    · have after := (List.pairwise_cons.mp others).1 q later
      rw [Bytes.before_iff] at strictly ⊢
      exact lt_of_lt_of_le strictly (Bytes.notAfter_iff.mp after)

theorem exists_mapM_eq {f : Bytes → Except PathError (List Bytes)} {roots : List Bytes}
    (each : ∀ root ∈ roots, ∃ found, f root = .ok found) : ∃ all, roots.mapM f = .ok all ∧
      ∀ root ∈ roots, ∃ found ∈ all, f root = .ok found := by
  induction roots with
  | nil => exact ⟨[], List.mapM_nil, nofun⟩
  | cons root rest ih =>
    obtain ⟨⟨found, here⟩, others⟩ := List.forall_mem_cons.mp each
    obtain ⟨all, there, members⟩ := ih others
    refine ⟨found :: all, by rw [List.mapM_cons, here, there]; rfl, List.forall_mem_cons.mpr ⟨?_, ?_⟩⟩
    · exact ⟨found, List.mem_cons_self .., here⟩
    · intro root' member
      obtain ⟨found', inside, same⟩ := members root' member
      exact ⟨found', List.mem_cons_of_mem _ inside, same⟩

/-- Texts in strictly ascending order are told by their members. -/
theorem eq_of_ascending {ps ps' : List Bytes} (ascending : ps.Pairwise fun s t => Bytes.before s t = true)
    (ascending' : ps'.Pairwise fun s t => Bytes.before s t = true) (same : ∀ p, p ∈ ps ↔ p ∈ ps') : ps = ps' := by
  have irreflexive : Std.Irrefl fun s t : Bytes => Bytes.before s t = true :=
    ⟨fun s before => by rw [Bytes.before_irrefl] at before; cases before⟩
  have antisymmetric : Std.Antisymm fun s t : Bytes => Bytes.before s t = true :=
    ⟨fun s t before after => by
      have both := Bytes.before_trans before after
      rw [Bytes.before_irrefl] at both
      cases both⟩
  exact ascending.eq_of_mem_iff ascending' same

/-- The list of files for paths that all exist: in strictly ascending order, and an entry for each path and each file
that it covers. -/
theorem exists_listFiles_eq (proper : d.root.IsProper)
    (home : d.look (SlashPath.resolvedElements d.workingDirectory) = some none)
    (present : ∀ root ∈ rootsOf paths, ∃ entry, d.stat root = .ok entry) :
    ∃ files, listFiles d paths patterns = .ok files ∧ (files.Pairwise fun s t => Bytes.before s t = true) ∧
      (∀ path, path ∈ files ↔ ∃ root ∈ rootsOf paths, Entry d (wanted patterns) root path) := by
  have each : ∀ root ∈ rootsOf paths, ∃ found, filesAt d (wanted patterns) root = .ok found ∧
      (∀ path ∈ found, Entry d (wanted patterns) root path) ∧
        ∀ q, Covers d (wanted patterns) root q → ∃ path ∈ found, d.follow path = .ok q := by
    intro root member
    exact exists_filesAt_eq home proper (present root member)
  have found : ∀ root ∈ rootsOf paths, ∃ found, filesAt d (wanted patterns) root = .ok found := by
    intro root member
    obtain ⟨found, listed, -⟩ := each root member
    exact ⟨found, listed⟩
  obtain ⟨all, listed, members⟩ := exists_mapM_eq found
  refine ⟨withoutRepeats (all.flatten.mergeSort Bytes.notAfter), ?_, ?_, fun path => ?_⟩
  · show ((rootsOf paths).mapM (filesAt d (wanted patterns)) >>= _) = _
    rw [listed]
    rfl
  · exact pairwise_withoutRepeats (List.pairwise_mergeSort Bytes.notAfter_trans Bytes.notAfter_total _)
  · rw [mem_withoutRepeats, List.mem_mergeSort, List.mem_flatten]
    constructor
    · rintro ⟨found, inside, member⟩
      obtain ⟨root, given, same⟩ := exists_of_mem_mapM listed inside
      obtain ⟨found', listed', entries, -⟩ := each root given
      obtain rfl := Except.ok.inj (same.symm.trans listed')
      exact ⟨root, given, entries path member⟩
    · rintro ⟨root, given, entry⟩
      obtain ⟨found, inside, same⟩ := members root given
      obtain ⟨found', listed', entries, complete⟩ := each root given
      obtain rfl := Except.ok.inj (same.symm.trans listed')
      obtain ⟨q, followed, covers⟩ := entry.covers
      obtain ⟨path', member, followed'⟩ := complete q covers
      rw [entry.eq_of_follow (entries path' member) rfl followed followed']
      exact ⟨found, inside, member⟩

/-- The working directory is there. -/
theorem exists_stat_dot (home : d.look (SlashPath.resolvedElements d.workingDirectory) = some none) :
    ∃ entry, d.stat "." = .ok entry := by
  have followed : d.follow "." = .ok (SlashPath.resolvedElements d.workingDirectory) := by
    show [Bytes.ofString "."].foldlM d.step (SlashPath.resolvedElements d.workingDirectory) = _
    rw [List.foldlM_cons, Disk.step_eq, home]
    rfl
  have seen : d.sight "." = .ok (SlashPath.resolvedElements d.workingDirectory, none) := by
    rw [Disk.sight, show Disk.pathFault? "." = none by decide +kernel]
    dsimp only
    rw [show (SlashPath.elements ".").foldlM d.step (d.start ".") = _ from followed]
    dsimp only
    rw [home]
    rfl
  rw [← Disk.map_resolve] at seen
  rw [Disk.stat, Disk.named]
  cases resolved : d.resolve "." with
  | error e =>
    rw [resolved] at seen
    cases seen
  | ok found => exact ⟨found.2, rfl⟩

/-- What stands for the given paths is there if they are. -/
theorem exists_stat_rootsOf (home : d.look (SlashPath.resolvedElements d.workingDirectory) = some none)
    (present : ∀ path ∈ paths, ∃ entry, d.stat path = .ok entry) (member : root ∈ rootsOf paths) :
    ∃ entry, d.stat root = .ok entry := by
  unfold rootsOf at member
  split at member
  · rw [List.mem_singleton.mp member]
    exact exists_stat_dot home
  · exact present root member

theorem mem_rootsOf_of_same {paths' : List Bytes} (same : ∀ path, path ∈ paths' ↔ path ∈ paths) :
    root ∈ rootsOf paths' ↔ root ∈ rootsOf paths := by
  have sameEmpty : paths'.isEmpty = paths.isEmpty := by
    rw [Bool.eq_iff_iff, List.isEmpty_iff, List.isEmpty_iff, List.eq_nil_iff_forall_not_mem,
      List.eq_nil_iff_forall_not_mem]
    simp only [same]
  rw [rootsOf, rootsOf, sameEmpty]
  split
  · exact Iff.rfl
  · exact same root

/-- Every selected file is listed, and one with several entries is covered by paths with different anchors. The list is
there whenever all paths exist and the working directory is a directory; it is strictly ascending, its entries lead to
the files that the paths cover, and it only depends on which paths are given. A file has two entries exactly if two of
the paths cover it of which one is absolute and the other is not, or which lead up by different numbers of `..`. -/
theorem selected_files_listed (proper : d.root.IsProper)
    (home : d.look (SlashPath.resolvedElements d.workingDirectory) = some none)
    (present : ∀ path ∈ paths, ∃ entry, d.stat path = .ok entry) :
    ∃ files, listFiles d paths patterns = .ok files ∧ (files.Pairwise fun s t => Bytes.before s t = true) ∧
      (∀ path ∈ files, ∃ q content, d.follow path = .ok q ∧ d.look q = some (some content)) ∧
      (∀ q, (∃ path ∈ files, d.follow path = .ok q) ↔ ∃ root ∈ rootsOf paths, Covers d (wanted patterns) root q) ∧
      (∀ q, (∃ path ∈ files, ∃ path' ∈ files, path ≠ path' ∧ d.follow path = .ok q ∧ d.follow path' = .ok q) ↔
        ∃ root ∈ rootsOf paths, ∃ root' ∈ rootsOf paths, anchor root ≠ anchor root' ∧
          Covers d (wanted patterns) root q ∧ Covers d (wanted patterns) root' q) ∧
      ∀ paths', (∀ path, path ∈ paths' ↔ path ∈ paths) → listFiles d paths' patterns = .ok files := by
  have collects : ∀ given : List Bytes, (∀ path ∈ given, ∃ entry, d.stat path = .ok entry) →
      ∃ files, listFiles d given patterns = .ok files ∧ (files.Pairwise fun s t => Bytes.before s t = true) ∧
        (∀ path, path ∈ files ↔ ∃ root ∈ rootsOf given, Entry d (wanted patterns) root path) := by
    intro given present
    exact exists_listFiles_eq proper home fun root member => exists_stat_rootsOf home present member
  obtain ⟨files, listed, ascending, members⟩ := collects paths present
  have complete : ∀ root ∈ rootsOf paths, ∀ q, Covers d (wanted patterns) root q →
      ∃ path ∈ files, Entry d (wanted patterns) root path ∧ d.follow path = .ok q := by
    intro root given q covers
    obtain ⟨found, -, entries, each⟩ := exists_filesAt_eq home proper (exists_stat_rootsOf home present given)
    obtain ⟨path, member, followed⟩ := each q covers
    exact ⟨path, (members path).mpr ⟨root, given, entries path member⟩, entries path member, followed⟩
  have sound : ∀ path ∈ files, ∀ q, d.follow path = .ok q →
      ∃ root ∈ rootsOf paths, Entry d (wanted patterns) root path ∧ Covers d (wanted patterns) root q := by
    intro path member q followed
    obtain ⟨root, given, entry⟩ := (members path).mp member
    obtain ⟨q', followed', covers⟩ := entry.covers
    obtain rfl := Except.ok.inj (followed.symm.trans followed')
    exact ⟨root, given, entry, covers⟩
  refine ⟨files, listed, ascending, fun path member => ?_, fun q => ⟨?_, ?_⟩, fun q => ⟨?_, ?_⟩, fun paths' same => ?_⟩
  · obtain ⟨root, -, entry⟩ := (members path).mp member
    obtain ⟨q, followed, -, -, ⟨content, there⟩, -⟩ := entry.covers
    exact ⟨q, content, followed, there⟩
  · rintro ⟨path, member, followed⟩
    obtain ⟨root, given, -, covers⟩ := sound path member q followed
    exact ⟨root, given, covers⟩
  · rintro ⟨root, given, covers⟩
    obtain ⟨path, member, -, followed⟩ := complete root given q covers
    exact ⟨path, member, followed⟩
  · rintro ⟨path, member, path', member', different, followed, followed'⟩
    obtain ⟨root, given, entry, covers⟩ := sound path member q followed
    obtain ⟨root', given', entry', covers'⟩ := sound path' member' q followed'
    refine ⟨root, given, root', given', fun sameAnchor => different ?_, covers, covers'⟩
    exact entry.eq_of_follow entry' sameAnchor followed followed'
  · rintro ⟨root, given, root', given', different, covers, covers'⟩
    obtain ⟨path, member, entry, followed⟩ := complete root given q covers
    obtain ⟨path', member', entry', followed'⟩ := complete root' given' q covers'
    refine ⟨path, member, path', member', ?_, followed, followed'⟩
    rintro rfl
    exact different (entry.anchor.symm.trans entry'.anchor)
  · have presentOthers : ∀ path ∈ paths', ∃ entry, d.stat path = .ok entry :=
      fun path member => present path ((same path).mp member)
    obtain ⟨files', listed', ascending', members'⟩ := collects paths' presentOthers
    rw [listed', eq_of_ascending ascending' ascending fun path => by simp only [members', members, mem_rootsOf_of_same same]]

/-- A working directory with a file, one below it and a hidden one. -/
def sampleDisk : Disk where
  root := .directory [("w", .directory [("a.rules", .file []), ("b", .directory [("c.rules", .file [])]),
    (".d", .directory [("e.rules", .file [])])])]
  workingDirectory := "/w"

/-- A file given twice and a directory that is named in a roundabout way. -/
def sampleRoots : List Bytes := ["b/../b", "./a.rules", "a.rules"]

theorem selected_files_listed_sampleRoots :
    sampleDisk.root.IsProper ∧
      sampleDisk.look (SlashPath.resolvedElements sampleDisk.workingDirectory) = some none ∧
      (∀ path ∈ sampleRoots, ∃ entry, sampleDisk.stat path = .ok entry) ∧
      ∃ files, listFiles sampleDisk sampleRoots [] = .ok files ∧
        (files.Pairwise fun s t => Bytes.before s t = true) ∧
        (∃ path ∈ files, sampleDisk.follow path = .ok ["w", "b", "c.rules"]) ∧
        listFiles sampleDisk ["a.rules", "b/../b", "a.rules", "./a.rules"] [] = .ok files := by
  have name (n : Bytes) (good : n ≠ [] ∧ SlashPath.slash ∉ n ∧ n ≠ Bytes.ofString "." ∧ n ≠ Bytes.ofString ".." ∧
      n.length ≤ Disk.longestName) : IsName n ∧ n.length ≤ Disk.longestName :=
    ⟨⟨⟨good.1, good.2.1⟩, good.2.2.1, good.2.2.2.1⟩, good.2.2.2.2⟩
  have proper : sampleDisk.root.IsProper :=
    ⟨name _ (by decide), rfl, ⟨name _ (by decide), by decide, trivial, name _ (by decide), by decide,
      ⟨name _ (by decide), rfl, trivial, trivial⟩, name _ (by decide), rfl,
      ⟨name _ (by decide), rfl, trivial, trivial⟩, trivial⟩, trivial⟩
  have home : sampleDisk.look (SlashPath.resolvedElements sampleDisk.workingDirectory) = some none := by
    decide +kernel
  have present : ∀ path ∈ sampleRoots, ∃ entry, sampleDisk.stat path = .ok entry := by
    intro path member
    simp only [sampleRoots, List.mem_cons, List.not_mem_nil, or_false] at member
    rcases member with rfl | rfl | rfl
    · exact ⟨_, rfl⟩
    · exact ⟨_, rfl⟩
    · exact ⟨_, rfl⟩
  have whole : ∃ files, listFiles sampleDisk sampleRoots [] = .ok files ∧ _ :=
    selected_files_listed proper home present
  obtain ⟨files, listed, ascending, -, selected, -, alike⟩ := whole
  refine ⟨proper, home, present, files, listed, ascending, (selected _).mpr ⟨"b/../b", ?_, ["w", "b"], rfl, ⟨[], ?_⟩,
    Or.inr ⟨[], "c.rules", rfl, nofun, by decide +kernel⟩⟩, alike _ fun path => ?_⟩
  · exact List.mem_cons_self ..
  · decide +kernel
  · simp only [sampleRoots, List.mem_cons, List.not_mem_nil, or_false]
    tauto

/-- A file that is given in the working directory and by way of the directory above it is listed twice. -/
theorem listed_twice_sampleDisk :
    (listFiles sampleDisk ["a.rules", "../w/a.rules"] []).toOption =
        some (["../w/a.rules", "a.rules"] : List Bytes) ∧
      (sampleDisk.follow "../w/a.rules").toOption = some (["w", "a.rules"] : List Bytes) ∧
      (sampleDisk.follow "a.rules").toOption = some (["w", "a.rules"] : List Bytes) := by
  refine ⟨?_, ?_, ?_⟩
  · decide_cbv
  · decide +kernel
  · decide +kernel

end Check

end SecurityRules
