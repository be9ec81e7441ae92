import SecurityRules.Check.Files
import SecurityRules.Proofs.Disk.Growth

/-!
# Listed files are there

A file that was found below a directory, or was given by its path, can be reached by the path under which it is listed,
although that path is a cleaned one.
-/

namespace SecurityRules

open SlashPath (IsName elements resolvedElements clean)

namespace DiskEntry

mutual

/-- Names on the disk are ones that a path can have as elements, and no directory has a name twice. -/
def IsProper : DiskEntry → Prop
  | file _ => True
  | directory entries => AllProper entries

/-- The same for the entries of a directory. -/
def AllProper : List (Bytes × DiskEntry) → Prop
  | [] => True
  | (name, entry) :: rest =>
    (IsName name ∧ name.length ≤ Disk.longestName) ∧ rest.lookup name = none ∧ IsProper entry ∧ AllProper rest

end

theorem proper_of_lookup {entries : List (Bytes × DiskEntry)} {name : Bytes} {entry : DiskEntry}
    (proper : AllProper entries) (found : entries.lookup name = some entry) :
    (IsName name ∧ name.length ≤ Disk.longestName) ∧ entry.IsProper := by
  induction entries with
  | nil => cases found
  | cons first rest ih =>
    obtain ⟨name', entry'⟩ := first
    obtain ⟨good, -, proper', others⟩ := proper
    rw [List.lookup_cons] at found
    split at found
    · rename_i same
      rw [eq_of_beq same, ← Option.some.inj found]
      exact ⟨good, proper'⟩
    · exact ih others found

theorem isProper_of_foldlM {root entry : DiskEntry} {place : List Bytes} (proper : root.IsProper)
    (found : place.foldlM child? root = some entry) : entry.IsProper := by
  induction place generalizing root with
  | nil => rwa [← Option.some.inj found]
  | cons name place ih =>
    rw [List.foldlM_cons] at found
    cases root with
    | file _ => cases found
    | directory entries =>
      cases child : entries.lookup name with
      | none => rw [child?, child] at found; cases found
      | some next =>
        rw [child?, child] at found
        exact ih (proper_of_lookup proper child).2 found

/-- Whatever is there below a proper entry is reached by names. -/
theorem names_of_look {entry : DiskEntry} {sub : List Bytes} (proper : entry.IsProper)
    (there : (entry.look sub).isSome = true) : ∀ name ∈ sub, IsName name ∧ name.length ≤ Disk.longestName := by
  induction sub generalizing entry with
  | nil => exact fun _ member => (List.not_mem_nil member).elim
  | cons name sub ih =>
    rw [look_cons] at there
    cases entry with
    | file _ => cases there
    | directory entries =>
      cases child : entries.lookup name with
      | none => rw [child?, child] at there; cases there
      | some next =>
        rw [child?, child] at there
        obtain ⟨good, proper'⟩ := proper_of_lookup proper child
        exact List.forall_mem_cons.mpr ⟨good, ih proper' there⟩

theorem look_cons_self (name : Bytes) (entry : DiskEntry) (rest : List (Bytes × DiskEntry)) (sub : List Bytes) :
    (directory ((name, entry) :: rest)).look (name :: sub) = entry.look sub := by
  rw [look_cons, child?, List.lookup_cons_self, Option.bind_some]

theorem look_cons_ne {name other : Bytes} (different : other ≠ name) (entry : DiskEntry)
    (rest : List (Bytes × DiskEntry)) (sub : List Bytes) :
    (directory ((name, entry) :: rest)).look (other :: sub) = (directory rest).look (other :: sub) := by
  rw [look_cons, look_cons, child?, child?, List.lookup_cons, beq_eq_false_iff_ne.mpr different]

/-- A file at or below an entry is seen from the directory above if the entry is none to be skipped, or no directory,
and the file is seen from the entry. -/
theorem visible_cons_iff {skip : Bytes → Bool} {name content : Bytes} {entry : DiskEntry} {sub : List Bytes}
    (there : entry.look sub = some (some content)) : (∀ n ∈ (name :: sub).dropLast, skip n = false) ↔
      (skip name && entry.isDirectory) = false ∧ ∀ n ∈ sub.dropLast, skip n = false := by
  cases sub with
  | nil =>
    cases entry with
    | file _ => simp [isDirectory]
    | directory _ => cases there
  | cons n sub =>
    cases entry with
    | file _ =>
      rw [look_file] at there
      cases there
    | directory _ => rw [List.dropLast_cons_cons, List.forall_mem_cons, isDirectory, Bool.and_true]

mutual

/-- A walk finds the files that no directory to be skipped holds. -/
theorem mem_files_iff {skip : Bytes → Bool} {place : List Bytes} {x : List Bytes × Bytes} : (entry : DiskEntry) →
    entry.IsProper → (x ∈ files skip place entry ↔ ∃ sub, x.1 = place ++ sub ∧ entry.look sub = some (some x.2) ∧
      ∀ name ∈ sub.dropLast, skip name = false)
  | file content, _ => by
    rw [files, List.mem_singleton]
    constructor
    · rintro rfl
      exact ⟨[], (List.append_nil place).symm, rfl, nofun⟩
    · rintro ⟨sub, at', there, -⟩
      cases sub with
      | nil =>
        rw [List.append_nil] at at'
        have same : content = x.2 := Option.some.inj (Option.some.inj there)
        rw [same, ← at']
      | cons name sub =>
        rw [look_file] at there
        cases there
  | directory entries, proper => by
    rw [files, mem_filesOf_iff entries proper]
    constructor
    · rintro ⟨name, sub, at', there, visible⟩
      exact ⟨name :: sub, at', there, visible⟩
    · rintro ⟨sub, at', there, visible⟩
      cases sub with
      | nil => cases there
      | cons name sub => exact ⟨name, sub, at', there, visible⟩

theorem mem_filesOf_iff {skip : Bytes → Bool} {place : List Bytes} {x : List Bytes × Bytes} :
    (entries : List (Bytes × DiskEntry)) → AllProper entries → (x ∈ filesOf skip place entries ↔
      ∃ name sub, x.1 = place ++ name :: sub ∧ (directory entries).look (name :: sub) = some (some x.2) ∧
        ∀ n ∈ (name :: sub).dropLast, skip n = false)
  | [], _ => by
    constructor
    · intro found
      cases found
    · rintro ⟨name, sub, -, there, -⟩
      cases there
  | (name, entry) :: rest, proper => by
    obtain ⟨-, once, proper', others⟩ := proper
    have here : x ∈ (if skip name && entry.isDirectory then [] else files skip (place ++ [name]) entry) ↔
        ∃ sub, x.1 = place ++ name :: sub ∧ entry.look sub = some (some x.2) ∧
          ∀ n ∈ (name :: sub).dropLast, skip n = false := by
      split
      · rename_i skipped
        constructor
        · intro found
          cases found
        · rintro ⟨sub, -, there, visible⟩
          exact absurd (((visible_cons_iff there).mp visible).1.symm.trans skipped) Bool.false_ne_true
      · rename_i kept
        rw [mem_files_iff entry proper']
        apply exists_congr
        intro sub
        rw [List.append_assoc, List.singleton_append]
        refine and_congr_right fun _ => and_congr_right fun there => ?_
        rw [visible_cons_iff there, Bool.eq_false_iff.mpr kept]
        exact (and_iff_right rfl).symm
    rw [filesOf, List.mem_append, here, mem_filesOf_iff rest others]
    constructor
    · rintro (⟨sub, at', there, visible⟩ | ⟨other, sub, at', there, visible⟩)
      · exact ⟨name, sub, at', (look_cons_self ..).trans there, visible⟩
      · have different : other ≠ name := by
          rintro rfl
          rw [look_cons, child?, once] at there
          cases there
        exact ⟨other, sub, at', (look_cons_ne different ..).trans there, visible⟩
    · rintro ⟨other, sub, at', there, visible⟩
      by_cases same : other = name
      · subst same
        exact Or.inl ⟨sub, at', (look_cons_self ..).symm.trans there, visible⟩
      · exact Or.inr ⟨other, sub, at', (look_cons_ne same ..).symm.trans there, visible⟩

end

/-- Every file that a walk finds is at its place, and reached by names. -/
theorem mem_filesOf {skip : Bytes → Bool} {place : List Bytes} {x : List Bytes × Bytes}
    (entries : List (Bytes × DiskEntry)) (proper : AllProper entries) (found : x ∈ filesOf skip place entries) :
    ∃ name sub, x.1 = place ++ name :: sub ∧ (directory entries).look (name :: sub) = some (some x.2) ∧
      ∀ n ∈ name :: sub, IsName n ∧ n.length ≤ Disk.longestName := by
  obtain ⟨name, sub, at', there, -⟩ := (mem_filesOf_iff entries proper).mp found
  have proper' : (directory entries).IsProper := proper
  refine ⟨name, sub, at', there, names_of_look proper' ?_⟩
  rw [there]
  rfl

end DiskEntry

namespace Disk

variable {d : Disk} {path : Bytes} {q r : List Bytes}

/-- Following a path element by element. -/
def follow (d : Disk) (path : Bytes) : Except DiskError (List Bytes) := (elements path).foldlM d.step (d.start path)

theorem look_append {root : DiskEntry} {place : List Bytes} {name : Bytes} {rest : List Bytes}
    (there : (root.look (place ++ name :: rest)).isSome = true) :
    root.look place = some none ∧ (root.look (place ++ [name])).isSome = true := by
  induction place generalizing root with
  | nil =>
    rw [List.nil_append, DiskEntry.look_cons] at there
    cases root with
    | file _ => cases there
    | directory entries =>
      refine ⟨rfl, ?_⟩
      rw [List.nil_append, DiskEntry.look_cons]
      cases child : DiskEntry.child? (.directory entries) name with
      | none => rw [child] at there; cases there
      | some next => rfl
  | cons first place ih =>
    rw [List.cons_append, DiskEntry.look_cons] at there
    rw [List.cons_append, DiskEntry.look_cons, DiskEntry.look_cons]
    cases child : root.child? first with
    | none => rw [child] at there; cases there
    | some next =>
      rw [child] at there
      exact ih there

/-- Names lead down to whatever is there. -/
theorem foldlM_step_names {sub : List Bytes} (there : (d.look (q ++ sub)).isSome = true)
    (names : ∀ name ∈ sub, IsName name ∧ name.length ≤ longestName) : sub.foldlM d.step q = .ok (q ++ sub) := by
  induction sub generalizing q with
  | nil => rw [List.append_nil]; rfl
  | cons name rest ih =>
    obtain ⟨⟨good, short⟩, others⟩ := List.forall_mem_cons.mp names
    obtain ⟨parent, child⟩ := look_append there
    have taken : d.step q name = .ok (q ++ [name]) := by
      rw [step_eq, show d.look q = some none from parent]
      dsimp only
      rw [if_neg good.isBelow, if_neg good.isNoParent, if_neg (Nat.not_lt.mpr short),
        if_pos (show (d.look (q ++ [name])).isSome = true from child)]
    rw [List.foldlM_cons, taken]
    have tail := ih (q := q ++ [name]) (by rwa [List.append_assoc]) others
    rw [List.append_assoc] at tail
    exact tail

theorem foldlM_step_concat {names : List Bytes} {name : Bytes} {place : List Bytes} :
    (names ++ [name]).foldlM d.step place = .ok r ↔ ∃ p, names.foldlM d.step place = .ok p ∧ d.step p name = .ok r := by
  rw [List.foldlM_append]
  cases names.foldlM d.step place with
  | error _ =>
    constructor
    · intro reached
      cases reached
    · rintro ⟨p, reached, -⟩
      cases reached
  | ok p =>
    have one : [name].foldlM d.step p = d.step p name := bind_pure _
    show [name].foldlM d.step p = .ok r ↔ _
    rw [one]
    constructor
    · intro taken
      exact ⟨p, rfl, taken⟩
    · rintro ⟨p', same, taken⟩
      rwa [← Except.ok.inj same] at taken

/-- Resolved elements that lead somewhere lead on with one more element. -/
theorem foldlM_resolveElement {rooted : Bool} {place p next : List Bytes} {resolved : List Bytes} {e : Bytes}
    (top : rooted = true → place = []) (plain : Bytes.ofString "." ∉ resolved)
    (reached : resolved.reverse.foldlM d.step place = .ok p) (taken : d.step p e = .ok next) :
    Bytes.ofString "." ∉ SlashPath.resolveElement rooted resolved e ∧
      (SlashPath.resolveElement rooted resolved e).reverse.foldlM d.step place = .ok next := by
  have meant : next = lexical p e := lexical_of_step taken
  have pushed : (e :: resolved).reverse.foldlM d.step place = .ok next := by
    rw [List.reverse_cons]
    exact foldlM_step_concat.mpr ⟨p, reached, taken⟩
  rw [lexical] at meant
  by_cases here : e = Bytes.ofString "."
  · rw [if_pos here] at meant
    rw [SlashPath.resolveElement.eq_def, if_pos here]
    exact ⟨plain, meant ▸ reached⟩
  · have plain' : Bytes.ofString "." ∉ e :: resolved := List.not_mem_cons_of_ne_of_not_mem (Ne.symm here) plain
    rw [if_neg here] at meant
    by_cases up : e = Bytes.ofString ".."
    · rw [if_pos up] at meant
      rw [SlashPath.resolveElement.eq_def, if_neg here, if_pos up]
      cases resolved with
      | nil =>
        have start : p = place := (Except.ok.inj reached).symm
        dsimp only
        split
        · rename_i isRooted
          rw [start, top isRooted] at meant
          rw [meant, top isRooted]
          exact ⟨List.not_mem_nil, rfl⟩
        · exact ⟨plain', pushed⟩
      | cons last others =>
        dsimp only
        split
        · exact ⟨plain', pushed⟩
        · rename_i name
          -- The last step went down to a name, so going up takes it back.
          rw [List.reverse_cons] at reached
          obtain ⟨p', before, down⟩ := foldlM_step_concat.mp reached
          have below := lexical_of_step down
          rw [lexical, if_neg (List.ne_of_not_mem_cons plain).symm, if_neg name] at below
          rw [below, List.dropLast_concat] at meant
          exact ⟨List.not_mem_of_not_mem_cons plain, meant ▸ before⟩
    · rw [SlashPath.resolveElement.eq_def, if_neg here, if_neg up]
      exact ⟨plain', pushed⟩

/-- The resolved elements of a path lead where all of them lead. -/
theorem foldlM_foldl_resolveElement {rooted : Bool} {place : List Bytes} (top : rooted = true → place = [])
    (es : List Bytes) : ∀ (resolved : List Bytes) (p : List Bytes), Bytes.ofString "." ∉ resolved →
      resolved.reverse.foldlM d.step place = .ok p → es.foldlM d.step p = .ok q →
      (es.foldl (SlashPath.resolveElement rooted) resolved).reverse.foldlM d.step place = .ok q := by
  induction es with
  | nil =>
    intro resolved p _ reached followed
    rw [← Except.ok.inj followed]
    exact reached
  | cons e rest ih =>
    intro resolved p plain reached followed
    rw [List.foldlM_cons] at followed
    cases taken : d.step p e with
    | error _ => rw [taken] at followed; cases followed
    | ok next =>
      rw [taken] at followed
      obtain ⟨plain', reached'⟩ := foldlM_resolveElement top plain reached taken
      exact ih _ next plain' reached' followed

theorem foldlM_resolvedElements (followed : d.follow path = .ok q) :
    (resolvedElements path).foldlM d.step (d.start path) = .ok q := by
  refine foldlM_foldl_resolveElement (fun rooted => ?_) _ [] (d.start path) List.not_mem_nil rfl followed
  rw [start, if_pos rooted]

/-- A cleaned path leads to the same place, unless the place is a file that the path starts from. -/
theorem follow_clean (followed : d.follow path = .ok q) :
    d.follow (clean path) = .ok q ∨ d.follow (clean path) = .error .notDirectory ∨ d.look q = none := by
  have resolved := foldlM_resolvedElements followed
  rw [follow, start, SlashPath.isAbsolute_clean, ← start]
  by_cases leads : SlashPath.isAbsolute path = true ∨ resolvedElements path ≠ []
  · rw [SlashPath.elements_clean leads]
    exact Or.inl resolved
  · obtain ⟨relative, none⟩ := not_or.mp leads
    rw [not_not] at none
    rw [none] at resolved
    obtain rfl : d.start path = q := Except.ok.inj resolved
    have dot : elements (clean path) = [Bytes.ofString "."] := by
      rw [clean, none, SlashPath.ofElements, if_neg relative]
      rfl
    rw [dot, List.foldlM_cons, step_eq]
    cases d.look (d.start path) with
    | none => exact Or.inr (Or.inr rfl)
    | some view =>
      cases view with
      | none => exact Or.inl rfl
      | some _ => exact Or.inr (Or.inl rfl)

theorem follow_join {name : Bytes} (filled : path ≠ []) (followed : d.follow path = .ok q) (good : IsName name)
    (taken : d.step q name = .ok r) : d.follow (SlashPath.join path name) = .ok r := by
  have start : d.start (SlashPath.join path name) = d.start path := by
    have joined : SlashPath.join path name = clean (path ++ [SlashPath.slash] ++ name) := by
      rw [SlashPath.join, if_neg (by simpa using filled)]
    rw [Disk.start, Disk.start, joined, SlashPath.isAbsolute_clean, List.append_assoc,
      SlashPath.isAbsolute_append filled]
  rw [follow, start, SlashPath.elements_join_name filled good]
  exact foldlM_step_concat.mpr ⟨q, foldlM_resolvedElements followed, taken⟩

theorem follow_pathBelow {sub : List Bytes} (filled : path ≠ []) (followed : d.follow path = .ok q)
    (names : ∀ name ∈ sub, IsName name) (taken : sub.foldlM d.step q = .ok r) :
    Check.pathBelow path sub ≠ [] ∧ d.follow (Check.pathBelow path sub) = .ok r := by
  induction sub generalizing path q with
  | nil =>
    rw [← Except.ok.inj taken]
    exact ⟨filled, followed⟩
  | cons name rest ih =>
    obtain ⟨good, others⟩ := List.forall_mem_cons.mp names
    rw [List.foldlM_cons] at taken
    cases first : d.step q name with
    | error _ => rw [first] at taken; cases taken
    | ok next =>
      rw [first] at taken
      exact ih (SlashPath.join_ne_nil (Or.inl filled)) (follow_join filled followed good first) others taken

theorem follow_of_sight {view : Option Bytes} (seen : d.sight path = .ok (q, view)) :
    path ≠ [] ∧ d.follow path = .ok q ∧ d.look q = some view := by
  have there := (sight_ok seen).2
  rw [sight] at seen
  split at seen
  · cases seen
  · rename_i fault
    refine ⟨?_, ?_, there⟩
    · rintro rfl
      cases fault
    · split at seen
      · cases seen
      · rename_i followed
        split at seen
        · cases seen
        · split at seen
          · cases seen
          · rw [← (Prod.mk.inj (Except.ok.inj seen)).1]
            exact followed

/-- Reading along a path that can be followed fails for other reasons than that nothing is there, if it does. -/
theorem isMissing_read {e : PathError} (filled : path ≠ [])
    (followed : (∃ q, d.follow path = .ok q ∧ (d.look q).isSome = true) ∨ d.follow path = .error .notDirectory)
    (failed : d.read path = .error e) : e.isMissing = false := by
  have seen : d.sight path ≠ .error .noEntry := by
    rw [sight]
    cases fault : pathFault? path with
    | some cause =>
      rw [pathFault?, show path.isEmpty = false from by simpa using filled] at fault
      rintro same
      obtain rfl := Except.error.inj same
      split at fault
      · cases fault
      · split at fault <;> simp_all
    | none =>
      dsimp only
      rcases followed with ⟨q, followed, there⟩ | followed
      · rw [show (elements path).foldlM d.step (d.start path) = .ok q from followed]
        obtain ⟨view, there⟩ := Option.isSome_iff_exists.mp there
        dsimp only
        rw [there]
        dsimp only
        split <;> exact fun same => by cases same
      · rw [show (elements path).foldlM d.step (d.start path) = .error .notDirectory from followed]
        exact fun same => by cases same
  rw [read_eq] at failed
  split at failed
  · rename_i cause found
    obtain rfl := Except.error.inj failed
    rw [found] at seen
    simp only [PathError.isMissing, beq_eq_false_iff_ne]
    exact fun same => seen (congrArg _ same)
  · cases failed
  · obtain rfl := Except.error.inj failed
    rfl

theorem entry?_of_stat {entry : DiskEntry} (found : d.stat path = .ok entry) :
    ∃ q, d.sight path = .ok (q, entry.view) ∧ d.entry? q = some entry := by
  rw [stat, named] at found
  cases resolved : d.resolve path with
  | error _ => rw [resolved] at found; cases found
  | ok r =>
    rw [resolved] at found
    obtain ⟨q, entry'⟩ := r
    obtain rfl : entry' = entry := Except.ok.inj found
    refine ⟨q, by rw [← map_resolve, resolved]; rfl, ?_⟩
    rw [resolve] at resolved
    cases fault : pathFault? path with
    | some _ => rw [fault] at resolved; cases resolved
    | none =>
      rw [fault] at resolved
      dsimp only [bind, Except.bind, pure, Except.pure] at resolved
      split at resolved
      · cases resolved
      · split at resolved
        · cases resolved
        · rename_i there
          split at resolved
          · cases resolved
          · obtain ⟨rfl, rfl⟩ := Prod.mk.inj (Except.ok.inj resolved)
            exact there

end Disk

namespace Check

variable {d : Disk} {patterns paths files found : List Bytes} {root path : Bytes}

theorem mem_of_mem_withoutRepeats (ps : List Bytes) (member : path ∈ withoutRepeats ps) : path ∈ ps := by
  induction ps using withoutRepeats.induct with
  | case1 => exact member
  | case2 p => exact member
  | case3 p rest ih =>
    rw [withoutRepeats, if_pos rfl] at member
    exact List.mem_cons_of_mem _ (ih member)
  | case4 p next rest other ih =>
    rw [withoutRepeats, if_neg other] at member
    rcases List.mem_cons.mp member with rfl | member
    · exact List.mem_cons_self ..
    · exact List.mem_cons_of_mem _ (ih member)

theorem exists_of_mem_mapM {f : Bytes → Except PathError (List Bytes)} {roots : List Bytes} {all : List (List Bytes)}
    (listed : roots.mapM f = .ok all) {found : List Bytes} (member : found ∈ all) :
    ∃ root ∈ roots, f root = .ok found := by
  induction roots generalizing all with
  | nil =>
    rw [List.mapM_nil] at listed
    rw [← Except.ok.inj listed] at member
    cases member
  | cons root rest ih =>
    rw [List.mapM_cons] at listed
    cases first : f root with
    | error _ => rw [first] at listed; cases listed
    | ok here =>
      rw [first] at listed
      cases others : rest.mapM f with
      | error _ => rw [others] at listed; cases listed
      | ok more =>
        rw [others] at listed
        rw [← Except.ok.inj listed] at member
        rcases List.mem_cons.mp member with rfl | member
        · exact ⟨root, List.mem_cons_self .., first⟩
        · obtain ⟨root', inside, same⟩ := ih others member
          exact ⟨root', List.mem_cons_of_mem _ inside, same⟩

theorem exists_filesAt (listed : listFiles d paths patterns = .ok files) (member : path ∈ files) :
    ∃ root patterns found, filesAt d patterns root = .ok found ∧ path ∈ found := by
  rw [listFiles] at listed
  generalize (if patterns.isEmpty then defaultPatterns else patterns) = patterns' at listed
  generalize (if paths.isEmpty then [Bytes.ofString "."] else paths) = roots at listed
  cases all : roots.mapM (filesAt d patterns') with
  | error _ => rw [all] at listed; cases listed
  | ok all' =>
    rw [all] at listed
    rw [← Except.ok.inj listed] at member
    obtain ⟨found, inside, here⟩ := List.mem_flatten.mp (List.mem_mergeSort.mp (mem_of_mem_withoutRepeats _ member))
    obtain ⟨root, -, same⟩ := exists_of_mem_mapM all inside
    exact ⟨root, patterns', found, same, here⟩

/-- Files that are listed are there. -/
theorem present_of_filesAt (proper : d.root.IsProper) (listed : filesAt d patterns root = .ok found)
    (member : path ∈ found) {e : PathError} (failed : d.read path = .error e) : e.isMissing = false := by
  rw [filesAt] at listed
  split at listed
  · cases listed
  · rename_i content there
    obtain ⟨q, seen, -⟩ := Disk.entry?_of_stat there
    obtain ⟨-, followed, look⟩ := Disk.follow_of_sight seen
    obtain rfl : path = clean root := by
      rw [← Except.ok.inj listed] at member
      exact List.mem_singleton.mp member
    refine Disk.isMissing_read (SlashPath.clean_ne_nil root) ?_ failed
    rcases Disk.follow_clean followed with followed | followed | none
    · exact Or.inl ⟨q, followed, by rw [look]; rfl⟩
    · exact Or.inr followed
    · rw [look] at none
      cases none
  · rename_i entries there
    obtain ⟨q, seen, entry⟩ := Disk.entry?_of_stat there
    obtain ⟨filled, followed, -⟩ := Disk.follow_of_sight seen
    rw [← Except.ok.inj listed] at member
    obtain ⟨x, walked, rfl⟩ := List.mem_map.mp member
    obtain ⟨name, sub, at', below, names⟩ := DiskEntry.mem_filesOf entries (DiskEntry.isProper_of_foldlM proper entry)
      (List.mem_filter.mp walked).1
    rw [List.nil_append] at at'
    have look : (d.look (q ++ name :: sub)).isSome = true := by
      rw [Disk.look, DiskEntry.look, List.foldlM_append]
      change Option.isSome (Option.map _ (Option.bind ( d.entry? q) _)) = true
      rw [entry]
      change ((DiskEntry.directory entries).look (name :: sub)).isSome = true
      rw [below]
      rfl
    have taken := Disk.foldlM_step_names look names
    obtain ⟨filled', followed'⟩ := Disk.follow_pathBelow filled followed (fun n member => (names n member).1) taken
    rw [← at'] at filled' followed' look
    exact Disk.isMissing_read filled' (Or.inl ⟨_, followed', look⟩) failed

theorem present_of_listFiles (proper : d.root.IsProper) (listed : listFiles d paths patterns = .ok files) :
    ∀ path ∈ files, ∀ e, d.read path = .error e → e.isMissing = false := by
  intro path member e failed
  obtain ⟨root, patterns, found, here, inside⟩ := exists_filesAt listed member
  exact present_of_filesAt proper here inside failed

end Check

end SecurityRules
