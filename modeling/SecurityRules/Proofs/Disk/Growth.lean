import SecurityRules.Disk
import SecurityRules.Proofs.Disk.Paths

/-!
# Disks that grow

Writing a file with the directories above it changes nothing else: what was there stays, and the only file with another
content is the one that was written. So a path that leads somewhere else reads the same before and after.
-/

namespace SecurityRules

namespace DiskEntry

/-- The content of a file, nothing of a directory. -/
def view : DiskEntry → Option Bytes
  | file content => some content
  | directory _ => none

/-- What stands at a place below an entry. -/
def look (entry : DiskEntry) (place : List Bytes) : Option (Option Bytes) :=
  (place.foldlM child? entry).map view

theorem look_cons (entry : DiskEntry) (name : Bytes) (place : List Bytes) :
    entry.look (name :: place) = (entry.child? name).bind fun child => child.look place := by
  rw [look, List.foldlM_cons]
  cases entry.child? name <;> rfl

theorem look_file (content name : Bytes) (place : List Bytes) : (file content).look (name :: place) = none := by
  rw [look_cons]
  rfl

theorem mem_filesOf_of_lookup {base : List Bytes} {name : Bytes} {child : DiskEntry} {x : List Bytes × Bytes}
    {entries : List (Bytes × DiskEntry)} (found : entries.lookup name = some child)
    (inside : x ∈ child.files (fun _ => false) (base ++ [name])) : x ∈ filesOf (fun _ => false) base entries := by
  induction entries with
  | nil => cases found
  | cons first rest ih =>
    obtain ⟨other, entry⟩ := first
    rw [filesOf, List.mem_append]
    rw [List.lookup_cons] at found
    split at found
    · rename_i same
      obtain rfl := Option.some.inj found
      rw [← eq_of_beq same]
      exact Or.inl inside
    · exact Or.inr (ih found)

/-- A walk that skips nothing finds every file. -/
theorem mem_files_of_look {entry : DiskEntry} {place : List Bytes} {content : Bytes}
    (found : entry.look place = some (some content)) (base : List Bytes) :
    (base ++ place, content) ∈ entry.files (fun _ => false) base := by
  induction place generalizing entry base with
  | nil =>
    cases entry with
    | directory entries => cases found
    | file text =>
      rw [files, List.append_nil, List.mem_singleton, show text = content from Option.some.inj (Option.some.inj found)]
  | cons name place ih =>
    rw [look_cons] at found
    cases entry with
    | file text => cases found
    | directory entries =>
      rw [child?] at found
      cases child : entries.lookup name with
      | none => rw [child] at found; cases found
      | some next =>
        rw [child, Option.bind_some] at found
        have below := ih found (base ++ [name])
        rw [List.append_assoc] at below
        rw [files]
        exact mem_filesOf_of_lookup child below

theorem lookup_setName (name other : Bytes) (entry : DiskEntry) (entries : List (Bytes × DiskEntry)) :
    (setName name entry entries).lookup other = if other = name then some entry else entries.lookup other := by
  induction entries with
  | nil => by_cases same : other = name <;> simp [setName, List.lookup_cons, same, beq_eq_false_iff_ne.mpr]
  | cons first rest ih =>
    obtain ⟨name', old⟩ := first
    rw [setName]
    by_cases same : name' = name <;> by_cases found : other = name' <;> simp_all [List.lookup_cons, beq_eq_decide]

theorem put_cons {entries : List (Bytes × DiskEntry)} {name : Bytes} {place : List Bytes} {child entry : DiskEntry}
    (further : place ≠ []) (found : entries.lookup name = some child) :
    (directory entries).put (name :: place) entry = directory (setName name (child.put place entry) entries) := by
  cases place with
  | nil => exact absurd rfl further
  | cons next place => rw [put, found]; exact List.cons_ne_nil _ _

/-- Putting an entry without children into a directory changes one place. -/
theorem look_put {root new : DiskEntry} {above : List Bytes} {name : Bytes} (parent : root.look above = some none)
    (bare : root.look (above ++ [name]) ≠ some none) (leaf : ∀ n, new.child? n = none) (place : List Bytes) :
    (root.put (above ++ [name]) new).look place =
      if place = above ++ [name] then some new.view else root.look place := by
  induction above generalizing root place with
  | nil =>
    cases root with
    | file content => simp [look, view] at parent
    | directory entries =>
      rw [List.nil_append] at bare ⊢
      rw [put]
      cases place with
      | nil => rfl
      | cons first place =>
        rw [look_cons, look_cons, child?, child?, lookup_setName]
        by_cases same : first = name
        · subst same
          rw [if_pos rfl, Option.bind_some]
          cases place with
          | nil => rw [if_pos rfl]; rfl
          | cons next place =>
            rw [if_neg (by simp), look_cons, leaf, Option.bind_none]
            -- Nothing was below the old entry: it was no directory.
            rw [look_cons, child?] at bare
            cases found : entries.lookup first with
            | none => rfl
            | some old =>
              rw [found] at bare
              cases old with
              | file content => exact (look_file content next place).symm
              | directory _ => exact absurd rfl bare
        · rw [if_neg same, if_neg (by simp [same])]
  | cons first above ih =>
    cases root with
    | file content => rw [look_file] at parent; cases parent
    | directory entries =>
      rw [look_cons, child?] at parent
      cases found : entries.lookup first with
      | none => rw [found] at parent; cases parent
      | some child =>
        rw [found, Option.bind_some] at parent
        rw [List.cons_append, look_cons, child?, found, Option.bind_some] at bare
        rw [List.cons_append, put_cons (by simp) found]
        cases place with
        | nil => rfl
        | cons other place =>
          rw [look_cons, look_cons, child?, child?, lookup_setName]
          by_cases same : other = first
          · subst same
            rw [if_pos rfl, found, Option.bind_some, Option.bind_some, ih parent bare]
            simp
          · rw [if_neg same, if_neg (by simp [same])]

end DiskEntry

namespace Disk

variable {d d' : Disk} {place q : List Bytes} {path content : Bytes}

/-- What stands at a place. -/
def look (d : Disk) (place : List Bytes) : Option (Option Bytes) := d.root.look place

theorem look_eq : d.look place = Option.map DiskEntry.view ( d.entry? place) := rfl

/-- The place that is meant by an element behind a place. -/
def lexical (place : List Bytes) (element : Bytes) : List Bytes :=
  if element = Bytes.ofString "." then place
  else if element = Bytes.ofString ".." then place.dropLast
  else place ++ [element]

/-- The place that is meant by a path, whatever the disk holds. -/
def placeOf (d : Disk) (path : Bytes) : List Bytes := (SlashPath.elements path).foldl lexical (d.start path)

theorem step_eq (d : Disk) (place : List Bytes) (element : Bytes) : d.step place element =
    match d.look place with
    | none => .error .noEntry
    | some (some _) => .error .notDirectory
    | some none =>
      if element = Bytes.ofString "." then .ok place
      else if element = Bytes.ofString ".." then .ok place.dropLast
      else if longestName < element.length then .error .nameTooLong
      else if (d.look (place ++ [element])).isSome then .ok (place ++ [element])
      else .error .noEntry := by
  rw [step, look_eq]
  cases found : d.entry? place with
  | none => rfl
  | some entry =>
    cases entry with
    | file _ => rfl
    | directory entries =>
      have child : (d.look (place ++ [element])).isSome = (entries.lookup element).isSome := by
        rw [look_eq, Option.isSome_map]
        show Option.isSome (d.entry? (place ++ [element])) = _
        rw [ entry?, List.foldlM_append]
        change Option.isSome (Option.bind ( d.entry? place) _) = _
        rw [found]
        cases lookup : entries.lookup element <;> simp [DiskEntry.child?, lookup]
      rw [child]
      rfl

theorem lexical_of_step {element : Bytes} (taken : d.step place element = .ok q) : q = lexical place element := by
  rw [step_eq] at taken
  rw [lexical]
  grind

theorem foldl_lexical_of_foldlM {es : List Bytes} (followed : es.foldlM d.step place = .ok q) :
    q = es.foldl lexical place := by
  induction es generalizing place with
  | nil => exact (Except.ok.inj followed).symm
  | cons e rest ih =>
    rw [List.foldlM_cons] at followed
    cases taken : d.step place e with
    | error x => rw [taken] at followed; cases followed
    | ok next =>
      rw [taken] at followed
      rw [List.foldl_cons, ← lexical_of_step taken]
      exact ih followed

theorem start_eq_of_workingDirectory (same : d'.workingDirectory = d.workingDirectory) (path : Bytes) :
    d'.start path = d.start path := by
  rw [start, start, same]

theorem placeOf_eq_of_workingDirectory (same : d'.workingDirectory = d.workingDirectory) (path : Bytes) :
    d'.placeOf path = d.placeOf path := by
  rw [placeOf, placeOf, start_eq_of_workingDirectory same]

/-- The place a path leads to, and the view of what is there. -/
def sight (d : Disk) (path : Bytes) : Except DiskError (List Bytes × Option Bytes) :=
  match pathFault? path with
  | some fault => .error fault
  | none =>
    match (SlashPath.elements path).foldlM d.step (d.start path) with
    | .error cause => .error cause
    | .ok place =>
      match d.look place with
      | none => .error .noEntry
      | some view => if asksForDirectory path && view.isSome then .error .notDirectory else .ok (place, view)

theorem map_resolve (d : Disk) (path : Bytes) : (d.resolve path).map (fun r => (r.1, r.2.view)) = d.sight path := by
  rw [resolve, sight]
  cases pathFault? path with
  | some _ => rfl
  | none =>
    cases (SlashPath.elements path).foldlM d.step (d.start path) with
    | error _ => rfl
    | ok place =>
      dsimp only [bind, Except.bind, pure, Except.pure]
      rw [look_eq]
      cases d.entry? place with
      | none => rfl
      | some entry =>
        have file : entry.view.isSome = !entry.isDirectory := by cases entry <;> rfl
        dsimp only [Option.map_some]
        rw [file]
        cases asksForDirectory path && !entry.isDirectory <;> rfl

theorem read_eq (d : Disk) (path : Bytes) : d.read path =
    match d.sight path with
    | .error cause => .error { action := "open", path, cause }
    | .ok (_, some content) => .ok content
    | .ok (_, none) => .error { action := "read", path, cause := .isDirectory } := by
  rw [← map_resolve, read]
  cases d.resolve path with
  | error _ => rfl
  | ok found =>
    obtain ⟨place, entry⟩ := found
    cases entry <;> rfl

/-- A path that leads somewhere leads to the place that is meant by it. -/
theorem sight_ok {view : Option Bytes} (found : d.sight path = .ok (q, view)) :
    q = d.placeOf path ∧ d.look q = some view := by
  rw [sight] at found
  split at found
  · cases found
  · split at found
    · cases found
    · rename_i place followed
      split at found
      · cases found
      · rename_i view' there
        split at found
        · cases found
        · obtain ⟨rfl, rfl⟩ := Prod.mk.inj (Except.ok.inj found)
          exact ⟨foldl_lexical_of_foldlM followed, there⟩

theorem look_of_read (found : d.read path = .ok content) : d.look (d.placeOf path) = some (some content) := by
  rw [read_eq] at found
  split at found
  · cases found
  · rename_i place text seen
    obtain ⟨rfl, there⟩ := sight_ok seen
    rw [there, Except.ok.inj found]
  · cases found

/-! ## Growth -/

/-- Between two disks nothing was taken away, and the only file with another content is at one place. -/
structure Grown (place : List Bytes) (content : Bytes) (d d' : Disk) : Prop where
  workingDirectory : d'.workingDirectory = d.workingDirectory
  kept : ∀ q kind, d.look q = some kind →
    d'.look q = some kind ∨ q = place ∧ kind.isSome = true ∧ d'.look q = some (some content)
  fresh : ∀ q text, d'.look q = some (some text) → d.look q = some (some text) ∨ q = place ∧ text = content

namespace Grown

theorem refl (place : List Bytes) (content : Bytes) (d : Disk) : Grown place content d d :=
  ⟨rfl, fun _ _ => Or.inl, fun _ _ => Or.inl⟩

theorem trans {d'' : Disk} (first : Grown place content d d') (second : Grown place content d' d'') :
    Grown place content d d'' where
  workingDirectory := second.workingDirectory.trans first.workingDirectory
  kept q kind found := by
    rcases first.kept q kind found with found | ⟨here, isFile, found⟩
    · exact second.kept q kind found
    · rcases second.kept q _ found with found | ⟨-, -, found⟩
      · exact Or.inr ⟨here, isFile, found⟩
      · exact Or.inr ⟨here, isFile, found⟩
  fresh q text found := by
    rcases second.fresh q text found with found | other
    · exact first.fresh q text found
    · exact Or.inr other

/-- One new entry without children. -/
theorem of_look (new : Option Bytes) (workingDirectory : d'.workingDirectory = d.workingDirectory)
    (bare : d.look q ≠ some none) (written : ∀ text, new = some text → q = place ∧ text = content)
    (only : new = none → d.look q = none)
    (look : ∀ r, d'.look r = if r = q then some new else d.look r) : Grown place content d d' where
  workingDirectory := workingDirectory
  kept r kind found := by
    rw [look]
    split
    · rename_i here
      subst here
      cases new with
      | none => rw [only rfl] at found; cases found
      | some text =>
        obtain ⟨rfl, rfl⟩ := written text rfl
        cases kind with
        | none => exact absurd found bare
        | some old => exact Or.inr ⟨rfl, rfl, rfl⟩
    · exact Or.inl found
  fresh r text found := by
    rw [look] at found
    split at found
    · rename_i here
      obtain ⟨rfl, rfl⟩ := written text (Option.some.inj found)
      exact Or.inr ⟨here, rfl⟩
    · exact Or.inl found

section

variable (grown : Grown place content d d')
include grown

theorem isSome_look (found : (d.look q).isSome = true) : (d'.look q).isSome = true := by
  obtain ⟨kind, found⟩ := Option.isSome_iff_exists.mp found
  rcases grown.kept q kind found with found | ⟨-, -, found⟩ <;> rw [found] <;> rfl

/-- A step that does not fail for want of an entry is the same on the grown disk. -/
theorem step_eq {element : Bytes} (present : d.step q element ≠ .error .noEntry) :
    d'.step q element = d.step q element := by
  rw [Disk.step_eq] at present ⊢
  rw [Disk.step_eq]
  cases found : d.look q with
  | none => rw [found] at present; exact absurd rfl present
  | some kind =>
    rw [found] at present
    cases kind with
    | some text =>
      rcases grown.kept q _ found with found' | ⟨-, -, found'⟩ <;> rw [found']
    | none =>
      rcases grown.kept q _ found with found' | ⟨-, isFile, -⟩
      · rw [found']
        dsimp only at present ⊢
        cases child : (d.look (q ++ [element])).isSome with
        | true => rw [grown.isSome_look child]
        | false =>
          rw [child] at present
          split
          · rfl
          · split
            · rfl
            · split
              · rfl
              · simp_all
      · cases isFile

theorem foldlM_step_eq {es : List Bytes} (present : es.foldlM d.step q ≠ .error DiskError.noEntry) :
    es.foldlM d'.step q = es.foldlM d.step q := by
  induction es generalizing q with
  | nil => rfl
  | cons e rest ih =>
    rw [List.foldlM_cons] at present
    rw [List.foldlM_cons, List.foldlM_cons]
    have taken : d.step q e ≠ .error .noEntry := by
      intro missing
      rw [missing] at present
      exact present rfl
    rw [grown.step_eq taken]
    cases next : d.step q e with
    | error _ => rfl
    | ok next' =>
      rw [next] at present
      exact ih present

theorem sight_eq (elsewhere : d.placeOf path ≠ place) (present : d.sight path ≠ .error .noEntry) :
    d'.sight path = d.sight path := by
  rw [sight] at present ⊢
  rw [sight]
  cases fault : pathFault? path with
  | some _ => rfl
  | none =>
    rw [fault] at present
    dsimp only at present ⊢
    rw [start_eq_of_workingDirectory grown.workingDirectory]
    have along : (SlashPath.elements path).foldlM d.step (d.start path) ≠ .error DiskError.noEntry := by
      intro missing
      rw [missing] at present
      exact present rfl
    rw [grown.foldlM_step_eq along]
    cases followed : (SlashPath.elements path).foldlM d.step (d.start path) with
    | error _ => rfl
    | ok last =>
      rw [followed] at present
      dsimp only at present ⊢
      have other : last ≠ place := fun here => elsewhere ((foldl_lexical_of_foldlM followed).symm.trans here)
      cases there : d.look last with
      | none => rw [there] at present; exact absurd rfl present
      | some view =>
        rw [((grown.kept last view there).resolve_right fun changed => other changed.1)]

/-- A path that leads to another place reads the same on the grown disk. -/
theorem read_eq (elsewhere : d.placeOf path ≠ place) (present : ∀ e, d.read path = .error e → e.isMissing = false) :
    d'.read path = d.read path := by
  have seen : d.sight path ≠ .error .noEntry := by
    intro missing
    have known := present { action := "open", path, cause := .noEntry } (by rw [Disk.read_eq, missing])
    cases known
  rw [Disk.read_eq, Disk.read_eq, grown.sight_eq elsewhere seen]

end

end Grown

/-! ## Writing -/

theorem parentPlace_ok {name : Bytes} (found : d.parentPlace path = .ok (q, name)) :
    d.look q = some none ∧ (SlashPath.elements path).getLast? = some name ∧
      q = ((SlashPath.elements path).dropLast).foldl lexical (d.start path) := by
  rw [parentPlace] at found
  cases fault : pathFault? path with
  | some _ => rw [fault] at found; cases found
  | none =>
    rw [fault] at found
    dsimp only [bind, Except.bind, pure, Except.pure] at found
    split at found
    · cases found
    · rename_i last ending
      split at found
      · cases found
      · rename_i place followed
        split at found
        · rename_i entries there
          split at found
          · cases found
          · obtain ⟨rfl, rfl⟩ := Prod.mk.inj (Except.ok.inj found)
            exact ⟨by rw [look_eq, there]; rfl, ending, foldl_lexical_of_foldlM followed⟩
        · cases found
        · cases found

theorem placeOf_eq_append {name : Bytes} (found : d.parentPlace path = .ok (q, name))
    (below : name ≠ Bytes.ofString ".") (noParent : name ≠ Bytes.ofString "..") : d.placeOf path = q ++ [name] := by
  obtain ⟨-, ending, rfl⟩ := parentPlace_ok found
  have split : SlashPath.elements path = (SlashPath.elements path).dropLast ++ [name] :=
    (List.dropLast_append_getLast? name ending).symm
  rw [placeOf, split, List.foldl_append, List.foldl_cons, List.foldl_nil, List.dropLast_concat, lexical, if_neg below,
    if_neg noParent]

/-- Making a directory changes no file. -/
theorem grown_makeDirectory (place : List Bytes) (content : Bytes) (made : d.makeDirectory path = .ok d') :
    Grown place content d d' := by
  rw [makeDirectory, named] at made
  cases found : d.parentPlace path with
  | error _ => rw [found] at made; cases made
  | ok found' =>
    obtain ⟨q, name⟩ := found'
    rw [found] at made
    dsimp only [bind, Except.bind, pure, Except.pure] at made
    split at made
    · cases made
    · split at made
      · cases made
      · rename_i bare
        obtain rfl := Except.ok.inj made
        have none : d.look (q ++ [name]) = none := by rw [look_eq, bare]; rfl
        refine Grown.of_look Option.none rfl (by rw [none]; simp) (fun _ new => by cases new) (fun _ => none) ?_
        exact DiskEntry.look_put (parentPlace_ok found).1 (by rw [← look, none]; simp) fun _ => rfl

/-- Making directories changes no file, even where it fails half-way. -/
theorem grown_makeDirectories (place : List Bytes) (content : Bytes) (d : Disk) (path : Bytes) :
    Grown place content d (d.makeDirectories path).1 := by
  induction path using WellFounded.induction (measure (List.length : Bytes → Nat)).wf generalizing d with
  | _ path ih =>
    rw [makeDirectories]
    split
    · exact .refl place content d
    · exact .refl place content d
    · have above : Grown place content d
          (if _h : leading path = [] then (d, none) else makeDirectories d (leading path)).1 := by
        split
        · exact .refl place content d
        · exact ih _ (length_leading_lt (by assumption)) d
      revert above
      generalize (if _h : leading path = [] then (d, none) else makeDirectories d (leading path)) = result
      obtain ⟨d', failed⟩ := result
      intro above
      dsimp only
      split
      · exact above
      · split
        · rename_i made
          exact above.trans (grown_makeDirectory place content made)
        · split <;> exact above

/-- Writing a file changes what is at its place. -/
theorem grown_write (written : d.write path content = .ok d') : Grown (d.placeOf path) content d d' := by
  rw [write, named] at written
  cases found : d.parentPlace path with
  | error cause =>
    rw [found] at written
    cases cause <;> cases written
  | ok found' =>
    obtain ⟨q, name⟩ := found'
    rw [found] at written
    dsimp only [bind, Except.bind, pure, Except.pure] at written
    split at written
    · cases written
    · rename_i plain
      simp only [Bool.or_eq_true, decide_eq_true_eq, not_or] at plain
      split at written
      · cases written
      · rename_i noDirectory
        obtain rfl := Except.ok.inj written
        rw [placeOf_eq_append found plain.1.2 plain.2]
        have bare : d.look (q ++ [name]) ≠ some none := by
          rw [look_eq]
          intro there
          cases entry : d.entry? (q ++ [name]) with
          | none => rw [entry] at there; cases there
          | some entry' =>
            cases entry' with
            | file _ => rw [entry] at there; cases there
            | directory entries => exact noDirectory entries entry
        refine Grown.of_look (some content) rfl bare (fun text new => ⟨rfl, (Option.some.inj new).symm⟩)
          (fun new => by cases new) ?_
        exact DiskEntry.look_put (parentPlace_ok found).1 bare fun _ => rfl

end Disk

end SecurityRules
