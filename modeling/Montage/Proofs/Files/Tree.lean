import Mathlib.Data.List.Nodup
import Montage.Proofs.Files.Naming
import Montage.Proofs.Files.Written

/-!
Contract: a disk is a tree, and what is written to it leaves it one.

Everything stands under a name in a directory. A path leads to a directory or to
a place in one, so what is made there stands in a directory again. Ensuring a
directory adds directories and nothing else.

Owns: the tree invariant, the places paths of names lead to, what is read and
listed after a file has been placed, and directories that are ensured.
Does not own: reading back what was written, in `Proofs.Files.Written`.
-/

namespace Montage.Files.Disk

open Montage.Text

variable {disk later : Disk} {here location target above dir : Location} {entry : Entry}
  {path name : String}

/-! ## What stands where -/

theorem mem_of_entryAt? (stands : disk.entryAt? location = some entry) (inside : location ≠ []) :
    (location, entry) ∈ disk.entries := by
  unfold entryAt? at stands
  rw [if_neg inside] at stands
  obtain ⟨found, isFound, rfl⟩ := Option.map_eq_some_iff.mp stands
  have same : found.1 = location := by simpa using List.find?_some isFound
  rw [← same]
  exact List.mem_of_find?_eq_some isFound

theorem entryAt?_ne_none_iff (inside : location ≠ []) :
    disk.entryAt? location ≠ none ↔ ∃ stored ∈ disk.entries, stored.1 = location := by
  unfold entryAt?
  rw [if_neg inside]
  simp

/-- A name in a directory, whether or not something stands there. -/
def IsPlace (disk : Disk) (location : Location) : Prop :=
  ∃ above name, location = above ++ [name] ∧ disk.entryAt? above = some .directory ∧ IsName name

/-- Everything stands at a place in a directory, and no two things at the same. -/
structure IsTree (disk : Disk) : Prop where
  home : disk.entryAt? disk.home = some .directory
  distinct : (disk.entries.map Prod.fst).Nodup
  inside : ∀ stored ∈ disk.entries, disk.IsPlace stored.1

theorem IsTree.of_entryAt? (tree : disk.IsTree) (stands : disk.entryAt? (above ++ [name]) ≠ none) :
    disk.entryAt? above = some .directory ∧ IsName name := by
  obtain ⟨stored, member, same⟩ := (entryAt?_ne_none_iff (by simp)).mp stands
  obtain ⟨above', name', shape, isDirectory, isName⟩ := tree.inside stored member
  rw [same] at shape
  obtain ⟨rfl, sameName⟩ := List.append_inj' shape rfl
  cases sameName
  exact ⟨isDirectory, isName⟩

theorem IsTree.dropLast (tree : disk.IsTree) (isDirectory : disk.entryAt? here = some .directory) :
    disk.entryAt? here.dropLast = some .directory := by
  rcases List.eq_nil_or_concat here with rfl | ⟨above, name, rfl⟩
  · exact isDirectory
  · rw [List.concat_eq_append] at isDirectory ⊢
    rw [List.dropLast_concat]
    have stands : disk.entryAt? (above ++ [name]) ≠ none := by
      rw [isDirectory]
      exact Option.some_ne_none _
    exact (tree.of_entryAt? stands).1

theorem IsPlace.place (isPlace : disk.IsPlace location)
    (noDirectory : disk.entryAt? target ≠ some .directory) :
    (disk.place target entry).IsPlace location := by
  obtain ⟨above, name, shape, isDirectory, isName⟩ := isPlace
  have apart : above ≠ target := by
    rintro rfl
    exact noDirectory isDirectory
  exact ⟨above, name, shape, (entryAt?_place_of_ne apart).trans isDirectory, isName⟩

/-- What is placed where no directory stands takes nothing from what stands in a directory. -/
theorem IsTree.place (tree : disk.IsTree) (isPlace : disk.IsPlace target)
    (noDirectory : disk.entryAt? target ≠ some .directory) :
    (disk.place target entry).IsTree where
  home := by
    have apart : disk.home ≠ target := fun same => noDirectory (same ▸ tree.home)
    exact (entryAt?_place_of_ne apart).trans tree.home
  distinct := by
    have others := tree.distinct.sublist
      ((List.filter_sublist (p := fun other => other.1 != target)).map Prod.fst)
    rw [Disk.place, List.map_cons, List.nodup_cons]
    refine ⟨?_, others⟩
    intro again
    obtain ⟨other, member, same⟩ := List.mem_map.mp again
    simp [same] at member
  inside := by
    intro stored member
    rcases List.mem_cons.mp member with rfl | other
    · exact isPlace.place noDirectory
    · exact (tree.inside stored ((List.mem_filter.mp other).1)).place noDirectory

/-! ## Where paths lead -/

/-- Where a path can lead: to a directory or to a place in one. -/
def Lands (disk : Disk) (location : Location) : Prop :=
  disk.entryAt? location = some .directory ∨ disk.IsPlace location

theorem enter_eq_ok {piece : String} {next : Location} (entered : disk.enter here piece = .ok next) :
    disk.entryAt? here = some .directory ∧
      ((piece = "." ∧ next = here) ∨ (piece = ".." ∧ next = here.dropLast) ∨
        (piece ≠ "." ∧ piece ≠ ".." ∧ next = here ++ [piece])) := by
  unfold enter at entered
  split at entered
  · cases entered
  · cases entered
  · next isDirectory =>
      refine ⟨isDirectory, ?_⟩
      split at entered
      · next isHere => exact Or.inl ⟨isHere, (Except.ok.inj entered).symm⟩
      · next notHere =>
          split at entered
          · next isUp => exact Or.inr (Or.inl ⟨isUp, (Except.ok.inj entered).symm⟩)
          · next notUp =>
              split at entered
              · cases entered
              · exact Or.inr (Or.inr ⟨notHere, notUp, (Except.ok.inj entered).symm⟩)

theorem IsTree.lands_enter (tree : disk.IsTree) {piece : String} {next : Location}
    (isPiece : piece ∈ pieces path) (entered : disk.enter here piece = .ok next) :
    disk.Lands next := by
  obtain ⟨isDirectory, ⟨-, rfl⟩ | ⟨-, rfl⟩ | ⟨notHere, notUp, rfl⟩⟩ := enter_eq_ok entered
  · exact Or.inl isDirectory
  · exact Or.inl (tree.dropLast isDirectory)
  · exact Or.inr ⟨here, piece, rfl, isDirectory, of_mem_pieces isPiece notHere notUp⟩

theorem IsTree.lands_walk (tree : disk.IsTree) {steps : List String} (sub : steps ⊆ pieces path)
    (start : disk.Lands here) (leads : disk.walk here steps = .ok location) :
    disk.Lands location := by
  induction steps generalizing here with
  | nil =>
      cases leads
      exact start
  | cons piece rest inductionHypothesis =>
      rw [walk] at leads
      split at leads
      · next next entered =>
          have lands := tree.lands_enter (sub List.mem_cons_self) entered
          exact inductionHypothesis (List.subset_of_cons_subset sub) lands leads
      · cases leads

theorem locate_eq_ok_iff : disk.locate path = .ok location ↔
    path ≠ "" ∧ '\x00' ∉ path.toList ∧ path.utf8ByteSize ≤ longestPath ∧
      disk.walk (if Path.isAbsolute path then [] else disk.home) (pieces path) = .ok location := by
  unfold locate
  by_cases empty : path = ""
  · simp [empty]
  by_cases invalid : '\x00' ∈ path.toList
  · simp [empty, invalid]
  by_cases long : longestPath < path.utf8ByteSize
  · simp [empty, invalid, long, Nat.not_le.mpr long]
  · simp [empty, invalid, long, Nat.not_lt.mp long]

theorem IsTree.lands_locate (tree : disk.IsTree) (leads : disk.locate path = .ok location) :
    disk.Lands location := by
  refine tree.lands_walk (List.Subset.refl _) ?_ (locate_eq_ok_iff.mp leads).2.2.2
  split
  · exact Or.inl rfl
  · exact Or.inl tree.home

theorem IsTree.isPlace_locate (tree : disk.IsTree) (leads : disk.locate path = .ok location)
    (noDirectory : disk.entryAt? location ≠ some .directory) : disk.IsPlace location :=
  (tree.lands_locate leads).resolve_left noDirectory

theorem walk_concat (leads : disk.walk here (steps ++ [name]) = .ok location) :
    ∃ above, disk.walk here steps = .ok above ∧ disk.enter above name = .ok location := by
  induction steps generalizing here with
  | nil =>
      rw [List.nil_append, walk] at leads
      split at leads
      · next next entered =>
          cases leads
          exact ⟨here, rfl, entered⟩
      · cases leads
  | cons piece rest inductionHypothesis =>
      rw [List.cons_append, walk] at leads
      split at leads
      · next next entered =>
          obtain ⟨above, front, last⟩ := inductionHypothesis leads
          refine ⟨above, ?_, last⟩
          rw [walk, entered]
          exact front
      · cases leads

/-- A name is entered by standing at it. -/
theorem enter_name_eq_ok (isName : IsName name) (entered : disk.enter above name = .ok location) :
    disk.entryAt? above = some .directory ∧ location = above ++ [name] := by
  obtain ⟨isDirectory, ⟨isHere, -⟩ | ⟨isUp, -⟩ | ⟨-, -, rfl⟩⟩ := enter_eq_ok entered
  · exact absurd isHere isName.notHere
  · exact absurd isUp isName.notUp
  · exact ⟨isDirectory, rfl⟩

/-- The path of a name in a directory leads to that name there. -/
theorem locate_join {dir : String} (named : dir ≠ "") (isName : IsName name)
    (leads : disk.locate (Path.join dir name) = .ok location) :
    ∃ above, disk.locate dir = .ok above ∧ disk.entryAt? above = some .directory ∧
      location = above ++ [name] := by
  obtain ⟨-, valid, short, walks⟩ := locate_eq_ok_iff.mp leads
  rw [Path.isAbsolute_join named isName, pieces_join named isName] at walks
  obtain ⟨above, front, last⟩ := walk_concat walks
  obtain ⟨more, joined⟩ := Path.join_eq_append dir isName
  rw [joined, String.toList_append] at valid
  rw [joined, String.utf8ByteSize_append] at short
  exact ⟨above, locate_eq_ok_iff.mpr ⟨named, fun inside => valid (List.mem_append_left _ inside),
    Nat.le_trans (Nat.le_add_right _ _) short, front⟩, enter_name_eq_ok isName last⟩

/-- A name alone leads to that name in the home directory. -/
theorem locate_name (isName : IsName name) (leads : disk.locate name = .ok location) :
    disk.entryAt? disk.home = some .directory ∧ location = disk.home ++ [name] := by
  obtain ⟨-, -, -, walks⟩ := locate_eq_ok_iff.mp leads
  rw [isName.isAbsolute_eq_false, if_neg Bool.false_ne_true, pieces_name isName,
    ← List.nil_append [name]] at walks
  obtain ⟨above, front, last⟩ := walk_concat walks
  cases front
  exact enter_name_eq_ok isName last

/-! ## Reading beside a file that was placed -/

section Place

variable {content : ByteArray} {executable : Bool}

/-- A file is no way to anywhere else. -/
theorem walk_place_iff (noDirectory : disk.entryAt? target ≠ some .directory)
    {steps : List String} :
    (disk.place target (.file content executable)).walk here steps = .ok location ↔
      disk.walk here steps = .ok location := by
  refine ⟨fun leads => ?_, walk_place noDirectory⟩
  induction steps generalizing here with
  | nil => exact leads
  | cons piece rest inductionHypothesis =>
      rw [walk] at leads ⊢
      split at leads
      · next next entered =>
          have isDirectory := (enter_eq_ok entered).1
          have apart : here ≠ target := by
            rintro rfl
            rw [entryAt?_place_self (ne_nil_of_no_directory noDirectory)] at isDirectory
            cases isDirectory
          have sameStep : disk.enter here piece = .ok next := by
            rw [← entered, enter, enter, entryAt?_place_of_ne apart]
          rw [sameStep]
          exact inductionHypothesis leads
      · cases leads

theorem locate_place_iff (noDirectory : disk.entryAt? target ≠ some .directory) :
    (disk.place target (.file content executable)).locate path = .ok location ↔
      disk.locate path = .ok location := by
  rw [locate_eq_ok_iff, locate_eq_ok_iff, walk_place_iff noDirectory]
  rfl

theorem readText_eq_ok_iff {text : String} : disk.readText path = .ok text ↔
    ∃ location content executable, disk.locate path = .ok location ∧
      disk.entryAt? location = some (.file content executable) ∧ namesDirectory path = false ∧
      String.fromUTF8? content = some text := by
  unfold readText find
  cases leads : disk.locate path with
  | error cause => simp
  | ok location =>
      cases stands : disk.entryAt? location with
      | none => simp [stands]
      | some entry =>
          cases entry with
          | directory => simp [stands]
          | file content executable =>
              by_cases slash : namesDirectory path = true
              · simp [stands, slash]
              · rw [Bool.not_eq_true] at slash
                simp only [stands, slash, Bool.false_eq_true, ↓reduceIte]
                constructor
                · intro reads
                  split at reads
                  · next isText =>
                      cases reads
                      exact ⟨location, content, executable, rfl, stands, trivial, isText⟩
                  · cases reads
                · rintro ⟨_, _, _, same, again, -, isText⟩
                  cases same
                  cases stands.symm.trans again
                  rw [isText]

end Place

/-! ## Files in one directory -/

/-- Nothing has changed but files with some names in one directory. -/
structure Beside (disk later : Disk) (dir : Location) (names : List String) : Prop where
  locate : ∀ {path location}, later.locate path = .ok location ↔ disk.locate path = .ok location
  kept : ∀ location, (∀ name ∈ names, location ≠ dir ++ [name]) →
    later.entryAt? location = disk.entryAt? location

namespace Beside

variable {names : List String}

theorem refl (disk : Disk) (dir : Location) : disk.Beside disk dir [] :=
  ⟨Iff.rfl, fun _ _ => rfl⟩

theorem trans {between : Disk} {more : List String} (first : disk.Beside between dir names)
    (second : between.Beside later dir more) : disk.Beside later dir (names ++ more) where
  locate := second.locate.trans first.locate
  kept := by
    intro location apart
    rw [second.kept location fun name member => apart name (List.mem_append_right names member)]
    exact first.kept location fun name member => apart name (List.mem_append_left more member)

theorem of_place {content : ByteArray} {executable : Bool}
    (noDirectory : disk.entryAt? (dir ++ [name]) ≠ some .directory) :
    disk.Beside (disk.place (dir ++ [name]) (.file content executable)) dir [name] where
  locate := locate_place_iff noDirectory
  kept := fun _ apart => entryAt?_place_of_ne (apart name List.mem_cons_self)

/-- The directory itself stays. -/
theorem entryAt?_dir (beside : disk.Beside later dir names) :
    later.entryAt? dir = disk.entryAt? dir := by
  refine beside.kept dir fun name _ same => ?_
  simpa using congrArg List.length same

/-- Texts elsewhere are what they were. -/
theorem readText_iff (beside : disk.Beside later dir names)
    (apart : ∀ name ∈ names, disk.locate path ≠ .ok (dir ++ [name])) {text : String} :
    later.readText path = .ok text ↔ disk.readText path = .ok text := by
  have same {location : Location} (leads : disk.locate path = .ok location) :
      later.entryAt? location = disk.entryAt? location :=
    beside.kept location fun name member other => apart name member (other ▸ leads)
  rw [readText_eq_ok_iff, readText_eq_ok_iff]
  simp only [beside.locate]
  constructor
  · rintro ⟨location, content, executable, leads, stands, rest⟩
    exact ⟨location, content, executable, leads, (same leads).symm.trans stands, rest⟩
  · rintro ⟨location, content, executable, leads, stands, rest⟩
    exact ⟨location, content, executable, leads, (same leads).trans stands, rest⟩

end Beside

/-! ## What stands in a directory -/

theorem nameBelow?_eq_some_iff : nameBelow? dir location = some name ↔ location = dir ++ [name] := by
  unfold nameBelow?
  split
  · next last isLast =>
      constructor
      · intro found
        split at found
        · next shape =>
            cases found
            exact shape
        · cases found
      · rintro rfl
        rw [List.getLast?_concat] at isLast
        cases isLast
        exact if_pos rfl
  · next empty =>
      rw [List.getLast?_eq_none_iff] at empty
      simp [empty]

theorem mem_namesBelow_iff : name ∈ disk.namesBelow dir ↔ disk.entryAt? (dir ++ [name]) ≠ none := by
  rw [entryAt?_ne_none_iff (by simp), namesBelow, List.mem_filterMap]
  simp only [nameBelow?_eq_some_iff]

/-- A text that is read under a name in a directory stands there. -/
theorem mem_namesBelow_of_readText {dir text : String} (named : dir ≠ "") (isName : IsName name)
    (leads : disk.locate dir = .ok location)
    (reads : disk.readText (Path.join dir name) = .ok text) : name ∈ disk.namesBelow location := by
  obtain ⟨target, content, executable, goes, stands, -⟩ := readText_eq_ok_iff.mp reads
  obtain ⟨above, same, -, rfl⟩ := locate_join named isName goes
  cases leads.symm.trans same
  rw [mem_namesBelow_iff, stands]
  exact Option.some_ne_none _

theorem IsTree.nodup_namesBelow (tree : disk.IsTree) (dir : Location) :
    (disk.namesBelow dir).Nodup := by
  have distinct := tree.distinct
  rw [List.nodup_iff_pairwise_ne, List.pairwise_map] at distinct
  rw [List.nodup_iff_pairwise_ne, namesBelow, List.pairwise_filterMap]
  refine distinct.imp fun apart name first other second same => ?_
  subst same
  rw [nameBelow?_eq_some_iff] at first second
  exact apart (first.trans second.symm)

/-! ## The order of the entries -/

/-- Two disks with the same things in the same places. -/
structure Alike (disk other : Disk) : Prop where
  home : other.home = disk.home
  entryAt? : ∀ location, other.entryAt? location = disk.entryAt? location

theorem entryAt?_eq_some_iff (distinct : (disk.entries.map Prod.fst).Nodup)
    (inside : location ≠ []) :
    disk.entryAt? location = some entry ↔ (location, entry) ∈ disk.entries := by
  refine ⟨fun stands => mem_of_entryAt? stands inside, fun member => ?_⟩
  obtain ⟨other, stands⟩ := Option.ne_none_iff_exists'.mp
    ((entryAt?_ne_none_iff inside).mpr ⟨_, member, rfl⟩)
  have found := mem_of_entryAt? stands inside
  have same := List.inj_on_of_nodup_map distinct found member rfl
  rw [stands, (Prod.mk.inj same).2]

/-- The order in which entries are kept does not matter. -/
theorem alike_of_perm {other : Disk} (distinct : (disk.entries.map Prod.fst).Nodup)
    (home : other.home = disk.home) (delivered : other.entries.Perm disk.entries) :
    disk.Alike other := by
  refine ⟨home, fun location => ?_⟩
  by_cases inside : location = []
  · subst inside
    rfl
  · have distinctOther := (delivered.map Prod.fst).nodup_iff.mpr distinct
    apply Option.ext
    intro entry
    rw [entryAt?_eq_some_iff distinctOther inside, entryAt?_eq_some_iff distinct inside,
      delivered.mem_iff]

theorem IsTree.of_perm {other : Disk} (tree : disk.IsTree) (home : other.home = disk.home)
    (delivered : other.entries.Perm disk.entries) : other.IsTree where
  home := by
    rw [home, (alike_of_perm tree.distinct home delivered).entryAt?]
    exact tree.home
  distinct := (delivered.map Prod.fst).nodup_iff.mpr tree.distinct
  inside := by
    intro stored member
    obtain ⟨above, name, shape, isDirectory, isName⟩ :=
      tree.inside stored (delivered.mem_iff.mp member)
    refine ⟨above, name, shape, ?_, isName⟩
    rw [(alike_of_perm tree.distinct home delivered).entryAt?]
    exact isDirectory

namespace Alike

variable {other : Disk}

theorem walk (alike : disk.Alike other) (here : Location) (steps : List String) :
    other.walk here steps = disk.walk here steps := by
  induction steps generalizing here with
  | nil => rfl
  | cons piece rest inductionHypothesis =>
      have entered : other.enter here piece = disk.enter here piece := by
        rw [enter, enter, alike.entryAt?]
      rw [Disk.walk, Disk.walk, entered]
      cases disk.enter here piece with
      | ok next => exact inductionHypothesis next
      | error cause => rfl

theorem locate (alike : disk.Alike other) (path : String) :
    other.locate path = disk.locate path := by
  rw [Disk.locate, Disk.locate, alike.walk, alike.home]

theorem find (alike : disk.Alike other) (path : String) : other.find path = disk.find path := by
  rw [Disk.find, Disk.find, alike.locate]
  cases disk.locate path with
  | ok location => simp only [alike.entryAt?]
  | error cause => rfl

theorem readText (alike : disk.Alike other) (path : String) :
    other.readText path = disk.readText path := by
  rw [Disk.readText, Disk.readText, alike.find]

end Alike

/-! ## Ensuring a directory -/

theorem isDirectory_iff : disk.isDirectory path = true ↔
    ∃ location, disk.locate path = .ok location ∧ disk.entryAt? location = some .directory := by
  unfold isDirectory find
  cases leads : disk.locate path with
  | error cause => simp
  | ok location =>
      cases stands : disk.entryAt? location with
      | none => simp [stands]
      | some entry =>
          cases entry with
          | directory => simp [stands]
          | file content executable =>
              by_cases slash : namesDirectory path = true <;> simp [stands, slash]

/-- Nothing is lost, and what is new is a directory. -/
structure Grows (disk later : Disk) : Prop where
  home : later.home = disk.home
  kept : ∀ location entry, disk.entryAt? location = some entry → later.entryAt? location = some entry
  fresh : ∀ location entry, disk.entryAt? location = none → later.entryAt? location = some entry →
    entry = .directory

theorem Grows.refl (disk : Disk) : disk.Grows disk :=
  ⟨rfl, fun _ _ => id, fun _ _ nothing stands => by rw [nothing] at stands; cases stands⟩

theorem Grows.trans {ready : Disk} (first : disk.Grows ready) (second : ready.Grows later) :
    disk.Grows later where
  home := second.home.trans first.home
  kept := fun location entry stands => second.kept location entry (first.kept location entry stands)
  fresh := by
    intro location entry nothing stands
    cases between : ready.entryAt? location with
    | none => exact second.fresh location entry between stands
    | some other =>
        rw [second.kept location other between] at stands
        cases stands
        exact first.fresh location _ nothing between

theorem createDirectory_eq_ok {made : Disk} (creates : disk.createDirectory path = .ok made) :
    ∃ target, disk.locate path = .ok target ∧ disk.entryAt? target = none ∧
      made = disk.place target .directory := by
  unfold createDirectory at creates
  split at creates
  · cases creates
  · next target leads =>
      split at creates
      · cases creates
      · next nothing => exact ⟨target, leads, nothing, (Except.ok.inj creates).symm⟩

theorem isDirectory_of_createDirectory {made : Disk}
    (creates : disk.createDirectory path = .ok made) : made.isDirectory path = true := by
  obtain ⟨target, leads, nothing, rfl⟩ := createDirectory_eq_ok creates
  have noDirectory : disk.entryAt? target ≠ some .directory := by simp [nothing]
  exact isDirectory_iff.mpr ⟨target, locate_place noDirectory leads,
    entryAt?_place_self (ne_nil_of_no_directory noDirectory)⟩

theorem grows_createDirectory {made : Disk} (creates : disk.createDirectory path = .ok made) :
    disk.Grows made := by
  obtain ⟨target, leads, nothing, rfl⟩ := createDirectory_eq_ok creates
  have noDirectory : disk.entryAt? target ≠ some .directory := by simp [nothing]
  refine ⟨rfl, ?_, ?_⟩
  · intro location entry stands
    have apart : location ≠ target := by
      rintro rfl
      rw [nothing] at stands
      cases stands
    exact (entryAt?_place_of_ne apart).trans stands
  · intro location entry absent stands
    by_cases same : location = target
    · subst same
      rw [entryAt?_place_self (ne_nil_of_no_directory noDirectory)] at stands
      exact (Option.some.inj stands).symm
    · rw [entryAt?_place_of_ne same, absent] at stands
      cases stands

theorem IsTree.createDirectory (tree : disk.IsTree) {made : Disk}
    (creates : disk.createDirectory path = .ok made) : made.IsTree ∧ disk.Grows made := by
  refine ⟨?_, grows_createDirectory creates⟩
  obtain ⟨target, leads, nothing, rfl⟩ := createDirectory_eq_ok creates
  have noDirectory : disk.entryAt? target ≠ some .directory := by simp [nothing]
  exact tree.place (tree.isPlace_locate leads noDirectory) noDirectory

theorem accept_snd (disk : Disk) (path : String) (cause : OsError) :
    (disk.accept path cause).2 = disk := by
  unfold accept
  split <;> rfl

/-- Whether or not all directories could be made, the disk has been changed step by step. -/
theorem ensureFirst_related {Related : Disk → Disk → Prop} (refl : ∀ disk, Related disk disk)
    (trans : ∀ {disk ready later}, Related disk ready → Related ready later → Related disk later)
    (creates : ∀ {disk made path}, disk.createDirectory path = .ok made → Related disk made)
    (disk : Disk) (paths : List String) : Related disk (disk.ensureFirst paths).2 := by
  induction paths with
  | nil => exact refl disk
  | cons path above inductionHypothesis =>
      unfold Disk.ensureFirst
      split
      · exact refl disk
      · split
        · next made created => exact creates created
        · split
          · next cause kept failed =>
              rw [failed] at inductionHypothesis
              exact inductionHypothesis
          · next ready ensured =>
              rw [ensured] at inductionHypothesis
              split
              · next made created => exact trans inductionHypothesis (creates created)
              · rw [accept_snd]
                exact inductionHypothesis
        · rw [accept_snd]
          exact refl disk

theorem grows_ensureFirst (disk : Disk) (paths : List String) :
    disk.Grows (disk.ensureFirst paths).2 :=
  ensureFirst_related Grows.refl Grows.trans grows_createDirectory disk paths

theorem IsTree.ensureFirst (tree : disk.IsTree) (paths : List String) :
    (disk.ensureFirst paths).2.IsTree ∧ disk.Grows (disk.ensureFirst paths).2 := by
  refine ⟨?_, grows_ensureFirst disk paths⟩
  exact @ensureFirst_related (fun before after => before.IsTree → after.IsTree) (fun _ => id)
    (fun first second => second ∘ first)
    (fun creates tree => (tree.createDirectory creates).1) disk paths tree

theorem accept_eq_ok {cause : OsError} {ready : Disk}
    (accepted : disk.accept path cause = (.ok (), ready)) :
    ready = disk ∧ disk.isDirectory path = true := by
  unfold accept at accepted
  split at accepted
  · next isDirectory =>
      cases accepted
      exact ⟨rfl, isDirectory⟩
  · cases accepted

theorem ensureDirectory_eq (disk : Disk) (path : String) : ∃ above,
    disk.ensureDirectory path = disk.ensureFirst (path :: above) := ⟨_, rfl⟩

/-- A directory that is ensured is there. -/
theorem isDirectory_of_ensureDirectory (named : path ≠ "") {ready : Disk}
    (ensured : disk.ensureDirectory path = (.ok (), ready)) : ready.isDirectory path = true := by
  obtain ⟨above, isFirst⟩ := ensureDirectory_eq disk path
  have nonempty : path.isEmpty = false :=
    String.isEmpty_eq_false_iff.mpr named
  rw [isFirst, Disk.ensureFirst, nonempty, if_neg Bool.false_ne_true] at ensured
  split at ensured
  · next made creates =>
      cases ensured
      exact isDirectory_of_createDirectory creates
  · split at ensured
    · cases ensured
    · split at ensured
      · next made creates =>
          cases ensured
          exact isDirectory_of_createDirectory creates
      · obtain ⟨rfl, isDirectory⟩ := accept_eq_ok ensured
        exact isDirectory
  · obtain ⟨rfl, isDirectory⟩ := accept_eq_ok ensured
    exact isDirectory

/-- A directory that is there already is left as it is. -/
theorem ensureDirectory_of_isDirectory (isDirectory : disk.isDirectory path = true) :
    disk.ensureDirectory path = (.ok (), disk) := by
  obtain ⟨location, leads, stands⟩ := isDirectory_iff.mp isDirectory
  have present : disk.createDirectory path = .error .alreadyExists := by
    unfold Disk.createDirectory
    rw [leads]
    simp only [stands]
  obtain ⟨above, isFirst⟩ := ensureDirectory_eq disk path
  have nonempty : path.isEmpty = false :=
    String.isEmpty_eq_false_iff.mpr (locate_eq_ok_iff.mp leads).1
  rw [isFirst, Disk.ensureFirst, nonempty, if_neg Bool.false_ne_true]
  simp only [present, accept, isDirectory, ↓reduceIte]

end Montage.Files.Disk
