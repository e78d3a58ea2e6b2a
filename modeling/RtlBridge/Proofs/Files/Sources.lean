import Mathlib.Data.List.Nodup
import RtlBridge.Proofs.Files.Runs
import RtlBridge.Proofs.Vhdl.Drivers

/-! The sources of a folder and the jobs that are made of them. In a proper tree a folder has each of its sources
once, in the order of their paths, and no result is given the name of a source. -/

namespace RtlBridge

open List

namespace Path

variable {path : Path} {here : Place} {parts : List String}

theorem foldl_step (place : Place) (proper : ".." ∉ parts) : parts.foldl Place.step place = place ++ parts := by
  induction parts generalizing place with
  | nil => exact (append_nil place).symm
  | cons part rest ih =>
    rw [mem_cons, not_or] at proper
    rw [foldl_cons, ih _ proper.2, Place.step, if_neg (Ne.symm proper.1), append_assoc]
    rfl

theorem destination_below (proper : ".." ∉ parts) :
    (path.below parts).destination here = path.destination here ++ parts := by
  rw [destination, below, foldl_append]
  exact foldl_step _ proper

theorem splitName_concat (name : String) : (splitName name).1 ++ (splitName name).2 = name := by
  have whole := takeWhile_append_dropWhile (p := (· ≠ '.')) (l := name.toList.reverse)
  rw [splitName]
  split
  · rename_i stem isStem
    rw [isStem] at whole
    split
    · exact String.append_empty
    · rw [← String.toList_inj, ← reverse_inj]
      refine Eq.trans ?_ whole
      simp
  · exact String.append_empty

/-- A name with a suffix has something before it. -/
theorem splitName_suffix (hasSuffix : (splitName name).2 ≠ "") : (splitName name).1.toList ≠ [] := by
  rw [splitName] at hasSuffix ⊢
  split at hasSuffix
  · split at hasSuffix
    · cases hasSuffix rfl
    · rename_i someStem
      rw [if_neg someStem]
      rw [Bool.or_eq_true, not_or, List.isEmpty_iff, List.isEmpty_iff] at someStem
      simpa using someStem.2
  · cases hasSuffix rfl

theorem splitName_append (someStem : stem ≠ []) (someEnding : ending ≠ []) (noDot : '.' ∉ ending) :
    splitName (String.ofList stem ++ String.ofList ('.' :: ending)) =
      (String.ofList stem, String.ofList ('.' :: ending)) := by
  have plain : ∀ c ∈ ending.reverse, decide (c ≠ '.') = true := by
    intro c inside
    rw [mem_reverse] at inside
    exact decide_eq_true (fun isDot => noDot (isDot ▸ inside))
  have backwards : (String.ofList stem ++ String.ofList ('.' :: ending)).toList.reverse =
      ending.reverse ++ '.' :: stem.reverse := by simp
  rw [splitName, backwards, takeWhile_append_of_pos plain, dropWhile_append_of_pos plain]
  simp [someStem, someEnding]

end Path

namespace FileTree

theorem partsLe_total (first second : List String) : (partsLe first second || partsLe second first) = true := by
  induction first generalizing second with
  | nil => rfl
  | cons a as ih =>
    cases second with
    | nil => rfl
    | cons b bs =>
      by_cases same : a = b
      · simpa [partsLe, same] using ih bs
      · have apart : a < b ∨ b < a := Decidable.or_iff_not_imp_left.mpr fun notLess => String.not_le.mp fun isLe =>
          same (String.le_antisymm isLe (String.not_lt.mp notLess))
        simpa [partsLe, same, Ne.symm same] using apart

theorem partsLe_trans (isFirst : partsLe first second = true) (isSecond : partsLe second third = true) :
    partsLe first third = true := by
  fun_induction partsLe first second generalizing third with
  | case1 => rfl
  | case2 => cases isFirst
  | case3 a as bs ih =>
    cases third with
    | nil => cases isSecond
    | cons c cs =>
      rw [partsLe] at isSecond ⊢
      split at isSecond
      · rw [if_pos ‹_›]
        exact ih isFirst isSecond
      · rw [if_neg ‹_›]
        exact isSecond
  | case4 a as b bs other =>
    cases third with
    | nil => cases isSecond
    | cons c cs =>
      have isLess := of_decide_eq_true isFirst
      rw [partsLe] at isSecond ⊢
      split at isSecond
      · rename_i same
        rw [← same, if_neg other]
        exact isFirst
      · have isBelow := String.lt_trans isLess (of_decide_eq_true isSecond)
        rw [if_neg (String.ne_of_lt isBelow)]
        exact decide_eq_true isBelow

theorem partsLe_antisymm (isFirst : partsLe first second = true) (isSecond : partsLe second first = true) :
    first = second := by
  fun_induction partsLe first second with
  | case1 list =>
    cases list with
    | nil => rfl
    | cons => cases isSecond
  | case2 => cases isFirst
  | case3 a as bs ih =>
    rw [partsLe, if_pos rfl] at isSecond
    rw [ih isFirst isSecond]
  | case4 a as b bs other =>
    rw [partsLe, if_neg (Ne.symm other)] at isSecond
    exact absurd (of_decide_eq_true isSecond) (String.lt_asymm (of_decide_eq_true isFirst))

def resultName (dialect : Dialect) (name : String) : String := (Path.splitName name).1 ++ dialect.suffix

theorem splitName_resultName (dialect : Dialect) (isSource : isSourceName name = true) :
    Path.splitName (resultName dialect name) = ((Path.splitName name).1, dialect.suffix) := by
  have hasSuffix : (Path.splitName name).2 ≠ "" := by
    intro none
    rw [isSourceName, none] at isSource
    exact absurd isSource (by decide)
  have someStem := Path.splitName_suffix hasSuffix
  rw [resultName]
  generalize (Path.splitName name).1 = stem at someStem
  obtain ⟨stem, rfl⟩ : ∃ letters, stem = String.ofList letters := ⟨stem.toList, by simp⟩
  rw [String.toList_ofList] at someStem
  cases dialect with
  | strict | legacy => exact Path.splitName_append someStem (by decide) (by decide)

/-- No result is taken for a source. -/
theorem isSourceName_resultName (dialect : Dialect) (isSource : isSourceName name = true) :
    isSourceName (resultName dialect name) = false := by
  rw [isSourceName, splitName_resultName dialect isSource]
  change sourceSuffixes.contains (Text.lower dialect.suffix) = false
  cases dialect <;> decide

theorem resultName_ne_up (dialect : Dialect) (isSource : isSourceName name = true) : resultName dialect name ≠ ".." := by
  intro isUp
  have split := splitName_resultName dialect isSource
  rw [isUp] at split
  have suffixes : "" = dialect.suffix := congrArg Prod.snd split
  cases dialect <;> exact absurd suffixes (by decide)

variable {tree : FileTree} {here : Place} {folder : Path} {recursive : Bool} {parts : List String}

structure IsName (name : String) : Prop where
  notUp : name ≠ ".."
  noNull : name.toList.contains '\x00' = false
  short : name.utf8ByteSize ≤ nameLimit

instance : DecidablePred IsName := fun name =>
  decidable_of_iff (name ≠ ".." ∧ name.toList.contains '\x00' = false ∧ name.utf8ByteSize ≤ nameLimit)
    ⟨fun holds => ⟨holds.1, holds.2.1, holds.2.2⟩, fun holds => ⟨holds.notUp, holds.noNull, holds.short⟩⟩

/-- Each place has one entry, and a name that it can have; there is room for every file. -/
structure IsProper (here : Place) (tree : FileTree) : Prop extends tree.IsRooted here where
  unlimited : tree.room = none
  once : tree.entries.keys.Nodup
  names : ∀ place ∈ tree.entries.keys, ∀ name ∈ place, IsName name

theorem IsProper.of_keys (isHere : tree.isFolder here = true) (unlimited : tree.room = none)
    (once : tree.entries.keys.Nodup)
    (each : ∀ place ∈ tree.entries.keys, tree.isFolder place.dropLast = true ∧ ∀ name ∈ place, IsName name) :
    tree.IsProper here := by
  refine ⟨⟨isHere, fun place present => ?_⟩, unlimited, once, fun place inside => (each place inside).2⟩
  by_cases top : place = []
  · rw [top]
    rfl
  · rw [find?, if_neg top, Option.isSome_iff_exists] at present
    obtain ⟨entry, found⟩ := present
    exact (each place (mem_map_of_mem ((Table.find?_eq_some_iff once).mp found))).1

/-- The parts of an entry that is a file in a folder. -/
def fileBelow? (folder : Place) (recursive : Bool) : Place × Entry → Option (List String)
  | (_, .folder) => none
  | (place, .file _) =>
    let rest := place.drop folder.length
    if Place.within place folder && (rest.length = 1 || recursive && rest.length ≥ 1) then some rest else none

theorem filesBelow_eq (tree : FileTree) (folder : Place) (recursive : Bool) :
    tree.filesBelow folder recursive = tree.entries.entries.filterMap (fileBelow? folder recursive) := by
  apply filterMap_congr
  rintro ⟨place, entry⟩ -
  cases entry <;> rfl

theorem fileBelow?_eq_some {folder : Place} :
    fileBelow? folder recursive (place, entry) = some parts ↔
      place = folder ++ parts ∧ (∃ bytes, entry = .file bytes) ∧
        (parts.length = 1 ∨ recursive = true ∧ 1 ≤ parts.length) := by
  cases entry with
  | folder => simp [fileBelow?]
  | file bytes =>
    rw [fileBelow?, Option.ite_none_right_eq_some, Bool.and_eq_true, Place.within_iff]
    constructor
    · rintro ⟨⟨⟨rest, rfl⟩, length⟩, isParts⟩
      simp_all
    · rintro ⟨rfl, -, length⟩
      simp_all

theorem mem_filesBelow_iff (once : tree.entries.keys.Nodup) :
    parts ∈ tree.filesBelow place recursive ↔
      (parts.length = 1 ∨ recursive = true ∧ 1 ≤ parts.length) ∧ (tree.file? (place ++ parts)).isSome := by
  have isFile (below : parts ≠ []) :
      (tree.file? (place ++ parts)).isSome ↔ ∃ bytes, (place ++ parts, Entry.file bytes) ∈ tree.entries.entries := by
    have notTop : place ++ parts ≠ [] := fun top => below (append_eq_nil_iff.mp top).2
    simp only [← Table.find?_eq_some_iff once]
    rw [file?, find?, if_neg notTop]
    split <;> simp_all
  rw [filesBelow_eq, mem_filterMap]
  constructor
  · rintro ⟨⟨other, entry⟩, inside, isParts⟩
    obtain ⟨rfl, ⟨bytes, rfl⟩, length⟩ := fileBelow?_eq_some.mp isParts
    exact ⟨length, (isFile (by rintro rfl; simp at length)).mpr ⟨bytes, inside⟩⟩
  · rintro ⟨length, present⟩
    obtain ⟨bytes, inside⟩ := (isFile (by rintro rfl; simp at length)).mp present
    exact ⟨_, inside, fileBelow?_eq_some.mpr ⟨rfl, ⟨bytes, rfl⟩, length⟩⟩

theorem filesBelow_nodup (once : tree.entries.keys.Nodup) (folder : Place) (recursive : Bool) :
    (tree.filesBelow folder recursive).Nodup := by
  apply Nodup.of_map (folder ++ ·)
  rw [filesBelow_eq, map_filterMap]
  refine (Table.filterMap_sublist_keys fun entry place isPlace => ?_).nodup once
  obtain ⟨parts, isParts, rfl⟩ := Option.map_eq_some_iff.mp isPlace
  exact (fileBelow?_eq_some.mp isParts).1

/-- A source of a folder, by its parts below the folder. -/
structure IsSource (here : Place) (tree : FileTree) (folder : Path) (parts : List String) : Prop where
  located : tree.locate here folder = .ok (folder.destination here)
  file : (tree.file? (folder.destination here ++ parts)).isSome
  name : ∃ name, parts.getLast? = some name ∧ isSourceName name = true

theorem mem_sourcesBelow_iff (once : tree.entries.keys.Nodup) :
    parts ∈ tree.sourcesBelow here folder recursive ↔
      tree.IsSource here folder parts ∧ tree.isFolder (folder.destination here) = true ∧
        (parts.length = 1 ∨ recursive = true ∧ 1 ≤ parts.length) := by
  have named : (parts.getLast?.map isSourceName).getD false = true ↔
      ∃ name, parts.getLast? = some name ∧ isSourceName name = true := by cases parts.getLast? <;> simp
  rw [sourcesBelow]
  split
  · rename_i fault located
    simp only [not_mem_nil, false_iff]
    rintro ⟨isSource, -⟩
    rw [isSource.located] at located
    cases located
  · rename_i place located
    obtain rfl := locate_eq_destination located
    split
    · rename_i isFolder
      rw [(mergeSort_perm _ _).mem_iff, mem_filter, named, mem_filesBelow_iff once]
      constructor
      · rintro ⟨⟨length, file⟩, name⟩
        exact ⟨⟨located, file, name⟩, isFolder, length⟩
      · rintro ⟨isSource, -, length⟩
        exact ⟨⟨length, isSource.file⟩, isSource.name⟩
    · rename_i noFolder
      simp [noFolder]

theorem sourcesBelow_pairwise (tree : FileTree) (here : Place) (folder : Path) (recursive : Bool) :
    (tree.sourcesBelow here folder recursive).Pairwise fun first second => partsLe first second = true := by
  rw [sourcesBelow]
  split
  · exact .nil
  · split
    · apply pairwise_mergeSort
      · exact fun _ _ _ => partsLe_trans
      · exact partsLe_total
    · exact .nil

theorem sourcesBelow_nodup (once : tree.entries.keys.Nodup) : (tree.sourcesBelow here folder recursive).Nodup := by
  rw [sourcesBelow]
  split
  · exact .nil
  · split
    · apply (mergeSort_perm _ _).nodup_iff.mpr
      exact (filesBelow_nodup once _ recursive).filter _
    · exact .nil

/-- What stands before a source in the list comes before it in the order of paths. -/
theorem mem_front_iff (once : tree.entries.keys.Nodup)
    (isList : tree.sourcesBelow here folder recursive = front ++ parts :: back) :
    other ∈ front ↔ other ∈ tree.sourcesBelow here folder recursive ∧ partsLe parts other = false := by
  have inOrder := sourcesBelow_pairwise tree here folder recursive
  have distinct := @sourcesBelow_nodup tree here folder recursive once
  rw [isList] at inOrder distinct ⊢
  obtain ⟨_, fromParts, across⟩ := pairwise_append.mp inOrder
  constructor
  · intro inFront
    have isOther : other ≠ parts := (nodup_append.mp distinct).2.2 _ inFront _ (mem_cons_self ..)
    have isBefore := across other inFront parts (mem_cons_self ..)
    exact ⟨mem_append_left _ inFront, Bool.eq_false_iff.mpr fun isAfter => isOther (partsLe_antisymm isBefore isAfter)⟩
  · rintro ⟨inside, isBefore⟩
    obtain inFront | isLater := mem_append.mp inside
    · exact inFront
    · obtain rfl | inBack := mem_cons.mp isLater
      · have isSame := partsLe_total other other
        rw [Bool.or_self, isBefore] at isSame
        cases isSame
      · cases isBefore.symm.trans ((pairwise_cons.mp fromParts).1 other inBack)

/-! ### Sources stay where they are -/

variable {before after : FileTree}

theorem IsRooted.isFolder_above (rooted : tree.IsRooted here) {rest : List String}
    (present : (tree.find? (place ++ rest)).isSome) (below : rest ≠ []) : tree.isFolder place = true := by
  induction rest using reverseRecOn with
  | nil => cases below rfl
  | append_singleton front name ih =>
    have above := rooted.above _ present
    rw [← append_assoc, dropLast_concat] at above
    by_cases last : front = []
    · rwa [last, append_nil] at above
    · exact ih (by rw [isFolder_iff.mp above]; rfl) last

theorem walk_append (tree : FileTree) (place : Place) (front back : List String) :
    tree.walk place (front ++ back) = tree.walk place front >>= fun found => tree.walk found back := by
  induction front generalizing place with
  | nil => rfl
  | cons part rest ih =>
    rw [cons_append, walk, walk]
    split
    · split
      · rfl
      · exact ih _
    · rfl
    · rfl

theorem walk_keeps (keeps : before.KeepsFolders after) (walked : before.walk start parts = .ok place)
    : after.walk start parts = .ok place := by
  induction parts generalizing start with
  | nil => exact walked
  | cons part rest ih =>
    rw [walk] at walked ⊢
    split at walked
    · rename_i isFolder
      rw [isFolder_iff.mp (keeps start (isFolder_iff.mpr isFolder))]
      split at walked
      · cases walked
      · rename_i short
        exact (if_neg short).trans (ih walked)
    · cases walked
    · cases walked

theorem locate_of_walk (walked : tree.walk (path.origin here) path.parts = .ok place) :
    tree.locate here path =
      if path.hasNull then .error .nullInName
      else if path.text.utf8ByteSize > pathLimit then .error (.nameTooLong path.text) else .ok place := by
  rw [locate, walked]
  rfl

theorem walk_of_names (names : ∀ part ∈ parts, IsName part)
    (folders : ∀ front rest, front ++ rest = parts → rest ≠ [] → tree.isFolder (start ++ front) = true) :
    tree.walk start parts = .ok (start ++ parts) := by
  induction parts generalizing start with
  | nil => rw [walk, append_nil]
  | cons part rest ih =>
    have isName := names part (mem_cons_self ..)
    have isFolder := folders [] (part :: rest) rfl (cons_ne_nil _ _)
    rw [append_nil, isFolder_iff] at isFolder
    rw [walk, isFolder]
    dsimp only
    rw [if_neg (Nat.not_lt.mpr isName.short), Place.step, if_neg isName.notUp,
      ih fun name inside => names name (mem_cons_of_mem part inside)]
    · rw [append_assoc]
      rfl
    · intro front others isRest below
      rw [append_assoc]
      exact folders (part :: front) others (congrArg (part :: ·) isRest) below

theorem IsProper.isName (proper : tree.IsProper here) (present : (tree.find? place).isSome) (inside : name ∈ place)
    : IsName name := by
  have notTop : place ≠ [] := ne_nil_of_mem inside
  rw [find?, if_neg notTop, Option.isSome_iff_exists] at present
  obtain ⟨entry, found⟩ := present
  have member := (Table.find?_eq_some_iff proper.once).mp found
  exact proper.names place (mem_map_of_mem member) name inside

theorem find?_of_isSome_file? (present : (tree.file? place).isSome) :
    ∃ bytes, tree.file? place = some bytes ∧ tree.find? place = some (.file bytes) := by
  rw [file?] at present ⊢
  split at present
  · rename_i bytes found
    exact ⟨bytes, rfl, found⟩
  · cases present

namespace IsSource

theorem isName (isSource : tree.IsSource here folder parts) (proper : tree.IsProper here) :
    ∀ part ∈ parts, IsName part := by
  obtain ⟨bytes, _, found⟩ := find?_of_isSome_file? isSource.file
  intro part inside
  exact proper.isName (by rw [found]; rfl) (mem_append_right _ inside)

theorem notUp (isSource : tree.IsSource here folder parts) (proper : tree.IsProper here) : ".." ∉ parts :=
  fun inside => (isSource.isName proper _ inside).notUp rfl

theorem ne_nil (isSource : tree.IsSource here folder parts) : parts ≠ [] := by
  obtain ⟨name, last, _⟩ := isSource.name
  exact ne_nil_of_mem (mem_of_getLast? last)

theorem walk (isSource : tree.IsSource here folder parts) (proper : tree.IsProper here) :
    tree.walk ((folder.below parts).origin here) (folder.below parts).parts =
      .ok (folder.destination here ++ parts) := by
  obtain ⟨bytes, _, found⟩ := find?_of_isSome_file? isSource.file
  have start : tree.walk (folder.origin here) folder.parts = .ok (folder.destination here) := by
    have located := isSource.located
    rw [locate] at located
    split at located
    · cases located
    · split at located
      · cases located
      · exact mapError_eq_ok.mp located
  refine (walk_append tree (folder.origin here) folder.parts parts).trans ?_
  rw [start]
  refine walk_of_names (isSource.isName proper) fun front rest isParts below => ?_
  subst isParts
  rw [← append_assoc] at found
  exact proper.isFolder_above (by rw [found]; rfl) below

theorem noNull (isSource : tree.IsSource here folder parts) (proper : tree.IsProper here) :
    (folder.below parts).hasNull = false := by
  have located := isSource.located
  rw [locate] at located
  split at located
  · cases located
  · rename_i noNull
    rw [Path.hasNull, Path.below, any_append, ← Path.hasNull, Bool.or_eq_false_iff]
    refine ⟨Bool.eq_false_iff.mpr noNull, any_eq_false.mpr fun part inside => ?_⟩
    rw [(isSource.isName proper part inside).noNull]
    exact Bool.false_ne_true

/-- What a source is converted to stays the same while folders stay and its bytes do. -/
theorem converted_eq (isSource : before.IsSource here folder parts) (proper : before.IsProper here)
    (keeps : before.KeepsFolders after)
    (same : after.file? (folder.destination here ++ parts) = before.file? (folder.destination here ++ parts))
    (options : Options) (dialect : Dialect) :
    after.converted options dialect here (folder.below parts) =
      before.converted options dialect here (folder.below parts) := by
  have walked := isSource.walk proper
  have entries : after.entryAt here (folder.below parts) = before.entryAt here (folder.below parts) := by
    obtain ⟨bytes, isBytes, found⟩ := find?_of_isSome_file? isSource.file
    obtain ⟨others, areOthers, foundAfter⟩ := find?_of_isSome_file? (same ▸ isSource.file)
    rw [same, isBytes] at areOthers
    cases areOthers
    rw [entryAt, entryAt, locate_of_walk (walk_keeps keeps walked), locate_of_walk walked]
    split
    · rfl
    · split
      · rfl
      · dsimp only [bind, Except.bind]
        rw [found, foundAfter]
  rw [converted, converted, Workspace.sourceBytes, Workspace.sourceBytes, entries]

end IsSource

end FileTree

namespace Batch

variable {tree : FileTree} {here : Place} {folder outputFolder : Path} {recursive : Bool} {dialect : Dialect}

def resultParts (dialect : Dialect) (parts : List String) : List String :=
  parts.dropLast ++ [FileTree.resultName dialect (parts.getLast?.getD "")]

def jobFor (folder outputFolder : Path) (dialect : Dialect) (parts : List String) : Job :=
  ⟨folder.below parts, outputFolder.below (resultParts dialect parts)⟩

theorem jobOf_eq (some : parts ≠ []) :
    jobOf folder outputFolder dialect parts = .ok (jobFor folder outputFolder dialect parts) := by
  have name : (outputFolder.below parts).name? = parts.getLast? := by
    rw [Path.name?, Path.below, getLast?_append_of_ne_nil _ some]
  rw [jobOf, Path.withSuffix, name, getLast?_eq_some_getLast some, jobFor, resultParts, getLast?_eq_some_getLast some]
  dsimp only [Path.below]
  rw [dropLast_append_of_ne_nil some, append_assoc]
  rfl

def settledJobs (here : Place) (tree : FileTree) (folder outputFolder : Path) (recursive : Bool) (dialect : Dialect) :
    List (Job × Option Job) :=
  settle [] ((tree.sourcesBelow here folder recursive).map (jobFor folder outputFolder dialect))

theorem planned_eq_ok_iff (once : tree.entries.keys.Nodup) :
    planned options folder outputFolder recursive dialect here tree = .ok settled ↔
      tree.isFolderAt here folder = .ok true ∧ options.allowsPath here folder = .ok true ∧
        settled = settledJobs here tree folder outputFolder recursive dialect := by
  have jobs : (tree.sourcesBelow here folder recursive).mapM (jobOf folder outputFolder dialect) =
      .ok ((tree.sourcesBelow here folder recursive).map (jobFor folder outputFolder dialect)) := by
    rw [mapM_eq_ok_iff, forall₂_map_right_iff, forall₂_same]
    intro parts inside
    exact jobOf_eq ((FileTree.mem_sourcesBelow_iff once).mp inside).1.ne_nil
  rw [planned, jobs, settledJobs]
  cases tree.isFolderAt here folder with
  | error fault => simp [Except.mapError, bind, Except.bind]
  | ok isFolder =>
    cases isFolder with
    | false => simp [Except.mapError, bind, Except.bind, throw, throwThe, MonadExceptOf.throw]
    | true =>
      cases options.allowsPath here folder with
      | error fault => simp [Except.mapError, bind, Except.bind]
      | ok isAllowed => cases isAllowed <;>
          simp [Except.mapError, bind, Except.bind, throw, throwThe, MonadExceptOf.throw, pure, Except.pure, eq_comm]

end Batch

end RtlBridge
