import Mathlib.Data.List.Infix
import RtlBridge.FileTree
import RtlBridge.Proofs.Sequencing

/-! What happens to the entries of a tree. Making folders puts folders where there was nothing, and writing a
file changes the place of that file besides. -/

namespace RtlBridge

open List

namespace FileTree

variable {tree before after : FileTree} {here place : Place} {path : Path}

/-- Some folders are new, and all else is as it was. -/
structure Grows (before after : FileTree) : Prop where
  room : after.room = before.room
  entry : ∀ place, after.find? place = before.find? place ∨
    before.find? place = none ∧ after.find? place = some .folder

theorem Grows.refl (tree : FileTree) : tree.Grows tree := ⟨rfl, fun _ => .inl rfl⟩

theorem Grows.trans (first : before.Grows between) (second : between.Grows after) : before.Grows after := by
  refine ⟨second.room.trans first.room, fun place => ?_⟩
  obtain same | ⟨absent, made⟩ := second.entry place
  · rw [same]
    exact first.entry place
  · obtain same | ⟨_, folder⟩ := first.entry place
    · exact .inr ⟨same ▸ absent, made⟩
    · rw [absent] at folder
      cases folder

theorem Grows.put_folder (absent : tree.find? place = none) : tree.Grows (tree.put place .folder) := by
  refine ⟨rfl, fun other => ?_⟩
  by_cases top : other = []
  · exact .inl (by rw [top, find?_top, find?_top])
  · rw [find?_put tree place other .folder top]
    split
    · rename_i same
      exact .inr ⟨same ▸ absent, rfl⟩
    · exact .inl rfl

theorem Grows.file? (grows : before.Grows after) (place : Place) : after.file? place = before.file? place := by
  obtain same | ⟨absent, made⟩ := grows.entry place
  · rw [FileTree.file?, FileTree.file?, same]
  · rw [FileTree.file?, FileTree.file?, absent, made]

/-- Whatever is a folder stays one. -/
def KeepsFolders (before after : FileTree) : Prop := ∀ place, before.isFolder place = true → after.isFolder place = true

theorem isFolder_iff : tree.isFolder place = true ↔ tree.find? place = some .folder := by
  rw [isFolder]
  split <;> simp_all

theorem Grows.keepsFolders (grows : before.Grows after) : before.KeepsFolders after := by
  intro place folder
  rw [isFolder_iff] at folder ⊢
  obtain same | ⟨absent, _⟩ := grows.entry place
  · rw [same, folder]
  · rw [absent] at folder
    cases folder

/-! ### What operations come to -/

theorem makeFolder_eq_ok (ok : tree.makeFolder here path = .ok made) :
    ∃ place, tree.locate here path = .ok place ∧ tree.find? place = none ∧ made = tree.put place .folder := by
  obtain ⟨place, located, ok⟩ := bind_eq_ok.mp ok
  split at ok
  · cases ok
  · rename_i absent
    cases ok
    exact ⟨place, located, absent, rfl⟩

theorem ensureFolder_eq_ok (ok : tree.ensureFolder here path = .ok made) :
    made = tree ∨ tree.makeFolder here path = .ok made := by
  rw [ensureFolder] at ok
  split at ok
  · rename_i isMade
    cases ok
    exact .inr isMade
  · obtain ⟨isFolder, _, ok⟩ := bind_eq_ok.mp ok
    split at ok
    · cases ok
      exact .inl rfl
    · cases ok

/-- Two ways of making a folder that end alike: both in trees, or both with the same fault. -/
inductive Alike (related : FileTree → FileTree → Prop) (faulty : FileFault → Prop) :
    Except FileFault FileTree → Except FileFault FileTree → Prop
  | ok {made made' : FileTree} (areRelated : related made made') : Alike related faulty (.ok made) (.ok made')
  | error {fault : FileFault} (isFaulty : faulty fault) : Alike related faulty (.error fault) (.error fault)

/-- Folders are made one by one on the way to a path: where each step goes alike in two trees, the whole does. -/
theorem ensureFolders_alike (related : FileTree → FileTree → Prop) (faulty : FileFault → Prop)
    (start : related tree tree') (step : ∀ tree tree' parts, related tree tree' → parts <+: path.parts →
      Alike related faulty (ensureFolder tree here ⟨path.start, parts⟩) (ensureFolder tree' here ⟨path.start, parts⟩)) :
    related (tree.ensureFolders here path).1 (tree'.ensureFolders here path).1 ∧
      (tree.ensureFolders here path).2 = (tree'.ensureFolders here path).2 ∧
      ∀ fault, (tree.ensureFolders here path).2 = some fault → faulty fault := by
  obtain ⟨front, parts⟩ := path
  rw [ensureFolders, ensureFolders]
  dsimp only at step ⊢
  rw [← reverse_reverse parts] at step
  generalize parts.reverse = back at step
  induction back generalizing tree tree' with
  | nil =>
    have whole := step tree tree' [] start (prefix_refl _)
    rw [ensureFoldersBackwards, ensureFoldersBackwards]
    generalize tree.ensureFolder here ⟨front, []⟩ = made at whole ⊢
    generalize tree'.ensureFolder here ⟨front, []⟩ = made' at whole ⊢
    cases whole with
    | ok areRelated => exact ⟨areRelated, rfl, by simp⟩
    | error isFaulty => exact ⟨start, rfl, fun _ isFault => Option.some.inj isFault ▸ isFaulty⟩
  | cons part above ih =>
    have whole (tree tree' : FileTree) (isStart : related tree tree') :=
      step tree tree' (part :: above).reverse isStart (prefix_refl _)
    have ⟨isAbove, sameFault, areFaulty⟩ := ih start fun tree tree' parts isStart isFront =>
      step tree tree' parts isStart (isFront.trans (by rw [reverse_cons]; exact prefix_append _ _))
    have first := whole tree tree' start
    rw [ensureFoldersBackwards, ensureFoldersBackwards]
    generalize tree.ensureFolder here ⟨front, (part :: above).reverse⟩ = made at first ⊢
    generalize tree'.ensureFolder here ⟨front, (part :: above).reverse⟩ = made' at first ⊢
    cases first with
    | ok areRelated => exact ⟨areRelated, rfl, by simp⟩
    | error isFaulty =>
      rename_i fault
      cases fault
      -- the folder above is missing, and is made first
      case missing text =>
        dsimp only
        generalize tree.ensureFoldersBackwards here front above = inner at isAbove sameFault areFaulty ⊢
        generalize tree'.ensureFoldersBackwards here front above = inner' at isAbove sameFault ⊢
        obtain ⟨inner, fault?⟩ := inner
        obtain ⟨inner', fault?'⟩ := inner'
        cases sameFault
        cases fault? with
        | some fault => exact ⟨isAbove, rfl, areFaulty⟩
        | none =>
          have again := whole inner inner' isAbove
          dsimp only
          generalize inner.ensureFolder here ⟨front, (part :: above).reverse⟩ = made at again ⊢
          generalize inner'.ensureFolder here ⟨front, (part :: above).reverse⟩ = made' at again ⊢
          cases again with
          | ok areRelated => exact ⟨areRelated, rfl, by simp⟩
          | error isFaulty => exact ⟨isAbove, rfl, fun _ isFault => Option.some.inj isFault ▸ isFaulty⟩
      all_goals exact ⟨start, rfl, fun _ isFault => Option.some.inj isFault ▸ isFaulty⟩

theorem ensureFolders_keeps (holds : FileTree → Prop) (faulty : FileFault → Prop) (start : holds tree)
    (step : ∀ tree parts, holds tree → parts <+: path.parts →
      ComesTo holds faulty (ensureFolder tree here ⟨path.start, parts⟩)) :
    holds (tree.ensureFolders here path).1 ∧ ∀ fault, (tree.ensureFolders here path).2 = some fault → faulty fault := by
  have same : ∀ tree tree' parts, tree = tree' ∧ holds tree → parts <+: path.parts →
      Alike (fun tree tree' => tree = tree' ∧ holds tree) faulty (ensureFolder tree here ⟨path.start, parts⟩)
        (ensureFolder tree' here ⟨path.start, parts⟩) := by
    rintro tree _ parts ⟨rfl, isStart⟩ isFront
    have one := step tree parts isStart isFront
    cases isMade : tree.ensureFolder here ⟨path.start, parts⟩ with
    | ok made =>
      rw [isMade] at one
      exact .ok ⟨rfl, one⟩
    | error fault =>
      rw [isMade] at one
      exact .error one
  obtain ⟨⟨_, isEnd⟩, _, areFaulty⟩ := ensureFolders_alike _ faulty ⟨rfl, start⟩ same
  exact ⟨isEnd, areFaulty⟩

/-- What holds of a tree and is kept by making a folder holds after making folders on the way to a path. -/
theorem ensureFolders_ends {holds : FileTree → Prop} (start : holds tree)
    (step : ∀ tree made path, holds tree → makeFolder tree here path = .ok made → holds made) (path : Path) :
    holds (tree.ensureFolders here path).1 := by
  refine (ensureFolders_keeps holds (fun _ => True) start fun tree parts isStart _ => ?_).1
  refine .of_failsOnly (fun _ _ => trivial) fun made ok => ?_
  obtain rfl | isMade := ensureFolder_eq_ok ok
  · exact isStart
  · exact step _ _ _ isStart isMade

theorem ensureFolders_grows (tree : FileTree) (here : Place) (path : Path) :
    tree.Grows (tree.ensureFolders here path).1 := by
  apply ensureFolders_ends (.refl tree)
  intro between made path grows isMade
  obtain ⟨place, _, absent, rfl⟩ := makeFolder_eq_ok isMade
  exact grows.trans (.put_folder absent)

/-- What saving a file comes to: folders are made, and then nothing is written, or the file is, or as much of it as
there is room for. -/
inductive Saved (tree : FileTree) (here : Place) (path : Path) (bytes : ByteArray) : FileTree × Option FileFault → Prop
  | unwritten {grown : FileTree} {fault : FileFault} (grows : tree.Grows grown) :
      Saved tree here path bytes (grown, some fault)
  | written {grown : FileTree} (grows : tree.Grows grown) (noFolder : grown.isFolder (path.destination here) = false) :
      Saved tree here path bytes (grown.put (path.destination here) (.file bytes), none)
  | brokenOff {grown : FileTree} {fault : FileFault} {limit : Nat} (grows : tree.Grows grown)
      (noFolder : grown.isFolder (path.destination here) = false) (isRoom : tree.room = some limit)
      (tooLarge : limit < bytes.size) :
      Saved tree here path bytes (grown.put (path.destination here) (.file (bytes.extract 0 limit)), some fault)

theorem saved (tree : FileTree) (here : Place) (path : Path) (bytes : ByteArray) :
    tree.Saved here path bytes (tree.save here path (.file bytes)) := by
  have grows := ensureFolders_grows tree here path.parent
  rw [save]
  split
  · rename_i made
    rw [made] at grows
    exact .unwritten grows
  · rename_i made
    rw [made] at grows
    rw [write]
    split
    · exact .unwritten grows
    · rename_i located
      obtain rfl := locate_eq_destination located
      split
      · exact .unwritten grows
      all_goals
        rename_i isRoom notFolder
        have noFolder := Bool.eq_false_iff.mpr fun folder => notFolder (isFolder_iff.mp folder)
      · exact .written grows noFolder
      · split
        · exact .written grows noFolder
        · exact .brokenOff grows noFolder (grows.room ▸ isRoom) (by omega)

theorem Grows.file?_put (grows : tree.Grows grown) (noFolder : grown.isFolder target = false) (bytes : ByteArray)
    (place : Place) :
    (grown.put target (.file bytes)).file? place = if place = target then some bytes else tree.file? place := by
  rw [← grows.file?]
  apply FileTree.file?_put
  rintro rfl
  cases noFolder

/-! ### Entries stand in folders -/

/-- Whatever there is stands in a folder, also the working folder. -/
structure IsRooted (here : Place) (tree : FileTree) : Prop where
  here : tree.isFolder here = true
  above : ∀ place, (tree.find? place).isSome → tree.isFolder place.dropLast = true

theorem keepsFolders_put (noFolder : tree.isFolder place = false) (entry : Entry) :
    tree.KeepsFolders (tree.put place entry) := by
  intro other folder
  by_cases top : other = []
  · rw [top]
    rfl
  · rw [isFolder_iff] at folder ⊢
    rw [find?_put tree place other entry top, if_neg, folder]
    intro same
    rw [← same, Bool.eq_false_iff] at noFolder
    exact noFolder (isFolder_iff.mpr folder)

theorem Saved.keepsFolders (isSaved : tree.Saved here path bytes result) : tree.KeepsFolders result.1 := by
  cases isSaved with
  | unwritten grows => exact grows.keepsFolders
  | written grows noFolder | brokenOff grows noFolder _ _ =>
    exact fun place folder => keepsFolders_put noFolder _ place (grows.keepsFolders place folder)

end FileTree

end RtlBridge
