import RtlBridge.Path
import RtlBridge.Table
import RtlBridge.Text.LetterCase

/-! Trees of files and folders, and what can be done to them by path. A path leads somewhere only if
each part but the last names a folder that exists, also where a `..` follows. There are no links and no
permissions, and of the faults of a storage there is one: files may have a limit. -/

namespace RtlBridge

inductive Entry where
  | folder
  | file (bytes : ByteArray)

/-- Entries by their places, and the most bytes that a file can take, if there is a limit. -/
structure FileTree where
  entries : Table Place Entry
  room : Option Nat := none

inductive Obstacle where
  | missing
  | throughFile
  | tooLong
deriving Repr, DecidableEq

def Obstacle.fault (path : Path) : Obstacle → FileFault
  | .missing => .missing path.text
  | .throughFile => .throughFile path.text
  | .tooLong => .nameTooLong path.text

def nameLimit : Nat := 255

def pathLimit : Nat := 4095

namespace FileTree

def empty : FileTree := { entries := .empty }

def find? (tree : FileTree) (place : Place) : Option Entry :=
  if place = [] then some .folder else tree.entries.find? place

def file? (tree : FileTree) (place : Place) : Option ByteArray :=
  match tree.find? place with
  | some (.file bytes) => some bytes
  | _ => none

def isFolder (tree : FileTree) (place : Place) : Bool :=
  match tree.find? place with
  | some .folder => true
  | _ => false

def put (tree : FileTree) (place : Place) (entry : Entry) : FileTree :=
  { tree with entries := tree.entries.insert place entry }

/-- Puts an entry in its place, and folders where there is nothing on the way to it. -/
def plant (tree : FileTree) (place : Place) (entry : Entry) : FileTree :=
  let above := (List.range place.length).map place.take
  let tree := above.foldl (fun tree folder =>
    if (tree.find? folder).isSome then tree else tree.put folder .folder) tree
  tree.put place entry

def changes (before after : FileTree) : List (Place × ByteArray) :=
  after.entries.entries.filterMap fun (place, entry) =>
    match entry with
    | .folder => none
    | .file bytes =>
        match before.file? place with
        | some old => if old == bytes then none else some (place, bytes)
        | none => some (place, bytes)

/-- Follows the parts of a path; the place in the end need not exist. -/
def walk (tree : FileTree) (place : Place) : List String → Except Obstacle Place
  | [] => .ok place
  | part :: rest =>
      match tree.find? place with
      | some .folder =>
          if part.utf8ByteSize > nameLimit then .error .tooLong else walk tree (place.step part) rest
      | some (.file _) => .error .throughFile
      | none => .error .missing

/-- The place that a path leads to. What is wrong with the path as a whole comes before its parts. -/
def locate (tree : FileTree) (here : Place) (path : Path) : Except FileFault Place :=
  if path.hasNull then .error .nullInName
  else if path.text.utf8ByteSize > pathLimit then .error (.nameTooLong path.text)
  else (tree.walk (path.origin here) path.parts).mapError (·.fault path)

def entryAt (tree : FileTree) (here : Place) (path : Path) : Except FileFault Entry := do
  match tree.find? (← tree.locate here path) with
  | some entry => .ok entry
  | none => .error (.missing path.text)

/-- Whether a path leads to a folder. Of a name that is too long this cannot be said. -/
def isFolderAt (tree : FileTree) (here : Place) (path : Path) : Except FileFault Bool :=
  match tree.entryAt here path with
  | .ok .folder => .ok true
  | .error (.nameTooLong name) => .error (.nameTooLong name)
  | _ => .ok false

def makeFolder (tree : FileTree) (here : Place) (path : Path) : Except FileFault FileTree := do
  let place ← tree.locate here path
  match tree.find? place with
  | some _ => .error (.existing path.text)
  | none => .ok (tree.put place .folder)

def ensureFolder (tree : FileTree) (here : Place) (path : Path) : Except FileFault FileTree :=
  match tree.makeFolder here path with
  | .ok made => .ok made
  | .error fault => do if ← tree.isFolderAt here path then .ok tree else .error fault

/-- Makes the folder of a path, given backwards, with the folders on the way to it. The folders made
before a fault stay. -/
def ensureFoldersBackwards (tree : FileTree) (here : Place) (start : PathStart) :
    List String → FileTree × Option FileFault
  | [] =>
      match tree.ensureFolder here ⟨start, []⟩ with
      | .ok made => (made, none)
      | .error fault => (tree, some fault)
  | part :: above =>
      let path : Path := ⟨start, (part :: above).reverse⟩
      match tree.ensureFolder here path with
      | .ok made => (made, none)
      | .error (.missing _) =>
          match ensureFoldersBackwards tree here start above with
          | (tree, some fault) => (tree, some fault)
          | (tree, none) =>
              match tree.ensureFolder here path with
              | .ok made => (made, none)
              | .error fault => (tree, some fault)
      | .error fault => (tree, some fault)

def ensureFolders (tree : FileTree) (here : Place) (path : Path) : FileTree × Option FileFault :=
  tree.ensureFoldersBackwards here path.start path.parts.reverse

/-- Writes a file. The old bytes go first, so what is left of bytes that find no room is their beginning. -/
def write (tree : FileTree) (here : Place) (path : Path) (bytes : ByteArray) :
    FileTree × Option FileFault :=
  match tree.locate here path with
  | .error fault => (tree, some fault)
  | .ok place =>
      match tree.find? place, tree.room with
      | some .folder, _ => (tree, some (.isFolder path.text))
      | _, none => (tree.put place (.file bytes), none)
      | _, some limit =>
          if bytes.size ≤ limit then (tree.put place (.file bytes), none)
          else (tree.put place (.file (bytes.extract 0 limit)), some (.tooLarge path.text bytes.size limit))

/-- Makes a file or a folder at a path, with the folders on the way to it. The folders made before a fault
stay. -/
def save (tree : FileTree) (here : Place) (path : Path) (entry : Entry) : FileTree × Option FileFault :=
  match entry with
  | .folder => tree.ensureFolders here path
  | .file bytes =>
      match tree.ensureFolders here path.parent with
      | (tree, some fault) => (tree, some fault)
      | (tree, none) => tree.write here path bytes

/-- The paths of the files in a folder, counted from it; the files in its folders too if `recursive`. -/
def filesBelow (tree : FileTree) (folder : Place) (recursive : Bool) : List (List String) :=
  tree.entries.entries.filterMap fun (place, entry) =>
    match entry with
    | .folder => none
    | .file _ =>
        let rest := place.drop folder.length
        if Place.within place folder && (rest.length = 1 || recursive && rest.length ≥ 1) then some rest
        else none

def sourceSuffixes : List String := [".vhd", ".vhdl"]

def isSourceName (name : String) : Bool :=
  sourceSuffixes.contains (Text.lower (Path.splitName name).2)

/-- The order of paths part by part; the shorter of two that agree comes first. -/
def partsLe : List String → List String → Bool
  | [], _ => true
  | _ :: _, [] => false
  | a :: as, b :: bs => if a = b then partsLe as bs else decide (a < b)

/-- The VHDL sources in a folder, counted from it, ordered part by part. A path that leads to no folder
has none. -/
def sourcesBelow (tree : FileTree) (here : Place) (folder : Path) (recursive : Bool) :
    List (List String) :=
  match tree.locate here folder with
  | .error _ => []
  | .ok place =>
      if tree.isFolder place then
        ((tree.filesBelow place recursive).filter fun parts =>
          (parts.getLast?.map isSourceName).getD false).mergeSort partsLe
      else []

def sources (tree : FileTree) (here : Place) (folder : Path) (recursive : Bool) :
    Except FileFault (List Path) := do
  let _ ← tree.isFolderAt here folder
  return (tree.sourcesBelow here folder recursive).map folder.below

@[simp] theorem find?_top (tree : FileTree) : tree.find? [] = some .folder := if_pos rfl

theorem find?_put (tree : FileTree) (place other : Place) (entry : Entry) (below : other ≠ []) :
    (tree.put place entry).find? other =
      if other = place then some entry else tree.find? other := by
  simp only [find?, put, if_neg below, Table.find?_insert]

theorem file?_put (tree : FileTree) (place other : Place) (bytes : ByteArray) (below : place ≠ []) :
    (tree.put place (.file bytes)).file? other =
      if other = place then some bytes else tree.file? other := by
  by_cases same : other = place
  · rw [file?, same, find?_put tree place place (.file bytes) below, if_pos rfl, if_pos rfl]
  · by_cases top : other = []
    · rw [top, if_neg (Ne.symm below), file?, file?, find?_top, find?_top]
    · rw [file?, find?_put tree place other (.file bytes) top, if_neg same, if_neg same, file?]

theorem walk_eq_foldl {tree : FileTree} {place found : Place} {parts : List String}
    (walked : tree.walk place parts = .ok found) : found = parts.foldl Place.step place := by
  induction parts generalizing place with
  | nil => cases walked; rfl
  | cons part rest ih =>
      rw [walk] at walked
      split at walked
      · split at walked
        · cases walked
        · exact ih walked
      · cases walked
      · cases walked

/-- A path leads, if anywhere, to its destination. -/
theorem locate_eq_destination {tree : FileTree} {here found : Place} {path : Path}
    (located : tree.locate here path = .ok found) : found = path.destination here := by
  rw [locate] at located
  split at located
  · cases located
  · split at located
    · cases located
    · cases walked : tree.walk (path.origin here) path.parts with
      | error obstacle =>
          rw [walked] at located
          cases located
      | ok place =>
          rw [walked] at located
          cases located
          exact walk_eq_foldl walked

end FileTree

end RtlBridge
