import RtlBridge.Failure
import RtlBridge.Text.Pieces

/-! Paths as they are written, and the places of a file tree that they lead to. A path keeps its `..`
parts, since the folder before such a part has to exist for the path to lead anywhere; `destination`
reads them without looking at any tree. -/

namespace RtlBridge

/-- A place in a file tree: the names from the top down. The top itself has none. -/
abbrev Place := List String

namespace Place

def text (place : Place) : String := "/" ++ "/".intercalate place

/-- The place one part further on. The top is above itself. -/
def step (place : Place) (part : String) : Place :=
  if part = ".." then place.dropLast else place ++ [part]

/-- A place is within a folder if it is the folder or lies below it. -/
def within (place folder : Place) : Bool := folder.isPrefixOf place

theorem within_iff {place folder : Place} : within place folder = true ↔ ∃ rest, folder ++ rest = place := by
  simp [within, List.isPrefixOf_iff_prefix, List.IsPrefix]

end Place

/-- Where a path starts: at the working folder, or at the top with one slash. Exactly two slashes are
kept as two. -/
inductive PathStart where
  | here
  | top
  | doubleTop
deriving Repr, DecidableEq

def PathStart.text : PathStart → String
  | .here => ""
  | .top => "/"
  | .doubleTop => "//"

def PathStart.ofText : List Char → PathStart
  | '/' :: '/' :: '/' :: _ => .top
  | '/' :: '/' :: _ => .doubleTop
  | '/' :: _ => .top
  | _ => .here

structure Path where
  start : PathStart
  parts : List String
deriving Repr, DecidableEq

namespace Path

/-- Repeated and closing slashes and `.` parts say nothing and are dropped. -/
def ofText (text : String) : Path :=
  ⟨.ofText text.toList, (Text.pieces '/' text).filter fun part => part ≠ "" && part ≠ "."⟩

def text (path : Path) : String :=
  if path.start = .here && path.parts.isEmpty then "."
  else path.start.text ++ "/".intercalate path.parts

/-- The last part; the bare working folder and the top have none. -/
def name? (path : Path) : Option String := path.parts.getLast?

/-- The folder that a path is in; a path without a name is in itself. -/
def parent (path : Path) : Path := { path with parts := path.parts.dropLast }

def below (folder : Path) (parts : List String) : Path := { folder with parts := folder.parts ++ parts }

/-- The stem and the suffix of a name. The suffix runs from the last dot, and there is none if that dot
is the first or the last character. -/
def splitName (name : String) : String × String :=
  let backwards := name.toList.reverse
  let ending := backwards.takeWhile (· ≠ '.')
  match backwards.dropWhile (· ≠ '.') with
  | '.' :: stem =>
      if ending.isEmpty || stem.isEmpty then (name, "")
      else (String.ofList stem.reverse, String.ofList ('.' :: ending.reverse))
  | _ => (name, "")

def suffix (path : Path) : String := (path.name?.map fun name => (splitName name).2).getD ""

/-- The path with another suffix, in the place of the one it has or added to the name. -/
def withSuffix (path : Path) (ending : String) : Except Failure Path :=
  match path.name? with
  | some name => .ok { path with parts := path.parts.dropLast ++ [(splitName name).1 ++ ending] }
  | none => .error (.argument (.noFileName path.text))

def hasNull (path : Path) : Bool := path.parts.any fun part => part.toList.contains '\x00'

def origin (here : Place) (path : Path) : Place :=
  if path.start = .here then here else []

/-- The place that a path means if all folders on its way exist. -/
def destination (here : Place) (path : Path) : Place :=
  path.parts.foldl Place.step (path.origin here)

end Path

end RtlBridge
