import RtlBridge.CommandLine.Run

/-! The program. It takes a picture of the files that a request can touch, carries the request out on the
picture, and brings the disk in line with the outcome. -/

namespace RtlBridge.CommandLine

/-- Adds what is on the disk at a place to a picture, unless the picture has it. -/
def takePicture (tree : FileTree) (place : Place) (withBytes : Bool) : IO FileTree := do
  if (tree.find? place).isSome then return tree
  let path := (← IO.currentDir) / Place.text place
  if ← path.isDir then return tree.plant place .folder
  else if ← path.pathExists then
    let bytes ← if withBytes then IO.FS.readBinFile path else pure ByteArray.empty
    return tree.plant place (.file bytes)
  else return tree

def takePath (tree : FileTree) (here : Place) (path : Path) : IO FileTree := do
  let mut tree := tree
  let mut place := path.origin here
  for part in path.parts do
    tree ← takePicture tree place true
    place := Place.step place part
  takePicture tree place true

/-- Adds what is in a folder; also what is in its folders if `recursive`. -/
partial def takeFolder (tree : FileTree) (place : Place) (recursive : Bool) : IO FileTree := do
  let path := (← IO.currentDir) / Place.text place
  if !(← path.isDir) then return tree
  let mut tree := tree
  for child in ← path.readDir do
    let inner := place ++ [child.fileName]
    tree ← takePicture tree inner (FileTree.isSourceName child.fileName)
    if recursive then tree ← takeFolder tree inner true
  return tree

def pictureFor (here : Place) : Command → IO FileTree
  | .convert input output _ => do
      let tree ← takePath (← takePicture .empty here true) here (Path.ofText input)
      let written := [Dialect.legacy, Dialect.strict].filterMap fun dialect =>
        ((Path.ofText input).withSuffix dialect.suffix).toOption
      ((output.path?.map Path.ofText).toList ++ written).foldlM (fun tree path => takePath tree here path) tree
  | .batch folder output recursive _ => do
      let folder := Path.ofText folder
      let target := (output.path?.map Path.ofText).getD folder
      let tree ← takePath (← takePicture .empty here true) here folder
      let tree ← takeFolder tree (folder.destination here) recursive
      let written := (tree.sourcesBelow here folder recursive).flatMap fun parts =>
        [Dialect.legacy, Dialect.strict].filterMap fun dialect =>
          ((target.below parts).withSuffix dialect.suffix).toOption
      written.foldlM (fun tree path => takePath tree here path) (← takePath tree here target)
  | .analyze input _ => do takePath (← takePicture .empty here true) here (Path.ofText input)

def bringInLine (before after : FileTree) : IO Unit := do
  for (place, entry) in after.entries.entries do
    if let .folder := entry then
      if !before.isFolder place then IO.FS.createDirAll (Place.text place)
  for (place, bytes) in before.changes after do
    IO.FS.writeBinFile (Place.text place) bytes

def settingNames : List String :=
  ["VHDL2VER_DIALECT", "VHDL2VER_STRICT", "VHDL2VER_INDENT", "VHDL2VER_ALLOWED_FOLDERS"]

def readSettings : IO (List (String × String)) :=
  settingNames.filterMapM fun name => do return (← IO.getEnv name).map (name, ·)

def report (transcript : Transcript) : IO UInt32 := do
  (← IO.getStdout).putStr transcript.output
  (← IO.getStderr).putStr transcript.errors
  return transcript.exitCode.toUInt32

end RtlBridge.CommandLine

open RtlBridge RtlBridge.CommandLine in
def main (words : List String) : IO UInt32 := do
  match Request.ofWords words with
  | .error stop =>
      let transcript := stop.transcript
      let ending := if transcript.errors.isEmpty then "" else "\n"
      report { transcript with errors := transcript.errors ++ ending }
  | .ok request =>
      let here := (Path.ofText (← IO.currentDir).toString).parts
      let settings ← readSettings
      let before ← pictureFor here request.command
      let (outcome, after) := request.run (fun name => List.lookup name settings) before here
      bringInLine before after
      match outcome with
      | .ok transcript => report transcript
      | .error failure => report ⟨1, "", failure.message ++ "\n"⟩
