import RtlBridge.FileTree
import RtlBridge.Options
import RtlBridge.Report

/-! Work on files: a source is read, converted or reported on, and the result is written. Whatever fails,
the tree and the notes are kept as they were when it failed. -/

namespace RtlBridge

/-- The files, the folder that relative paths start from, and the notes left so far. -/
structure Workspace where
  tree : FileTree
  here : Place
  notes : List Note

abbrev Work := ExceptT Failure (StateM Workspace)

namespace Work

variable {α : Type}

def note (n : Note) : Work Unit :=
  modify fun space => { space with notes := space.notes ++ [n] }

def ofTraced (x : Traced Failure α) : Work α := do
  modify fun space => { space with notes := space.notes ++ x.notes }
  MonadExcept.ofExcept x.result

def ofFile (x : Except FileFault α) : Work α :=
  MonadExcept.ofExcept (x.mapError .file)

def attempt (x : Work α) : Work (Except Failure α) :=
  ExceptT.lift x.run

end Work

def sourceLimit : Nat := 10 * 1024 * 1024

/-- The bytes of a source. The allowed folders are asked before the tree is. -/
def Workspace.sourceBytes (space : Workspace) (options : Options) (path : Path) :
    Except FileFault ByteArray := do
  unless ← options.allowsPath space.here path do throw (.outside path.text)
  match ← space.tree.entryAt space.here path with
  | .folder => throw (.isFolder path.text)
  | .file bytes =>
      if bytes.size > sourceLimit then throw (.tooLarge path.text bytes.size sourceLimit)
      return bytes

def sourceText (bytes : ByteArray) : Except Failure (List Char) :=
  match Text.Utf8.decode bytes with
  | .ok text => .ok (Text.unifyLineEnds text.toList)
  | .error fault => .error (.decoding fault)

def readSource (options : Options) (path : Path) : Work (List Char) := do
  let bytes ← Work.ofFile ((← get).sourceBytes options path)
  MonadExcept.ofExcept (sourceText bytes)

/-- Writes a text to a file in an allowed folder, which is made if need be. -/
def writeResult (options : Options) (path : Path) (text : String) : Work Unit := do
  let space ← get
  unless ← Work.ofFile (options.allowsPath space.here path.parent) do
    throw (.file (.outside path.text))
  let (tree, fault?) := space.tree.save space.here path (.file text.toUTF8)
  set { space with tree := tree }
  if let some fault := fault? then throw (.file fault)

def exactDialect (name : String) : Except Failure Dialect :=
  match Dialect.ofName? name with
  | some dialect => .ok dialect
  | none => .error (.argument (.notADialect name))

/-- Where the result of a source goes unless said otherwise: next to it. -/
def resultPath (source : Path) (dialect : String) : Except Failure Path := do
  source.withSuffix (← exactDialect dialect).suffix

/-- Reads a file and converts it, and writes nothing. -/
def convertSource (options : Options) (source : Path) (dialect : String) : Work Converted := do
  Work.note (.converting source.text dialect)
  let text ← readSource options source
  Work.ofTraced (convert text dialect options.strict options.indent)

def convertFile (options : Options) (source : Path) (output : Option Path) (dialect : Option String) :
    Work Converted := do
  let dialect := options.dialectFor dialect
  let converted ← convertSource options source dialect
  let path ←
    match output with
    | some path => pure path
    | none => MonadExcept.ofExcept (resultPath source dialect)
  writeResult options path converted.text
  Work.note (.wrote path.text)
  return converted

def analyzeFile (options : Options) (name : String) (topic : Option String) : Work String := do
  let text ← readSource options (Path.ofText name)
  let report ← Work.ofTraced (analyze text topic)
  return s!"Analysis of {name}\n" ++ report

end RtlBridge
