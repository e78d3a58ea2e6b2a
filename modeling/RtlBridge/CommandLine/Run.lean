import RtlBridge.Batch
import RtlBridge.CommandLine.Request

/-! Runs of the command line: what is done to the files, what is printed, and how the run ends. -/

namespace RtlBridge.CommandLine

structure Transcript where
  exitCode : Nat
  output : String
  errors : String
deriving Repr, DecidableEq

/-- What a command prints on its two channels when it does not fail, apart from notes. -/
structure Printed where
  exitCode : Nat := 0
  output : String
  warnings : List String := []

def shownFrom (verbosity : Nat) : NoteLevel :=
  match verbosity with
  | 0 => .warning
  | 1 => .info
  | _ => .debug

/-- The options of a request: the environment's, unless the command line says otherwise. -/
def Request.options (request : Request) (here : Place) (setting? : String → Option String) :
    Except Failure Options := do
  let options ← Options.ofSettings here setting?
  return {
    options with
    dialect := (request.dialect.map Dialect.text).getD options.dialect
    strict := request.strictWidths || options.strict }

def convertAndPrint (options : Options) (input : String) : Work Converted := do
  let text ← readSource options (Path.ofText input)
  Work.ofTraced (convert text options.dialect options.strict options.indent)

/-- The path that a result went to, as the user wrote it if they did. -/
def shownResult (options : Options) (input : String) : Option String → Except Failure String
  | some path => .ok path
  | none => do return (← resultPath (Path.ofText input) options.dialect).text

/-- Converts a file to a file. A blank output is missed only when there is a result to write. -/
def convertAndWrite (options : Options) (input : String) (output : Destination) : Work Converted := do
  if output = .blank then
    let _ ← convertSource options (Path.ofText input) options.dialect
    throw (.blank .path)
  else convertFile options (Path.ofText input) (output.path?.map Path.ofText) none

/-- Converts a folder. A blank output is missed before the folder is looked at, a blank number of workers
when there are jobs to hand out. -/
def convertAll (options : Options) (folder : Path) (output : Destination) (recursive workersBlank : Bool) :
    Work Batch.Report := do
  let dialect ← MonadExcept.ofExcept (exactDialect options.dialect)
  if output = .blank then throw (.blank .path)
  let outputFolder := output.path?.map Path.ofText
  if workersBlank then
    let _ ← Batch.plan options folder (outputFolder.getD folder) recursive dialect
    throw (.blank .workers)
  else convertFolder options folder outputFolder recursive none

def Command.run (options : Options) : Command → Work Printed
  | .convert input output print => do
      if print then
        let converted ← convertAndPrint options input
        return { output := converted.text, warnings := converted.diagnostics.map (·.message) }
      else
        let converted ← convertAndWrite options input output
        let result ← MonadExcept.ofExcept (shownResult options input output.path?)
        return {
          output := s!"✓ {input} -> {result}\n"
          warnings := converted.diagnostics.map (·.message) }
  | .batch folder output recursive workersBlank => do
      let report ← convertAll options (Path.ofText folder) output recursive workersBlank
      return { exitCode := if report.failed.isEmpty then 0 else 1, output := report.text }
  | .analyze input topic => do
      return { output := ← analyzeFile options input (topic.map Topic.text) }

def Request.work (request : Request) (setting? : String → Option String) : Work Printed := do
  let options ← MonadExcept.ofExcept (request.options (← get).here setting?)
  request.command.run options

def noteLines (verbosity : Nat) (notes : List Note) : List String :=
  (notes.filter fun note => (shownFrom verbosity).rank ≤ note.level.rank).map Note.line

def unlines (lines : List String) : String := String.join (lines.map (· ++ "\n"))

/-- Carries out a request. A failure is the last note, and nothing else is printed then, unless the run is
broken off by it. -/
def Request.run (request : Request) (setting? : String → Option String) (tree : FileTree)
    (here : Place) : Except Failure Transcript × FileTree :=
  let (result, space) := ((request.work setting?).run).run ⟨tree, here, []⟩
  match result with
  | .ok printed =>
      (.ok ⟨printed.exitCode, printed.output,
        unlines (noteLines request.verbosity space.notes ++ printed.warnings.map ("warning: " ++ ·))⟩,
       space.tree)
  | .error failure =>
      if failure.isTold then
        (.ok ⟨1, "", unlines (noteLines request.verbosity (space.notes ++ [.failed failure.message]))⟩,
         space.tree)
      else (.error failure, space.tree)

/-- How a run ends that has nothing to do. A misuse is told in one line. -/
def Stop.transcript : Stop → Transcript
  | .misuse program message => ⟨2, "", s!"{program}: error: {message}"⟩
  | .version => ⟨0, versionText ++ "\n", ""⟩
  | .help program => ⟨0, s!"usage: {program} [options] ...\n", ""⟩

def run (words : List String) (setting? : String → Option String) (tree : FileTree) (here : Place) :
    Except Failure Transcript × FileTree :=
  match Request.ofWords words with
  | .ok request => request.run setting? tree here
  | .error stop => (.ok stop.transcript, tree)

end RtlBridge.CommandLine
