import RtlBridge.Workspace

/-! The conversion of all sources of a folder. Each source gets one outcome: its result is written, or it
fails for a reason of its own and the others go on. Two sources with one result are settled before
anything is written: the first keeps it. -/

namespace RtlBridge

namespace Batch

/-- A source and the file that its result goes to. -/
structure Job where
  source : Path
  output : Path
deriving Repr, DecidableEq

inductive Result where
  | written (output : Path) (warnings : List String)
  | failed (message : String)
deriving Repr, DecidableEq

structure Outcome where
  source : Path
  result : Result
deriving Repr, DecidableEq

def Outcome.isWritten (outcome : Outcome) : Bool :=
  match outcome.result with
  | .written _ _ => true
  | .failed _ => false

structure Report where
  folder : Path
  outputFolder : Path
  recursive : Bool
  dialect : Dialect
  outcomes : List Outcome
deriving Repr, DecidableEq

namespace Report

def written (report : Report) : List Outcome := report.outcomes.filter (·.isWritten)

def failed (report : Report) : List Outcome := report.outcomes.filter (!·.isWritten)

def language : Dialect → String
  | .strict => "SystemVerilog"
  | .legacy => "Verilog"

def outcomeLines (outcome : Outcome) : List String :=
  match outcome.result with
  | .written output warnings =>
      s!"✓ {outcome.source.text} -> {output.text}" :: warnings.map ("    warning: " ++ ·)
  | .failed message => [s!"✗ {outcome.source.text}: {message}"]

def block (heading : String) (lines : List String) : List String :=
  if lines.isEmpty then [] else ["", heading] ++ lines

def lines (report : Report) : List String :=
  [s!"=== Batch VHDL to {language report.dialect} transpilation ===",
   "",
   s!"Input folder:  {report.folder.text}",
   s!"Output folder: {report.outputFolder.text}",
   "Recursive:     " ++ (if report.recursive then "True" else "False"),
   s!"Dialect:       {report.dialect.text}",
   "",
   s!"Total files found:       {report.outcomes.length}",
   s!"Successfully transpiled: {report.written.length}",
   s!"Failed:                  {report.failed.length}"] ++
  block "=== Successful transpilations ===" (report.written.flatMap outcomeLines) ++
  block "=== Errors ===" (report.failed.flatMap outcomeLines)

def text (report : Report) : String :=
  if report.outcomes.isEmpty then s!"No VHDL files found in '{report.folder.text}'\n"
  else String.join (report.lines.map (· ++ "\n"))

end Report

/-- The job of a source, given by its parts below the folder. -/
def jobOf (folder outputFolder : Path) (dialect : Dialect) (parts : List String) :
    Except Failure Job := do
  return ⟨folder.below parts, ← (outputFolder.below parts).withSuffix dialect.suffix⟩

/-- Pairs each job with the earlier one that has its output already. -/
def settle (earlier : List Job) : List Job → List (Job × Option Job)
  | [] => []
  | job :: rest =>
      match earlier.find? (·.output = job.output) with
      | some first => (job, some first) :: settle earlier rest
      | none => (job, none) :: settle (job :: earlier) rest

def runnable (settled : List (Job × Option Job)) : List Job :=
  settled.filterMap fun (job, first) => if first.isNone then some job else none

def refused (settled : List (Job × Option Job)) : List Outcome :=
  settled.filterMap fun (job, first) =>
    first.map fun first =>
      ⟨job.source, .failed s!"output {job.output.text} is already written by {first.source.text}"⟩

/-- Whether a failure is the affair of one file. -/
def isLocal : Failure → Bool
  | .file .nullInName => false
  | .source _ | .file _ => true
  | _ => false

def noteOutcome (outcome : Outcome) : Work Unit :=
  match outcome.result with
  | .failed message => Work.note (.fileFailed outcome.source.text message)
  | .written _ _ => return ()

def runJob (options : Options) (dialect : Dialect) (job : Job) : Work Outcome := do
  match ← Work.attempt (convertFile options job.source (some job.output) (some dialect.text)) with
  | .ok converted => return ⟨job.source, .written job.output (converted.diagnostics.map (·.message))⟩
  | .error failure =>
      if isLocal failure then
        let outcome : Outcome := ⟨job.source, .failed failure.message⟩
        noteOutcome outcome
        return outcome
      else throw failure

def runJobs (options : Options) (dialect : Dialect) : List Job → Work (List (Except Failure Outcome))
  | [] => return []
  | job :: rest => do
      let outcome ← Work.attempt (runJob options dialect job)
      return outcome :: (← runJobs options dialect rest)

def sortOutcomes (outcomes : List Outcome) : List Outcome :=
  outcomes.mergeSort fun a b => a.source.text ≤ b.source.text

/-- Finds the sources of a folder and settles their jobs. Nothing is written. -/
def plan (options : Options) (folder outputFolder : Path) (recursive : Bool) (dialect : Dialect) :
    Work (List (Job × Option Job)) := do
  let space ← get
  unless ← Work.ofFile (space.tree.isFolderAt space.here folder) do
    throw (.file (.notAFolder folder.text))
  unless ← Work.ofFile (options.allowsPath space.here folder) do
    throw (.file (.outside folder.text))
  let sources := space.tree.sourcesBelow space.here folder recursive
  Work.note (.sourcesFound sources.length folder.text)
  let jobs ← MonadExcept.ofExcept (sources.mapM (jobOf folder outputFolder dialect))
  let settled := settle [] jobs
  (refused settled).forM noteOutcome
  return settled

end Batch

/-- Converts all sources of a folder. A failure that is not the affair of one file is raised after all
jobs have run. -/
def convertFolder (options : Options) (folder : Path) (outputFolder : Option Path) (recursive : Bool)
    (dialect : Option String) : Work Batch.Report := do
  let dialect ← MonadExcept.ofExcept (exactDialect (options.dialectFor dialect))
  let outputFolder := outputFolder.getD folder
  let settled ← Batch.plan options folder outputFolder recursive dialect
  let results ← Batch.runJobs options dialect (Batch.runnable settled)
  let outcomes ← MonadExcept.ofExcept (results.mapM id)
  let report : Batch.Report := {
    folder := folder
    outputFolder := outputFolder
    recursive := recursive
    dialect := dialect
    outcomes := Batch.sortOutcomes (Batch.refused settled ++ outcomes) }
  Work.note (.batchFinished report.written.length report.failed.length)
  return report

end RtlBridge
