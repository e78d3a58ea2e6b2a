import RtlBridge.Batch
import RtlBridge.Proofs.Files.Tree

/-! How work on files ends, whatever notes it leaves: with which result, and with which tree. A batch is told by
the trees between its jobs. -/

namespace RtlBridge

namespace Work

variable {α β : Type} {tree between after : FileTree} {here : Place}

/-- How work ends that starts in a workspace. -/
def ends (work : Work α) (space : Workspace) : Except Failure α × Workspace := work.run.run space

theorem ends_bind (first : Work α) (next : α → Work β) (space : Workspace) :
    (first >>= next).ends space =
      match first.ends space with
      | (.ok value, space) => (next value).ends space
      | (.error failure, space) => (.error failure, space) := by
  have isFirst : first.run.run space = first.ends space := rfl
  rw [ends, ExceptT.run_bind, StateT.run_bind, isFirst]
  rcases first.ends space with ⟨result | result, after⟩ <;> rfl

/-- Work that comes to a result and a tree, whatever notes there are. -/
def Comes (work : Work α) (here : Place) (tree : FileTree) (result : Except Failure α) (after : FileTree) : Prop :=
  ∀ notes, ∃ notes', work.ends ⟨tree, here, notes⟩ = (result, ⟨after, here, notes'⟩)

namespace Comes

variable {first : Work α} {next : α → Work β} {result : Except Failure β}

theorem pure (value : α) : Comes (Pure.pure value) here tree (.ok value) tree := fun notes => ⟨notes, rfl⟩

theorem throw (failure : Failure) : Comes (throw failure : Work α) here tree (.error failure) tree :=
  fun notes => ⟨notes, rfl⟩

theorem ofExcept (value : Except Failure α) : Comes (MonadExcept.ofExcept value) here tree value tree := by
  cases value with
  | ok value => exact pure value
  | error failure => exact throw failure

theorem note (n : Note) : Comes (Work.note n) here tree (.ok ()) tree := fun notes => ⟨notes ++ [n], rfl⟩

theorem bind (start : first.Comes here tree (.ok value) between) (goesOn : (next value).Comes here between result after)
    : (first >>= next).Comes here tree result after := by
  intro notes
  obtain ⟨notes', isFirst⟩ := start notes
  rw [ends_bind, isFirst]
  exact goesOn notes'

theorem bind_error {failure : Failure} (start : first.Comes here tree (.error failure) after) :
    (first >>= next).Comes here tree (.error failure) after := by
  intro notes
  obtain ⟨notes', isFirst⟩ := start notes
  rw [ends_bind, isFirst]
  exact ⟨notes', rfl⟩

/-- Parts that leave the tree alone. -/
theorem chain (start : first.Comes here tree value tree)
    (goesOn : ∀ found, (next found).Comes here tree (goal found) tree) :
    (first >>= next).Comes here tree (value >>= goal) tree := by
  cases value with
  | ok found => exact start.bind (goesOn found)
  | error failure => exact start.bind_error

/-- Work that looks at its workspace. -/
theorem get {next : Workspace → Work β} (goesOn : ∀ notes, (next ⟨tree, here, notes⟩).Comes here tree result after) :
    (MonadState.get >>= next : Work β).Comes here tree result after := fun notes => goesOn notes notes

theorem ofTraced (value : Traced Failure α) : (Work.ofTraced value).Comes here tree value.result tree := by
  intro notes
  exact (ofExcept value.result) (notes ++ value.notes)

theorem attempt (comes : first.Comes here tree value after) :
    (Work.attempt first).Comes here tree (.ok value) after := by
  intro notes
  obtain ⟨notes', isFirst⟩ := comes notes
  refine ⟨notes', ?_⟩
  change ((first.ends ⟨tree, here, notes⟩).1 |> Except.ok, (first.ends ⟨tree, here, notes⟩).2) = _
  rw [isFirst]

theorem result_eq (comes : first.Comes space.here space.tree value after) : (first.ends space).1 = value := by
  obtain ⟨notes', isFirst⟩ := comes space.notes
  rw [isFirst]

theorem tree_eq (comes : first.Comes space.here space.tree value after) : (first.ends space).2.tree = after := by
  obtain ⟨notes', isFirst⟩ := comes space.notes
  rw [isFirst]

end Comes

end Work

open Work (Comes)

variable {options : Options} {here : Place} {tree : FileTree}



/-- What a source in a tree is converted to. -/
def FileTree.converted (options : Options) (dialect : Dialect) (here : Place) (tree : FileTree) (source : Path) :
    Except Failure Converted := do
  let bytes ← (Workspace.sourceBytes ⟨tree, here, []⟩ options source).mapError .file
  let text ← sourceText bytes
  (convert text dialect.text options.strict options.indent).result

/-- What comes of writing a text to a file in an allowed folder. -/
def FileTree.deliver (options : Options) (here : Place) (tree : FileTree) (path : Path) (text : String) :
    FileTree × Option FileFault :=
  match options.allowsPath here path.parent with
  | .error fault => (tree, some fault)
  | .ok false => (tree, some (.outside path.text))
  | .ok true => tree.save here path (.file text.toUTF8)

theorem writeResult_comes (path : Path) (text : String) :
    (writeResult options path text).Comes here tree
      (match (tree.deliver options here path text).2 with
        | none => .ok ()
        | some fault => .error (.file fault)) (tree.deliver options here path text).1 := by
  refine .get fun notes => ?_
  rw [FileTree.deliver]
  cases options.allowsPath here path.parent with
  | error fault => exact .bind_error (.ofExcept (.error (.file fault)))
  | ok isAllowed =>
    refine .bind (.ofExcept (.ok isAllowed)) ?_
    cases isAllowed with
    | false => exact .bind_error (.throw _)
    | true =>
      intro notes'
      dsimp only
      generalize tree.save here path (.file text.toUTF8) = saved
      obtain ⟨after, fault?⟩ := saved
      cases fault? <;> exact ⟨notes, rfl⟩

theorem readSource_comes (source : Path) : (readSource options source).Comes here tree
    ((Workspace.sourceBytes ⟨tree, here, []⟩ options source).mapError .file >>= sourceText) tree :=
  .get fun _ => .chain (.ofExcept _) fun _ => .ofExcept _

theorem convertSource_comes (source : Path) (dialect : Dialect) :
    (convertSource options source dialect.text).Comes here tree (tree.converted options dialect here source) tree := by
  rw [FileTree.converted, ← bind_assoc]
  exact .bind (.note _) (.chain (readSource_comes source) fun text => .ofTraced _)

namespace Batch

/-- What comes of one job: its conversion, and the tree that it leaves. -/
def attempt (options : Options) (dialect : Dialect) (here : Place) (tree : FileTree) (job : Job) :
    Except Failure Converted × FileTree :=
  match tree.converted options dialect here job.source with
  | .error failure => (.error failure, tree)
  | .ok converted =>
    match tree.deliver options here job.output converted.text with
    | (tree, none) => (.ok converted, tree)
    | (tree, some fault) => (.error (.file fault), tree)

def outcomeOf (job : Job) : Except Failure Converted → Except Failure Outcome
  | .ok converted => .ok ⟨job.source, .written job.output (converted.diagnostics.map (·.message))⟩
  | .error failure => if isLocal failure then .ok ⟨job.source, .failed failure.message⟩ else .error failure

def runAll (options : Options) (dialect : Dialect) (here : Place) :
    FileTree → List Job → List (Except Failure Outcome) × FileTree
  | tree, [] => ([], tree)
  | tree, job :: rest =>
    let attempted := attempt options dialect here tree job
    let others := runAll options dialect here attempted.2 rest
    (outcomeOf job attempted.1 :: others.1, others.2)

variable {dialect : Dialect}

theorem convertFile_comes (job : Job) :
    (convertFile options job.source (some job.output) (some dialect.text)).Comes here tree
      (attempt options dialect here tree job).1 (attempt options dialect here tree job).2 := by
  have isDialect : options.dialectFor (some dialect.text) = dialect.text := if_neg (by cases dialect <;> decide)
  have source := @convertSource_comes options here tree job.source dialect
  rw [convertFile, isDialect, attempt]
  cases isConverted : tree.converted options dialect here job.source with
  | error failure =>
    rw [isConverted] at source
    exact .bind_error source
  | ok converted =>
    rw [isConverted] at source
    have written := @writeResult_comes options here tree job.output converted.text
    refine .bind source (.bind (.pure job.output) ?_)
    cases isDelivered : tree.deliver options here job.output converted.text with
    | mk after fault? =>
      rw [isDelivered] at written
      simp only [isDelivered]
      cases fault? with
      | none => exact .bind written (.bind (.note _) (.pure converted))
      | some fault => exact .bind_error written

theorem runJob_comes (job : Job) : (runJob options dialect job).Comes here tree
    (outcomeOf job (attempt options dialect here tree job).1) (attempt options dialect here tree job).2 := by
  refine .bind (.attempt (convertFile_comes job)) ?_
  cases (attempt options dialect here tree job).1 with
  | ok converted => exact .pure _
  | error failure =>
    simp only [outcomeOf]
    split
    · exact .bind (.note _) (.pure _)
    · exact .throw failure

theorem runJobs_comes (jobs : List Job) (tree : FileTree) : (runJobs options dialect jobs).Comes here tree
    (.ok (runAll options dialect here tree jobs).1) (runAll options dialect here tree jobs).2 := by
  induction jobs generalizing tree with
  | nil => exact .pure []
  | cons job rest ih => exact .bind (.attempt (runJob_comes job)) (.bind (ih _) (.pure _))

/-- The jobs of a folder, settled before anything is written. -/
def planned (options : Options) (folder outputFolder : Path) (recursive : Bool) (dialect : Dialect) (here : Place)
    (tree : FileTree) : Except Failure (List (Job × Option Job)) := do
  unless ← (tree.isFolderAt here folder).mapError .file do throw (.file (.notAFolder folder.text))
  unless ← (options.allowsPath here folder).mapError .file do throw (.file (.outside folder.text))
  return settle [] (← (tree.sourcesBelow here folder recursive).mapM (jobOf folder outputFolder dialect))

theorem noteOutcomes_comes (outcomes : List Outcome) : (outcomes.forM noteOutcome).Comes here tree (.ok ()) tree := by
  induction outcomes with
  | nil => exact .pure ()
  | cons outcome rest ih =>
    have noted : (noteOutcome outcome).Comes here tree (.ok ()) tree := by
      rw [noteOutcome]
      split
      · exact .note _
      · exact .pure ()
    exact .bind noted ih

theorem plan_comes (folder outputFolder : Path) (recursive : Bool) :
    (plan options folder outputFolder recursive dialect).Comes here tree
      (planned options folder outputFolder recursive dialect here tree) tree := by
  refine .get fun notes => .chain (.ofExcept _) fun isFolder => ?_
  have noted (jobs : Except Failure (List Job)) : Comes (do
      let jobs ← MonadExcept.ofExcept jobs
      let settled := settle [] jobs
      (refused settled).forM noteOutcome
      return settled) here tree (do return settle [] (← jobs)) tree :=
    .chain (.ofExcept jobs) fun jobs => .bind (noteOutcomes_comes _) (.pure _)
  have goesOn : Comes (do
      unless ← Work.ofFile (options.allowsPath here folder) do throw (.file (.outside folder.text))
      let sources := tree.sourcesBelow here folder recursive
      Work.note (.sourcesFound sources.length folder.text)
      let jobs ← MonadExcept.ofExcept (sources.mapM (jobOf folder outputFolder dialect))
      let settled := settle [] jobs
      (refused settled).forM noteOutcome
      return settled) here tree (do
      unless ← (options.allowsPath here folder).mapError .file do throw (.file (.outside folder.text))
      return settle [] (← (tree.sourcesBelow here folder recursive).mapM (jobOf folder outputFolder dialect))) tree := by
    refine .chain (.ofExcept _) fun isAllowed => ?_
    cases isAllowed with
    | false => exact .bind_error (.throw _)
    | true => exact .bind (.note _) (noted _)
  cases isFolder with
  | false => exact .bind_error (.throw _)
  | true => exact goesOn

/-- The report on a batch, by the outcomes of the jobs that were run. -/
def reportOf (folder outputFolder : Path) (recursive : Bool) (dialect : Dialect) (settled : List (Job × Option Job))
    (outcomes : List Outcome) : Report :=
  ⟨folder, outputFolder, recursive, dialect, sortOutcomes (refused settled ++ outcomes)⟩

/-- The conversion of a folder, in whatever way its jobs are run. -/
def convertWith (runs : Dialect → List Job → Work (List (Except Failure Outcome))) (options : Options) (folder : Path)
    (outputFolder : Option Path) (recursive : Bool) (dialect : Option String) : Work Report := do
  let dialect ← MonadExcept.ofExcept (exactDialect (options.dialectFor dialect))
  let outputFolder := outputFolder.getD folder
  let settled ← plan options folder outputFolder recursive dialect
  let outcomes ← MonadExcept.ofExcept ((← runs dialect (runnable settled)).mapM id)
  let report := reportOf folder outputFolder recursive dialect settled outcomes
  Work.note (.batchFinished report.written.length report.failed.length)
  return report

/-- What comes of the conversion of a folder, by what comes of its jobs. -/
def folderRun (ran : Dialect → List Job → List (Except Failure Outcome) × FileTree) (options : Options) (folder : Path)
    (outputFolder : Option Path) (recursive : Bool) (dialect : Option String) (here : Place) (tree : FileTree) :
    Except Failure Report × FileTree :=
  match exactDialect (options.dialectFor dialect) with
  | .error failure => (.error failure, tree)
  | .ok dialect =>
    match planned options folder (outputFolder.getD folder) recursive dialect here tree with
    | .error failure => (.error failure, tree)
    | .ok settled =>
      ((ran dialect (runnable settled)).1.mapM id |>.map
        (reportOf folder (outputFolder.getD folder) recursive dialect settled), (ran dialect (runnable settled)).2)

theorem convertWith_comes
    (comes : ∀ dialect jobs, (runs dialect jobs).Comes here tree (.ok (ran dialect jobs).1) (ran dialect jobs).2)
    (folder : Path) (outputFolder : Option Path) (recursive : Bool) (dialect : Option String) :
    (convertWith runs options folder outputFolder recursive dialect).Comes here tree
      (folderRun ran options folder outputFolder recursive dialect here tree).1
      (folderRun ran options folder outputFolder recursive dialect here tree).2 := by
  rw [convertWith, folderRun]
  cases exactDialect (options.dialectFor dialect) with
  | error failure => exact .bind_error (.ofExcept (.error failure))
  | ok dialect =>
    refine .bind (.ofExcept (.ok dialect)) ?_
    have isPlan := @plan_comes options here tree dialect folder (outputFolder.getD folder) recursive
    dsimp only
    cases isPlanned : planned options folder (outputFolder.getD folder) recursive dialect here tree with
    | error failure =>
      rw [isPlanned] at isPlan
      exact .bind_error isPlan
    | ok settled =>
      rw [isPlanned] at isPlan
      refine .bind isPlan (.bind (comes dialect (runnable settled)) ?_)
      dsimp only
      cases (ran dialect (runnable settled)).1.mapM id with
      | error failure => exact .bind_error (.ofExcept (.error failure))
      | ok outcomes => exact .bind (.ofExcept (.ok outcomes)) (.bind (.note _) (.pure _))

theorem convertFolder_comes (folder : Path) (outputFolder : Option Path) (recursive : Bool) (dialect : Option String) :
    (convertFolder options folder outputFolder recursive dialect).Comes here tree
      (folderRun (fun dialect => runAll options dialect here tree) options folder outputFolder recursive dialect here
        tree).1
      (folderRun (fun dialect => runAll options dialect here tree) options folder outputFolder recursive dialect here
        tree).2 := convertWith_comes (fun _ jobs => runJobs_comes jobs tree) folder outputFolder recursive dialect

end Batch

end RtlBridge
