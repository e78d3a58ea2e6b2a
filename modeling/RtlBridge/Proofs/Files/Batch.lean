import RtlBridge.Proofs.Files.Sources

/-! What a batch leaves behind. Sources are read as they were before the batch, whatever was written since; each
written result stands where its outcome says, and all other files are as they were. -/

namespace RtlBridge

variable {options : Options} {dialect : Dialect} {here : Place} {tree before : FileTree} {folder outputFolder : Path}
  {recursive : Bool} {parts : List String}

theorem Options.allowsPath_of_noNull (noNull : path.hasNull = false) :
    options.allowsPath here path = .ok (options.allows (path.destination here)) := by
  rw [allowsPath, placeOf, noNull]
  split
  · rename_i isEmpty
    rw [allows, isEmpty, Bool.true_or]
  · rfl

namespace FileTree

variable {path : Path}

/-! ### Null characters -/

theorem locate_failsOnly (noNull : path.hasNull = false) : FailsOnly (· ≠ .nullInName) (tree.locate here path) := by
  rw [locate, if_neg (Bool.eq_false_iff.mp noNull)]
  split
  · exact .error FileFault.noConfusion
  · refine .mapError (fun _ _ => trivial) fun obstacle _ => ?_
    cases obstacle <;> exact FileFault.noConfusion

theorem ensureFolder_failsOnly (noNull : path.hasNull = false) :
    FailsOnly (· ≠ .nullInName) (tree.ensureFolder here path) := by
  have makes : FailsOnly (· ≠ .nullInName) (tree.makeFolder here path) := by
    refine .bind (locate_failsOnly noNull) fun place => ?_
    split
    · exact .error FileFault.noConfusion
    · exact .ok
  rw [ensureFolder]
  split
  · exact .ok
  · rename_i fault failed
    refine .bind ?_ fun isFolder => ?_
    · rw [isFolderAt]
      split
      · exact .ok
      · exact .error FileFault.noConfusion
      · exact .ok
    · split
      · exact .ok
      · exact .error (makes fault failed)

theorem ensureFolders_noNull (noNull : path.hasNull = false) : (tree.ensureFolders here path).2 ≠ some .nullInName := by
  have step (tree : FileTree) (parts : List String) (_ : True) (isFront : parts <+: path.parts) :
      ComesTo (fun _ => True) (· ≠ .nullInName) (tree.ensureFolder here ⟨path.start, parts⟩) := by
    have plain : Path.hasNull ⟨path.start, parts⟩ = false :=
      List.any_eq_false.mpr fun part inside => List.any_eq_false.mp noNull part (isFront.subset inside)
    exact .of_failsOnly (ensureFolder_failsOnly plain) fun _ _ => trivial
  exact fun isNull => (ensureFolders_keeps _ _ trivial step).2 _ isNull rfl

theorem ensureFolders_null (isNull : path.hasNull = true) : (tree.ensureFolders here path).2 = some .nullInName := by
  have located : tree.locate here path = .error .nullInName := by rw [locate, if_pos isNull]
  have ensured : tree.ensureFolder here path = .error .nullInName := by
    rw [ensureFolder, makeFolder, isFolderAt, entryAt, located]
    rfl
  obtain ⟨start, parts⟩ := path
  rw [ensureFolders]
  dsimp only at ensured ⊢
  rw [← List.reverse_reverse parts] at ensured isNull
  cases isBack : parts.reverse with
  | nil =>
    rw [isBack] at isNull
    cases isNull
  | cons part above =>
    rw [isBack] at ensured
    rw [ensureFoldersBackwards, ensured]

/-- The files with names of sources keep their bytes. -/
def SourcesStay (before after : FileTree) : Prop :=
  ∀ place name, isSourceName name = true → after.file? (place ++ [name]) = before.file? (place ++ [name])

theorem SourcesStay.file (stay : before.SourcesStay after) (isSource : before.IsSource here folder parts) :
    after.file? (folder.destination here ++ parts) = before.file? (folder.destination here ++ parts) := by
  obtain ⟨name, last, isName⟩ := isSource.name
  obtain ⟨front, rfl⟩ := List.getLast?_eq_some_iff.mp last
  rw [← List.append_assoc]
  exact stay _ name isName

/-! ### Delivery -/

theorem deliver_saved (path : Path) (text : String) :
    tree.Saved here path text.toUTF8 (tree.deliver options here path text) := by
  rw [deliver]
  split
  · exact .unwritten (.refl tree)
  · exact .unwritten (.refl tree)
  · exact saved tree here path _

theorem save_noNull (noNull : path.hasNull = false) (above : path.parent.hasNull = false) (bytes : ByteArray) :
    (tree.save here path (.file bytes)).2 ≠ some .nullInName := by
  rw [save]
  split
  · rename_i fault made
    have other := @ensureFolders_noNull here tree path.parent above
    rwa [made] at other
  · rw [write]
    split
    · rename_i failed
      exact fun isNull => locate_failsOnly noNull _ failed (Option.some.inj isNull)
    · split
      · simp
      · simp
      · split <;> simp

/-- A delivery fails for a null character exactly if the path has one. -/
theorem deliver_null_iff (plain : path.hasNull = path.parent.hasNull) (text : String) :
    (tree.deliver options here path text).2 = some .nullInName ↔ path.hasNull = true := by
  cases isNull : path.hasNull with
  | false =>
    rw [deliver, Options.allowsPath_of_noNull (plain ▸ isNull)]
    cases options.allows (path.parent.destination here) with
    | false => simp
    | true => simpa using save_noNull isNull (plain ▸ isNull) text.toUTF8
  | true =>
    have failed : (tree.save here path (.file text.toUTF8)).2 = some .nullInName := by
      have made := @ensureFolders_null here tree path.parent (plain ▸ isNull)
      rw [save]
      split
      · rename_i isMade
        rwa [isMade] at made
      · rename_i isMade
        rw [isMade] at made
        cases made
    rw [deliver, Options.allowsPath, Options.placeOf, ← plain, isNull]
    cases options.allowed.isEmpty with
    | true => exact iff_of_true failed rfl
    | false => exact iff_of_true rfl rfl

end FileTree

namespace Batch

def Outcome.output? (outcome : Outcome) : Option Path :=
  match outcome.result with
  | .written output _ => some output
  | .failed _ => none

/-! ### Jobs -/

theorem resultParts_isName (isSource : before.IsSource here folder parts) (proper : before.IsProper here) :
    ∃ name, resultParts dialect parts = parts.dropLast ++ [name] ∧ FileTree.isSourceName name = false ∧
      ".." ∉ resultParts dialect parts ∧ name.toList.contains '\x00' = false := by
  obtain ⟨name, last, isName⟩ := isSource.name
  refine ⟨FileTree.resultName dialect name, by rw [resultParts, last]; rfl,
    FileTree.isSourceName_resultName dialect isName, ?_, ?_⟩
  · rw [resultParts, last, List.mem_append, List.mem_singleton, not_or]
    exact ⟨fun inside => isSource.notUp proper (List.mem_of_mem_dropLast inside),
      (FileTree.resultName_ne_up dialect isName).symm⟩
  · have noNull := (isSource.isName proper name (List.mem_of_getLast? last)).noNull
    rw [← Path.splitName_concat name, String.toList_append, List.contains_append, Bool.or_eq_false_iff] at noNull
    rw [FileTree.resultName, String.toList_append, List.contains_append, noNull.1]
    cases dialect <;> decide

theorem destination_output (isSource : before.IsSource here folder parts) (proper : before.IsProper here) :
    (jobFor folder outputFolder dialect parts).output.destination here =
      outputFolder.destination here ++ resultParts dialect parts :=
  Path.destination_below (resultParts_isName isSource proper).choose_spec.2.2.1

theorem destination_output_ne (isSource : before.IsSource here folder parts) (proper : before.IsProper here)
    {place : Place} (isName : FileTree.isSourceName name = true) :
    place ++ [name] ≠ (jobFor folder outputFolder dialect parts).output.destination here := by
  obtain ⟨other, isResult, isOther, _⟩ := @resultParts_isName dialect here before folder parts isSource proper
  rw [destination_output isSource proper, isResult, ← List.append_assoc]
  intro same
  rw [List.singleton_inj.mp (List.append_inj' same rfl).2, isOther] at isName
  cases isName

theorem hasNull_output (isSource : before.IsSource here folder parts) (proper : before.IsProper here) :
    (jobFor folder outputFolder dialect parts).output.hasNull =
      (jobFor folder outputFolder dialect parts).output.parent.hasNull := by
  obtain ⟨name, isResult, _, _, noNull⟩ := @resultParts_isName dialect here before folder parts isSource proper
  simp only [jobFor, isResult, Path.hasNull, Path.parent, Path.below, ← List.append_assoc, List.dropLast_concat]
  rw [List.any_append, List.any_cons, noNull, List.any_nil, Bool.or_false, Bool.or_false]

/-- What an attempt at a job can come to, by what its source is converted to. -/
inductive Attempted (output : Path) : Except Failure Converted → Except Failure Converted → Prop
  | unconverted {failure : Failure} : Attempted output (.error failure) (.error failure)
  | unwritten {converted : Converted} {fault : FileFault} (null : fault = .nullInName ↔ output.hasNull = true) :
      Attempted output (.ok converted) (.error (.file fault))
  | written {converted : Converted} (noNull : output.hasNull = false) : Attempted output (.ok converted) (.ok converted)

theorem Attempted.source_eq (attempted : Attempted output source (.ok converted)) : source = .ok converted := by
  cases attempted
  rfl

theorem attempt_spec {job : Job} (unlimited : tree.room = none)
    (plain : job.output.hasNull = job.output.parent.hasNull) :
    Attempted job.output (tree.converted options dialect here job.source)
        (attempt options dialect here tree job).1 ∧
      (attempt options dialect here tree job).2.room = none ∧
      tree.KeepsFolders (attempt options dialect here tree job).2 ∧
      ∀ place, (attempt options dialect here tree job).2.file? place =
        match (attempt options dialect here tree job).1 with
        | .ok converted =>
          if place = job.output.destination here then some converted.text.toUTF8 else tree.file? place
        | .error _ => tree.file? place := by
  rw [attempt]
  cases tree.converted options dialect here job.source with
  | error failure => exact ⟨.unconverted, unlimited, fun _ isFolder => isFolder, fun _ => rfl⟩
  | ok converted =>
    have null := @FileTree.deliver_null_iff options here tree job.output plain converted.text
    have isSaved := @FileTree.deliver_saved options here tree job.output converted.text
    have keeps := isSaved.keepsFolders
    dsimp only
    generalize tree.deliver options here job.output converted.text = delivered at null keeps isSaved ⊢
    cases isSaved with
    | unwritten grows => exact ⟨.unwritten (by simpa using null), grows.room.trans unlimited, keeps, grows.file?⟩
    | written grows noFolder =>
      exact ⟨.written (by simpa using null), grows.room.trans unlimited, keeps, grows.file?_put noFolder _⟩
    | brokenOff _ _ isRoom _ =>
      rw [unlimited] at isRoom
      cases isRoom

/-! ### Runs -/

/-- The outcome of a job comes from an attempt at it. -/
def Tells (options : Options) (dialect : Dialect) (here : Place) (before : FileTree) (job : Job)
    (result : Except Failure Outcome) : Prop :=
  ∃ attempt, Attempted job.output (before.converted options dialect here job.source) attempt ∧
    outcomeOf job attempt = result

/-- A result stands where an outcome says that it was written. -/
def Landed (options : Options) (dialect : Dialect) (here : Place) (before after : FileTree) (jobs : List Job)
    (results : List (Except Failure Outcome)) (place : Place) : Prop :=
  ∃ job ∈ jobs, ∃ converted, before.converted options dialect here job.source = .ok converted ∧
    outcomeOf job (.ok converted) ∈ results ∧ place = job.output.destination here ∧
    after.file? place = some converted.text.toUTF8

/-- Jobs that are made of sources. -/
def AreJobs (here : Place) (before : FileTree) (folder outputFolder : Path) (dialect : Dialect) (jobs : List Job) :
    Prop := ∀ job ∈ jobs, ∃ parts, before.IsSource here folder parts ∧ jobFor folder outputFolder dialect parts = job

theorem outcomeOf_eq_ok {attempt : Except Failure Converted} (ok : outcomeOf job attempt = .ok outcome) :
    outcome.source = job.source ∧
      ∀ output, outcome.output? = some output → output = job.output ∧ ∃ converted, attempt = .ok converted := by
  cases attempt with
  | ok converted =>
    cases ok
    exact ⟨rfl, fun output isOutput => ⟨(Option.some.inj isOutput).symm, converted, rfl⟩⟩
  | error failure =>
    rw [outcomeOf] at ok
    split at ok
    · cases ok
      exact ⟨rfl, fun output isOutput => by cases isOutput⟩
    · cases ok

theorem runAll_spec (proper : before.IsProper here) {jobs : List Job}
    (areJobs : AreJobs here before folder outputFolder dialect jobs) (unlimited : tree.room = none)
    (keeps : before.KeepsFolders tree) (stay : before.SourcesStay tree) :
    List.Forall₂ (Tells options dialect here before) jobs (runAll options dialect here tree jobs).1 ∧
      before.SourcesStay (runAll options dialect here tree jobs).2 ∧
      ∀ place, Landed options dialect here before (runAll options dialect here tree jobs).2 jobs
          (runAll options dialect here tree jobs).1 place ∨
        (runAll options dialect here tree jobs).2.file? place = tree.file? place ∧
          ∀ outcome output, .ok outcome ∈ (runAll options dialect here tree jobs).1 → outcome.output? = some output →
            place ≠ output.destination here := by
  induction jobs generalizing tree with
  | nil => exact ⟨.nil, stay, fun place => .inr ⟨rfl, fun _ _ inside => by cases inside⟩⟩
  | cons job rest ih =>
    obtain ⟨parts, isSource, isJob⟩ := areJobs job (List.mem_cons_self ..)
    have isConverted := isSource.converted_eq proper keeps (stay.file isSource) options dialect
    obtain ⟨result, stillUnlimited, keepsOn, files⟩ := @attempt_spec options dialect here tree job unlimited
      (isJob ▸ hasNull_output isSource proper)
    have isSource' : job.source = folder.below parts := isJob ▸ rfl
    rw [isSource', isConverted, ← isSource'] at result
    rw [runAll]
    generalize attempt options dialect here tree job = attempted at result stillUnlimited keepsOn files ⊢
    have stayOn : before.SourcesStay attempted.2 := by
      intro place name isName
      have notHere : place ++ [name] ≠ job.output.destination here :=
        isJob ▸ destination_output_ne isSource proper isName
      rw [files]
      split
      · rw [if_neg notHere]
        exact stay place name isName
      · exact stay place name isName
    obtain ⟨each, stays, places⟩ := ih (fun other inside => areJobs other (List.mem_cons_of_mem job inside))
      stillUnlimited (fun place isFolder => keepsOn place (keeps place isFolder)) stayOn
    refine ⟨.cons ⟨_, result, rfl⟩ each, stays, fun place => ?_⟩
    obtain ⟨other, inside, converted, ok, isIn, isPlace, holds⟩ | ⟨same, unwritten⟩ := places place
    · exact .inl ⟨other, List.mem_cons_of_mem job inside, converted, ok, List.mem_cons_of_mem _ isIn, isPlace, holds⟩
    · rw [files] at same
      by_cases lands : ∃ converted, attempted.1 = .ok converted ∧ place = job.output.destination here
      · obtain ⟨converted, ok, isPlace⟩ := lands
        rw [ok] at result same
        exact .inl ⟨job, List.mem_cons_self .., converted, result.source_eq, ok ▸ List.mem_cons_self .., isPlace,
          same.trans (if_pos isPlace)⟩
      · refine .inr ⟨?_, fun outcome output inside isOutput => ?_⟩
        · split at same
          · rename_i converted ok
            rwa [if_neg fun isPlace => lands ⟨converted, ok, isPlace⟩] at same
          · exact same
        · obtain isFirst | later := List.mem_cons.mp inside
          · obtain ⟨rfl, converted, ok⟩ := (outcomeOf_eq_ok isFirst.symm).2 output isOutput
            exact fun isPlace => lands ⟨converted, ok, isPlace⟩
          · exact unwritten outcome output later isOutput

end Batch

end RtlBridge
