import Mathlib.Data.Set.List
import RtlBridge.Proofs.Conversion
import RtlBridge.Proofs.Files.Batch

/-! Reports on batches. Of the sources with one result the first is attempted, and each source has one outcome. A
report is faithful to the files, and there is one unless a job stops the batch. -/

namespace RtlBridge

open List

namespace Batch

variable {options : Options} {dialect : Dialect} {here : Place} {tree before : FileTree} {folder outputFolder : Path}
  {recursive : Bool} {parts : List String} {output? : Option Path} {name? : Option String}

/-! ### Settled jobs -/

theorem settle_fst (earlier jobs : List Job) : (settle earlier jobs).map Prod.fst = jobs := by
  induction jobs generalizing earlier with
  | nil => rfl
  | cons job rest ih =>
    rw [settle]
    split <;> rw [map_cons, ih]

/-- A job is run if none before it has its output. -/
theorem mem_settle (earlier front : List Job) (job : Job) (back : List Job) :
    ∃ first?, (job, first?) ∈ settle earlier (front ++ job :: back) ∧
      (first? = none ↔ ∀ other ∈ earlier ++ front, other.output ≠ job.output) := by
  induction front generalizing earlier with
  | nil =>
    rw [nil_append, settle, append_nil]
    split
    · rename_i first found
      obtain ⟨isOutput, inside⟩ := And.intro (find?_some found) (mem_of_find?_eq_some found)
      refine ⟨some first, mem_cons_self .., iff_of_false (Option.some_ne_none first) fun different => ?_⟩
      exact different first inside (of_decide_eq_true isOutput)
    · rename_i new
      refine ⟨none, mem_cons_self .., iff_of_true rfl fun other inside same => ?_⟩
      exact find?_eq_none.mp new other inside (decide_eq_true same)
  | cons other front ih =>
    rw [cons_append, settle]
    split
    · rename_i first found
      obtain ⟨isOutput, inFirst⟩ := And.intro (find?_some found) (mem_of_find?_eq_some found)
      obtain ⟨first?, inside, isNone⟩ := ih earlier
      refine ⟨first?, mem_cons_of_mem _ inside, isNone.trans ?_⟩
      rw [forall_mem_append, forall_mem_append, forall_mem_cons, ← of_decide_eq_true isOutput]
      exact ⟨fun all => ⟨all.1, all.1 first inFirst, all.2⟩, fun all => ⟨all.1, all.2.2⟩⟩
    · obtain ⟨first?, inside, isNone⟩ := ih (other :: earlier)
      refine ⟨first?, mem_cons_of_mem _ inside, isNone.trans ?_⟩
      simp only [forall_mem_append, forall_mem_cons]
      exact ⟨fun all => ⟨all.1.2, all.1.1, all.2⟩, fun all => ⟨⟨all.2.1, all.1⟩, all.2.2⟩⟩

theorem mem_runnable : job ∈ runnable settled ↔ (job, none) ∈ settled := by
  rw [runnable, mem_filterMap]
  constructor
  · rintro ⟨⟨other, first?⟩, inside, isJob⟩
    cases first? with
    | none =>
      cases isJob
      exact inside
    | some first => cases isJob
  · exact fun inside => ⟨_, inside, rfl⟩

theorem runnable_nodup (earlier jobs : List Job) :
    ((runnable (settle earlier jobs)).map (·.output)).Nodup ∧
      ∀ job ∈ runnable (settle earlier jobs), ∀ other ∈ earlier, other.output ≠ job.output := by
  induction jobs generalizing earlier with
  | nil => exact ⟨.nil, fun _ inside => by cases inside⟩
  | cons job rest ih =>
    rw [settle]
    split
    · exact ih earlier
    · rename_i new
      obtain ⟨distinct, fresh⟩ := ih (job :: earlier)
      have isNew : ∀ other ∈ earlier, other.output ≠ job.output :=
        fun other inside same => find?_eq_none.mp new other inside (decide_eq_true same)
      refine ⟨nodup_cons.mpr ⟨fun inside => ?_, distinct⟩, forall_mem_cons.mpr ⟨isNew, ?_⟩⟩
      · obtain ⟨other, isRun, same⟩ := mem_map.mp inside
        exact fresh other isRun job (mem_cons_self ..) same.symm
      · exact fun other isRun first inside => fresh other isRun first (mem_cons_of_mem job inside)

theorem sources_perm (settled : List (Job × Option Job)) :
    ((refused settled).map (·.source) ++ (runnable settled).map (·.source)).Perm (settled.map (·.1.source)) := by
  induction settled with
  | nil => exact .nil
  | cons entry rest ih =>
    obtain ⟨job, first?⟩ := entry
    cases first? with
    | none => exact perm_middle.trans (ih.cons _)
    | some first => exact ih.cons _

theorem failed_of_mem_refused (inside : outcome ∈ refused settled) : ∃ message, outcome.result = .failed message := by
  obtain ⟨⟨job, first?⟩, _, isOutcome⟩ := mem_filterMap.mp inside
  obtain ⟨first, _, rfl⟩ := Option.map_eq_some_iff.mp isOutcome
  exact ⟨_, rfl⟩

/-! ### Reports -/

section Reports

variable {ran : Dialect → List Job → List (Except Failure Outcome) × FileTree}

theorem folderRun_eq (once : tree.entries.keys.Nodup)
    (isDialect : exactDialect (options.dialectFor name?) = .ok dialect)
    (isFolder : tree.isFolderAt here folder = .ok true) (isAllowed : options.allowsPath here folder = .ok true)
    (areSettled : settledJobs here tree folder (output?.getD folder) recursive dialect = settled) :
    folderRun ran options folder output? recursive name? here tree =
      ((ran dialect (runnable settled)).1.mapM id |>.map
        (reportOf folder (output?.getD folder) recursive dialect settled), (ran dialect (runnable settled)).2) := by
  have plan := (planned_eq_ok_iff once).mpr ⟨isFolder, isAllowed, areSettled.symm⟩
  rw [folderRun, isDialect]
  dsimp only
  rw [plan]

theorem folderRun_eq_ok (once : tree.entries.keys.Nodup)
    (ok : (folderRun ran options folder output? recursive name? here tree).1 = .ok report) :
    ∃ dialect, exactDialect (options.dialectFor name?) = .ok dialect ∧ tree.isFolderAt here folder = .ok true ∧
      options.allowsPath here folder = .ok true := by
  rw [folderRun] at ok
  split at ok
  · cases ok
  · rename_i dialect isDialect
    split at ok
    · cases ok
    · rename_i settled plan
      obtain ⟨isFolder, isAllowed, _⟩ := (planned_eq_ok_iff once).mp plan
      exact ⟨dialect, isDialect, isFolder, isAllowed⟩

theorem areJobs_runnable (once : before.entries.keys.Nodup) :
    AreJobs here before folder outputFolder dialect
      (runnable (settledJobs here before folder outputFolder recursive dialect)) := by
  intro job inside
  have isJob := mem_map_of_mem (f := Prod.fst) (mem_runnable.mp inside)
  rw [settledJobs, settle_fst] at isJob
  obtain ⟨parts, isPart, rfl⟩ := mem_map.mp isJob
  exact ⟨parts, ((FileTree.mem_sourcesBelow_iff once).mp isPart).1, rfl⟩

theorem map_source_outcomes {outcomes : List Outcome}
    (each : Forall₂ (Tells options dialect here before) jobs (outcomes.map .ok)) :
    outcomes.map (·.source) = jobs.map (·.source) := by
  rw [forall₂_map_right_iff] at each
  induction each with
  | nil => rfl
  | cons first _ ih =>
    obtain ⟨attempt, _, isOutcome⟩ := first
    rw [map_cons, map_cons, ih, (outcomeOf_eq_ok isOutcome).1]

theorem outputs_sublist {outcomes : List Outcome}
    (each : Forall₂ (Tells options dialect here before) jobs (outcomes.map .ok)) :
    (outcomes.filterMap (·.output?)).Sublist (jobs.map (·.output)) := by
  rw [forall₂_map_right_iff] at each
  induction each with
  | nil => exact .slnil
  | cons first _ ih =>
    obtain ⟨attempt, _, isOutcome⟩ := first
    rw [filterMap_cons, map_cons]
    split
    · exact ih.cons _
    · rename_i output isOutput
      obtain ⟨rfl, _⟩ := (outcomeOf_eq_ok isOutcome).2 output isOutput
      exact ih.cons_cons _

/-- What a report says of the files is so. -/
structure Report.Faithful (options : Options) (here : Place) (before after : FileTree) (report : Report) : Prop where
  once : (report.outcomes.map (·.source)).Nodup
  distinct : (report.outcomes.filterMap (·.output?)).Nodup
  holds : ∀ outcome ∈ report.outcomes, ∀ output, outcome.output? = some output → ∃ converted,
    before.converted options report.dialect here outcome.source = .ok converted ∧
      after.file? (output.destination here) = some converted.text.toUTF8
  others : ∀ place,
    (∀ outcome ∈ report.outcomes, ∀ output, outcome.output? = some output → place ≠ output.destination here) →
      after.file? place = before.file? place
  sources : before.SourcesStay after
  first : ∀ parts ∈ before.sourcesBelow here report.folder report.recursive,
    (∀ earlier ∈ before.sourcesBelow here report.folder report.recursive, FileTree.partsLe parts earlier = false →
      (jobFor report.folder report.outputFolder report.dialect earlier).output ≠
        (jobFor report.folder report.outputFolder report.dialect parts).output) →
    ∃ outcome ∈ report.outcomes, Tells options report.dialect here before
      (jobFor report.folder report.outputFolder report.dialect parts) (.ok outcome)
  later : ∀ parts ∈ before.sourcesBelow here report.folder report.recursive,
    ∀ earlier ∈ before.sourcesBelow here report.folder report.recursive, FileTree.partsLe parts earlier = false →
      (jobFor report.folder report.outputFolder report.dialect earlier).output =
        (jobFor report.folder report.outputFolder report.dialect parts).output →
      ∃ message, ⟨report.folder.below parts, .failed message⟩ ∈ report.outcomes

theorem mem_outcomes_reportOf :
    outcome ∈ (reportOf folder outputFolder recursive dialect settled outcomes).outcomes ↔
      outcome ∈ refused settled ∨ outcome ∈ outcomes := (mergeSort_perm _ _).mem_iff.trans mem_append

/-- The outcomes are those of the sources, each once. -/
theorem perm_sources (each : Forall₂ (Tells options dialect here before)
      (runnable (settledJobs here before folder outputFolder recursive dialect)) (outcomes.map .ok)) :
    ((reportOf folder outputFolder recursive dialect (settledJobs here before folder outputFolder recursive dialect)
      outcomes).outcomes.map (·.source)).Perm ((before.sourcesBelow here folder recursive).map folder.below) := by
  have sources := sources_perm (settledJobs here before folder outputFolder recursive dialect)
  have jobs : (settledJobs here before folder outputFolder recursive dialect).map (·.1.source) =
      (before.sourcesBelow here folder recursive).map folder.below := by
    have firsts := congrArg (map (·.source)) (settle_fst [] ((before.sourcesBelow here folder recursive).map
      (jobFor folder outputFolder dialect)))
    rw [map_map, map_map] at firsts
    exact firsts
  rw [← map_source_outcomes each, ← map_append, jobs] at sources
  exact ((mergeSort_perm _ _).map _).trans sources

theorem mem_settledJobs (once : before.entries.keys.Nodup) (inside : parts ∈ before.sourcesBelow here folder recursive) :
    ∃ first?, (jobFor folder outputFolder dialect parts, first?) ∈
        settledJobs here before folder outputFolder recursive dialect ∧
      (first? = none ↔ ∀ earlier ∈ before.sourcesBelow here folder recursive, FileTree.partsLe parts earlier = false →
        (jobFor folder outputFolder dialect earlier).output ≠ (jobFor folder outputFolder dialect parts).output) := by
  obtain ⟨front, back, isList⟩ := append_of_mem inside
  obtain ⟨first?, inSettled, isNone⟩ := mem_settle [] (front.map (jobFor folder outputFolder dialect))
    (jobFor folder outputFolder dialect parts) (back.map (jobFor folder outputFolder dialect))
  refine ⟨first?, ?_, isNone.trans ?_⟩
  · rwa [settledJobs, isList, map_append, map_cons]
  · rw [nil_append, forall_mem_map]
    constructor
    · exact fun all earlier isSource isBefore => all earlier ((FileTree.mem_front_iff once isList).mpr ⟨isSource, isBefore⟩)
    · intro all earlier inFront
      obtain ⟨isSource, isBefore⟩ := (FileTree.mem_front_iff once isList).mp inFront
      exact all earlier isSource isBefore

theorem eq_of_destination (proper : before.IsProper here)
    (areJobs : AreJobs here before folder outputFolder dialect jobs) (distinct : (jobs.map (·.output)).Nodup)
    (inside : job ∈ jobs) (isOther : other ∈ jobs) (same : job.output.destination here = other.output.destination here)
    : job = other := by
  apply inj_on_of_nodup_map distinct inside isOther
  obtain ⟨parts, isSource, rfl⟩ := areJobs job inside
  obtain ⟨others, isOtherSource, rfl⟩ := areJobs other isOther
  rw [destination_output isSource proper, destination_output isOtherSource proper] at same
  exact congrArg outputFolder.below (append_cancel_left same)

theorem faithful_reportOf (proper : before.IsProper here)
    (areSettled : settledJobs here before folder outputFolder recursive dialect = settled)
    (ok : (runAll options dialect here before (runnable settled)).1 = outcomes.map .ok) :
    (reportOf folder outputFolder recursive dialect settled outcomes).Faithful options here before
      (runAll options dialect here before (runnable settled)).2 := by
  have areJobs := @areJobs_runnable dialect here before folder outputFolder recursive proper.once
  have distinct := (runnable_nodup [] ((before.sourcesBelow here folder recursive).map
    (jobFor folder outputFolder dialect))).1
  rw [areSettled] at areJobs
  rw [← settledJobs, areSettled] at distinct
  obtain ⟨each, stay, places⟩ := @runAll_spec options dialect here before before folder outputFolder proper _ areJobs
    proper.unlimited (fun _ isFolder => isFolder) (fun _ _ _ => rfl)
  rw [ok] at each places
  have written {outcome : Outcome} {output : Path}
      (inside : outcome ∈ (reportOf folder outputFolder recursive dialect settled outcomes).outcomes)
      (isOutput : outcome.output? = some output) : outcome ∈ outcomes := by
    obtain isRefused | isRun := mem_outcomes_reportOf.mp inside
    · obtain ⟨message, isFailed⟩ := failed_of_mem_refused isRefused
      rw [Outcome.output?, isFailed] at isOutput
      cases isOutput
    · exact isRun
  constructor
  case once =>
    apply (areSettled ▸ perm_sources (areSettled ▸ each)).nodup_iff.mpr
    refine (FileTree.sourcesBelow_nodup proper.once).map fun parts others same => ?_
    exact append_cancel_left (congrArg Path.parts same)
  case distinct =>
    apply ((mergeSort_perm _ _).filterMap _).nodup_iff.mpr
    have noneRefused : (refused settled).filterMap (·.output?) = [] := by
      refine filterMap_eq_nil_iff.mpr fun outcome isRefused => ?_
      obtain ⟨message, isFailed⟩ := failed_of_mem_refused isRefused
      rw [Outcome.output?, isFailed]
    rw [filterMap_append, noneRefused]
    exact (outputs_sublist each).nodup distinct
  case holds =>
    intro outcome inside output isOutput
    have isRun := written inside isOutput
    obtain ⟨job, isJob, attempt, attempted, isOutcome⟩ := source_of_mem each (mem_map_of_mem isRun)
    obtain ⟨isSource, isWritten⟩ := outcomeOf_eq_ok isOutcome
    obtain ⟨rfl, converted, rfl⟩ := isWritten output isOutput
    refine ⟨converted, isSource ▸ attempted.source_eq, ?_⟩
    obtain ⟨other, isOther, others, areOthers, _, samePlace, holds⟩ | ⟨_, unwritten⟩ :=
      places (job.output.destination here)
    · obtain rfl := eq_of_destination proper areJobs distinct isJob isOther samePlace
      rw [attempted.source_eq] at areOthers
      cases areOthers
      exact holds
    · cases unwritten outcome job.output (mem_map_of_mem isRun) isOutput rfl
  case others =>
    intro place notOutput
    obtain ⟨job, _, converted, _, isIn, isPlace, _⟩ | ⟨same, _⟩ := places place
    · obtain ⟨outcome, isRun, isOutcome⟩ := mem_map.mp isIn
      cases isOutcome
      cases notOutput _ (mem_outcomes_reportOf.mpr (.inr isRun)) _ rfl isPlace
    · exact same
  case sources => exact stay
  case first =>
    intro parts inside noEarlier
    obtain ⟨first?, inSettled, isNone⟩ := @mem_settledJobs dialect here before folder outputFolder recursive parts
      proper.once inside
    obtain rfl := isNone.mpr noEarlier
    rw [areSettled] at inSettled
    obtain ⟨result, isResult, tells⟩ := result_of_mem each (mem_runnable.mpr inSettled)
    obtain ⟨outcome, isRun, rfl⟩ := mem_map.mp isResult
    exact ⟨outcome, mem_outcomes_reportOf.mpr (.inr isRun), tells⟩
  case later =>
    intro parts inside earlier isEarlier isBefore same
    obtain ⟨first?, inSettled, isNone⟩ := @mem_settledJobs dialect here before folder outputFolder recursive parts
      proper.once inside
    rw [areSettled] at inSettled
    cases first? with
    | none => cases isNone.mp rfl earlier isEarlier isBefore same
    | some first => exact ⟨_, mem_outcomes_reportOf.mpr (.inl (mem_filterMap.mpr ⟨_, inSettled, rfl⟩))⟩

end Reports

/-- Whether the whole batch fails for a job: its source is no text or needs a width beyond all limits, or its result
would go to a path with a null character. -/
def stops (options : Options) (dialect : Dialect) (here : Place) (tree : FileTree) (job : Job) : Bool :=
  match tree.converted options dialect here job.source with
  | .error (.decoding _) | .error (.run _) => true
  | .error _ => false
  | .ok _ => job.output.hasNull

theorem isLocal_file (notNull : fault ≠ .nullInName) : isLocal (.file fault) = true := by
  cases fault with
  | nullInName => cases notNull rfl
  | _ => rfl

/-- The bytes of a source are not refused for a null character. -/
theorem sourceBytes_failsOnly (noNull : path.hasNull = false) :
    FailsOnly (· ≠ .nullInName) (Workspace.sourceBytes ⟨tree, here, []⟩ options path) := by
  have entry : FailsOnly (· ≠ .nullInName) (tree.entryAt here path) := by
    refine .bind (FileTree.locate_failsOnly noNull) fun place => ?_
    split
    · exact .ok
    · exact .error FileFault.noConfusion
  rw [Workspace.sourceBytes, Options.allowsPath_of_noNull noNull]
  cases options.allows (path.destination here) with
  | false => exact .error FileFault.noConfusion
  | true =>
    refine entry.bind fun found => ?_
    cases found with
    | folder => exact .error FileFault.noConfusion
    | file bytes =>
      dsimp only
      split
      · exact .error FileFault.noConfusion
      · exact .ok

theorem converted_failsOnly (proper : before.IsProper here) {job : Job}
    (isJob : ∃ parts, before.IsSource here folder parts ∧ jobFor folder outputFolder dialect parts = job) :
    FailsOnly (fun failure => isLocal failure = true ∨ (∃ fault, failure = .decoding fault) ∨
      ∃ fault, failure = .run fault) (before.converted options dialect here job.source) := by
  obtain ⟨parts, isSource, rfl⟩ := isJob
  refine .bind (.mapError (sourceBytes_failsOnly (isSource.noNull proper)) fun fault notNull =>
    .inl (isLocal_file notNull)) fun bytes => .bind ?_ fun text => ?_
  · rw [sourceText]
    split
    · exact .ok
    · exact .error (.inr (.inl ⟨_, rfl⟩))
  · refine (convert_failsOnly text dialect options.strict options.indent).mono fun failure expected => ?_
    cases failure with
    | source fault => exact .inl rfl
    | run fault => exact .inr (.inr ⟨fault, rfl⟩)
    | _ => exact expected.elim

/-- A job has an outcome unless it stops the batch. -/
theorem tells_ok_iff (proper : before.IsProper here)
    (isJob : ∃ parts, before.IsSource here folder parts ∧ jobFor folder outputFolder dialect parts = job)
    (tells : Tells options dialect here before job result) :
    (∃ outcome, result = .ok outcome) ↔ stops options dialect here before job = false := by
  have failsOnly := @converted_failsOnly options dialect here before folder outputFolder proper job isJob
  obtain ⟨attempt, attempted, rfl⟩ := tells
  rw [stops]
  generalize before.converted options dialect here job.source = source at failsOnly attempted ⊢
  cases attempted with
  | unconverted =>
    rename_i failure
    obtain isLocal | ⟨fault, rfl⟩ | ⟨fault, rfl⟩ := failsOnly failure rfl
    · cases failure <;> simp_all [outcomeOf, Batch.isLocal]
    · simp [outcomeOf, isLocal]
    · simp [outcomeOf, isLocal]
  | @unwritten converted fault null =>
    by_cases isNull : fault = .nullInName
    · simp [outcomeOf, isLocal, isNull, null.mp isNull]
    · have noNull : job.output.hasNull = false := Bool.eq_false_iff.mpr (mt null.mpr isNull)
      simp [outcomeOf, isLocal_file isNull, noNull]
  | written noNull => simp [outcomeOf, noNull]

theorem reported_iff {results : List (Except Failure Outcome)} {report : Report} :
    (results.mapM id).map make = .ok report ↔ ∃ outcomes, results = outcomes.map .ok ∧ make outcomes = report := by
  have areOk {outcomes : List Outcome} : results.mapM id = .ok outcomes ↔ results = outcomes.map .ok := by
    rw [mapM_eq_ok_iff, ← forall₂_eq_eq_eq, forall₂_map_right_iff]
    rfl
  simp only [← areOk]
  cases results.mapM id <;> simp [Except.map]

theorem convertFolder_result (proper : space.tree.IsProper space.here)
    (isDialect : exactDialect (options.dialectFor name?) = .ok dialect)
    (isFolder : space.tree.isFolderAt space.here folder = .ok true)
    (isAllowed : options.allowsPath space.here folder = .ok true)
    (areSettled : settledJobs space.here space.tree folder (output?.getD folder) recursive dialect = settled) :
    ((convertFolder options folder output? recursive name?).ends space).1 =
      ((runAll options dialect space.here space.tree (runnable settled)).1.mapM id).map
        (reportOf folder (output?.getD folder) recursive dialect settled) := by
  have comes := @convertFolder_comes options space.here space.tree folder output? recursive name?
  rw [folderRun_eq proper.once isDialect isFolder isAllowed areSettled] at comes
  exact comes.result_eq

/-- Whenever a batch ends with a report, the report is faithful. -/
theorem convertFolder_faithful {space after : Workspace} {report : Report} (proper : space.tree.IsProper space.here)
    (ended : (convertFolder options folder output? recursive name?).ends space = (.ok report, after)) :
    report.folder = folder ∧ report.outputFolder = output?.getD folder ∧ report.recursive = recursive ∧
      exactDialect (options.dialectFor name?) = .ok report.dialect ∧
      report.Faithful options space.here space.tree after.tree := by
  have comes := @convertFolder_comes options space.here space.tree folder output? recursive name?
  have isReport := comes.result_eq.symm.trans (congrArg Prod.fst ended)
  have isTree := comes.tree_eq.symm.trans (congrArg (·.2.tree) ended)
  obtain ⟨dialect, isDialect, isFolder, isAllowed⟩ := folderRun_eq_ok proper.once isReport
  rw [folderRun_eq proper.once isDialect isFolder isAllowed rfl] at isReport isTree
  dsimp only at isReport isTree
  obtain ⟨outcomes, ran, rfl⟩ := reported_iff.mp isReport
  refine ⟨rfl, rfl, rfl, isDialect, ?_⟩
  rw [← isTree]
  exact faithful_reportOf proper rfl ran

theorem sortOutcomes_pairwise (outcomes : List Outcome) :
    (sortOutcomes outcomes).Pairwise fun first second => first.source.text ≤ second.source.text := by
  refine (pairwise_mergeSort (fun first second third => ?_) (fun first second => ?_) outcomes).imp
    of_decide_eq_true
  · simp only [decide_eq_true_eq]
    exact String.le_trans
  · simp only [Bool.or_eq_true, decide_eq_true_eq]
    exact String.le_total ..

/-- A batch over a folder that is there and allowed ends with a report, with one outcome for each source and ordered
by their paths as texts, exactly if none of the jobs that are run stops it. How deep a source may nest and how many
digits a number may have is left aside, and so are faults of the storage. -/
theorem convertFolder_reports_iff {space : Workspace} (proper : space.tree.IsProper space.here)
    (isDialect : exactDialect (options.dialectFor name?) = .ok dialect)
    (isFolder : space.tree.isFolderAt space.here folder = .ok true)
    (isAllowed : options.allowsPath space.here folder = .ok true) :
    (∃ report sources, ((convertFolder options folder output? recursive name?).ends space).1 = .ok report ∧
      space.tree.sources space.here folder recursive = .ok sources ∧
      (report.outcomes.map (·.source)).Perm sources ∧
      report.outcomes.Pairwise fun first second => first.source.text ≤ second.source.text) ↔
    ∀ job ∈ runnable (settledJobs space.here space.tree folder (output?.getD folder) recursive dialect),
      stops options dialect space.here space.tree job = false := by
  have areJobs := @areJobs_runnable dialect space.here space.tree folder (output?.getD folder) recursive proper.once
  obtain ⟨each, _⟩ := @runAll_spec options dialect space.here space.tree space.tree folder (output?.getD folder) proper _
    areJobs proper.unlimited (fun _ isFolder => isFolder) (fun _ _ _ => rfl)
  rw [convertFolder_result proper isDialect isFolder isAllowed rfl]
  constructor
  · rintro ⟨report, sources, isReport, -⟩ job inside
    obtain ⟨result, isResult, tells⟩ := result_of_mem each inside
    refine (tells_ok_iff proper (areJobs job inside) tells).mp ?_
    obtain ⟨outcomes, ran, _⟩ := reported_iff.mp isReport
    rw [ran] at isResult
    obtain ⟨outcome, _, isOutcome⟩ := List.mem_map.mp isResult
    exact ⟨outcome, isOutcome.symm⟩
  · intro noneStops
    generalize (runAll options dialect space.here space.tree (runnable (settledJobs space.here space.tree folder
      (output?.getD folder) recursive dialect))).1 = results at each ⊢
    have areOk : ∀ result ∈ results, ∃ outcome, Except.ok outcome = result := by
      intro result isResult
      obtain ⟨job, inside, tells⟩ := source_of_mem each isResult
      obtain ⟨outcome, isOutcome⟩ := (tells_ok_iff proper (areJobs job inside) tells).mpr (noneStops job inside)
      exact ⟨outcome, isOutcome.symm⟩
    obtain ⟨outcomes, rfl⟩ : results ∈ Set.range (List.map Except.ok) := by
      rw [Set.range_list_map]
      exact areOk
    refine ⟨_, (space.tree.sourcesBelow space.here folder recursive).map folder.below,
      reported_iff.mpr ⟨outcomes, rfl, rfl⟩, ?_, perm_sources each, sortOutcomes_pairwise _⟩
    rw [FileTree.sources, isFolder]
    rfl

/-! ### A folder with three sources -/

def sampleSource : String := "entity e is\nend entity;\narchitecture r of e is\nbegin\nend architecture;\n"

def sampleFolder : Path := ⟨.here, ["src"]⟩

/-- Two sources with one result, and a third that need not be a text. -/
def sampleSpace (isText : Bool) : Workspace where
  tree := ⟨⟨[(["src"], .folder), (["src", "m.vhd"], .file sampleSource.toUTF8),
    (["src", "m.vhdl"], .file sampleSource.toUTF8),
    (["src", "n.VHD"], .file (if isText then "entity".toUTF8 else ⟨#[0xff]⟩))]⟩, none⟩
  here := []
  notes := []

theorem sampleSpace_isProper (isText : Bool) : (sampleSpace isText).tree.IsProper (sampleSpace isText).here :=
  .of_keys rfl rfl (by decide +revert) (by decide +revert)

def sampleJobs : List (Job × Option Job) :=
  settle [] ([["m.vhd"], ["m.vhdl"], ["n.VHD"]].map (jobFor sampleFolder sampleFolder .strict))

theorem settledJobs_sampleSpace (isText : Bool) :
    settledJobs (sampleSpace isText).here (sampleSpace isText).tree sampleFolder sampleFolder false .strict =
      sampleJobs := by
  have located : (sampleSpace isText).tree.locate (sampleSpace isText).here sampleFolder = .ok ["src"] := by
    cases isText <;> decide +kernel
  have isFolder : (sampleSpace isText).tree.isFolder ["src"] = true := by cases isText <;> rfl
  have files : ((sampleSpace isText).tree.filesBelow ["src"] false).filter (fun parts =>
      (parts.getLast?.map FileTree.isSourceName).getD false) = [["m.vhd"], ["m.vhdl"], ["n.VHD"]] := by
    cases isText <;> decide +kernel
  rw [settledJobs, FileTree.sourcesBelow, located]
  dsimp only
  rw [if_pos isFolder, files, mergeSort_of_pairwise (by decide +kernel), sampleJobs]

def sampleBatch : Work Report := convertFolder {} sampleFolder none false none

theorem sampleBatch_result (isText : Bool) : (sampleBatch.ends (sampleSpace isText)).1 =
    ((runAll {} .strict [] (sampleSpace isText).tree (runnable sampleJobs)).1.mapM id).map
      (reportOf sampleFolder sampleFolder false .strict sampleJobs) :=
  convertFolder_result (sampleSpace_isProper isText) (by decide +kernel) (by cases isText <;> decide +kernel)
    (by cases isText <;> decide +kernel) (settledJobs_sampleSpace isText)

theorem sampleBatch_faithful : (sampleSpace true).tree.IsProper [] ∧ ∃ report after,
    sampleBatch.ends (sampleSpace true) = (.ok report, after) ∧
      report.Faithful {} [] (sampleSpace true).tree after.tree := by
  obtain ⟨outcomes, ran, _⟩ : ∃ outcomes,
      (runAll {} .strict [] (sampleSpace true).tree (runnable sampleJobs)).1.mapM id = .ok outcomes ∧ True := by
    decide +kernel
  have result := sampleBatch_result true
  rw [ran] at result
  have ended : sampleBatch.ends (sampleSpace true) = (.ok (reportOf sampleFolder sampleFolder false .strict sampleJobs
    outcomes), (sampleBatch.ends (sampleSpace true)).2) := Prod.ext result rfl
  exact ⟨sampleSpace_isProper true, _, _, ended, (convertFolder_faithful (sampleSpace_isProper true) ended).2.2.2.2⟩

theorem sampleBatch_reports : ∃ report sources, (sampleBatch.ends (sampleSpace true)).1 = .ok report ∧
    (sampleSpace true).tree.sources [] sampleFolder false = .ok sources ∧
    (report.outcomes.map (·.source)).Perm sources ∧
    report.outcomes.Pairwise fun first second => first.source.text ≤ second.source.text := by
  have isFolder : (sampleSpace true).tree.isFolderAt [] sampleFolder = .ok true := by decide +kernel
  have noneStops : ∀ job ∈ runnable sampleJobs, stops {} .strict [] (sampleSpace true).tree job = false := by
    decide +kernel
  rw [← settledJobs_sampleSpace true] at noneStops
  exact (convertFolder_reports_iff (sampleSpace_isProper true) rfl isFolder rfl).mpr noneStops

/-- A source that is no text leaves the others without a report. -/
theorem undecodable_source_stops_batch :
    (sampleBatch.ends (sampleSpace false)).1 = .error (.decoding ⟨0, 1, 0xff, .invalidStart⟩) := by
  have ran : (runAll {} .strict [] (sampleSpace false).tree (runnable sampleJobs)).1.mapM id =
    .error (.decoding ⟨0, 1, 0xff, .invalidStart⟩) := by decide +kernel
  rw [sampleBatch_result, ran]
  rfl

end Batch

end RtlBridge
