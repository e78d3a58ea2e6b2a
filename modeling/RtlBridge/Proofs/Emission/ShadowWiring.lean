import RtlBridge.Proofs.Conversion
import RtlBridge.Proofs.Emission.ReadNames

/-! The wiring of shadow registers. A wire that combinational processes drive has one register behind it:
always blocks write the register, one assignment forwards it to the wire, and nothing else reads it. -/

namespace RtlBridge

open List
open Verilog (Expr Item Module)

/-! ### Lists -/

theorem exists_first {α : Type} {property : α → Prop} {list : List α} (holds : ∃ element ∈ list, property element) :
    ∃ before first after, list = before ++ first :: after ∧ property first ∧ ∀ element ∈ before, ¬ property element := by
  induction list with
  | nil => simp at holds
  | cons head tail ih =>
    by_cases here : property head
    · exact ⟨[], head, tail, rfl, here, nofun⟩
    · obtain ⟨element, member, isLater⟩ := holds
      have inTail : element ∈ tail := (mem_cons.mp member).resolve_left fun same => here (same ▸ isLater)
      obtain ⟨before, first, after, split, isFirst, none⟩ := ih ⟨element, inTail, isLater⟩
      exact ⟨head :: before, first, after, by rw [split, cons_append], isFirst, forall_mem_cons.mpr ⟨here, none⟩⟩

theorem filter_of_nodup_map {α κ : Type} [DecidableEq κ] {key : α → κ} {list : List α}
    (distinct : (list.map key).Nodup) {element : α} (member : element ∈ list) :
    list.filter (fun other => key other = key element) = [element] := by
  induction list with
  | nil => nomatch member
  | cons head tail ih =>
    obtain ⟨new, others⟩ := nodup_cons.mp distinct
    rcases mem_cons.mp member with rfl | later
    · have none : tail.filter (fun other => key other = key element) = [] := by
        rw [filter_eq_nil_iff]
        intro other inTail same
        exact new (of_decide_eq_true same ▸ mem_map_of_mem inTail)
      simp [none]
    · have different : ¬ key head = key element := fun same => new (same ▸ mem_map_of_mem later)
      simp [different, ih others later]

theorem nodup_eraseDups {α : Type} [DecidableEq α] (list : List α) : list.eraseDups.Nodup := by
  match list with
  | [] => exact .nil
  | head :: tail =>
    rw [eraseDups_cons, nodup_cons]
    refine ⟨fun again => ?_, nodup_eraseDups _⟩
    simpa using of_mem_filter (mem_eraseDups.mp again)
termination_by list.length
decreasing_by
  have shorter := length_filter_le (fun b => !b == head) tail
  simp only [length_cons]
  omega

theorem filterMap_of_nodup {α β : Type} [DecidableEq α] {list : List α} (distinct : list.Nodup) (element : α) (value : β) :
    list.filterMap (fun other => if other = element then some value else none) =
      if element ∈ list then [value] else [] := by
  induction list with
  | nil => rfl
  | cons head tail ih =>
    obtain ⟨new, others⟩ := nodup_cons.mp distinct
    by_cases same : head = element
    · subst same
      simp [ih others, new]
    · have different : ¬ element = head := fun eq => same eq.symm
      simp [same, different, ih others]

theorem filter_flatten_zipWith_cons {α : Type} {test : α → Bool} {items : List α} {lists : List (List α)}
    (lengths : items.length = lists.length) (fail : ∀ item ∈ items, test item = false) :
    (zipWith cons items lists).flatten.filter test = lists.flatten.filter test := by
  induction items generalizing lists with
  | nil =>
    rw [eq_nil_of_length_eq_zero lengths.symm]
    rfl
  | cons item rest ih =>
    cases lists with
    | nil => nomatch lengths
    | cons list others =>
      obtain ⟨here, later⟩ := forall_mem_cons.mp fail
      simp [here, ih (Nat.succ.inj lengths) later]

theorem forall₂_append_cons {α β : Type} {relation : α → β → Prop} {before after : List α} {element : α} {results : List β}
    (related : Forall₂ relation (before ++ element :: after) results) :
    ∃ first result last, results = first ++ result :: last ∧ Forall₂ relation before first ∧
      relation element result ∧ Forall₂ relation after last := by
  induction before generalizing results with
  | nil =>
    cases related with
    | cons here later => exact ⟨[], _, _, rfl, .nil, here, later⟩
  | cons head tail ih =>
    cases related with
    | cons here later =>
      obtain ⟨first, result, last, rfl, areFirst, isResult, areLast⟩ := ih later
      exact ⟨_ :: first, result, last, rfl, .cons here areFirst, isResult, areLast⟩

namespace Emission

open Vhdl (DataType Resolved ResolvedStmt Assigns mem_bodyWrites_all)

/-! ### Names with shadows -/

theorem map_fst_shadowsFor (taken names : List String) : (shadowsFor taken names).map Prod.fst = names := by
  induction names generalizing taken with
  | nil => rfl
  | cons first rest ih => rw [shadowsFor, map_cons, ih]

theorem lookup_of_mem {pairs : List (String × String)} (distinct : (pairs.map Prod.fst).Nodup) (member : pair ∈ pairs)
    : pairs.lookup pair.1 = some pair.2 := by
  change (Table.mk pairs).find? pair.1 = some pair.2
  exact Table.find?_of_mem_entries distinct member

/-! ### Forwarding assignments -/

def forward (pair : String × String) : Item := .assign (.name pair.1) (.name pair.2) []

theorem mem_forwards :
    entry ∈ forwards context forwarded block ↔ Assigns block.body entry.1 ∧ entry.1 ∉ forwarded ∧
      ∃ register, context.shadows.lookup entry.1 = some register ∧ entry.2 = forward (entry.1, register) := by
  rw [forwards, mem_filterMap]
  constructor
  · rintro ⟨name, writes, isSome⟩
    split at isSome
    · nomatch isSome
    · rename_i new
      obtain ⟨register, isRegister, rfl⟩ := Option.map_eq_some_iff.mp isSome
      exact ⟨mem_bodyWrites_all.mp (mem_eraseDups.mp writes), by simpa using new, register, isRegister, rfl⟩
  · rintro ⟨writes, new, register, isRegister, same⟩
    refine ⟨entry.1, mem_eraseDups.mpr (mem_bodyWrites_all.mpr writes), ?_⟩
    rw [if_neg (by simpa using new), isRegister]
    exact congrArg some (Prod.ext rfl same.symm)

section

variable {context : Context} {name shadow : String} (isShadow : context.shadows.lookup name = some shadow)
  (single : ∀ other, context.shadows.lookup other = some shadow → other = name)

include isShadow single

/-- A process forwards a wire that it writes, unless it is forwarded already. -/
theorem filter_forwards (forwarded : List String) (block : Vhdl.ProcessBlock DataType) :
    ((forwards context forwarded block).map Prod.snd).filter (fun item => shadow ∈ item.reads) =
      if name ∈ (Vhdl.bodyWrites false block.body).map Prod.fst ∧ name ∉ forwarded then [forward (name, shadow)]
      else [] := by
  have kept : (fun other => ((if forwarded.contains other then none
      else (context.shadows.lookup other).map fun register =>
        (other, Item.assign (.name other) (.name register) [])).map Prod.snd).filter
          fun item => decide (shadow ∈ item.reads)) =
      fun other => if other = name then (if name ∈ forwarded then none else some (forward (name, shadow))) else none := by
    funext other
    by_cases same : other = name
    · subst same
      by_cases isForwarded : other ∈ forwarded
      · simp [isForwarded]
      · simp [isForwarded, isShadow, forward, Item.reads, Expr.names, Option.filter]
    · rw [if_neg same]
      cases isOther : context.shadows.lookup other with
      | none => simp
      | some register =>
        have different : ¬ shadow = register := by
          rintro rfl
          exact same (single other isOther)
        split <;> simp [different, Item.reads, Expr.placeReads, Expr.names, Option.filter]
  rw [forwards, map_filterMap, filter_filterMap, kept]
  by_cases isForwarded : name ∈ forwarded
  · simp [isForwarded]
  · simp only [isForwarded, if_false, not_false_eq_true, and_true]
    rw [filterMap_of_nodup (nodup_eraseDups _)]
    simp only [mem_eraseDups]

theorem filter_forwardings
    (never : name ∈ forwarded ∨ ∀ block kind, .process block kind ∈ statements → ¬ Assigns block.body name) :
    (forwardings context forwarded statements).flatten.filter (fun item => shadow ∈ item.reads) = [] := by
  induction statements generalizing forwarded with
  | nil => rfl
  | cons statement rest ih =>
    have later : name ∈ (forwardsBehind context forwarded statement).map Prod.fst ++ forwarded ∨
        ∀ block kind, .process block kind ∈ rest → ¬ Assigns block.body name := by
      refine never.imp (mem_append_right _) fun unwritten block kind member => ?_
      exact unwritten block kind (mem_cons_of_mem _ member)
    have here : ((forwardsBehind context forwarded statement).map Prod.snd).filter
        (fun item => shadow ∈ item.reads) = [] := by
      cases statement with
      | process block kind =>
        rw [forwardsBehind, filter_forwards isShadow single, if_neg]
        rintro ⟨writes, new⟩
        rcases never with isForwarded | unwritten
        · exact new isForwarded
        · exact unwritten block kind (mem_cons_self ..) (mem_bodyWrites_all.mp writes)
      | _ => rfl
    rw [forwardings, flatten_cons, filter_append, here, ih later, nil_append]

theorem forwardings_split (new : name ∉ forwarded) (kind : Vhdl.ProcessKind) (after : List ResolvedStmt)
    (unwritten : ∀ other kind, .process other kind ∈ before → ¬ Assigns other.body name)
    (writes : Assigns block.body name) :
    ∃ early here late,
      forwardings context forwarded (before ++ .process block kind :: after) = early ++ here.map Prod.snd :: late ∧
      early.length = before.length ∧ (∃ forwarded, here = forwards context forwarded block) ∧
      early.flatten.filter (fun item => shadow ∈ item.reads) = [] ∧
      (here.map Prod.snd).filter (fun item => shadow ∈ item.reads) = [forward (name, shadow)] ∧
      late.flatten.filter (fun item => shadow ∈ item.reads) = [] := by
  induction before generalizing forwarded with
  | nil =>
    have isHere : ((forwards context forwarded block).map Prod.snd).filter (fun item => shadow ∈ item.reads) =
        [forward (name, shadow)] := by rw [filter_forwards isShadow single, if_pos ⟨mem_bodyWrites_all.mpr writes, new⟩]
    have isForwarded : (name, forward (name, shadow)) ∈ forwards context forwarded block :=
      mem_forwards.mpr ⟨writes, new, shadow, isShadow, rfl⟩
    exact ⟨[], forwards context forwarded block, _, rfl, rfl, ⟨forwarded, rfl⟩, rfl, isHere,
      filter_forwardings isShadow single (.inl (mem_append_left _ (mem_map_of_mem isForwarded)))⟩
  | cons first rest ih =>
    have stillNew : name ∉ (forwardsBehind context forwarded first).map Prod.fst ++ forwarded := by
      intro member
      rcases mem_append.mp member with here | earlier
      · cases first with
        | process other kind =>
          obtain ⟨entry, isEntry, rfl⟩ := mem_map.mp here
          exact unwritten other kind (mem_cons_self ..) (mem_forwards.mp isEntry).1
        | _ => nomatch here
      · exact new earlier
    obtain ⟨early, here, late, split, lengths, isHere, none, one, noMore⟩ := ih stillNew fun other kind member =>
      unwritten other kind (mem_cons_of_mem _ member)
    have nothing : (forwardings context forwarded [first]).flatten.filter (fun item => shadow ∈ item.reads) = [] :=
      filter_forwardings isShadow single (.inr fun other kind member =>
        unwritten other kind (mem_singleton.mp member ▸ mem_cons_self ..))
    refine ⟨(forwardsBehind context forwarded first).map Prod.snd :: early, here, late, ?_, ?_, isHere, ?_, one, noMore⟩
    · rw [cons_append, forwardings, split, cons_append]
    · rw [length_cons, lengths, length_cons]
    · rw [forwardings, forwardings, flatten_singleton] at nothing
      rw [flatten_cons, filter_append, nothing, none, nil_append]

end

/-! ### Modules -/

/-- How a wire is driven through the register behind it. The register is declared once, with the type of the wire.
One item reads it, the assignment that forwards it to the wire, and that stands in the group of the first process
that assigns the wire, where other such assignments follow the always block. -/
structure IsWired (resolved : Resolved) (module : Module) (pair : String × String) : Prop where
  declared : ∃ type, resolved.names.type? pair.1 = some type ∧
    module.declarations.filter (fun decl => Text.lower decl.name = Text.lower pair.2) =
      [⟨pair.2, "reg", dimension? type⟩]
  read : module.items.filter (fun item => pair.2 ∈ item.reads) = [forward pair]
  placed : ∃ declared early group late before block kind after,
    module.groups = declared ++ early ++ group :: late ∧
    (∀ item ∈ declared.flatten, isDeclaring item = true) ∧
    resolved.statements = before ++ .process block kind :: after ∧ early.length = before.length ∧
    Assigns block.body pair.1 ∧
    (∀ other kind, .process other kind ∈ before → ¬ Assigns other.body pair.1) ∧
    ∃ trigger body assigns, group = .always trigger block.label body :: assigns ∧ forward pair ∈ assigns ∧
      ∀ item ∈ assigns, ∃ other ∈ shadows Dialect.legacy.profile resolved, item = forward other

section

variable {parsed : Vhdl.DesignUnit Vhdl.TypeMark} {resolved : Resolved} (origin : Vhdl.ResolvedFrom parsed resolved)
  {module : Module}

include origin

theorem first_process (shadowed : name ∈ shadowedNames resolved) :
    ∃ before block kind after, resolved.statements = before ++ .process block kind :: after ∧
      Assigns block.body name ∧
      ∀ other kind, .process other kind ∈ before → ¬ Assigns other.body name := by
  obtain ⟨drives, _⟩ := (mem_shadowedNames origin.nodup_drivers name).mp shadowed
  obtain ⟨strict, isResolved⟩ := origin.isResolved
  obtain ⟨before, statement, after, split, ⟨kind, writes, isDriving, inWrites⟩, unwritten⟩ :=
    exists_first (Vhdl.writtenBy_of_resolve isResolved drives.mem_keys)
  have inDesign : statement ∈ resolved.statements := by simp [split]
  have isCombinational : kind = .combinational := by
    obtain ⟨write, isWrite, rfl⟩ := mem_map.mp inWrites
    obtain ⟨driver, found, isKind⟩ := origin.covers inDesign kind writes isDriving write isWrite
    obtain ⟨other, foundToo, isOther⟩ := drives
    rw [found, Option.some.injEq] at foundToo
    rw [← isKind, ← isOther, foundToo]
  cases statement with
  | process block processKind =>
    cases isDriving
    refine ⟨before, block, processKind, after, split, mem_bodyWrites_all.mp inWrites, ?_⟩
    intro other otherKind member assigns
    exact unwritten _ member ⟨_, _, rfl, mem_bodyWrites_all.mpr assigns⟩
  | assign assignment | conditional assignment =>
    cases isDriving
    nomatch isCombinational
  | captured statement => nomatch isDriving

theorem nodup_shadows : ((shadows Dialect.legacy.profile resolved).map Prod.fst).Nodup := by
  change ((shadowsFor _ (shadowedNames resolved)).map Prod.fst).Nodup
  rw [map_fst_shadowsFor]
  exact nodup_shadowedNames origin.nodup_drivers

theorem not_declared_shadow (member : pair ∈ shadows Dialect.legacy.profile resolved) :
    ¬ Declared resolved.design.declarations pair.2 := by
  rintro ⟨info, declared⟩
  exact (shadows_fresh origin _).1 pair member (mem_map.mpr ⟨(pair.2, info), declared, rfl⟩)

theorem declared_of_shadow (ok : (moduleOf Dialect.legacy.profile resolved).result = .ok module)
    (member : pair ∈ shadows Dialect.legacy.profile resolved) :
    ∃ type, resolved.names.type? pair.1 = some type ∧
      module.declarations.filter (fun decl => Text.lower decl.name = Text.lower pair.2) =
        [⟨pair.2, "reg", dimension? type⟩] := by
  have found := lookup_of_mem (nodup_shadows origin) member
  obtain ⟨_, _, shadowed⟩ := mem_shadows_of_lookup found
  obtain ⟨drives, _⟩ := (mem_shadowedNames origin.nodup_drivers pair.1).mp shadowed
  obtain ⟨_, type, _, inObjects, _⟩ := origin.declares_driven drives.mem_keys
  have isType := origin.type?_names inObjects
  have isDeclared := filter_of_nodup_map (nodup_declarations origin ok) (shadowDeclaration_mem origin ok found)
  refine ⟨type, isType, isDeclared.trans ?_⟩
  have names : (Context.of Dialect.legacy.profile resolved).names = resolved.names := rfl
  rw [shadowDeclaration, names, isType]
  rfl

theorem groups_of_moduleOf (ok : (moduleOf profile resolved).result = .ok module)
    (is : resolved.design.architecture = some architecture) :
    ∃ declaring items,
      module.groups = declaring ++
        zipWith cons items (forwardings (Context.of profile resolved) [] resolved.statements) ∧
      Forall₂ (fun statement item => (leading (Context.of profile resolved) statement).result = .ok item)
        resolved.statements items ∧
      (∀ item ∈ declaring.flatten, isDeclaring item = true) ∧
      ∀ item ∈ declaring.flatten ++ items, ∀ name ∈ item.reads, Declared resolved.design.declarations name := by
  obtain ⟨_, _, _, _, isGroups⟩ := moduleOf_eq_ok ok
  obtain ⟨written⟩ := groups_eq_ok (isGroups architecture is)
  obtain ⟨items, areItems, statements⟩ := statementGroups_eq_ok _ written.statementsOk
  have declaring := declared_of_declaring origin is written
  refine ⟨written.declared, items, written.isGroups.trans (congrArg _ statements), areItems,
    written.isDeclaring_declared, ?_⟩
  intro item member name isRead
  simp only [GroupsFor.declared, flatten_append, flatten_groupOf, mem_append, mem_map] at member
  obtain ((⟨decl, _, rfl⟩ | isConstant) | isObject | ⟨entry, _, rfl⟩) | isItem := member
  · rw [enumeration] at isRead
    split at isRead <;> cases isRead
  · exact declaring item (mem_append_left _ isConstant) name isRead
  · exact declaring item (mem_append_right _ isObject) name isRead
  · cases isRead
  · obtain ⟨statement, inStatements, itemOk⟩ := source_of_mem areItems isItem
    exact declared_of_leading origin inStatements itemOk name isRead

theorem isWired_of_mem (ok : (moduleOf Dialect.legacy.profile resolved).result = .ok module)
    (member : pair ∈ shadows Dialect.legacy.profile resolved) : IsWired resolved module pair := by
  have isShadow : (Context.of Dialect.legacy.profile resolved).shadows.lookup pair.1 = some pair.2 :=
    lookup_of_mem (nodup_shadows origin) member
  have single (other : String) (found : (Context.of Dialect.legacy.profile resolved).shadows.lookup other = some pair.2) :
      other = pair.1 := by
    have inShadows : (other, pair.2) ∈ shadows Dialect.legacy.profile resolved := Vhdl.Scope.mem_of_lookup_eq_some found
    exact congrArg Prod.fst (inj_on_of_nodup_map (shadows_fresh origin _).2 inShadows member rfl)
  have shadowed : pair.1 ∈ shadowedNames resolved := mem_shadowsFor member
  obtain ⟨before, block, kind, after, split, assigns, unwritten⟩ := first_process origin shadowed
  have inDesign : .process block kind ∈ resolved.statements := by simp [split]
  obtain ⟨architecture, is, _⟩ := Vhdl.DesignUnit.mem_statements.mp (origin.resolves.classified inDesign).1
  obtain ⟨declaring, items, isGroups, areItems, areDeclaring, declared⟩ := groups_of_moduleOf origin ok is
  obtain ⟨early, here, late, forwarded, earlyLength, ⟨earlier, rfl⟩, none, one, noMore⟩ :=
    forwardings_split isShadow single not_mem_nil kind after unwritten assigns
  rw [← split] at forwarded
  refine ⟨declared_of_shadow origin ok member, ?_, ?_⟩
  · have unread : ∀ item ∈ declaring.flatten ++ items, decide (pair.2 ∈ item.reads) = false := by
      intro item inModule
      apply decide_eq_false
      intro isRead
      exact not_declared_shadow origin member (declared item inModule _ isRead)
    obtain ⟨notDeclaring, notLeading⟩ := forall_mem_append.mp unread
    have lengths : items.length =
        (forwardings (Context.of Dialect.legacy.profile resolved) [] resolved.statements).length := by
      rw [length_forwardings, areItems.length_eq]
    have nothing : declaring.flatten.filter (fun item => pair.2 ∈ item.reads) = [] :=
      filter_eq_nil_iff.mpr fun item inside => by simp [notDeclaring item inside]
    rw [Module.items, isGroups, flatten_append, filter_append, nothing, nil_append,
      filter_flatten_zipWith_cons lengths notLeading, forwarded, flatten_append, flatten_cons,
      filter_append, filter_append, none, one, noMore]
    rfl
  · rw [split] at areItems
    obtain ⟨first, item, last, rfl, isBefore, isItem, _⟩ := forall₂_append_cons areItems
    have sameLength : first.length = early.length := by rw [earlyLength, isBefore.length_eq]
    rw [forwarded, zipWith_append sameLength, zipWith_cons_cons, ← append_assoc] at isGroups
    obtain ⟨trigger, written, rfl, _⟩ := always_eq_ok isItem
    refine ⟨declaring, _, _, _, before, block, kind, after, isGroups, areDeclaring, split, ?_, assigns, unwritten,
      trigger, written, _, rfl, ?_, ?_⟩
    · rw [length_zipWith, sameLength, earlyLength, Nat.min_self]
    · have isOne : forward pair ∈ filter _ _ := one ▸ mem_singleton_self _
      exact mem_of_mem_filter isOne
    · intro assign isAssign
      obtain ⟨entry, isEntry, rfl⟩ := mem_map.mp isAssign
      obtain ⟨_, _, register, isRegister, isForward⟩ := mem_forwards.mp isEntry
      exact ⟨_, Vhdl.Scope.mem_of_lookup_eq_some isRegister, isForward⟩

theorem assigned_of_always (ok : (moduleOf profile resolved).result = .ok module)
    (member : .always trigger label written ∈ module.items) :
    ∃ block kind, .process block kind ∈ resolved.statements ∧
      ∀ place blocking value remarks, .assign place blocking value remarks ∈ Verilog.bodyStmts written →
        ∃ source given line, .assign source given blocking line ∈ Vhdl.bodyStmts block.body ∧
          IsPlaceOf (((shadows profile resolved).lookup source.name).getD source.name) source.part place := by
  obtain ⟨_, inDesign, isItem⟩ := statement_of_mem_items ok member rfl
  obtain ⟨block, kind, rfl, isAlways⟩ := process_of_itemFor isItem
  refine ⟨block, kind, inDesign, fun place blocking value remarks inWritten => ?_⟩
  have hasKind : Vhdl.HasKind _ block.sensitivity block.body kind := (origin.resolves.classified inDesign).2
  rcases source_of_always hasKind isAlways inWritten with ⟨stmt, inBody, stands⟩ | ⟨_, _, same⟩
  · obtain ⟨source, given, line, rfl, placeOk⟩ := assign_of_standsFor stands
    exact ⟨source, given, line, inBody, isPlaceOf_target placeOk⟩
  · nomatch same

end

/-- The register behind a wire is found after finitely many candidates, whatever names are taken. In a module of the
older dialect, these registers have names of their own, and the wires with a register are the ones that combinational
processes drive. Each register is declared once with the type of its wire, read once, by the assignment that forwards it
behind the first process that assigns the wire, and written wherever an always block assigns the wire or a part of it. -/
theorem shadows_are_wired {source : List Char} {strict : Bool} {resolved : Resolved}
    (loaded : (load source strict).result = .ok resolved) {module : Verilog.Module}
    (ok : (moduleOf Dialect.legacy.profile resolved).result = .ok module) :
    let pairs := shadows Dialect.legacy.profile resolved
    (∀ taken name, ∃ n, freshShadow taken name = shadowCandidate name n ∧
      Text.lower (shadowCandidate name n) ∉ taken ∧ ∀ m < n, Text.lower (shadowCandidate name m) ∈ taken) ∧
    (pairs.map Prod.fst).Nodup ∧
    (pairs.map fun pair => Text.lower pair.2).Nodup ∧
    (∀ pair ∈ pairs, ∀ name ∈ resolved.names.keys, Text.lower pair.2 ≠ Text.lower name) ∧
    (∀ name, (∃ shadow, (name, shadow) ∈ pairs) ↔
      resolved.drivers.Drives .combinational name ∧ resolved.names.role? name ≠ some .var) ∧
    (∀ pair ∈ pairs, IsWired resolved module pair) ∧
    ∀ trigger label written, .always trigger label written ∈ module.items →
      ∃ block kind, .process block kind ∈ resolved.statements ∧
        ∀ place blocking value remarks, .assign place blocking value remarks ∈ Verilog.bodyStmts written →
          ∃ source given line, .assign source given blocking line ∈ Vhdl.bodyStmts block.body ∧
            IsPlaceOf ((pairs.lookup source.name).getD source.name) source.part place := by
  intro pairs
  obtain ⟨parsed, _, origin⟩ := resolvedFrom_of_load loaded
  have names : pairs.map Prod.fst = shadowedNames resolved := map_fst_shadowsFor _ _
  obtain ⟨fresh, distinct⟩ := shadows_fresh origin Dialect.legacy.profile
  refine ⟨freshShadow_first, nodup_shadows origin, distinct, ?_, fun name => ?_,
    fun pair member => isWired_of_mem origin ok member, fun _ _ _ member => assigned_of_always origin ok member⟩
  · intro pair member name isName same
    rw [Table.keys, origin.entries_names] at isName
    obtain ⟨entry, isEntry, rfl⟩ := List.mem_map.mp isName
    exact fresh pair member (same ▸ List.mem_map_of_mem isEntry)
  · rw [← mem_shadowedNames origin.nodup_drivers, ← names, List.mem_map]
    constructor
    · rintro ⟨shadow, member⟩
      exact ⟨_, member, rfl⟩
    · rintro ⟨pair, member, rfl⟩
      exact ⟨pair.2, member⟩

/-- A vector that two processes write, one element each, beside a signal with the name of its first candidate. -/
def sampleShadow : List Char :=
  ("entity e is port (a : in std_logic; y : out std_logic_vector(1 downto 0)); end; " ++
    "architecture r of e is signal Y_COMB : std_logic; begin " ++
    "process (a) begin y(0) <= a; end process; process (a) begin y(1) <= not a; end process; end;").toList

theorem sampleShadow_is_wired : ∃ resolved module, (load sampleShadow true).result = .ok resolved ∧
    (moduleOf Dialect.legacy.profile resolved).result = .ok module ∧
    shadows Dialect.legacy.profile resolved = [("y", "y_comb_1")] ∧ IsWired resolved module ("y", "y_comb_1") := by
  obtain ⟨resolved, loaded, module, written, isShadow⟩ : ∃ resolved, (load sampleShadow true).result = .ok resolved ∧
      ∃ module, (moduleOf Dialect.legacy.profile resolved).result = .ok module ∧
        shadows Dialect.legacy.profile resolved = [("y", "y_comb_1")] := by decide +kernel
  obtain ⟨_, _, _, _, _, wired, _⟩ := shadows_are_wired loaded written
  exact ⟨resolved, module, loaded, written, isShadow, wired _ (isShadow ▸ List.mem_singleton_self _)⟩

end Emission

end RtlBridge
