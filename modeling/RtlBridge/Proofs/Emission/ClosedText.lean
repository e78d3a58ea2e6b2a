import RtlBridge.Proofs.Emission.Targets
import RtlBridge.Proofs.Emission.ShadowWiring
import RtlBridge.Proofs.Verilog.Marking

/-! The names that the text of a module uses are declared before. The one exception are the literals of enumerations
in the older dialect, which has no enumerations: they are used as they are, and told in a comment only. -/

namespace RtlBridge

open List

/-! ### Elements that fit those before them -/

namespace EachAfter

variable {α β : Type} {fits weaker : List α → α → Prop} {list : List α}

theorem of_forall (all : ∀ element ∈ list, ∀ before, fits before element) : EachAfter fits list := by
  intro before element after split
  exact all element (by simp [split]) before

theorem mono (implies : ∀ before, ∀ element ∈ list, fits before element → weaker before element)
    (all : EachAfter fits list) : EachAfter weaker list := by
  intro before element after split
  exact implies before element (by simp [split]) (all before element after split)

theorem cons_iff :
    EachAfter fits (first :: list) ↔ fits [] first ∧ EachAfter (fun before => fits (first :: before)) list := by
  constructor
  · intro all
    refine ⟨all [] first list rfl, fun before element after split => ?_⟩
    exact all (first :: before) element after (by rw [split, cons_append])
  · rintro ⟨here, later⟩ before element after split
    cases before with
    | nil =>
      cases split
      exact here
    | cons other before =>
      cases split
      exact later before element after rfl

theorem append_iff :
    EachAfter fits (list ++ more) ↔ EachAfter fits list ∧ EachAfter (fun before => fits (list ++ before)) more := by
  induction list generalizing fits with
  | nil => exact ⟨fun all => ⟨.nil, all⟩, And.right⟩
  | cons first rest ih => rw [cons_append, cons_iff, ih, cons_iff, and_assoc]; rfl

theorem of_forall₂ {results : List β} (related : Forall₂ relation list results)
    (carries : ∀ before done, Forall₂ relation before done → ∀ source result, relation source result →
      fits before source → image done result) (all : EachAfter fits list) : EachAfter image results := by
  induction related generalizing fits image with
  | nil => exact .nil
  | cons here _ ih =>
    rename_i source result _ _ _
    obtain ⟨first, later⟩ := cons_iff.mp all
    refine cons_iff.mpr ⟨carries [] [] .nil _ _ here first, ih (fun before done earlier => ?_) later⟩
    exact carries (source :: before) (result :: done) (.cons here earlier)

theorem flatMap_iff {list : List β} :
    EachAfter fits (list.flatMap view) ↔
      EachAfter (fun earlier element => EachAfter (fun inside => fits (earlier.flatMap view ++ inside)) (view element))
        list := by
  induction list generalizing fits with
  | nil => exact ⟨fun _ => .nil, fun _ => .nil⟩
  | cons first rest ih =>
    rw [flatMap_cons, append_iff, ih, cons_iff]
    simp only [flatMap_nil, nil_append, flatMap_cons, append_assoc]

theorem flatMap {list : List β} (more : ∀ before after element, fits after element → fits (before ++ after) element)
    (each : ∀ element ∈ list, EachAfter fits (view element)) : EachAfter fits (list.flatMap view) := by
  rw [flatMap_iff]
  apply of_forall
  intro element member earlier
  exact (each element member).mono fun before inner _ => more _ before inner

end EachAfter

namespace Verilog

/-! ### Texts from items -/

/-- Whether a piece of text, if it is a name in use, stands behind one that declares or mentions it. -/
def Fragment.IsBound (before : List Fragment) (fragment : Fragment) : Prop :=
  fragment.mark = .uses → ⟨.declares, fragment.text⟩ ∈ before ∨ ⟨.mentions, fragment.text⟩ ∈ before

theorem Fragment.isBound_code (before : List Fragment) (text : String) : IsBound before (code text) := by
  intro isUse
  cases isUse

def Item.binds (item : Item) : List String := item.declares ++ item.mentions

theorem Item.mentions_of_declaration? {item : Item} (isDecl : item.declaration? = some decl) : item.mentions = [] := by
  cases item with
  | enumNote enum => cases isDecl
  | _ => rfl

/-- Whether an item declares or mentions a name, or a port has it. -/
def Binds (ports : List String) (items : List Item) (name : String) : Prop :=
  name ∈ ports ∨ ∃ item ∈ items, name ∈ item.binds

theorem Binds.mono (inside : items ⊆ more) (binds : Binds ports items name) : Binds ports more name := by
  obtain isPort | ⟨item, member, inItem⟩ := binds
  · exact .inl isPort
  · exact .inr ⟨item, inside member, inItem⟩

theorem named_item (isNaming : mark.isNaming = true) (unit : String) (item : Item) :
    named mark (Module.ended (item.marked unit 1)) = item.named mark := by
  rw [Module.named_ended isNaming, item.named_marked isNaming]

theorem mem_item_of_binds (unit : String) {item : Item} (binds : name ∈ item.binds) :
    ⟨.declares, name⟩ ∈ Module.ended (item.marked unit 1) ∨ ⟨.mentions, name⟩ ∈ Module.ended (item.marked unit 1) := by
  obtain declared | mentioned := mem_append.mp binds
  · left
    rw [← mem_named, named_item rfl]
    simpa [Item.named, Mark.only] using declared
  · right
    rw [← mem_named, named_item rfl]
    simpa [Item.named, Mark.only] using mentioned

namespace Module

variable (module : Module) (unit : String)

theorem isBound_fragments
    (each : EachAfter (fun earlier item => ∀ name ∈ item.uses, Binds (module.ports.map Port.name) earlier name)
      module.groups.flatten) : EachAfter Fragment.IsBound (module.fragments unit) := by
  have unused (before : List Fragment) {fragments : List Fragment} (none : named .uses fragments = []) :
      EachAfter (fun inside => Fragment.IsBound (before ++ inside)) fragments := by
    apply EachAfter.of_forall
    intro fragment member inside isUse
    obtain ⟨mark, text⟩ := fragment
    cases isUse
    rw [← mem_named, none] at member
    cases member
  have groups : module.groups.flatten = module.groups.flatMap id := by rw [flatMap_id]
  rw [groups, EachAfter.flatMap_iff] at each
  rw [fragments_eq, EachAfter.append_iff, EachAfter.append_iff, EachAfter.flatMap_iff]
  refine ⟨⟨unused [] ?_, each.mono fun earlier group _ inGroup => ?_⟩, unused _ ?_⟩
  · rw [named_opening rfl]
    rfl
  · refine EachAfter.cons_iff.mpr ⟨Fragment.isBound_code _ _, ?_⟩
    refine EachAfter.flatMap_iff.mpr (inGroup.mono fun done item _ fits => ?_)
    apply EachAfter.of_forall
    intro fragment member inside isUse
    obtain ⟨mark, text⟩ := fragment
    cases isUse
    rw [← mem_named, named_item rfl] at member
    obtain isPort | ⟨other, isEarlier, binds⟩ := fits text (by simpa [Item.named, Mark.only] using member)
    · left
      apply mem_append_left
      rw [← mem_named, named_opening rfl]
      exact isPort
    · have inText : ∀ piece ∈ ended (other.marked unit 1), piece ∈ ended (module.opening unit) ++
          (earlier.flatMap (fun group => code "\n" :: group.flatMap fun item => ended (item.marked unit 1)) ++
            code "\n" :: (done.flatMap (fun item => ended (item.marked unit 1)) ++ inside)) := by
        intro piece isPiece
        apply mem_append_right
        obtain inEarlier | inDone := mem_append.mp isEarlier
        · apply mem_append_left
          obtain ⟨group, isGroup, inGroup⟩ := mem_flatMap.mp inEarlier
          refine mem_flatMap.mpr ⟨group, isGroup, mem_cons_of_mem _ ?_⟩
          exact mem_flatMap.mpr ⟨other, inGroup, isPiece⟩
        · apply mem_append_right
          apply mem_cons_of_mem
          apply mem_append_left
          exact mem_flatMap.mpr ⟨other, inDone, isPiece⟩
      exact (mem_item_of_binds unit binds).imp (inText _) (inText _)
  · rfl

end Module

/-! ### Names in items -/

theorem Expr.mem_names {place : Expr} {name : String} (member : name ∈ place.names) :
    name ∈ place.placeReads ∨ place.root? = some name := by
  induction place using Expr.induction with
  | name text => exact .inr (congrArg some (mem_singleton.mp member).symm)
  | index base subscript inBase _ =>
    obtain inside | inSubscript := mem_append.mp member
    · exact (inBase inside).imp_left (mem_append_left _)
    · exact .inl (mem_append_right _ inSubscript)
  | slice base left right inBase _ _ =>
    rw [Expr.names, append_assoc] at member
    rw [placeReads, append_assoc]
    obtain inside | inRange := mem_append.mp member
    · exact (inBase inside).imp_left (mem_append_left _)
    · exact .inl (mem_append_right _ inRange)
  | _ => exact .inl member

theorem Stmt.mem_uses (stmt : Stmt) (isUsed : name ∈ stmt.uses) :
    name ∈ stmt.ownReads ∨ (∃ place, stmt.target? = some place ∧ place.root? = some name) ∨
      name ∈ stmt.children.flatMap uses := by
  cases stmt with
  | assign target blocking value remarks =>
    obtain inTarget | inValue := mem_append.mp isUsed
    · obtain isRead | isRoot := Expr.mem_names inTarget
      · exact .inl (mem_append_left _ isRead)
      · exact .inr (.inl ⟨target, rfl, isRoot⟩)
    · exact .inl (mem_append_right _ inValue)
  | conditional branches otherwise =>
    cases otherwise <;> simp only [uses, ownReads, children, branchUses_eq_flatMap, bodyUses_eq_flatMap, optionUses,
      Option.getD, flatMap_append, flatMap_assoc, flatMap_nil, mem_append, mem_flatMap_append,
      or_assoc] at isUsed ⊢ <;> exact isUsed.imp_right .inr
  | selection unique selector arms default =>
    cases default <;> simp only [uses, ownReads, children, armUses_eq_flatMap, bodyUses_eq_flatMap, optionUses,
      Option.getD, flatMap_append, flatMap_assoc, flatMap_nil, mem_append, mem_flatMap_append,
      or_assoc] at isUsed ⊢ <;> exact isUsed.imp_right (.imp_right .inr)
  | placeholder comment => cases isUsed

theorem Stmt.takesPart_of_mem_uses (stmt : Stmt) (isUsed : name ∈ stmt.uses) :
    ∃ inner ∈ stmt.stmts, name ∈ inner.ownReads ∨ ∃ place, inner.target? = some place ∧ place.root? = some name := by
  induction stmt using Stmt.childInduction with
  | step stmt ih =>
    obtain own | isTarget | inside := stmt.mem_uses isUsed
    · exact ⟨stmt, mem_stmts.mpr (.inl rfl), .inl own⟩
    · exact ⟨stmt, mem_stmts.mpr (.inl rfl), .inr isTarget⟩
    · obtain ⟨child, isChild, inChild⟩ := mem_flatMap.mp inside
      obtain ⟨inner, isInner, found⟩ := ih child isChild inChild
      exact ⟨inner, mem_stmts.mpr (.inr ⟨child, isChild, isInner⟩), found⟩

theorem takesPart_of_body (isUsed : name ∈ bodyUses body) :
    name ∈ (bodyStmts body).flatMap Stmt.ownReads ∨ ∃ place ∈ bodyTargets body, place.root? = some name := by
  rw [bodyUses_eq_flatMap] at isUsed
  obtain ⟨stmt, member, inStmt⟩ := mem_flatMap.mp isUsed
  obtain ⟨inner, isInner, found⟩ := stmt.takesPart_of_mem_uses inStmt
  have inBody : inner ∈ bodyStmts body := by
    rw [bodyStmts_eq_flatMap]
    exact mem_flatMap.mpr ⟨stmt, member, isInner⟩
  obtain isRead | ⟨place, isPlace, isRoot⟩ := found
  · exact .inl (mem_flatMap.mpr ⟨inner, inBody, isRead⟩)
  · exact .inr ⟨place, mem_filterMap.mpr ⟨inner, inBody, isPlace⟩, isRoot⟩

end Verilog

/-! ### Declarations -/

namespace Emission

open Verilog (Binds Item Mark Module Port named)
open Vhdl (DataType Design NameInfo Resolved ResolvedStmt Architecture Expr Scope literalInfos)

def BindsAll (ports : List String) (items : List Item) (visible : List (String × NameInfo)) : Prop :=
  ∀ entry ∈ visible, Binds ports items entry.1

section

variable {context : Context} {ports : List String} {items more : List Item}

theorem BindsAll.mono (inside : items ⊆ more) (binds : BindsAll ports items visible) : BindsAll ports more visible :=
  fun entry member => (binds entry member).mono inside

theorem BindsAll.append (bindsFirst : BindsAll ports items first) (bindsSecond : BindsAll ports items second)
    : BindsAll ports items (first ++ second) := forall_mem_append.mpr ⟨bindsFirst, bindsSecond⟩

theorem BindsAll.of_expr (binds : BindsAll ports items visible) (isScoped : source.IsScoped visible)
    (ok : given context width source = .ok written) : ∀ name ∈ written.names, Binds ports items name := by
  intro name isUsed
  obtain ⟨info, declared⟩ := declared_of_expr isScoped ok name isUsed
  exact binds _ declared

theorem bindsAll_ports (sources : List (Vhdl.Port DataType)) (items : List Item) :
    BindsAll (sources.map Vhdl.Port.name) items (Vhdl.portInfos sources) := by
  intro entry member
  obtain ⟨source, isSource, rfl⟩ := mem_map.mp member
  exact .inl (mem_map_of_mem isSource)

theorem binds_enumeration (profile : Profile) (enum : Vhdl.EnumType) : (enumeration profile enum).binds = enum.literals := by
  rw [enumeration, Item.binds]
  split <;> simp [Item.declares, Item.mentions, Function.comp_def]

theorem bindsAll_literals (profile : Profile) (enums : List Vhdl.EnumDecl) :
    BindsAll ports (enums.map fun decl => enumeration profile decl.type) (literalInfos enums) := by
  intro entry member
  obtain ⟨decl, isDecl, inDecl⟩ := mem_flatMap.mp member
  obtain ⟨literal, isLiteral, rfl⟩ := mem_map.mp inDecl
  refine .inr ⟨_, mem_map_of_mem isDecl, ?_⟩
  rw [binds_enumeration]
  exact isLiteral

theorem bindsAll_constants (written : Forall₂ (fun decl item => constant context decl = .ok item) decls items) :
    BindsAll ports items (Vhdl.constantInfos decls) := by
  intro entry member
  obtain ⟨decl, isDecl, rfl⟩ := mem_map.mp member
  obtain ⟨item, isItem, ok⟩ := result_of_mem written isDecl
  obtain ⟨value, _, ok⟩ := bind_eq_ok.mp ok
  cases ok
  exact .inr ⟨_, isItem, mem_singleton_self _⟩

theorem binds_of_object (written : Forall₂ (fun decl item => object context decl = .ok item) decls items)
    (member : name ∈ decls.map Vhdl.ObjectDecl.name) : Binds ports items name := by
  obtain ⟨decl, isDecl, rfl⟩ := mem_map.mp member
  obtain ⟨item, isItem, ok⟩ := result_of_mem written isDecl
  obtain ⟨init, remarks, rfl⟩ := object_eq_ok ok
  exact .inr ⟨_, isItem, mem_singleton_self _⟩

end

/-- An object whose initial value sees some declarations and the objects before it. -/
def SeesBefore (visible : List (String × NameInfo)) (before : List (Vhdl.ObjectDecl DataType))
    (decl : Vhdl.ObjectDecl DataType) : Prop :=
  ∀ value ∈ decl.init, ∃ seen, value.IsScoped seen ∧
    ∀ entry ∈ seen, entry ∈ visible ∨ entry.1 ∈ before.map Vhdl.ObjectDecl.name

theorem seesBefore_objects {design : Design} (isScoped : design.IsScoped) {body : Architecture DataType}
    (is : design.architecture = some body) :
    EachAfter (SeesBefore (Vhdl.portInfos design.entity.ports ++ literalInfos body.enums ++
      Vhdl.constantInfos body.constants)) (body.signals ++ body.processes.flatMap (·.vars)) := by
  have globals := Vhdl.Design.globals_of_architecture is
  have isName {role : Role} {decls : List (Vhdl.ObjectDecl DataType)} {entry : String × NameInfo}
      (member : entry ∈ Vhdl.objectInfos role decls) : entry.1 ∈ decls.map Vhdl.ObjectDecl.name := by
    obtain ⟨decl, isDecl, rfl⟩ := mem_map.mp member
    exact mem_map_of_mem isDecl
  rw [EachAfter.append_iff]
  constructor
  · refine (isScoped.signals body is).mono fun before decl _ inScope value isInit => ⟨_, inScope value isInit, ?_⟩
    exact fun entry member => (mem_append.mp member).imp_right isName
  · apply EachAfter.flatMap
    · intro before after decl sees value isInit
      obtain ⟨seen, inScope, covered⟩ := sees value isInit
      refine ⟨seen, inScope, fun entry member => (covered entry member).imp_right fun isBefore => ?_⟩
      simp only [map_append, mem_append] at isBefore ⊢
      tauto
    · intro block isProcess
      have inDesign : .process block ∈ design.statements :=
        Vhdl.DesignUnit.mem_statements.mpr ⟨body, is, Architecture.mem_processes.mp isProcess⟩
      have blockScoped : block.IsScoped design.globals := isScoped.statements _ inDesign
      refine blockScoped.vars.mono fun before decl _ inScope value isInit => ⟨_, inScope value isInit, ?_⟩
      intro entry member
      rw [globals, append_assoc] at member
      refine (mem_append.mp member).imp_right fun isObject => ?_
      rw [map_append, mem_append]
      exact (mem_append.mp isObject).imp isName isName

theorem binds_before_constants {design : Design} (isScoped : design.IsScoped) {body : Architecture DataType}
    (is : design.architecture = some body)
    (binds : BindsAll ports items (Vhdl.portInfos design.entity.ports ++ literalInfos body.enums))
    (written : Forall₂ (fun decl item => constant context decl = .ok item) body.constants constants) :
    EachAfter (fun earlier item => ∀ name ∈ item.uses, Binds ports (items ++ earlier) name) constants := by
  refine EachAfter.of_forall₂ written (fun before done related decl item ok fits => ?_) (isScoped.constants body is)
  have visible : BindsAll ports (items ++ done) (Vhdl.portInfos design.entity.ports ++ literalInfos body.enums ++
      Vhdl.constantInfos before) :=
    (binds.mono (subset_append_left ..)).append ((bindsAll_constants related).mono (subset_append_right ..))
  obtain ⟨value, valueOk, ok⟩ := bind_eq_ok.mp ok
  cases ok
  exact visible.of_expr fits valueOk

theorem binds_before_objects (binds : BindsAll ports items visible) (sees : EachAfter (SeesBefore visible) decls)
    (written : Forall₂ (fun decl item => object context decl = .ok item) decls objects) :
    EachAfter (fun earlier item => ∀ name ∈ item.uses, Binds ports (items ++ earlier) name) objects := by
  refine EachAfter.of_forall₂ written (fun before done related decl item ok fits => ?_) sees
  intro name isUsed
  have isRead : name ∈ item.reads := by
    obtain ⟨init, remarks, rfl⟩ := object_eq_ok ok
    exact isUsed
  obtain ⟨value, result, isInit, resultOk, inResult⟩ := init_of_object ok isRead
  obtain ⟨seen, inScope, covered⟩ := fits value isInit
  have bindsSeen : BindsAll ports (items ++ done) seen := by
    intro entry isSeen
    obtain isVisible | isBefore := covered entry isSeen
    · exact (binds entry isVisible).mono (subset_append_left ..)
    · exact (binds_of_object related isBefore).mono (subset_append_right ..)
  exact bindsSeen.of_expr inScope resultOk name inResult

theorem name_port (context : Context) (source : Vhdl.Port DataType) : (port context source).name = source.name := by
  rw [port]
  cases source.direction <;> rfl

namespace GroupsFor

variable {context : Context} {body : Architecture DataType} {groups : List (List Item)}
  (written : GroupsFor context body groups)

theorem flatten_declared : written.declared.flatten =
    (body.enums.map fun decl => enumeration context.profile decl.type) ++ (written.constants ++
      (written.objects ++ context.shadows.map fun entry => shadow context entry.1 entry.2)) := by
  simp only [declared, flatten_append, flatten_groupOf, append_assoc]

theorem bindsAll_declared (is : context.resolved.design.architecture = some body) :
    BindsAll (context.resolved.design.entity.ports.map Vhdl.Port.name) written.declared.flatten
      context.resolved.design.declarations := by
  have isObject {name : String}
      (isName : name ∈ (body.signals ++ body.processes.flatMap (·.vars)).map Vhdl.ObjectDecl.name) :
      Binds (context.resolved.design.entity.ports.map Vhdl.Port.name) written.declared.flatten name := by
    apply (binds_of_object (mapM_eq_ok_iff.mp written.objectsOk) isName).mono
    intro item isItem
    simp [written.flatten_declared, isItem]
  intro entry member
  rw [Design.declarations, Design.globals, is] at member
  simp only [mem_append] at member
  obtain (isPort | (isLiteral | isConstant) | isSignal) | isVar := member
  · exact bindsAll_ports _ _ entry isPort
  · apply (bindsAll_literals context.profile body.enums entry isLiteral).mono
    simp [written.flatten_declared]
  · apply (bindsAll_constants (mapM_eq_ok_iff.mp written.constantsOk) entry isConstant).mono
    simp [written.flatten_declared]
  · obtain ⟨decl, isDecl, rfl⟩ := mem_map.mp isSignal
    exact isObject (mem_map_of_mem (mem_append_left _ isDecl))
  · obtain ⟨block, isProcess, isVar⟩ := mem_flatMap.mp isVar
    obtain ⟨decl, isDecl, rfl⟩ := mem_map.mp isVar
    rw [Vhdl.DesignUnit.statements, is] at isProcess
    exact isObject (mem_map_of_mem (mem_append_right _ (mem_flatMap.mpr ⟨block, isProcess, isDecl⟩)))

theorem binds_shadow (isShadow : name ∈ context.shadows.map Prod.snd) (ports : List String) :
    Binds ports written.declared.flatten name := by
  obtain ⟨pair, member, rfl⟩ := mem_map.mp isShadow
  refine .inr ⟨shadow context pair.1 pair.2, ?_, mem_singleton_self _⟩
  rw [written.flatten_declared]
  simp only [mem_append, mem_map]
  exact .inr (.inr (.inr ⟨pair, member, rfl⟩))

theorem binds_before_declared (isScoped : context.resolved.design.IsScoped)
    (is : context.resolved.design.architecture = some body) :
    EachAfter (fun earlier item => ∀ name ∈ item.uses,
      Binds (context.resolved.design.entity.ports.map Vhdl.Port.name) earlier name) written.declared.flatten := by
  have bindsFirst := (bindsAll_ports context.resolved.design.entity.ports _).append
    (bindsAll_literals context.profile body.enums)
  have constants := mapM_eq_ok_iff.mp written.constantsOk
  have bindsSecond := (bindsFirst.mono (subset_append_left _ written.constants)).append
    ((bindsAll_constants constants).mono (subset_append_right ..))
  rw [written.flatten_declared, EachAfter.append_iff, EachAfter.append_iff, EachAfter.append_iff]
  refine ⟨EachAfter.of_forall ?_, binds_before_constants isScoped is bindsFirst constants, ?_, EachAfter.of_forall ?_⟩
  · intro item member
    obtain ⟨decl, _, rfl⟩ := mem_map.mp member
    rw [enumeration]
    split <;> exact fun _ => forall_mem_nil _
  · have objects := binds_before_objects bindsSecond (seesBefore_objects isScoped is) (mapM_eq_ok_iff.mp written.objectsOk)
    exact objects.mono fun before item _ => by simp only [append_assoc, imp_self]
  · intro item member
    obtain ⟨pair, _, rfl⟩ := mem_map.mp member
    exact fun _ => forall_mem_nil _

end GroupsFor

/-! ### Statements -/

theorem declared_of_root {context : Context} (declared : Declared visible written)
    (isRoot : some ((context.shadows.lookup written).getD written) = some name) :
    Declared visible name ∨ name ∈ context.shadows.map Prod.snd := by
  cases found : context.shadows.lookup written with
  | none =>
    rw [found] at isRoot
    cases isRoot
    exact .inl declared
  | some shadow =>
    rw [found] at isRoot
    cases isRoot
    exact .inr (mem_map_of_mem (Scope.mem_of_lookup_eq_some found))

section

variable {parsed : Vhdl.DesignUnit Vhdl.TypeMark} {resolved : Resolved} (origin : Vhdl.ResolvedFrom parsed resolved)
  {profile : Profile} {module : Module}

include origin

theorem declared_of_itemFor (inDesign : statement ∈ resolved.statements)
    (isItem : ItemFor (Context.of profile resolved) statement item) :
    ∀ name ∈ item.uses, Declared resolved.design.declarations name ∨
      name ∈ (Context.of profile resolved).shadows.map Prod.snd := by
  have written {name : String} (isWritten : Vhdl.DriverTable.WrittenBy statement name) :
      Declared resolved.design.declarations name := by
    obtain ⟨info, _, declared, _⟩ := origin.isScoped.declares_written origin.resolves inDesign isWritten
    exact ⟨info, declared⟩
  have assigned {source : Vhdl.Target} {choices : List (Expr × Expr)} {last : Expr}
      (isWritten : Vhdl.DriverTable.WrittenBy statement source.name)
      (ok : continuous (Context.of profile resolved) source choices last = .ok item)
      (leads : (leading (Context.of profile resolved) statement).result = .ok item) :
      ∀ name ∈ item.uses, Declared resolved.design.declarations name ∨
        name ∈ (Context.of profile resolved).shadows.map Prod.snd := by
    obtain ⟨value, place, _, _, placeOk, rfl⟩ := continuous_eq_ok ok
    have reads := declared_of_leading origin inDesign leads
    intro name isUsed
    obtain inPlace | inValue := mem_append.mp isUsed
    · obtain isRead | isRoot := Verilog.Expr.mem_names inPlace
      · exact .inl (reads name (mem_append_left _ isRead))
      · exact declared_of_root (written isWritten) ((root?_target placeOk).symm.trans isRoot)
    · exact .inl (reads name (mem_append_right _ inValue))
  cases isItem with
  | always isAlways =>
    rename_i block kind
    have leads : (leading (Context.of profile resolved) (.process block kind)).result = .ok item := isAlways
    have reads := declared_of_leading origin inDesign leads
    obtain ⟨trigger, list, rfl, _⟩ := always_eq_ok isAlways
    intro name isUsed
    obtain inTrigger | inBody := mem_append.mp isUsed
    · exact .inl (reads name (mem_append_left _ inTrigger))
    · obtain isRead | ⟨place, isTarget, isRoot⟩ := Verilog.takesPart_of_body inBody
      · exact .inl (reads name (mem_append_right _ isRead))
      · have hasKind : Vhdl.HasKind _ block.sensitivity block.body kind := (origin.resolves.classified inDesign).2
        have all : ∀ write ∈ Vhdl.bodyWrites false block.body, Declared resolved.design.declarations write.1 :=
          fun write isWrite => written ⟨_, _, rfl, mem_map_of_mem isWrite⟩
        obtain ⟨source, declared, isPlace⟩ := writes_of_always hasKind all isAlways place isTarget
        exact declared_of_root declared (isPlace.symm.trans isRoot)
  | forward writes shadowed =>
    refine forall_mem_cons.mpr ⟨.inl (written ⟨_, _, rfl, writes⟩), forall_mem_singleton.mpr (.inr ?_)⟩
    exact mem_map_of_mem (Scope.mem_of_lookup_eq_some shadowed)
  | assign ok | conditional ok =>
    apply assigned ⟨_, _, rfl, mem_singleton_self _⟩ ok
    rw [leading, ok]
    rfl
  | placeholder => exact forall_mem_nil _

theorem binds_before (ok : (moduleOf profile resolved).result = .ok module) :
    EachAfter (fun earlier item => ∀ name ∈ item.uses, Binds (module.ports.map Port.name) earlier name)
      module.groups.flatten := by
  obtain ⟨_, _, isPorts, none, some⟩ := moduleOf_eq_ok ok
  have ports : module.ports.map Port.name = resolved.design.entity.ports.map Vhdl.Port.name := by
    rw [isPorts, map_map]
    apply map_congr_left
    intro source _
    exact name_port _ source
  cases is : resolved.design.architecture with
  | none =>
    rw [none is]
    exact .nil
  | some body =>
    obtain ⟨written⟩ := groups_eq_ok (some body is)
    have declared : EachAfter (fun earlier item => ∀ name ∈ item.uses,
        Binds (resolved.design.entity.ports.map Vhdl.Port.name) earlier name) written.declared.flatten :=
      written.binds_before_declared origin.isScoped is
    rw [ports, written.isGroups, flatten_append, EachAfter.append_iff]
    refine ⟨declared, EachAfter.of_forall fun item member before name isUsed => ?_⟩
    obtain ⟨statement, inDesign, isItem⟩ := mem_statementGroups written.statementsOk member
    obtain ⟨info, isDeclared⟩ | isShadow := declared_of_itemFor origin inDesign isItem name isUsed
    · exact (written.bindsAll_declared is _ isDeclared).mono (subset_append_left ..)
    · exact (written.binds_shadow isShadow _).mono (subset_append_left ..)

/-! ### Literals of enumerations -/

omit origin in
theorem binds_of_statement (other : isDeclaring item = false) : item.binds = [] := by
  cases item <;> first | rfl | cases other

omit origin in
theorem binder_cases (ok : (moduleOf profile resolved).result = .ok module) {item : Item}
    (member : item ∈ module.items) {name : String} (binds : name ∈ item.binds) :
    (∃ body, resolved.design.architecture = some body ∧ ∃ decl ∈ body.enums, name ∈ decl.type.literals ∧
      item = enumeration profile decl.type) ∨ ∃ decl, item.declaration? = some decl ∧ decl.name = name := by
  obtain ⟨_, _, _, none, some⟩ := moduleOf_eq_ok ok
  rw [Module.items] at member
  cases is : resolved.design.architecture with
  | none =>
    rw [none is] at member
    cases member
  | some body =>
    obtain ⟨written⟩ := groups_eq_ok (some body is)
    rw [written.isGroups, flatten_append] at member
    obtain isDeclaring | isStatement := mem_append.mp member
    · change item ∈ written.declared.flatten at isDeclaring
      simp only [written.flatten_declared, mem_append, mem_map] at isDeclaring
      obtain ⟨decl, isDecl, rfl⟩ | isConstant | isObject | ⟨pair, _, rfl⟩ := isDeclaring
      · rw [binds_enumeration] at binds
        exact .inl ⟨body, rfl, decl, isDecl, binds, rfl⟩
      · obtain ⟨decl, _, ok⟩ := (mapM_eq_ok written.constantsOk).2 item isConstant
        obtain ⟨value, _, ok⟩ := bind_eq_ok.mp ok
        cases ok
        exact .inr ⟨_, rfl, (mem_singleton.mp binds).symm⟩
      · obtain ⟨decl, _, ok⟩ := (mapM_eq_ok written.objectsOk).2 item isObject
        obtain ⟨init, remarks, rfl⟩ := object_eq_ok ok
        exact .inr ⟨_, rfl, (mem_singleton.mp binds).symm⟩
      · exact .inr ⟨_, rfl, (mem_singleton.mp binds).symm⟩
    · obtain ⟨statement, _, isItem⟩ := mem_statementGroups written.statementsOk isStatement
      rw [binds_of_statement (isDeclaring_of_itemFor isItem)] at binds
      cases binds

omit origin in
/-- With enumerations there is nothing that a comment has to mention. -/
theorem not_mentioned (ok : (moduleOf profile resolved).result = .ok module) (typed : profile.typedEnums = true)
    {item : Item} (member : item ∈ module.items) {name : String} : name ∉ item.mentions := by
  intro mentioned
  obtain ⟨_, _, decl, _, _, rfl⟩ | ⟨decl, isDecl, _⟩ := binder_cases ok member (mem_append_right _ mentioned)
  · rw [enumeration, if_pos typed] at mentioned
    cases mentioned
  · rw [Item.mentions_of_declaration? isDecl] at mentioned
    cases mentioned

theorem role_of_mentioned (ok : (moduleOf profile resolved).result = .ok module) (member : item ∈ module.items)
    (mentioned : name ∈ item.mentions) : resolved.names.role? name = some .enumLiteral := by
  obtain ⟨body, is, decl, isDecl, isLiteral, _⟩ | ⟨decl, isDecl, _⟩ :=
    binder_cases ok member (mem_append_right _ mentioned)
  · exact origin.role_of_literal is isDecl isLiteral
  · rw [Item.mentions_of_declaration? isDecl] at mentioned
    cases mentioned

theorem role_of_declaration (ok : (moduleOf profile resolved).result = .ok module) (member : decl ∈ module.declarations)
    : resolved.names.role? decl.name ≠ some .enumLiteral := by
  have isName := (names_writtenDeclarations_sublist (Context.of profile resolved)).subset
    (declarations_of_moduleOf ok ▸ mem_map_of_mem member)
  obtain isObject | isShadow := mem_append.mp isName
  · obtain ⟨⟨name, type⟩, inObjects, same⟩ := mem_map.mp isObject
    obtain ⟨role, notLiteral, declared⟩ := Vhdl.declared_of_mem_objects inObjects
    rw [← same, Vhdl.NameTable.role?, origin.find?_names declared]
    exact fun isRole => notLiteral (Option.some.inj isRole)
  · obtain ⟨pair, isPair, same⟩ := mem_map.mp isShadow
    intro isRole
    obtain ⟨info, found, _⟩ := Option.map_eq_some_iff.mp isRole
    have declared : (decl.name, info) ∈ resolved.design.declarations :=
      origin.entries_names ▸ Scope.mem_of_lookup_eq_some found
    apply (shadows_fresh origin profile).1 pair isPair
    exact mem_map.mpr ⟨_, declared, congrArg Text.lower same.symm⟩

omit origin in
theorem declaration_of_declares (ok : (moduleOf profile resolved).result = .ok module)
    (untyped : profile.typedEnums = false) {unit name : String} (declared : ⟨.declares, name⟩ ∈ module.fragments unit) :
    ∃ decl ∈ module.declarations, decl.name = name := by
  rw [← Verilog.mem_named, Module.named_fragments rfl, mem_append, Mark.only_self] at declared
  obtain isPort | isItem := declared
  · obtain ⟨port, member, rfl⟩ := mem_map.mp isPort
    exact ⟨port.declaration, mem_append_left _ (mem_map_of_mem member), rfl⟩
  · obtain ⟨item, member, isNamed⟩ := mem_flatMap.mp isItem
    have declares : name ∈ item.declares := by simpa [Item.named, Mark.only] using isNamed
    obtain ⟨_, _, decl, _, _, rfl⟩ | ⟨decl, isDecl, isName⟩ := binder_cases ok member (mem_append_left _ declares)
    · rw [enumeration, untyped] at declares
      cases declares
    · exact ⟨decl, mem_append_right _ (mem_filterMap.mpr ⟨item, member, isDecl⟩), isName⟩

omit origin in
theorem item_of_mentions {unit name : String} (mentioned : ⟨.mentions, name⟩ ∈ module.fragments unit) :
    ∃ item ∈ module.items, name ∈ item.mentions := by
  rw [← Verilog.mem_named, Module.named_fragments rfl, mem_append] at mentioned
  obtain isPort | isItem := mentioned
  · cases isPort
  · obtain ⟨item, member, isNamed⟩ := mem_flatMap.mp isItem
    exact ⟨item, member, by simpa [Item.named, Mark.only] using isNamed⟩

end

/-- Every name that the text of a module uses in an expression, as a target or as an event is declared before, with
one exception: the older dialect uses the literals of enumerations without a declaration, and only a comment before
mentions them. -/
theorem used_names_are_declared {source : List Char} {strict : Bool} {resolved : Resolved}
    (loaded : (load source strict).result = .ok resolved) {dialect : Dialect} {indent : Int} {text : String}
    (rendered : (render resolved dialect indent).result = .ok text) :
    ∃ unit module, Text.run ' ' indent = .ok unit ∧ (moduleOf dialect.profile resolved).result = .ok module ∧
      Verilog.textOf (module.fragments unit) = text ∧
      ∀ before name after, module.fragments unit = before ++ ⟨.uses, name⟩ :: after →
        if dialect = .legacy ∧ resolved.names.role? name = some .enumLiteral then
          ⟨.mentions, name⟩ ∈ before ∧ ⟨.declares, name⟩ ∉ module.fragments unit
        else ⟨.declares, name⟩ ∈ before := by
  obtain ⟨parsed, _, origin⟩ := resolvedFrom_of_load loaded
  obtain ⟨unit, module, isUnit, ok, rfl⟩ := render_eq_ok rendered
  refine ⟨unit, module, isUnit, ok, module.textOf_fragments unit, fun before name after split => ?_⟩
  have bound := module.isBound_fragments unit (binds_before origin ok) before ⟨.uses, name⟩ after split rfl
  have inText {piece : Verilog.Fragment} (isBefore : piece ∈ before) : piece ∈ module.fragments unit := by
    rw [split]
    exact List.mem_append_left _ isBefore
  cases dialect with
  | legacy =>
    simp only [true_and]
    split
    · rename_i isLiteral
      have undeclared : ⟨.declares, name⟩ ∉ module.fragments unit := by
        intro declared
        obtain ⟨decl, member, rfl⟩ := declaration_of_declares ok rfl declared
        exact role_of_declaration origin ok member isLiteral
      exact ⟨bound.resolve_left fun declared => undeclared (inText declared), undeclared⟩
    · rename_i notLiteral
      refine bound.resolve_right fun mentioned => notLiteral ?_
      obtain ⟨item, member, inItem⟩ := item_of_mentions (inText mentioned)
      exact role_of_mentioned origin ok member inItem
  | strict =>
    rw [if_neg (by simp)]
    refine bound.resolve_right fun mentioned => ?_
    obtain ⟨item, member, inItem⟩ := item_of_mentions (inText mentioned)
    exact not_mentioned ok rfl member inItem

def sampleState : List Char :=
  ("entity e is port (y : out bit); end; architecture r of e is type t is (p, q); signal s : t := p; begin " ++
    "y <= '1' when s = q else '0'; end;").toList

theorem sampleState_names : ∃ resolved, (load sampleState true).result = .ok resolved ∧
    ∃ module, (moduleOf Dialect.legacy.profile resolved).result = .ok module ∧
      (∃ text, (render resolved .legacy 2).result = .ok text ∧ text = module.text "  ") ∧
      named .uses (module.fragments "  ") = ["p", "y", "s", "q"] ∧
      named .declares (module.fragments "  ") = ["y", "s"] := by decide +kernel

theorem used_names_of_sampleState : ∃ resolved text, (load sampleState true).result = .ok resolved ∧
    (render resolved .legacy 2).result = .ok text ∧
    ∃ unit module, Text.run ' ' 2 = .ok unit ∧ (moduleOf Dialect.legacy.profile resolved).result = .ok module ∧
      Verilog.textOf (module.fragments unit) = text ∧
      ∀ before name after, module.fragments unit = before ++ ⟨.uses, name⟩ :: after →
        if resolved.names.role? name = some .enumLiteral then
          ⟨.mentions, name⟩ ∈ before ∧ ⟨.declares, name⟩ ∉ module.fragments unit
        else ⟨.declares, name⟩ ∈ before := by
  obtain ⟨resolved, loaded, module, _, ⟨_, rendered, _⟩, _⟩ := sampleState_names
  refine ⟨resolved, _, loaded, rendered, ?_⟩
  simpa using used_names_are_declared loaded rendered

/-- The older dialect uses a literal that nothing declares. -/
theorem literal_undeclared_in_sampleState : ∃ resolved module, (load sampleState true).result = .ok resolved ∧
    (render resolved .legacy 2).result = .ok (Verilog.textOf (module.fragments "  ")) ∧
    (moduleOf Dialect.legacy.profile resolved).result = .ok module ∧
    ⟨.uses, "q"⟩ ∈ module.fragments "  " ∧ ⟨.declares, "q"⟩ ∉ module.fragments "  " := by
  obtain ⟨resolved, loaded, module, written, ⟨_, rendered, rfl⟩, uses, declares⟩ := sampleState_names
  refine ⟨resolved, module, loaded, module.textOf_fragments _ ▸ rendered, written, ?_, ?_⟩
  · rw [← Verilog.mem_named, uses]
    decide
  · rw [← Verilog.mem_named, declares]
    decide

end Emission

end RtlBridge
