import RtlBridge.Proofs.Emission.Shadows
import RtlBridge.Proofs.Emission.TidyText
import RtlBridge.Proofs.Emission.StatementGroups

/-! The module of a tidy design is tidy, in either dialect: so is each of its items, and the words that the
dialects add are no words of structure. -/

namespace RtlBridge

open List

open Verilog (IsPlainName Expr Item Quiet Remark inWord)

namespace Vhdl

def Target.IsTidy (target : Target) : Prop := IsPlainName target.name ∧ target.part.All Expr.IsTidy

def DataType.IsTidy : DataType → Prop
  | .enum shape => IsPlainName shape.name
  | _ => True

structure ObjectDecl.IsTidy (decl : ObjectDecl DataType) : Prop where
  name : IsPlainName decl.name
  type : decl.type.IsTidy
  init : ∀ value ∈ decl.init, value.IsTidy

def ProcessKind.IsTidy : ProcessKind → Prop
  | .combinational => True
  | .sequential clock (.async test resetBody) clocked =>
    IsPlainName clock.clock ∧ IsPlainName test.signal ∧ (∀ inner ∈ resetBody, inner.IsTidy) ∧
      ∀ inner ∈ clocked, inner.IsTidy
  | .sequential clock _ clocked => IsPlainName clock.clock ∧ ∀ inner ∈ clocked, inner.IsTidy

def ResolvedStmt.IsTidy : ResolvedStmt → Prop
  | .process block kind =>
    (∀ label ∈ block.label, IsPlainName label) ∧ (∀ inner ∈ block.body, inner.IsTidy) ∧ kind.IsTidy
  | .assign assignment => assignment.target.IsTidy ∧ assignment.value.IsTidy
  | .conditional assignment => assignment.target.IsTidy ∧
      (∀ choice ∈ assignment.choices, choice.1.IsTidy ∧ choice.2.IsTidy) ∧ assignment.default.IsTidy
  | .captured _ => True

structure Architecture.IsTidy (body : Architecture DataType) : Prop where
  enums : ∀ decl ∈ body.enums, IsPlainName decl.type.name ∧ ∀ literal ∈ decl.type.literals, IsPlainName literal
  constants : ∀ decl ∈ body.constants, IsPlainName decl.name ∧ decl.value.IsTidy
  objects : ∀ decl ∈ body.signals ++ body.processes.flatMap (·.vars), decl.IsTidy

/-- A design with plain names only, whose expressions are tidy. -/
structure Resolved.IsTidy (resolved : Resolved) : Prop where
  name : IsPlainName resolved.design.entity.name
  ports : ∀ port ∈ resolved.design.entity.ports, IsPlainName port.name ∧ port.type.IsTidy
  driven : ∀ name ∈ resolved.drivers.keys, IsPlainName name
  architecture : ∀ body ∈ resolved.design.architecture, body.IsTidy
  statements : ∀ statement ∈ resolved.statements, statement.IsTidy

end Vhdl

/-- Words of a dialect that name types and blocks. -/
structure Profile.IsTidy (profile : Profile) : Prop where
  netType : IsPlainName profile.netType
  storageType : IsPlainName profile.storageType
  combinationalHeader : Quiet profile.combinationalHeader.toList
  clockedKeyword : IsPlainName profile.clockedKeyword
  parameterType : profile.parameterType.isEmpty = false → IsPlainName profile.parameterType

theorem Dialect.profile_isTidy (dialect : Dialect) : dialect.profile.IsTidy := by
  cases dialect with
  | legacy =>
    have header : Quiet "always @(*)".toList := Verilog.quiet_of_check (by decide)
    exact ⟨by decide, by decide, header, by decide, nofun⟩
  | strict =>
    have header : Quiet "always_comb".toList := Verilog.quiet_of_check (by decide)
    exact ⟨by decide, by decide, header, by decide, by decide⟩

namespace Emission

open Vhdl (DataType Resolved ResolvedStmt)

/-! ### Shadow registers -/

theorem isPlainName_shadowCandidate (isName : IsPlainName name) (n : Nat) : IsPlainName (shadowCandidate name n) := by
  have underscore : '_' ∈ (shadowCandidate name n).toList := by
    obtain ⟨rest, split⟩ := shadowSuffix_eq_cons n
    rw [toList_shadowCandidate, split]
    exact mem_append_right _ (mem_cons_self ..)
  constructor
  · exact ne_nil_of_mem underscore
  · rw [toList_shadowCandidate, forall_mem_append]
    refine ⟨isName.letters, ?_⟩
    intro c member
    have isWord : c.isAlphanum = true ∨ c = '_' := by simpa [Piece.isWordChar] using (shadowSuffix_isWord n c member).1
    rcases isWord with letter | same
    · simp [inWord, letter]
    · simp [inWord, same]
  · exact Verilog.not_mem_keywords underscore rfl

theorem isPlainName_shadowsFor (areNames : ∀ name ∈ names, IsPlainName name) (taken : List String)
    : ∀ entry ∈ shadowsFor taken names, IsPlainName entry.1 ∧ IsPlainName entry.2 := by
  induction names generalizing taken with
  | nil => nofun
  | cons name rest ih =>
    obtain ⟨isName, others⟩ := forall_mem_cons.mp areNames
    have shadow : IsPlainName (freshShadow taken name) := by
      rw [freshShadow]
      cases found : ((range (taken.length + 1)).map (shadowCandidate name)).find?
          fun candidate => !taken.contains (Text.lower candidate) with
      | none => exact isPlainName_shadowCandidate isName _
      | some candidate =>
        obtain ⟨n, _, rfl⟩ := mem_map.mp (mem_of_find?_eq_some found)
        exact isPlainName_shadowCandidate isName n
    rw [shadowsFor, forall_mem_cons]
    exact ⟨⟨isName, shadow⟩, ih others _⟩

theorem isPlainName_shadows (driven : ∀ name ∈ resolved.drivers.keys, IsPlainName name) (profile : Profile)
    : ∀ entry ∈ shadows profile resolved, IsPlainName entry.1 ∧ IsPlainName entry.2 := by
  rw [shadows]
  split
  · apply isPlainName_shadowsFor
    intro name shadowed
    obtain ⟨⟨_, driver⟩, inDrivers, isSome⟩ := mem_filterMap.mp shadowed
    dsimp only at isSome
    split at isSome
    · cases isSome
      exact driven _ (mem_map_of_mem inDrivers)
    · nomatch isSome
  · nofun

/-! ### Declarations -/

section Items

variable {context : Context} (words : context.profile.IsTidy)

section Typed

include words

theorem isPlainName_netType (name : String) : IsPlainName (netType context name) := by
  rw [netType]
  split
  · exact words.storageType
  · exact words.netType

theorem isPlainName_typed (name : String) (isTidy : type.IsTidy) : IsPlainName (typed context name type).1 := by
  unfold typed
  split
  · exact isTidy
  · exact isPlainName_netType words name

theorem port_isTidy (isName : IsPlainName source.name) (type : source.type.IsTidy) : (port context source).IsTidy := by
  have typeName := isPlainName_typed words source.name type
  have input : IsPlainName "input" := by decide
  have output : IsPlainName "output" := by decide
  have inout : IsPlainName "inout" := by decide
  have wire : IsPlainName "wire" := by decide
  rw [port]
  cases source.direction with
  | input => exact ⟨input, typeName, isName⟩
  | output | buffer => exact ⟨output, typeName, isName⟩
  | inout => exact ⟨inout, wire, isName⟩

theorem constant_comesTo (isName : IsPlainName decl.name) (tidy : decl.value.IsTidy)
    : ComesTo Item.IsTidy Refusal.IsOneLine (constant context decl) := by
  unfold constant
  apply (given_comesTo tidy _).bind
  intro value isClean
  exact ⟨words.parameterType, isName, isClean, oneLine_widthRemarks isName.quiet.oneLine _ _ _⟩

end Typed

theorem enumeration_isTidy (profile : Profile) (isName : IsPlainName enum.name)
    (literals : ∀ literal ∈ enum.literals, IsPlainName literal) : (enumeration profile enum).IsTidy := by
  have members : ∀ member ∈ enum.literals.map fun literal => (literal, enum.code literal), IsPlainName member.1 :=
    forall_mem_map.mpr literals
  rw [enumeration]
  split
  · exact ⟨isName, members⟩
  · exact ⟨isName, members⟩

theorem oneLine_dropped (isClean : value.IsClean choices) (isName : IsPlainName name)
    : '\n' ∉ (Remark.droppedInitial value name).text.toList := by
  change '\n' ∉ (s!"initial value {value.text} dropped, {name} is not a register").toList
  simp only [String.toList_append, mem_append, not_or]
  exact ⟨⟨⟨⟨by decide, (Expr.quiet_text isClean).oneLine⟩, by decide⟩, isName.quiet.oneLine⟩, by decide⟩

theorem oneLine_droppedRemarks (isName : IsPlainName name) {value : Option Expr}
    (isClean : ∀ init ∈ value, init.IsClean true) :
    ∀ remark ∈ (match dropped, value with
      | true, some value => [Remark.droppedInitial value name]
      | _, _ => []), '\n' ∉ remark.text.toList := by
  split
  · exact forall_mem_singleton.mpr (oneLine_dropped (isClean _ rfl) isName)
  · exact forall_mem_nil _

theorem oneLine_enumRemarks (typedEnums : Bool) {type : DataType} (tidy : type.IsTidy) :
    ∀ remark ∈ (match type with
      | .enum enum => if typedEnums then [] else [Remark.enumeration enum.name]
      | _ => []), '\n' ∉ remark.text.toList := by
  cases type with
  | bit | vector shape => exact forall_mem_nil _
  | enum shape =>
    dsimp only
    split
    · exact forall_mem_nil _
    · exact forall_mem_singleton.mpr tidy.quiet.oneLine

include words in
theorem object_comesTo (tidy : decl.IsTidy) : ComesTo Item.IsTidy Refusal.IsOneLine (object context decl) := by
  have typeName := isPlainName_typed words decl.name tidy.type
  have kept {dropped : Bool} {value : Option Expr} (isClean : ∀ init ∈ value, init.IsClean true) :
      ∀ init ∈ if dropped then none else value, init.IsClean true := by
    intro init isInit
    split at isInit
    · cases isInit
    · exact isClean init isInit
  have typeRemarks := oneLine_enumRemarks context.profile.typedEnums tidy.type
  have widths := oneLine_widthRemarks tidy.name.quiet.oneLine context.names
  unfold object
  cases is : decl.init with
  | none =>
    have nothing : ∀ init ∈ (none : Option Expr), init.IsClean true := by simp
    refine ⟨typeName, tidy.name, kept nothing, ?_⟩
    rw [forall_mem_append, forall_mem_append]
    exact ⟨⟨oneLine_droppedRemarks tidy.name nothing, typeRemarks⟩, widths _ _⟩
  | some value =>
    apply (given_comesTo (tidy.init value is) _).bind
    intro written isClean
    have initial : ∀ init ∈ some written, init.IsClean true := by
      intro init isInit
      cases isInit
      exact isClean
    refine ⟨typeName, tidy.name, kept initial, ?_⟩
    rw [forall_mem_append, forall_mem_append]
    exact ⟨⟨oneLine_droppedRemarks tidy.name initial, typeRemarks⟩, widths _ _⟩

/-! ### Statements of the architecture -/

section Concurrent

variable (plainShadows : ∀ entry ∈ context.shadows, IsPlainName entry.1 ∧ IsPlainName entry.2)

include plainShadows

include words in
theorem always_comesTo {block : Vhdl.ProcessBlock DataType} {kind : Vhdl.ProcessKind}
    (label : ∀ name ∈ block.label, IsPlainName name) (inBody : ∀ inner ∈ block.body, inner.IsTidy)
    (inKind : kind.IsTidy) : ComesTo Item.IsTidy Refusal.IsOneLine (always context block kind).result := by
  have bodyOf {list : List Vhdl.Stmt} (areTidy : ∀ inner ∈ list, inner.IsTidy) : TidyBody context list :=
    tidyBody (fun entry member => (plainShadows entry member).2) areTidy
  have edge {test : Vhdl.EdgeTest} (isName : IsPlainName test.clock) :
      (Verilog.Trigger.edges context.profile.clockedKeyword [(test.edge, test.clock)]).IsTidy :=
    ⟨words.clockedKeyword, forall_mem_singleton.mpr isName⟩
  cases kind with
  | combinational =>
    apply (bodyOf inBody).bindResult
    intro statements areTidy
    exact ⟨words.combinationalHeader, label, areTidy⟩
  | sequential clock reset clocked =>
    cases reset with
    | async test resetBody =>
      obtain ⟨clockName, signalName, inReset, inClocked⟩ := inKind
      apply (bodyOf inReset).bindResult
      intro resetting resetTidy
      apply (bodyOf inClocked).bindResult
      intro statements areTidy
      refine ⟨⟨words.clockedKeyword, ?_⟩, label, forall_mem_singleton.mpr ?_⟩
      · exact forall_mem_cons.mpr ⟨clockName, forall_mem_singleton.mpr signalName⟩
      · have digits : ∀ c ∈ test.level.digit.toList, Verilog.isFigure c = true := by
          rw [← all_iff_forall_prop]
          cases test.level <;> decide
        have condition : (Expr.binary .eq (.name test.signal)
            (.sized 1 .binary test.level.digit)).IsClean false := ⟨signalName, digits⟩
        apply Verilog.Stmt.IsTidy.conditional (cons_ne_nil _ _)
        · exact forall_mem_singleton.mpr condition
        · exact forall_mem_singleton.mpr resetTidy
        · intro list isLast
          cases isLast
          exact areTidy
    | sync test resetBody | none =>
      apply (bodyOf inKind.2).bindResult
      intro statements areTidy
      exact ⟨edge inKind.1, label, areTidy⟩

omit plainShadows in
theorem chosen_comesTo (width : Option Int) {last : Vhdl.Expr} (inLast : last.IsTidy)
    {choices : List (Vhdl.Expr × Vhdl.Expr)} (each : ∀ choice ∈ choices, choice.1.IsTidy ∧ choice.2.IsTidy) :
    ComesTo (Expr.IsClean true) Refusal.IsOneLine (chosen context width last choices) := by
  induction choices with
  | nil => exact given_comesTo inLast width
  | cons first rest ih =>
    obtain ⟨⟨value, condition⟩, others⟩ := forall_mem_cons.mp each
    rw [chosen]
    apply (given_comesTo condition none).bind
    intro test testClean
    apply (given_comesTo value width).bind
    intro yes yesClean
    apply (ih others).bind
    intro no noClean
    exact ⟨rfl, testClean, yesClean, noClean⟩

theorem continuous_comesTo (inTarget : source.IsTidy) (each : ∀ choice ∈ choices, choice.1.IsTidy ∧ choice.2.IsTidy)
    (inLast : last.IsTidy) : ComesTo Item.IsTidy Refusal.IsOneLine (continuous context source choices last) := by
  unfold continuous
  apply (chosen_comesTo _ inLast each).bind
  intro value isClean
  apply (target_comesTo (fun entry member => (plainShadows entry member).2) inTarget.1 inTarget.2).bind
  intro place isPlace
  exact ⟨isPlace, isClean, oneLine_widthRemarks inTarget.1.quiet.oneLine _ _ _⟩

omit plainShadows in
theorem orPlaceholder_comesTo (line : Nat) {item : Except Refusal Item}
    (written : ComesTo Item.IsTidy Refusal.IsOneLine item) :
    ComesTo Item.IsTidy Refusal.IsOneLine (orPlaceholder context line item).result := by
  have start : ComesTo Item.IsTidy Refusal.IsOneLine (liftM item : Traced Refusal Item).result := written
  apply start.tryCatch
  intro refusal oneLine
  apply (refused_comesTo line oneLine).bindResult
  intro comment isTidy
  exact isTidy

include words in
theorem leading_comesTo (tidy : statement.IsTidy) :
    ComesTo Item.IsTidy Refusal.IsOneLine (leading context statement).result := by
  cases statement with
  | process block kind => exact always_comesTo words plainShadows tidy.1 tidy.2.1 tidy.2.2
  | assign assignment =>
    have noChoice := forall_mem_nil fun choice : Vhdl.Expr × Vhdl.Expr => choice.1.IsTidy ∧ choice.2.IsTidy
    exact orPlaceholder_comesTo _ (continuous_comesTo plainShadows tidy.1 noChoice tidy.2)
  | conditional assignment => exact orPlaceholder_comesTo _ (continuous_comesTo plainShadows tidy.1 tidy.2.1 tidy.2.2)
  | captured statement => exact placeholderOf_isTidy statement

include words in
theorem statementGroups_isTidy (each : ∀ statement ∈ list, statement.IsTidy) {groups : List (List Item)}
    (ok : (statementGroups context [] list).result = .ok groups) : ∀ group ∈ groups, ∀ item ∈ group, item.IsTidy := by
  intro group inGroups item member
  obtain ⟨statement, inList, itemOk⟩ | isForward := (mem_groups_iff ok).mp (mem_flatten_of_mem inGroups member)
  · exact (leading_comesTo words plainShadows (each statement inList)).of_ok itemOk
  · obtain ⟨_, _, name, shadow, _, _, shadowed, rfl⟩ := mem_forwardings isForward
    obtain ⟨isName, isShadow⟩ := plainShadows _ (Vhdl.Scope.mem_of_lookup_eq_some shadowed)
    exact ⟨isName, isShadow, forall_mem_nil _⟩

theorem shadow_isTidy (storage : IsPlainName context.profile.storageType) :
    ∀ entry ∈ context.shadows, (shadow context entry.1 entry.2).IsTidy := by
  intro entry member
  exact ⟨storage, (plainShadows entry member).2, nofun, nofun⟩

include words in
theorem groups_isTidy {body : Vhdl.Architecture DataType} (tidy : body.IsTidy)
    (statements : ∀ statement ∈ context.resolved.statements, statement.IsTidy)
    (ok : (groups context body).result = .ok list) : ∀ group ∈ list, ∀ item ∈ group, item.IsTidy := by
  have grouped {items : List Item} (areTidy : ∀ item ∈ items, item.IsTidy) :
      ∀ group ∈ groupOf items, ∀ item ∈ group, item.IsTidy := by
    rw [groupOf]
    split
    · exact forall_mem_nil _
    · exact forall_mem_singleton.mpr areTidy
  obtain ⟨written⟩ := groups_eq_ok ok
  rw [written.isGroups, forall_mem_append, forall_mem_append, forall_mem_append]
  refine ⟨⟨⟨grouped ?_, grouped ?_⟩, grouped ?_⟩, ?_⟩
  · rw [forall_mem_map]
    intro decl member
    exact enumeration_isTidy _ (tidy.enums decl member).1 (tidy.enums decl member).2
  · have each := ComesTo.mapM fun decl member =>
      constant_comesTo words (tidy.constants decl member).1 (tidy.constants decl member).2
    exact each.of_ok written.constantsOk
  · have each := ComesTo.mapM fun decl member => object_comesTo words (tidy.objects decl member)
    rw [forall_mem_append, forall_mem_map]
    exact ⟨each.of_ok written.objectsOk, shadow_isTidy plainShadows words.storageType⟩
  · exact statementGroups_isTidy words plainShadows statements written.statementsOk

end Concurrent

end Items

/-! ### Modules -/

theorem moduleOf_isTidy (dialect : Dialect) (tidy : resolved.IsTidy)
    (ok : (moduleOf dialect.profile resolved).result = .ok module) : module.IsTidy := by
  have words : (Context.of dialect.profile resolved).profile.IsTidy := dialect.profile_isTidy
  have plainShadows := isPlainName_shadows tidy.driven dialect.profile
  obtain ⟨sameName, sameBanner, samePorts, absent, present⟩ := moduleOf_eq_ok ok
  constructor
  · rw [sameName]
    exact tidy.name
  · have profile : dialect.profile.dialect.text = dialect.text := by cases dialect <;> rfl
    have text : '\n' ∉ dialect.text.toList := by cases dialect <;> decide
    rw [sameBanner, profile]
    simp only [String.toList_append, mem_append, not_or]
    exact ⟨⟨⟨tidy.name.quiet.oneLine, by decide⟩, text⟩, by decide⟩
  · rw [samePorts, forall_mem_map]
    intro source isPort
    obtain ⟨isName, type⟩ := tidy.ports source isPort
    exact port_isTidy words isName type
  · cases is : resolved.design.architecture with
    | none =>
      rw [absent is]
      nofun
    | some body =>
      have areTidy := tidy.architecture body is
      exact groups_isTidy words plainShadows areTidy tidy.statements (present body is)

end Emission

end RtlBridge
