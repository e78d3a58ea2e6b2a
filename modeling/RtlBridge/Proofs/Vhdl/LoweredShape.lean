import Mathlib.Data.Bool.AllAny
import RtlBridge.Proofs.Text.LetterCase
import RtlBridge.Proofs.Text.Numeral
import RtlBridge.Proofs.Vhdl.LoweringSteps
import RtlBridge.Vhdl.Measure

/-! What lowering makes of parsed designs. Every name that is left is a declared one, every call has its
arguments, and every literal that is read as a number is one. -/

namespace RtlBridge.Vhdl

open List

/-! ### Literals -/

/-- A literal that has a value; of character literals only the bits `0` and `1` need one. -/
def Literal.IsReadable : Literal → Prop
  | .bit digits => (∀ c ∈ digits.toList, c = '0' ∨ c = '1') → (Literal.bit digits).value?.isSome = true
  | value => value.value?.isSome = true

open Text.Numeral (IsDigitIn)

theorem isDigitIn_two (bit : c ∈ "01".toList) : IsDigitIn 2 c := by
  have table : ∀ c ∈ "01".toList, (Text.Numeral.digitOrLetter? c).any (· < 2) = true :=
    all_iff_forall_prop.mp (by decide +kernel)
  exact Text.Numeral.isDigitIn_iff.mpr (table c bit)

theorem isDigitIn_sixteen (hex : c ∈ "0123456789abcdefABCDEF".toList) : IsDigitIn 16 c := by
  have table : ∀ c ∈ "0123456789abcdefABCDEF".toList, (Text.Numeral.digitOrLetter? c).any (· < 16) = true :=
    all_iff_forall_prop.mp (by decide +kernel)
  exact Text.Numeral.isDigitIn_iff.mpr (table c hex)

theorem value?_isSome_of_bits (present : digits.toList ≠ []) (bits : ∀ d ∈ digits.toList, d ∈ "01xz".toList) :
    ((Text.Numeral.read? 2 (Literal.zeroed digits).toList).map Int.ofNat).isSome = true := by
  have zeroed : ∀ d ∈ "01xz".toList, (if d = 'x' || d = 'z' then '0' else d) ∈ "01".toList :=
    all_iff_forall_prop.mp rfl
  rw [Option.isSome_map, Literal.zeroed, String.toList_ofList]
  refine Text.Numeral.read?_isSome (by simpa using present) ?_
  exact forall_mem_map.mpr fun d member => isDigitIn_two (zeroed d (bits d member))

theorem Literal.IsParsed.isReadable {value : Literal} (parsed : value.IsParsed) : value.IsReadable := by
  cases value with
  | bit digits =>
    obtain ⟨c, spelled⟩ := parsed
    intro bits
    have present : digits.toList ≠ [] := by
      rw [spelled, Text.lower_toString, String.toList_ofList]
      exact Text.lowerAlone_ne_nil c
    refine value?_isSome_of_bits present fun d member => ?_
    rcases bits d member with rfl | rfl <;> decide
  | hex digits =>
    rw [IsReadable, value?, Option.isSome_map]
    · exact Text.Numeral.read?_isSome parsed.1 fun d member => isDigitIn_sixteen (parsed.2 d member)
    · intro _ impossible
      cases impossible
  | binary digits => exact value?_isSome_of_bits parsed.1 parsed.2
  | decimal digits => exact Text.Numeral.decimal?_isSome parsed.1 parsed.2

/-! ### Scopes -/

namespace Scope

/-- Declared names are identifiers, and enumeration types have literals. -/
structure IsSound (scope : Scope) : Prop where
  globals : ∀ entry ∈ scope.globals.entries, isIdentifier entry.2.name = true
  locals : ∀ entry ∈ scope.locals.entries, isIdentifier entry.2.name = true
  enums : ∀ entry ∈ scope.enums, entry.2.literals ≠ []

theorem IsSound.name {scope : Scope} (sound : scope.IsSound) {name : String} {symbol : Symbol}
    (found : scope.lookup name = some symbol) : isIdentifier symbol.name = true := by
  rcases mem_of_lookup found with inner | outer
  · exact sound.locals _ inner
  · exact sound.globals _ outer

theorem isSound_empty : Scope.empty.IsSound := by refine ⟨?_, ?_, ?_⟩ <;> exact fun _ none => absurd none not_mem_nil

end Scope

/-! ### Expressions -/

def Expr.ReadableNode : Expr → Prop
  | .literal value _ => value.IsReadable
  | _ => True

def Expr.IsSound : Expr → Prop := All fun node => node.LoweredNode ∧ node.ReadableNode

theorem Expr.IsSound.isLowered {expr : Expr} (sound : expr.IsSound) : expr.IsLowered := sound.mono fun _ => And.left

namespace Expr

variable {scope : Scope} {owner : Option String}

theorem lower_isSound (sound : scope.IsSound) (expr : Expr) (parsed : expr.IsParsed) {lowered : Expr}
    (ok : expr.lower scope owner = .ok lowered) : lowered.IsSound := by
  refine all_of_lower (fun _ _ _ found => ⟨sound.name found, trivial⟩) (fun expr lowered parsed lowers => ?_) expr parsed ok
  cases lowers with
  | name found => exact ⟨sound.name found, trivial⟩
  | literal => exact ⟨trivial, Literal.IsParsed.isReadable parsed⟩
  | call checked resultOk =>
    have arity := arity?_of_checkCall checked
    rw [resultOk.length_eq] at arity
    exact ⟨arity, trivial⟩
  | concat resultOk =>
    have several : 2 ≤ _ := parsed
    rw [resultOk.length_eq] at several
    exact ⟨ne_nil_of_length_pos (Nat.lt_of_lt_of_le Nat.two_pos several), trivial⟩
  | index => exact absurd parsed id
  | slice baseOk => exact ⟨isName_of_lower parsed baseOk, trivial⟩
  | element => exact ⟨rfl, trivial⟩
  | number => exact ⟨trivial, Option.isSome_iff_exists.mpr ⟨_, Text.Numeral.decimal?_toString _⟩⟩
  | _ => exact ⟨trivial, trivial⟩

theorem lookup_of_lower {expr : Expr} (ok : expr.lower scope owner = .ok (.name spelling line))
    : (scope.lookup spelling).isSome = true := by
  cases lower_eq_ok ok with
  | name found =>
    rw [Scope.lookup_declared found]
    rfl

end Expr

/-! ### Designs -/

def DataType.IsPresent : DataType → Prop
  | .enum shape => shape.literals ≠ []
  | _ => True

def ObjectDecl.IsSound (decl : ObjectDecl DataType) : Prop := decl.type.IsPresent ∧ ∀ value ∈ decl.init, value.IsSound

def ConstantDecl.IsSound (decl : ConstantDecl DataType) : Prop := decl.type.IsPresent ∧ decl.value.IsSound

def Concurrent.IsSound : Concurrent DataType → Prop
  | .process block => (∀ decl ∈ block.vars, decl.IsSound) ∧ ∀ stmt ∈ block.body, stmt.Uses Expr.IsSound
  | .assign assignment => assignment.target.part.All Expr.IsSound ∧ assignment.value.IsSound
  | .conditional assignment =>
    assignment.target.part.All Expr.IsSound ∧
      (∀ choice ∈ assignment.choices, choice.1.IsSound ∧ choice.2.IsSound) ∧ assignment.default.IsSound
  | .captured _ => True

structure Architecture.IsSound (body : Architecture DataType) : Prop where
  signals : ∀ decl ∈ body.signals, decl.IsSound
  constants : ∀ decl ∈ body.constants, decl.IsSound
  enums : ∀ decl ∈ body.enums, decl.type.literals ≠ []
  statements : ∀ stmt ∈ body.statements, stmt.IsSound

/-- All types and expressions of a lowered design are sound. -/
structure Design.IsSound (design : Design) : Prop where
  ports : ∀ port ∈ design.entity.ports, port.type.IsPresent
  architecture : ∀ body ∈ design.architecture, body.IsSound

namespace Lowering

theorem resolve_isPresent {scope : Scope} (sound : scope.IsSound) {mark : TypeMark}
    (ok : (scope.resolve mark).result = .ok type) : type.IsPresent := by
  rw [Scope.resolve] at ok
  dsimp only at ok
  split at ok
  · cases ok
    trivial
  · split at ok
    · cases ok
      trivial
    · split at ok
      · cases ok
        trivial
      · split at ok
        · cases ok
        · simp only [Traced.result_bind] at ok
          obtain ⟨left, _, ok⟩ := bind_eq_ok.mp ok
          obtain ⟨right, _, ok⟩ := bind_eq_ok.mp ok
          split at ok <;> (cases ok; trivial)
        · split at ok
          · rename_i enum found
            cases ok
            exact sound.enums _ (Scope.mem_of_lookup_eq_some found)
          · cases ok

theorem resolve_ensures (mark : TypeMark) : Ensures Scope.IsSound (resolve mark) DataType.IsPresent := by
  intro scope sound type after ok
  rw [resolve, Traced.result_bind] at ok
  obtain ⟨found, foundOk, ok⟩ := bind_eq_ok.mp ok
  cases ok
  exact ⟨sound, resolve_isPresent sound foundOk⟩

theorem declare_ensures (line : Nat) (name : isIdentifier symbol.name = true) :
    Ensures Scope.IsSound (declare line symbol) fun _ => True := by
  intro scope sound _ after ok
  rw [declare, Traced.result_bind] at ok
  obtain ⟨found, foundOk, ok⟩ := bind_eq_ok.mp ok
  cases ok
  refine ⟨?_, trivial⟩
  have declared : scope.declare line symbol = .ok after := foundOk
  rw [Scope.declare] at declared
  split at declared
  · cases declared
  · cases declared
    exact ⟨forall_mem_cons.mpr ⟨name, sound.globals⟩, sound.locals, sound.enums⟩

theorem lower_ensures (sound : scope.IsSound) {expr : Expr} (parsed : expr.IsParsed) (owner : Option String) :
    Ensures Scope.IsSound (liftM (expr.lower scope owner) : Lowering Expr) Expr.IsSound :=
  .ofExcept fun _ ok => Expr.lower_isSound sound expr parsed ok

theorem port_ensures {port : Port TypeMark} (parsed : port.IsParsed) :
    Ensures Scope.IsSound (Lowering.port port) fun lowered => lowered.type.IsPresent :=
  (resolve_ensures port.type).bind fun _ present =>
    (declare_ensures port.line (isIdentifier_of_legal parsed.name)).bind fun _ _ => .pure present

theorem enum_ensures (parsed : decl.IsParsed) : Ensures Scope.IsSound (enum decl) fun _ => True := by
  refine Ensures.get.bind fun scope _ => .ite (fun _ => (Ensures.throw _).exits) fun _ => ?_
  refine (Ensures.modify fun scope sound => ?_).bind fun _ _ => ?_
  · exact ⟨sound.globals, sound.locals, forall_mem_cons.mpr ⟨parsed.present, sound.enums⟩⟩
  · exact .forM fun literal member => declare_ensures decl.line (isIdentifier_of_legal (parsed.literals literal member))

theorem constant_ensures (parsed : decl.IsParsed) : Ensures Scope.IsSound (constant decl) ConstantDecl.IsSound := by
  refine (resolve_ensures decl.type).bind fun type present => Ensures.get.bind fun scope sound => ?_
  refine (lower_ensures sound parsed.value _).bind fun value valueSound => ?_
  exact (declare_ensures decl.line (isIdentifier_of_legal parsed.name)).bind fun _ _ => .pure ⟨present, valueSound⟩

theorem initial_ensures (owner : String) (parsed : ∀ value ∈ init, value.IsParsed) :
    Ensures Scope.IsSound (initial owner init) fun lowered => ∀ value ∈ lowered, value.IsSound := by
  cases init with
  | none => exact .pure (by simp)
  | some value =>
    refine Ensures.get.bind fun scope sound => ?_
    exact (lower_ensures sound (parsed value rfl) _).bind fun lowered isSound => .pure (by simpa using isSound)

theorem signal_ensures (parsed : decl.IsParsed) : Ensures Scope.IsSound (signal decl) ObjectDecl.IsSound := by
  refine (resolve_ensures decl.type).bind fun type present => ?_
  refine (initial_ensures decl.name parsed.init).bind fun init initSound => ?_
  exact (declare_ensures decl.line (isIdentifier_of_legal parsed.name)).bind fun _ _ => .pure ⟨present, initSound⟩

theorem variableDecl_ensures (parsed : decl.IsParsed) :
    Ensures Scope.IsSound (variableDecl decl) ObjectDecl.IsSound := by
  refine (resolve_ensures decl.type).bind fun type present => Ensures.get.bind fun scope sound => ?_
  refine .ite (fun _ => (Ensures.throw _).exits) fun _ => .ite (fun _ => (Ensures.throw _).exits) fun _ => ?_
  refine (Ensures.set ⟨sound.globals, sound.locals, sound.enums⟩).bind fun _ _ => ?_
  refine (initial_ensures decl.name parsed.init).bind fun init initSound => ?_
  refine (Ensures.modify fun scope sound => ?_).bind fun _ _ => .pure ⟨present, initSound⟩
  exact ⟨sound.globals, forall_mem_cons.mpr ⟨isIdentifier_of_legal parsed.name, sound.locals⟩, sound.enums⟩

theorem sensitivity_ensures (line : Nat) (seen names : List String) :
    Ensures Scope.IsSound (sensitivity line seen names) fun _ => True := by
  induction names generalizing seen with
  | nil => exact .pure trivial
  | cons name rest ih =>
    refine Ensures.get.bind fun scope _ => ?_
    split
    · exact .ite (fun _ => ih _) fun _ => .throw _
    · exact .throw _

theorem processBlock_ensures {block : ProcessBlock TypeMark} (parsed : block.IsParsed) :
    Ensures Scope.IsSound (processBlock block) fun lowered => (Concurrent.process lowered).IsSound := by
  have cleared : Ensures Scope.IsSound (modify fun scope => { scope with locals := .empty } : Lowering PUnit)
      fun _ => True := .modify fun scope sound => ⟨sound.globals, Scope.isSound_empty.locals, sound.enums⟩
  refine cleared.bind fun _ _ => ?_
  refine (Ensures.mapM fun decl member => variableDecl_ensures (parsed.vars decl member)).bind fun vars varsSound => ?_
  have ends (list : Sensitivity) : Ensures Scope.IsSound (do
      let body ← lowerBody (← get) block.body
      modify fun scope => { scope with locals := .empty }
      return ⟨block.label, list, vars, body, block.line⟩ : Lowering (ProcessBlock DataType))
      fun lowered => (Concurrent.process lowered).IsSound := by
    refine Ensures.get.bind fun scope sound => ?_
    refine (Ensures.ofExcept fun body ok => lowerBody_uses (Expr.lower_isSound sound)
      (fun stmt member => (parsed.body stmt member).uses) ok).bind fun body bodySound => ?_
    exact cleared.bind fun _ _ => .pure ⟨varsSound, bodySound⟩
  split
  · exact ends .all
  · exact (sensitivity_ensures _ _ _).bind fun names _ => ends (.listed names)

theorem concurrent_ensures {stmt : Concurrent TypeMark} (parsed : stmt.IsParsed) :
    Ensures Scope.IsSound (concurrent stmt) Concurrent.IsSound := by
  have checked (symbol : Symbol) (line : Nat) :
      Ensures Scope.IsSound (liftM (symbol.checkAssignable line) : Lowering PUnit) fun _ => True :=
    .ofExcept fun _ _ => trivial
  have placed {scope : Scope} (sound : scope.IsSound) {target : Target} (targetParsed : target.IsParsed) :
      Ensures Scope.IsSound (liftM (target.lower scope) : Lowering (Target × Symbol))
        fun found => found.1.part.All Expr.IsSound :=
    .ofExcept fun found ok => (Target.lower_eq_ok ok).2.2 (Expr.lower_isSound sound) targetParsed.2
  cases stmt with
  | process block => exact (processBlock_ensures parsed).bind fun _ sound => .pure sound
  | assign assignment =>
    refine Ensures.get.bind fun scope sound => (placed sound parsed.1).bind fun place placeSound => ?_
    refine (lower_ensures sound parsed.2 _).bind fun value valueSound => (checked _ _).bind fun _ _ => ?_
    exact .pure ⟨placeSound, valueSound⟩
  | conditional assignment =>
    obtain ⟨targetParsed, _, choicesParsed, defaultParsed⟩ := parsed
    refine Ensures.get.bind fun scope sound => (placed sound targetParsed).bind fun place placeSound => ?_
    refine (Ensures.ofExcept fun _ ok => choices_use (Expr.lower_isSound sound) choicesParsed ok).bind fun pairs pairsSound => ?_
    refine (lower_ensures sound defaultParsed _).bind fun last lastSound => (checked _ _).bind fun _ _ => ?_
    exact .pure ⟨placeSound, pairsSound, lastSound⟩
  | captured statement => exact .pure trivial

theorem architecture_ensures (parsed : body.IsParsed) :
    Ensures Scope.IsSound (architecture body) Architecture.IsSound := by
  refine (Ensures.forM fun decl member => enum_ensures (parsed.enums decl member)).bind fun _ _ => ?_
  refine (Ensures.mapM fun decl member => constant_ensures (parsed.constants decl member)).bind fun constants constantsSound => ?_
  refine (Ensures.mapM fun decl member => signal_ensures (parsed.signals decl member)).bind fun signals signalsSound => ?_
  refine (Ensures.mapM fun stmt member => concurrent_ensures (parsed.statements stmt member)).bind fun stmts stmtsSound => ?_
  exact .pure ⟨signalsSound, constantsSound, fun decl member => (parsed.enums decl member).present, stmtsSound⟩

theorem unit_ensures (isParsed : parsed.IsParsed) : Ensures Scope.IsSound (unit parsed) Design.IsSound := by
  refine (Ensures.mapM fun port member => port_ensures (isParsed.entity.ports port member)).bind fun ports portsPresent => ?_
  split
  · refine Ensures.andThen ?_ fun _ => .pure ⟨portsPresent, by simp⟩
    rintro scope sound _ _ ⟨⟩
    exact ⟨sound, trivial⟩
  · rename_i body is
    refine (architecture_ensures (isParsed.architecture body is).1).bind fun lowered sound => ?_
    exact .pure ⟨portsPresent, by simpa using sound⟩

end Lowering

theorem isSound_of_lower (isParsed : parsed.IsParsed) (ok : (lower parsed).result = .ok design) : design.IsSound := by
  simp only [lower, Traced.result_bind] at ok
  obtain ⟨⟨lowered, after⟩, unitOk, ok⟩ := bind_eq_ok.mp ok
  cases ok
  exact (Lowering.unit_ensures isParsed _ Scope.isSound_empty lowered after unitOk).2

end RtlBridge.Vhdl
