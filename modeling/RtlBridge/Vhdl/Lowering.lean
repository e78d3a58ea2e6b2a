import RtlBridge.Vhdl.Builtin
import RtlBridge.Vhdl.Scope

/-! Lowering a parsed unit to a design: type marks become types, every name takes its declared spelling,
calls of declared names become subscripts, and attributes of vectors become numbers. -/

namespace RtlBridge.Vhdl

/-- Whether lowering leaves an expression as it is: all names are spelled as declared, and there is
neither a call nor an attribute. -/
def Expr.isVerbatim (scope : Scope) : Expr → Bool
  | .name spelling _ => (scope.lookup spelling).any (·.name == spelling)
  | .literal _ _ => true
  | .binary _ lhs rhs _ => lhs.isVerbatim scope && rhs.isVerbatim scope
  | .unary _ operand _ => operand.isVerbatim scope
  | .call _ _ _ => false
  | .aggregate fill _ _ => fill.isVerbatim scope
  | .concat parts _ => areVerbatim scope parts
  | .index base subscript _ => base.isVerbatim scope && subscript.isVerbatim scope
  | .slice base left right _ =>
      base.isVerbatim scope && left.isVerbatim scope && right.isVerbatim scope
  | .tick _ _ _ => false
where
  areVerbatim (scope : Scope) : List Expr → Bool
    | [] => true
    | part :: rest => part.isVerbatim scope && areVerbatim scope rest

def Scope.spell (scope : Scope) (spelling : String) (line : Nat) : Except Fault Symbol :=
  match scope.lookup spelling with
  | some symbol => .ok symbol
  | none => .error (.misnamed line (.undeclared spelling))

def Symbol.isObject (symbol : Symbol) : Bool := symbol.role ≠ .enumLiteral

/-- Whether a call has as many arguments as its function takes; an edge predicate takes a name. -/
def checkCall (function : String) (arguments : List Expr) (line : Nat) :
    Except Fault PUnit :=
  let key := Text.lower function
  match Builtin.arity? key with
  | none => .error (.misnamed line (.undeclaredFunction function))
  | some arity =>
      if arguments.length ≠ arity then
        .error (.misnamed line (.wrongArity key arity arguments.length))
      else
        match (Builtin.edge? key).isSome, arguments with
        | true, [.name _ _] => .ok ⟨⟩
        | true, _ => .error (.misnamed line (.needsSignal key))
        | false, _ => .ok ⟨⟩

def VectorType.attribute? (vector : VectorType) (name : String) : Option Int :=
  if name = "length" then some vector.width
  else if name = "high" || name = "left" then some vector.high
  else if name = "low" || name = "right" then some vector.low
  else none

def lowerTick (scope : Scope) (base : Expr) (name : String) (line : Nat) : Except Fault Expr :=
  match base with
  | .name spelling _ =>
      if name = "event" then .ok (.tick base name line)
      else
        match (scope.lookup spelling).bind (·.type) with
        | some (.vector vector) =>
            match vector.attribute? name with
            | some n => .ok (.literal (.decimal (toString n)) line)
            | none => .error (.unsupported line (.attributeNamed name))
        | _ => .error (.unsupported line (.attributeNamed name))
  | _ => .error (.unsupported line (.attributeOfExpression name))

/-- Lowers an expression. Inside the initial value that `owner` shares with the names declared beside
it, an aggregate that lowering changes becomes the owner's own. -/
def Expr.lower (scope : Scope) (owner : Option String) : Expr → Except Fault Expr
  | .name spelling line => do
      return .name (← scope.spell spelling line).name line
  | .literal value line => .ok (.literal value line)
  | .binary op lhs rhs line => do
      return .binary op (← lhs.lower scope owner) (← rhs.lower scope owner) line
  | .unary op operand line => do
      return .unary op (← operand.lower scope owner) line
  | .call function arguments line =>
      match (scope.lookup function).filter Symbol.isObject with
      | some symbol =>
          match arguments with
          | [subscript] => do
              return .index (.name symbol.name line) (← subscript.lower scope owner) line
          | _ => .error (.misnamed line (.subscripts symbol.name arguments.length))
      | none => do
          checkCall function arguments line
          return .call (Text.lower function) (← lowerAll scope owner arguments) line
  | .aggregate fill site line => do
      let lowered ← fill.lower scope owner
      let site := if fill.isVerbatim scope then site else { site with owner := owner }
      return .aggregate lowered site line
  | .concat parts line => do
      return .concat (← lowerAll scope owner parts) line
  | .index base subscript line => do
      return .index (← base.lower scope owner) (← subscript.lower scope owner) line
  | .slice base left right line => do
      return .slice (← base.lower scope owner) (← left.lower scope owner)
        (← right.lower scope owner) line
  | .tick base property line => do
      lowerTick scope (← base.lower scope owner) property line
where
  lowerAll (scope : Scope) (owner : Option String) : List Expr → Except Fault (List Expr)
    | [] => .ok []
    | first :: rest => do
        return (← first.lower scope owner) :: (← lowerAll scope owner rest)

/-- Lowers a target; yields also what its name stands for. -/
def Target.lower (scope : Scope) (target : Target) : Except Fault (Target × Symbol) := do
  let symbol ← scope.spell target.name target.line
  let part ← match target.part with
    | .whole => pure Part.whole
    | .element subscript => pure (Part.element (← subscript.lower scope none))
    | .range left right => pure (Part.range (← left.lower scope none) (← right.lower scope none))
  return (⟨symbol.name, part, target.line⟩, symbol)

/-- Only ports, signals and variables are assigned to. -/
def Symbol.checkAssignable (symbol : Symbol) (line : Nat) : Except Fault PUnit :=
  match symbol.role with
  | .constant | .enumLiteral => .error (.misnamed line (.notAssignable symbol.role symbol.name))
  | .port | .signal | .var => .ok ⟨⟩

/-- Variables are assigned at once, ports and signals later. -/
def Symbol.checkAssignment (symbol : Symbol) (immediate : Bool) (line : Nat) :
    Except Fault PUnit := do
  symbol.checkAssignable line
  if immediate && symbol.role ≠ .var then
    throw (.misnamed line (.immediateToSignal symbol.name))
  if !immediate && symbol.role = .var then
    throw (.misnamed line (.deferredToVariable symbol.name))

mutual

def Stmt.lower (scope : Scope) : Stmt → Except Fault Stmt
  | .assign target value immediate line => do
      let (target, symbol) ← target.lower scope
      let value ← value.lower scope none
      symbol.checkAssignment immediate line
      return .assign target value immediate line
  | .conditional branches otherwise line => do
      let branches ← lowerBranches scope branches
      let otherwise ← lowerBody scope otherwise
      return .conditional branches otherwise line
  | .selection selector arms default line => do
      let selector ← selector.lower scope none
      let arms ← lowerArms scope arms
      let default ← lowerDefault scope default
      return .selection selector arms default line
  | .captured statement => .ok (.captured statement)

def lowerBody (scope : Scope) : List Stmt → Except Fault (List Stmt)
  | [] => .ok []
  | first :: rest => do
      let first ← first.lower scope
      let rest ← lowerBody scope rest
      return first :: rest

def lowerBranches (scope : Scope) :
    List (Expr × List Stmt) → Except Fault (List (Expr × List Stmt))
  | [] => .ok []
  | (condition, body) :: rest => do
      let condition ← condition.lower scope none
      let body ← lowerBody scope body
      let rest ← lowerBranches scope rest
      return (condition, body) :: rest

def lowerArms (scope : Scope) :
    List (List Expr × List Stmt) → Except Fault (List (List Expr × List Stmt))
  | [] => .ok []
  | (choices, body) :: rest => do
      let choices ← Expr.lower.lowerAll scope none choices
      let body ← lowerBody scope body
      let rest ← lowerArms scope rest
      return (choices, body) :: rest

def lowerDefault (scope : Scope) : Option (List Stmt) → Except Fault (Option (List Stmt))
  | none => .ok none
  | some body => do
      let body ← lowerBody scope body
      return some body

end

abbrev Lowering := StateT Scope (Traced Fault)

namespace Lowering

def note (n : Note) : Lowering PUnit := fun scope => do
  Traced.note n
  return (⟨⟩, scope)

def resolve (mark : TypeMark) : Lowering DataType := fun scope => do
  return (← scope.resolve mark, scope)

def declare (line : Nat) (symbol : Symbol) : Lowering PUnit := fun scope => do
  return (⟨⟩, ← scope.declare line symbol)

def port (port : Port TypeMark) : Lowering (Port DataType) := do
  let type ← resolve port.type
  declare port.line ⟨port.name, .port, some type, none⟩
  return ⟨port.name, port.direction, type, port.line⟩

def enum (decl : EnumDecl) : Lowering PUnit := do
  let key := Text.lower decl.type.name
  if ((← get).enums.lookup key).isSome then
    throw (Fault.misnamed decl.line (.typeTwice decl.type.name))
  modify fun scope => { scope with enums := (key, decl.type) :: scope.enums }
  decl.type.literals.forM fun literal =>
    declare decl.line ⟨literal, .enumLiteral, some (.enum decl.type), none⟩

def constant (decl : ConstantDecl TypeMark) : Lowering (ConstantDecl DataType) := do
  let type ← resolve decl.type
  let scope ← get
  let value ← decl.value.lower scope decl.name
  declare decl.line ⟨decl.name, .constant, some type, scope.static? value⟩
  return ⟨decl.name, type, value, decl.line⟩

def initial (owner : String) (init : Option Expr) : Lowering (Option Expr) := do
  match init with
  | some value => return some (← value.lower (← get) owner)
  | none => return none

def signal (decl : ObjectDecl TypeMark) : Lowering (ObjectDecl DataType) := do
  let type ← resolve decl.type
  let init ← initial decl.name decl.init
  declare decl.line ⟨decl.name, .signal, some type, none⟩
  return ⟨decl.name, type, init, decl.line⟩

/-- A variable's name must be new to the whole design. -/
def variableDecl (decl : ObjectDecl TypeMark) : Lowering (ObjectDecl DataType) := do
  let type ← resolve decl.type
  let key := Text.lower decl.name
  let scope ← get
  if scope.variableKeys.contains key then
    throw (Fault.unsupported decl.line (.variableInTwoProcesses decl.name))
  if (scope.globals.find? key).isSome || (scope.locals.find? key).isSome then
    throw (Fault.misnamed decl.line (.variableCollision decl.name))
  set { scope with variableKeys := key :: scope.variableKeys }
  let init ← initial decl.name decl.init
  modify (·.declareVariable decl.name type)
  return ⟨decl.name, type, init, decl.line⟩

/-- The declared spellings of a sensitivity list, each once. -/
def sensitivity (line : Nat) (seen : List String) : List String → Lowering (List String)
  | [] => return seen.reverse
  | name :: rest => do
      match (← get).lookup name with
      | some symbol =>
          if symbol.role = .port || symbol.role = .signal then
            sensitivity line (if seen.contains symbol.name then seen else symbol.name :: seen) rest
          else throw (Fault.misnamed line (.unknownSensitivity name))
      | none => throw (Fault.misnamed line (.unknownSensitivity name))

def processBlock (block : ProcessBlock TypeMark) : Lowering (ProcessBlock DataType) := do
  modify fun scope => { scope with locals := .empty }
  let vars ← block.vars.mapM variableDecl
  let sensitivity ← match block.sensitivity with
    | .all => pure Sensitivity.all
    | .listed names => do pure (Sensitivity.listed (← sensitivity block.line [] names))
  let body ← lowerBody (← get) block.body
  modify fun scope => { scope with locals := .empty }
  return ⟨block.label, sensitivity, vars, body, block.line⟩

def choices (scope : Scope) : List (Expr × Expr) → Except Fault (List (Expr × Expr))
  | [] => .ok []
  | (value, condition) :: rest => do
      let value ← value.lower scope none
      let condition ← condition.lower scope none
      let rest ← choices scope rest
      return (value, condition) :: rest

def concurrent : Concurrent TypeMark → Lowering (Concurrent DataType)
  | .process block => return .process (← processBlock block)
  | .assign assignment => do
      let scope ← get
      let (target, symbol) ← assignment.target.lower scope
      let value ← assignment.value.lower scope none
      symbol.checkAssignable assignment.line
      return .assign ⟨target, value, assignment.line⟩
  | .conditional assignment => do
      let scope ← get
      let (target, symbol) ← assignment.target.lower scope
      let choices ← choices scope assignment.choices
      let default ← assignment.default.lower scope none
      symbol.checkAssignable assignment.line
      return .conditional ⟨target, choices, default, assignment.line⟩
  | .captured statement => return .captured statement

def architecture (body : Architecture TypeMark) : Lowering (Architecture DataType) := do
  body.enums.forM enum
  let constants ← body.constants.mapM constant
  let signals ← body.signals.mapM signal
  let statements ← body.statements.mapM concurrent
  return ⟨body.name, body.entityName, signals, constants, body.enums, statements, body.line⟩

def unit (parsed : DesignUnit TypeMark) : Lowering Design := do
  let ports ← parsed.entity.ports.mapM port
  let entity := ⟨parsed.entity.name, ports, parsed.entity.line⟩
  match parsed.architecture with
  | none => do
      note (.noArchitecture entity.name)
      return ⟨entity, none⟩
  | some body => return ⟨entity, some (← architecture body)⟩

end Lowering

def lower (parsed : DesignUnit TypeMark) : Traced Fault Design := do
  let (design, _) ← (Lowering.unit parsed).run Scope.empty
  let statements := (design.architecture.map (·.statements.length)).getD 0
  Traced.note (.designBuilt design.entity.name design.entity.ports.length statements)
  return design

end RtlBridge.Vhdl
