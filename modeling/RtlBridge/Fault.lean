import RtlBridge.Token

/-! What can be wrong with a source file: causes as data, and their wording in one place each. -/

namespace RtlBridge

inductive Role where
  | port
  | signal
  | var
  | constant
  | enumLiteral
deriving Repr, DecidableEq, Inhabited

def Role.text : Role → String
  | .port => "port"
  | .signal => "signal"
  | .var => "variable"
  | .constant => "constant"
  | .enumLiteral => "enum_literal"

/-- Why a construct that was opened has no proper end. -/
inductive Gap where
  | noEnd
  | noBegin
  | noEndProcess
  | noEndLoop
  | noSemicolon
  | otherEnd (found construct : String)
deriving Repr, DecidableEq

def Gap.text : Gap → String
  | .noEnd => "begin without matching end"
  | .noBegin => "missing 'begin'"
  | .noEndProcess => "begin without matching 'end process'"
  | .noEndLoop => "missing 'end loop'"
  | .noSemicolon => "missing ';'"
  | .otherEnd found construct => s!"found 'end {found}' instead of 'end {construct}'"

inductive SyntaxFault where
  | unexpectedCharacter (c : Char)
  | invalidBasedLiteral (text : String)
  | expected (text : String) (found : Lexeme)
  | expectedIdentifier (found : Lexeme)
  | unendedClause
  | unterminated (construct : String) (gap : Gap)
  | wrongClosingName (closing construct name : String)
  | secondEntity
  | secondArchitecture
  | architectureFirst
  | noEntity
  | unexpected (found : Lexeme) (place : String)
  | noDirection (typeName : String)
  | foreignArchitecture (name entity wanted : String)
  | noFinalElse
  | noAssignmentSymbol (name : String) (found : Lexeme)
  | notBits (text : String)
  | emptyBitString (text : String)
  | invalidOctal (text : String)
  | invalidBinary (text : String)
  | noAttributeName (found : Lexeme)
deriving Repr, DecidableEq

def SyntaxFault.message : SyntaxFault → String
  | .unexpectedCharacter c => s!"unexpected character {Text.quoted c.toString}"
  | .invalidBasedLiteral text => s!"invalid based literal {text}"
  | .expected text found =>
      if text = ")" then s!"unbalanced parentheses: expected ')' but found {found.shown}"
      else s!"expected '{text}' but found {found.shown}"
  | .expectedIdentifier found => s!"expected identifier but found {found.shown}"
  | .unendedClause => "expected ';' before end of file"
  | .unterminated construct gap => s!"unterminated {construct} ({gap.text})"
  | .wrongClosingName closing construct name =>
      s!"'end {closing}' does not close {construct} '{name}'"
  | .secondEntity => "more than one entity in a single file"
  | .secondArchitecture => "more than one architecture in a single file"
  | .architectureFirst => "architecture appears before any entity"
  | .noEntity => "no entity declaration found"
  | .unexpected found place => s!"unexpected {found.shown} {place}"
  | .noDirection typeName => s!"expected 'downto' or 'to' in range of {typeName}"
  | .foreignArchitecture name entity wanted =>
      s!"architecture {name} is for entity '{entity}', expected '{wanted}'"
  | .noFinalElse => "conditional signal assignment needs a final 'else'"
  | .noAssignmentSymbol name found =>
      s!"expected '<=' or ':=' after {name} but found {found.shown}"
  | .notBits text => s!"string literal \"{text}\" is not a bit vector"
  | .emptyBitString text => s!"empty bit-string literal {text}"
  | .invalidOctal text => s!"invalid octal literal {text}"
  | .invalidBinary text => s!"invalid binary literal {text}"
  | .noAttributeName found => s!"expected attribute name after tick, found {found.shown}"

inductive NameFault where
  | collision (role : Role) (name : String) (otherRole : Role) (other : String)
  | boundNotStatic
  | typeTwice (name : String)
  | variableCollision (name : String)
  | unknownSensitivity (name : String)
  | notAssignable (role : Role) (name : String)
  | immediateToSignal (name : String)
  | deferredToVariable (name : String)
  | undeclared (name : String)
  | subscripts (name : String) (count : Nat)
  | undeclaredFunction (name : String)
  | wrongArity (name : String) (expected found : Nat)
  | needsSignal (name : String)
deriving Repr, DecidableEq

def NameFault.message : NameFault → String
  | .collision role name otherRole other =>
      s!"{role.text} '{name}' collides with {otherRole.text} '{other}'"
  | .boundNotStatic => "range bound is not a static integer"
  | .typeTwice name => s!"type '{name}' declared twice"
  | .variableCollision name => s!"variable '{name}' collides with an existing declaration"
  | .unknownSensitivity name => s!"sensitivity list names undeclared signal '{name}'"
  | .notAssignable role name => s!"cannot assign to {role.text} '{name}'"
  | .immediateToSignal name => s!"':=' assignment to signal '{name}'"
  | .deferredToVariable name => s!"'<=' assignment to variable '{name}'"
  | .undeclared name => s!"'{name}' is not declared"
  | .subscripts name count => s!"'{name}' indexed with {count} subscripts"
  | .undeclaredFunction name => s!"function '{name}' is not declared"
  | .wrongArity name expected found => s!"{name} takes {expected} argument(s), got {found}"
  | .needsSignal name => s!"{name} needs a signal name"

/-- Constructs of the language that have no counterpart in the output. -/
inductive Construct where
  | package
  | configuration
  | generic
  | entityStatements
  | linkagePort
  | declaration (description : String)
  | otherType
  | generate
  | block
  | instantiation
  | processWithoutSensitivity
  | processDeclaration (found : String)
  | rangeChoice
  | absolute
  | power
  | aggregate
  | qualified
  | unconstrained (typeName : String)
  | unknownType (name : String)
  | variableInTwoProcesses (name : String)
  | attributeOfExpression (name : String)
  | attributeNamed (name : String)
  | attributeInExpression (name : String)
  | edgeOutsideProcess
  | edgeOutsideIf (predicate : String)
  | unsizedAggregate
deriving Repr, DecidableEq

def Construct.text : Construct → String
  | .package => "package"
  | .configuration => "configuration"
  | .generic => "generic"
  | .entityStatements => "entity statement part"
  | .linkagePort => "linkage port"
  | .declaration description => description
  | .otherType => "non-enumerated type declaration"
  | .generate => "generate"
  | .block => "block"
  | .instantiation => "component instantiation"
  | .processWithoutSensitivity => "process without sensitivity list"
  | .processDeclaration found => s!"'{found}' declaration in process"
  | .rangeChoice => "range choice in case"
  | .absolute => "abs operator"
  | .power => "exponentiation"
  | .aggregate => "aggregate"
  | .qualified => "qualified expression"
  | .unconstrained typeName => s!"unconstrained {typeName}"
  | .unknownType name => s!"type {name}"
  | .variableInTwoProcesses name => s!"variable '{name}' declared in more than one process"
  | .attributeOfExpression name => s!"attribute '{name} on an expression"
  | .attributeNamed name => s!"attribute '{name}"
  | .attributeInExpression name => s!"attribute '{name} in an expression"
  | .edgeOutsideProcess => "edge test outside a clocked process"
  | .edgeOutsideIf predicate => s!"{predicate} outside a clocked if"
  | .unsizedAggregate => "(others => ...) without a known width"

/-- Findings that leave a design usable. -/
inductive Finding where
  | widthMismatch (target : String) (targetWidth valueWidth : Int)
  | mixedSensitivity (process : String) (missing extra : List String)
deriving Repr, DecidableEq

def Finding.message : Finding → String
  | .widthMismatch target targetWidth valueWidth =>
      s!"width mismatch assigning {valueWidth}-bit value to {targetWidth}-bit '{target}'"
  | .mixedSensitivity process missing extra =>
      let parts :=
        (if missing.isEmpty then [] else ["missing " ++ ", ".intercalate missing]) ++
        (if extra.isEmpty then [] else ["unused " ++ ", ".intercalate extra])
      s!"sensitivity list of {process}: " ++ "; ".intercalate parts

/-- Puts the line in front of a message; line 0 stands for no line. -/
def atLine (line : Int) (message : String) : String :=
  if line = 0 then message else s!"line {line}: {message}"

structure Diagnostic where
  finding : Finding
  line : Nat
deriving Repr, DecidableEq

def Diagnostic.message (diagnostic : Diagnostic) : String :=
  atLine diagnostic.line diagnostic.finding.message

inductive DriverKind where
  | sequential
  | combinational
  | continuous
deriving Repr, DecidableEq, Inhabited

def DriverKind.text : DriverKind → String
  | .sequential => "sequential process"
  | .combinational => "combinational process"
  | .continuous => "continuous assignment"

inductive DriverConflict where
  | inputPort
  | twoKinds (first : DriverKind) (firstLine : Nat) (second : DriverKind)
deriving Repr, DecidableEq

def DriverConflict.text : DriverConflict → String
  | .inputPort => "is an input port and cannot be driven"
  | .twoKinds first firstLine second =>
      s!"is driven by a {first.text} (line {firstLine}) and a {second.text}"

/-- Why a process with an edge test has none of the clocked shapes. -/
inductive ShapeFault where
  | manyEdges
  | allSensitive
  | outsideIf
  | clockedElse
  | clockNotSensitive (clock : String)
  | otherSensitivity (others : List String)
  | otherAlternatives
  | nestedEdge
  | noResetTest
  | sensitivityMismatch (clock reset : String)
deriving Repr, DecidableEq

def ShapeFault.text : ShapeFault → String
  | .manyEdges => "more than one clock edge test"
  | .allSensitive => "clocked process with 'all' sensitivity"
  | .outsideIf => "statements outside the clocked if"
  | .clockedElse => "clocked if has an else branch"
  | .clockNotSensitive clock => s!"edge on '{clock}' which is not in the sensitivity list"
  | .otherSensitivity others =>
      "sensitivity list has members besides the clock: " ++ ", ".intercalate others
  | .otherAlternatives => "edge test is not the only alternative to a reset test"
  | .nestedEdge => "edge test is nested below the top-level if"
  | .noResetTest => "first branch does not test a reset level"
  | .sensitivityMismatch clock reset => s!"sensitivity list must be exactly ({clock}, {reset})"

inductive Cause where
  | malformed (fault : SyntaxFault)
  | misnamed (fault : NameFault)
  | unsupported (construct : Construct)
  | finding (finding : Finding)
  | conflictingDrivers (signal : String) (conflict : DriverConflict)
  | ambiguousReset (process : String) (fault : ShapeFault)
deriving Repr, DecidableEq

def Cause.message : Cause → String
  | .malformed fault => fault.message
  | .misnamed fault => fault.message
  | .unsupported construct => s!"unsupported construct: {construct.text}"
  | .finding found => found.message
  | .conflictingDrivers signal conflict => s!"'{signal}' {conflict.text}"
  | .ambiguousReset process fault => s!"{process}: {fault.text}"

structure Fault where
  cause : Cause
  line : Nat
deriving Repr, DecidableEq

namespace Fault

def message (fault : Fault) : String :=
  atLine fault.line fault.cause.message

def malformed (line : Nat) (fault : SyntaxFault) : Fault := ⟨.malformed fault, line⟩

def misnamed (line : Nat) (fault : NameFault) : Fault := ⟨.misnamed fault, line⟩

def unsupported (line : Nat) (construct : Construct) : Fault := ⟨.unsupported construct, line⟩

end Fault

end RtlBridge
