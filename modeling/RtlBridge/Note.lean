import RtlBridge.Fault

/-! Progress notes: what the program says about its work while it does it. -/

namespace RtlBridge

inductive NoteLevel where
  | debug
  | info
  | warning
  | error
deriving Repr, DecidableEq

namespace NoteLevel

def text : NoteLevel → String
  | .debug => "DEBUG"
  | .info => "INFO"
  | .warning => "WARNING"
  | .error => "ERROR"

def rank : NoteLevel → Nat
  | .debug => 0
  | .info => 1
  | .warning => 2
  | .error => 3

end NoteLevel

inductive Note where
  | defaultIgnored (ports : List String)
  | statementKept (construct : String) (line : Nat)
  | delayDropped (line : Nat)
  | unitParsed (entity : String) (ports : Nat) (architecture : Option String)
  | entityParsed (entity : String)
  | rangeReversed (line : Nat) (typeName : String) (high low : Int)
  | noArchitecture (entity : String)
  | designBuilt (entity : String) (ports statements : Nat)
  | storage (names : List String)
  | found (diagnostic : Diagnostic)
  | placeholder (entity : String) (fault : Fault)
  | rendered (entity dialect : String)
  | converting (path dialect : String)
  | wrote (path : String)
  | sourcesFound (count : Nat) (folder : String)
  | batchFinished (good bad : Nat)
  | fileFailed (source message : String)
  | failed (message : String)
deriving Repr, DecidableEq

namespace Note

def level : Note → NoteLevel
  | .found _ | .placeholder _ _ => .warning
  | .converting _ _ | .wrote _ | .sourcesFound _ _ | .batchFinished _ _ => .info
  | .fileFailed _ _ | .failed _ => .error
  | _ => .debug

def text : Note → String
  | .defaultIgnored ports => "Ignoring default value of port(s) " ++ ", ".intercalate ports
  | .statementKept construct line => s!"Keeping {construct} at line {line} as placeholder"
  | .delayDropped line => s!"Dropping delay clause at line {line}"
  | .unitParsed entity ports architecture =>
      let name := architecture.getD "None"
      s!"Parsed entity {entity} ({ports} ports, architecture={name})"
  | .entityParsed entity => s!"parsed entity {entity}"
  | .rangeReversed line typeName high low =>
      s!"line {line}: ascending range of {typeName} normalised to {high} downto {low}"
  | .noArchitecture entity => s!"entity {entity} has no architecture"
  | .designBuilt entity ports statements =>
      s!"built IR for {entity}: {ports} ports, {statements} statements"
  | .storage names =>
      "storage: " ++ if names.isEmpty then "none" else ", ".intercalate names
  | .found diagnostic => diagnostic.message
  | .placeholder entity fault => s!"{entity}: {fault.message}"
  | .rendered entity dialect => s!"rendered {entity} in {dialect} dialect"
  | .converting path dialect => s!"transpiling {path} ({dialect})"
  | .wrote path => s!"wrote {path}"
  | .sourcesFound count folder => s!"found {count} VHDL files in {folder}"
  | .batchFinished good bad => s!"batch finished: {good} ok, {bad} failed"
  | .fileFailed source message => s!"{source}: {message}"
  | .failed message => message

def line (note : Note) : String := s!"{note.level.text}: {note.text}"

end Note

end RtlBridge
