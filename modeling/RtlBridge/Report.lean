import RtlBridge.Conversion

/-! Summaries of a design for people to read. -/

namespace RtlBridge

inductive Topic where
  | entities
  | ports
  | signals
  | processes
  | all
deriving Repr, DecidableEq, Inhabited

namespace Topic

def text : Topic → String
  | .entities => "entities"
  | .ports => "ports"
  | .signals => "signals"
  | .processes => "processes"
  | .all => "all"

def every : List Topic := [.entities, .ports, .signals, .processes, .all]

def ofText? (text : String) : Option Topic := every.find? (·.text = text)

end Topic

namespace Report

open Vhdl (DataType Resolved)

def typeText : DataType → String
  | .bit => "bit"
  | .vector vector =>
      let kind := if vector.signed then "signed" else "unsigned"
      s!"{kind} [{vector.high}:{vector.low}]"
  | .enum enum => s!"{enum.name} ({enum.literals.length} states, {enum.width} bits)"

def portLines (resolved : Resolved) (pad : String) : List String :=
  let ports := resolved.design.entity.ports
  if ports.isEmpty then [pad ++ "No ports"]
  else ports.map fun port =>
    s!"{pad}{port.name} : {port.direction.text} {typeText port.type}"

def roleText (resolved : Resolved) (name : String) : String :=
  match resolved.drivers.find? name with
  | some driver => if driver.kind = .sequential then "register" else driver.kind.text
  | none => "undriven"

def signalLines (resolved : Resolved) (architecture : Vhdl.Architecture DataType) (pad : String) :
    List String :=
  if architecture.signals.isEmpty then [pad ++ "No signals"]
  else architecture.signals.map fun decl =>
    s!"{pad}{decl.name} : {typeText decl.type} ({roleText resolved decl.name})"

def processLines (resolved : Resolved) (pad : String) : List String :=
  if resolved.processes.isEmpty then [pad ++ "No processes"]
  else resolved.processes.flatMap fun (block, kind) =>
    let sensitivity := match block.sensitivity with
      | .all => "all"
      | .listed names => ", ".intercalate names
    [s!"{pad}{block.shownName}: sensitivity ({sensitivity})", s!"{pad}  kind: {kind.describe}"]

def architectureLines (resolved : Resolved)
    (details : Vhdl.Architecture DataType → List String) : List String :=
  match resolved.design.architecture with
  | some architecture => s!"  Architecture: {architecture.name}" :: details architecture
  | none => ["  No architecture found"]

def fullLines (resolved : Resolved) (architecture : Vhdl.Architecture DataType) : List String :=
  let processes := architecture.processes.length
  s!"    Signals: {architecture.signals.length}" :: signalLines resolved architecture "      " ++
    s!"    Processes: {processes}" :: processLines resolved "      " ++
    [s!"    Concurrent statements: {architecture.statements.length - processes}"]

def diagnosticLines (resolved : Resolved) : List String :=
  if resolved.diagnostics.isEmpty then []
  else "  Diagnostics:" :: resolved.diagnostics.map fun diagnostic => "    " ++ diagnostic.message

def topicLines (resolved : Resolved) : Topic → List String
  | .entities =>
      s!"  Ports: {resolved.design.entity.ports.length}" :: architectureLines resolved fun _ => []
  | .ports => portLines resolved "  "
  | .signals =>
      architectureLines resolved fun architecture => signalLines resolved architecture "    "
  | .processes => architectureLines resolved fun _ => processLines resolved "    "
  | .all =>
      s!"  Ports: {resolved.design.entity.ports.length}" :: portLines resolved "    " ++
        architectureLines resolved (fullLines resolved) ++ diagnosticLines resolved

end Report

def Vhdl.Resolved.report (resolved : Vhdl.Resolved) (topic : Topic) : String :=
  let lines := s!"Entity: {resolved.design.entity.name}" :: Report.topicLines resolved topic
  "\n".intercalate lines ++ "\n"

def Topic.ofName (name : Option String) : Except ArgumentFault Topic :=
  match name with
  | none => .error .blankReport
  | some text =>
      match Topic.ofText? text with
      | some topic => .ok topic
      | none => .error (.unknownReport text)

/-- Summarises a source text. The source is looked at before the name of the topic. -/
def analyze (source : List Char) (topic : Option String) : Traced Failure String := do
  let resolved ← (load source false).mapError .source
  match Topic.ofName topic with
  | .ok topic => return resolved.report topic
  | .error fault => throw (.argument fault)

end RtlBridge
