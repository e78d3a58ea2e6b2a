import RtlBridge.Emission.Module
import RtlBridge.Vhdl.Lowering
import RtlBridge.Vhdl.Parser.DesignFile

/-! From VHDL text to Verilog text. -/

namespace RtlBridge

def load (source : List Char) (strict : Bool) : Traced Fault Vhdl.Resolved := do
  let parsed ← Vhdl.parse source
  Traced.note (.entityParsed parsed.entity.name)
  let design ← Vhdl.lower parsed
  Vhdl.resolve design strict

/-- The text of a resolved design in a dialect. An indent step is that many blanks, and none if the number
is negative. -/
def render (resolved : Vhdl.Resolved) (dialect : Dialect) (indent : Int) : Traced Failure String := do
  let unit ← (Text.run ' ' indent).mapError Failure.run
  let module ← (Emission.moduleOf dialect.profile resolved).mapError Emission.Refusal.failure
  return module.text unit

def defaultIndent : Int := 2

structure Converted where
  text : String
  entity : String
  diagnostics : List Diagnostic

def dialectOf (name : String) : Except Failure Dialect :=
  match Dialect.ofText? name with
  | some dialect => .ok dialect
  | none => .error (.argument (.unknownDialect name))

/-- Converts a source text. The source is looked at before the name of the dialect. -/
def convert (source : List Char) (dialect : String) (strict : Bool) (indent : Int) :
    Traced Failure Converted := do
  let resolved ← (load source strict).mapError .source
  let dialect ← dialectOf dialect
  let text ← render resolved dialect indent
  return ⟨text, resolved.design.entity.name, resolved.diagnostics⟩

end RtlBridge
