import RtlBridge.Text.LetterCase

/-! The two dialects of the output, and everything in which they differ. -/

namespace RtlBridge

/-- Verilog-2001 is the legacy dialect, SystemVerilog the strict one. -/
inductive Dialect where
  | legacy
  | strict
deriving Repr, DecidableEq, Inhabited

namespace Dialect

def text : Dialect → String
  | .legacy => "legacy"
  | .strict => "strict"

def ofName? (name : String) : Option Dialect :=
  if name = "legacy" then some .legacy
  else if name = "strict" then some .strict
  else none

def ofText? (text : String) : Option Dialect := ofName? (Text.lower text)

def suffix : Dialect → String
  | .legacy => ".v"
  | .strict => ".sv"

end Dialect

/-- How a dialect writes things: the words for nets, registers, combinational and clocked blocks and
parameters; whether it has exclusive cases, unsized fill literals and enumeration types; and whether
a combinational output is a wire driven through a register of its own. -/
structure Profile where
  dialect : Dialect
  netType : String
  storageType : String
  combinationalHeader : String
  clockedKeyword : String
  uniqueCase : Bool
  fillAggregates : Bool
  typedEnums : Bool
  parameterType : String
  combinationalShadow : Bool

def Dialect.profile : Dialect → Profile
  | .legacy => {
      dialect := .legacy
      netType := "wire"
      storageType := "reg"
      combinationalHeader := "always @(*)"
      clockedKeyword := "always"
      uniqueCase := false
      fillAggregates := false
      typedEnums := false
      parameterType := ""
      combinationalShadow := true }
  | .strict => {
      dialect := .strict
      netType := "logic"
      storageType := "logic"
      combinationalHeader := "always_comb"
      clockedKeyword := "always_ff"
      uniqueCase := true
      fillAggregates := true
      typedEnums := true
      parameterType := "logic"
      combinationalShadow := false }

end RtlBridge
