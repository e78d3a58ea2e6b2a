import RtlBridge.CommandLine.Grammar
import RtlBridge.Report

/-! What can be asked for on the command line. -/

namespace RtlBridge.CommandLine

/-- Where results are asked to go: next to the sources, to a path, or to a path left blank. -/
inductive Destination where
  | beside
  | path (text : String)
  | blank
deriving Repr, DecidableEq

namespace Destination

def ofValue : Option String → Destination
  | some text => .path text
  | none => .blank

def path? : Destination → Option String
  | .path text => some text
  | _ => none

end Destination

inductive Command where
  | convert (input : String) (output : Destination) (print : Bool)
  /-- Convert the sources of a folder; the number of workers may be left blank. -/
  | batch (folder : String) (output : Destination) (recursive : Bool) (workersBlank : Bool)
  | analyze (input : String) (topic : Option Topic)
deriving Repr, DecidableEq

structure Request where
  dialect : Option Dialect
  strictWidths : Bool
  verbosity : Nat
  command : Command
deriving Repr, DecidableEq

def program : String := "vhdl2ver"

def versionText : String := "vhdl2ver 0.1.0"

def flagOption {σ : Type} (names : List String) (set : σ → σ) : OptionRule σ :=
  ⟨names, .flag fun arguments => .ok (set arguments)⟩

def textOption {σ : Type} (names : List String) (set : Option String → σ → σ) : OptionRule σ :=
  ⟨names, .value fun value arguments => .ok (set value arguments)⟩

def choiceOption {σ α : Type} (names : List String) (choices : List String)
    (choice? : String → Option α) (set : Option α → σ → σ) : OptionRule σ :=
  ⟨names, .value fun value arguments =>
    match value with
    | none => .ok (set none arguments)
    | some text =>
        match choice? text with
        | some choice => .ok (set (some choice) arguments)
        | none => .error (badChoice text choices)⟩

def helpOption {σ : Type} (program : String) : OptionRule σ :=
  ⟨["-h", "--help"], .flag fun _ => .error (.help program)⟩

structure ConvertArguments where
  input : String := ""
  output : Destination := .beside
  print : Bool := false

def convertGrammar : Grammar ConvertArguments where
  program := program ++ " transpile"
  options := [
    helpOption (program ++ " transpile"),
    textOption ["-o", "--output"] fun value arguments => { arguments with output := .ofValue value },
    flagOption ["--stdout"] fun arguments => { arguments with print := true }]
  operand := .single "input" fun input arguments => { arguments with input := input }

structure BatchArguments where
  folder : String := ""
  output : Destination := .beside
  recursive : Bool := false
  workersBlank : Bool := false

/-- The number of workers has to be a number. It has no bearing on what a batch does, so only whether it
is blank is kept. -/
def workersOption {σ : Type} (setBlank : Bool → σ → σ) : OptionRule σ :=
  ⟨["-j", "--jobs"], .value fun value arguments =>
    match value with
    | none => .ok (setBlank true arguments)
    | some text =>
        match Text.Numeral.setting? text with
        | some _ => .ok (setBlank false arguments)
        | none => .error s!"invalid int value: {Text.quoted text}"⟩

def batchGrammar : Grammar BatchArguments where
  program := program ++ " batch"
  options := [
    helpOption (program ++ " batch"),
    textOption ["-o", "--output-folder"] fun value arguments =>
      { arguments with output := .ofValue value },
    flagOption ["-r", "--recursive"] fun arguments => { arguments with recursive := true },
    workersOption fun isBlank arguments => { arguments with workersBlank := isBlank }]
  operand := .single "folder" fun folder arguments => { arguments with folder := folder }

structure AnalyzeArguments where
  input : String := ""
  topic : Option Topic := some .all

def analyzeGrammar : Grammar AnalyzeArguments where
  program := program ++ " analyze"
  options := [
    helpOption (program ++ " analyze"),
    choiceOption ["--type"] (Topic.every.map Topic.text) Topic.ofText? fun topic arguments =>
      { arguments with topic := topic }]
  operand := .single "input" fun input arguments => { arguments with input := input }

def commandNames : List String := ["transpile", "batch", "analyze"]

/-- Reads a command with its own options; also the words that mean nothing to it. -/
def readCommand : List String → Except Stop (Command × List String)
  | "transpile" :: words => do
      let (arguments, extras) ← convertGrammar.run {} words
      return (.convert arguments.input arguments.output arguments.print, extras)
  | "batch" :: words => do
      let (arguments, extras) ← batchGrammar.run {} words
      let command : Command :=
        .batch arguments.folder arguments.output arguments.recursive arguments.workersBlank
      return (command, extras)
  | "analyze" :: words => do
      let (arguments, extras) ← analyzeGrammar.run {} words
      return (.analyze arguments.input arguments.topic, extras)
  | words =>
      .error (.misuse program ("argument command: " ++ badChoice (words.headD "") commandNames))

structure Arguments where
  dialect : Option Dialect := none
  strictWidths : Bool := false
  verbosity : Nat := 0
  command : Option (Command × List String) := none

def grammar : Grammar Arguments where
  program := program
  options := [
    helpOption program,
    ⟨["--version"], .flag fun _ => .error .version⟩,
    choiceOption ["--dialect"] ["legacy", "strict"] Dialect.ofName? fun dialect arguments =>
      { arguments with dialect := dialect },
    flagOption ["--strict-widths"] fun arguments => { arguments with strictWidths := true },
    flagOption ["-v", "--verbose"] fun arguments =>
      { arguments with verbosity := arguments.verbosity + 1 }]
  operand := .rest "command" fun words arguments => do
    return { arguments with command := some (← readCommand words) }

/-- Reads a command line. Words that mean nothing are refused only when all others are read. -/
def Request.ofWords (words : List String) : Except Stop Request := do
  let (arguments, extras) ← grammar.run {} words
  match arguments.command with
  | none => grammar.misuse "the following arguments are required: command"
  | some (command, commandExtras) =>
      let extras := extras ++ commandExtras
      if extras.isEmpty then
        return {
          dialect := arguments.dialect
          strictWidths := arguments.strictWidths
          verbosity := arguments.verbosity
          command := command }
      else grammar.misuse ("unrecognized arguments: " ++ " ".intercalate extras)

end RtlBridge.CommandLine
