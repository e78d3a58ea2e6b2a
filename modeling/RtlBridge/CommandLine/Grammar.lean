import RtlBridge.Text.DecimalDigit
import RtlBridge.Text.Quoted

/-! Command lines: options with and without values, written in full, shortened, joined or with an equals
sign, around one operand. All words are told apart before any of them takes effect; then they take
effect from left to right. -/

namespace RtlBridge.CommandLine

/-- Ways to end before there is anything to do. -/
inductive Stop where
  | misuse (program message : String)
  | version
  | help (program : String)
deriving Repr, DecidableEq

/-- What an option does to the arguments read so far. The value may be blank. A refused value says why. -/
inductive Effect (σ : Type) where
  | flag (apply : σ → Except Stop σ)
  | value (apply : Option String → σ → Except String σ)

structure OptionRule (σ : Type) where
  names : List String
  effect : Effect σ

def OptionRule.label {σ : Type} (rule : OptionRule σ) : String := "/".intercalate rule.names

/-- The operand is one word, or it starts with the first word that is no option and takes all words that
follow, options too. -/
inductive Operand (σ : Type) where
  | single (name : String) (apply : String → σ → σ)
  | rest (name : String) (apply : List String → σ → Except Stop σ)

def Operand.name {σ : Type} : Operand σ → String
  | .single name _ => name
  | .rest name _ => name

structure Grammar (σ : Type) where
  program : String
  options : List (OptionRule σ)
  operand : Operand σ

/-- What stands in the same word as an option: behind the letter of a short option, where an equals sign
may set it off, or behind the equals sign of a long one. -/
inductive Attached where
  | nothing
  | joined (text : List Char)
  | assigned (text : List Char)
deriving Repr, DecidableEq

inductive Word (σ : Type) where
  | plain (text : String)
  | separator
  | unknown (text : String)
  | option (text : String) (rule : OptionRule σ) (attached : Attached)

def Word.text {σ : Type} : Word σ → String
  | .plain text => text
  | .separator => "--"
  | .unknown text => text
  | .option text _ _ => text

/-- The end of a word of options, after its flags. -/
inductive WordEnd (σ : Type) where
  | nothing
  | value (rule : OptionRule σ) (apply : Option String → σ → Except String σ) (text : String)
  | awaiting (rule : OptionRule σ) (apply : Option String → σ → Except String σ)

structure Asked (σ : Type) where
  flags : List (σ → Except Stop σ)
  last : WordEnd σ

def badChoice (value : String) (choices : List String) : String :=
  let listed := ", ".intercalate (choices.map Text.quoted)
  s!"invalid choice: {Text.quoted value} (choose from {listed})"

/-- Negative numbers, with or without a fraction, are not taken for options. One line feed may follow. -/
def isNegativeNumber : List Char → Bool
  | '-' :: body =>
      let body := if body.getLast? = some '\n' then body.dropLast else body
      match body.dropWhile Text.isDigit with
      | [] => !body.isEmpty
      | c :: fraction => c = '.' && !fraction.isEmpty && fraction.all Text.isDigit
  | _ => false

def Attached.behind (name value : List Char) : Attached :=
  match name with
  | '-' :: '-' :: _ => .assigned value
  | _ => .joined value

/-- A word before its first equals sign, and what follows the sign. -/
def cutAssigned (text : List Char) : List Char × Attached :=
  let name := text.takeWhile (· ≠ '=')
  match text.dropWhile (· ≠ '=') with
  | _ :: value => (name, .behind name value)
  | [] => (text, .nothing)

/-- A value as an option takes it: one that is no more than a separator is blank. -/
def valueOf (text : String) : Option String :=
  if text = "--" then none else some text

/-- Whether the operand is still wanted, was the last word, or was given before. -/
inductive OperandState where
  | wanted
  | justGiven
  | given
deriving Repr, DecidableEq

/-- The arguments read so far, and the words that mean nothing. -/
structure Reading (σ : Type) where
  arguments : σ
  operand : OperandState
  extras : List String

namespace Reading

variable {σ : Type}

def addExtra (reading : Reading σ) (text : String) : Reading σ :=
  { reading with extras := reading.extras ++ [text] }

def passOperand (reading : Reading σ) : Reading σ :=
  if reading.operand = .justGiven then { reading with operand := .given } else reading

end Reading

namespace Grammar

variable {σ α : Type}

def misuse (grammar : Grammar σ) (message : String) : Except Stop α :=
  .error (.misuse grammar.program message)

def refuse (grammar : Grammar σ) (rule : OptionRule σ) (message : String) : Except Stop α :=
  grammar.misuse s!"argument {rule.label}: {message}"

def refuseValue (grammar : Grammar σ) (rule : OptionRule σ) (value : List Char) : Except Stop α :=
  grammar.refuse rule s!"ignored explicit argument {Text.quoted (String.ofList value)}"

def rule? (grammar : Grammar σ) (name : List Char) : Option (OptionRule σ) :=
  grammar.options.find? fun rule => rule.names.contains (String.ofList name)

def named (grammar : Grammar σ) : List (String × OptionRule σ) :=
  grammar.options.flatMap fun rule => rule.names.map fun name => (name, rule)

/-- The options that a word may stand for when it names none: a long option may be cut short, and a short
one may have its value or other short options joined to it. -/
def candidates (grammar : Grammar σ) (text : List Char) : List (String × OptionRule σ × Attached) :=
  match text with
  | '-' :: '-' :: _ =>
      let (name, attached) := cutAssigned text
      (grammar.named.filter fun (full, _) => name.isPrefixOf full.toList).map fun (full, rule) =>
        (full, rule, attached)
  | '-' :: letter :: tail =>
      (grammar.named.filter fun (full, _) => full.toList = ['-', letter]).map fun (full, rule) =>
        (full, rule, .joined tail)
  | _ => []

def spelled? (grammar : Grammar σ) (text : List Char) : Option (OptionRule σ × Attached) :=
  match grammar.rule? text with
  | some rule => some (rule, .nothing)
  | none =>
      let (name, attached) := cutAssigned text
      (grammar.rule? name).map (·, attached)

/-- Tells what a word before any separator is. -/
def classify (grammar : Grammar σ) (text : String) : Except Stop (Word σ) :=
  match text.toList with
  | '-' :: second :: tail =>
      let chars := '-' :: second :: tail
      match grammar.spelled? chars with
      | some (rule, attached) => .ok (.option text rule attached)
      | none =>
          match grammar.candidates chars with
          | [(_, rule, attached)] => .ok (.option text rule attached)
          | [] =>
              .ok (if isNegativeNumber chars || chars.contains ' ' then .plain text else .unknown text)
          | several =>
              let listed := ", ".intercalate (several.map (·.1))
              grammar.misuse s!"ambiguous option: {text} could match {listed}"
  | _ => .ok (.plain text)

/-- Tells what each word is. Nothing after a separator is an option. -/
def classifyAll (grammar : Grammar σ) : List String → Except Stop (List (Word σ))
  | [] => .ok []
  | text :: rest =>
      if text = "--" then .ok (.separator :: rest.map .plain)
      else do
        let word ← grammar.classify text
        return word :: (← grammar.classifyAll rest)

/-- Reads the letters joined to the flag `rule`: each is a short option, up to the first that takes the
remaining letters for its value. Letters that are no option would be the value of a flag, which takes
none. -/
def joinedTo (grammar : Grammar σ) (rule : OptionRule σ) : List Char → Except Stop (Asked σ)
  | [] => .ok ⟨[], .nothing⟩
  | letter :: tail =>
      match grammar.rule? ['-', letter] with
      | none => grammar.refuseValue rule (letter :: tail)
      | some next =>
          match next.effect, tail with
          | .value apply, [] => .ok ⟨[], .awaiting next apply⟩
          | .value apply, value => .ok ⟨[], .value next apply (String.ofList value)⟩
          | .flag apply, tail => do
              let asked ← joinedTo grammar next tail
              return { asked with flags := apply :: asked.flags }

def asked (grammar : Grammar σ) (rule : OptionRule σ) (attached : Attached) : Except Stop (Asked σ) :=
  match rule.effect, attached with
  | .value apply, .nothing => .ok ⟨[], .awaiting rule apply⟩
  | .value apply, .joined text => .ok ⟨[], .value rule apply (String.ofList text)⟩
  | .value apply, .assigned text => .ok ⟨[], .value rule apply (String.ofList text)⟩
  | .flag apply, .nothing => .ok ⟨[apply], .nothing⟩
  | .flag _, .assigned text => grammar.refuseValue rule text
  | .flag _, .joined [] => grammar.refuseValue rule []
  | .flag apply, .joined text => do
      let asked ← grammar.joinedTo rule text
      return { asked with flags := apply :: asked.flags }

def applyFlags (flags : List (σ → Except Stop σ)) (reading : Reading σ) : Except Stop (Reading σ) := do
  return { reading with arguments := ← flags.foldlM (fun arguments apply => apply arguments) reading.arguments }

def applyValue (grammar : Grammar σ) (rule : OptionRule σ) (apply : Option String → σ → Except String σ)
    (text : String) (reading : Reading σ) : Except Stop (Reading σ) :=
  match apply (valueOf text) reading.arguments with
  | .ok arguments => .ok { reading with arguments := arguments }
  | .error message => grammar.refuse rule message

/-- Lets the words take effect. A separator right before or after the operand belongs to it, unless the
operand takes all words. -/
def read (grammar : Grammar σ) (reading : Reading σ) : List (Word σ) → Except Stop (Reading σ)
  | [] => .ok reading
  | .unknown text :: rest => read grammar (reading.passOperand.addExtra text) rest
  | .plain text :: rest =>
      match reading.operand, grammar.operand with
      | .wanted, .single _ apply =>
          read grammar
            { reading with arguments := apply text reading.arguments, operand := .justGiven } rest
      | .wanted, .rest _ apply => do
          let arguments ← apply (text :: rest.map Word.text) reading.arguments
          return { reading with arguments := arguments, operand := .given }
      | _, _ => read grammar (reading.passOperand.addExtra text) rest
  | .separator :: rest =>
      match reading.operand, grammar.operand with
      | .wanted, .single _ _ => read grammar reading rest
      | .wanted, .rest _ apply =>
          if rest.isEmpty then .ok reading
          else do
            let arguments ← apply ("--" :: rest.map Word.text) reading.arguments
            return { reading with arguments := arguments, operand := .given }
      | .justGiven, _ => read grammar reading.passOperand rest
      | .given, _ => read grammar (reading.addExtra "--") rest
  | .option _ rule attached :: rest => do
      let asked ← grammar.asked rule attached
      let reading := reading.passOperand
      match asked.last, rest with
      | .nothing, rest => read grammar (← applyFlags asked.flags reading) rest
      | .value rule apply text, rest =>
          read grammar (← grammar.applyValue rule apply text (← applyFlags asked.flags reading)) rest
      | .awaiting rule apply, .plain text :: rest =>
          read grammar (← grammar.applyValue rule apply text (← applyFlags asked.flags reading)) rest
      | .awaiting rule _, _ => grammar.refuse rule "expected one argument"

/-- Reads a command line: the arguments, and the words that mean nothing. -/
def run (grammar : Grammar σ) (start : σ) (words : List String) : Except Stop (σ × List String) := do
  let words ← grammar.classifyAll words
  let reading ← grammar.read ⟨start, .wanted, []⟩ words
  if reading.operand = .wanted then
    grammar.misuse s!"the following arguments are required: {grammar.operand.name}"
  else return (reading.arguments, reading.extras)

end Grammar

end RtlBridge.CommandLine
