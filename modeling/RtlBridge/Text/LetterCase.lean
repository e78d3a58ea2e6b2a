import RtlBridge.Text.LetterCaseTable

/-! Full lower-casing. One letter can become two characters, and a capital sigma at the end of a word
takes its final form. -/

namespace RtlBridge.Text

def CaseRun.holds (run : CaseRun) (c : Char) : Bool :=
  run.first ≤ c.toNat && c.toNat ≤ run.last && (c.toNat - run.first) % run.step == 0

/-- The lower-case form of one character, without regard to its neighbours. -/
def lowerChar (c : Char) : List Char :=
  if c.toNat < 0x80 then [c.toLower]
  else if c.toNat = 0x130 then ['i', '\u0307']
  else
    match lowerRuns.find? (·.holds c) with
    | some run => [Char.ofNat (c.toNat + run.shift).toNat]
    | none => [c]

def isCased (c : Char) : Bool :=
  if c.toNat < 0x80 then c.isAlpha else CodeRange.holds casedRuns c

def isCaseIgnorable (c : Char) : Bool :=
  if c.toNat < 0x80 then c = '\x27' || c = '.' || c = ':' || c = '^' || c = '\x60'
  else CodeRange.holds caseIgnorableRuns c

def startsCased (rest : List Char) : Bool :=
  match rest.find? (!isCaseIgnorable ·) with
  | some c => isCased c
  | none => false

/-- Lower-cases a text that follows a cased letter of the same word, or not. -/
def lowerFrom (afterCased : Bool) : List Char → List Char
  | [] => []
  | c :: rest =>
      let form :=
        if c.toNat = 0x3A3 then
          if afterCased && !startsCased rest then ['ς'] else ['σ']
        else lowerChar c
      form ++ lowerFrom (if isCaseIgnorable c then afterCased else isCased c) rest

def lower (text : String) : String :=
  String.ofList (lowerFrom false text.toList)

end RtlBridge.Text
