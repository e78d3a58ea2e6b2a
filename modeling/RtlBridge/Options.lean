import RtlBridge.Conversion
import RtlBridge.Path

/-! The options of a run, and how the environment sets them. -/

namespace RtlBridge

/-- The dialect is kept as given: its name is looked at only when there is something to write. No
allowed folders means that all are. -/
structure Options where
  dialect : String := "strict"
  strict : Bool := false
  indent : Int := defaultIndent
  allowed : List Place := []
deriving Repr, DecidableEq

namespace Options

def affirmations : List String := ["1", "true", "yes", "on"]

def plain (text : String) : String := Text.lower (Text.trim text)

def indentOf : Option String → Except Failure Int
  | none => .ok defaultIndent
  | some text =>
      match Text.Numeral.setting? text with
      | some indent => .ok indent
      | none => .error (.argument (.notANumber 10 text))

def placeOf (here : Place) (path : Path) : Except FileFault Place :=
  if path.hasNull then .error .nullInName else .ok (path.destination here)

def foldersOf (here : Place) (text : String) : Except FileFault (List Place) :=
  ((Text.pieces ':' text).filter (· ≠ "")).mapM fun folder => placeOf here (Path.ofText folder)

def ofSettings (here : Place) (setting? : String → Option String) : Except Failure Options := do
  let indent ← indentOf (setting? "VHDL2VER_INDENT")
  let folders := (setting? "VHDL2VER_ALLOWED_FOLDERS").getD ""
  let allowed ← (foldersOf here folders).mapError .file
  return {
    dialect := plain ((setting? "VHDL2VER_DIALECT").getD "strict")
    strict := affirmations.contains (plain ((setting? "VHDL2VER_STRICT").getD ""))
    indent := indent
    allowed := allowed }

def allows (options : Options) (place : Place) : Bool :=
  options.allowed.isEmpty || options.allowed.any (Place.within place)

/-- Whether the allowed folders cover what a path means. Where all folders are allowed, the path is not
looked at. -/
def allowsPath (options : Options) (here : Place) (path : Path) : Except FileFault Bool :=
  if options.allowed.isEmpty then .ok true
  else do return options.allows (← placeOf here path)

/-- The dialect asked for, or else the one of the options. An empty name asks for nothing. -/
def dialectFor (options : Options) : Option String → String
  | none => options.dialect
  | some name => if name = "" then options.dialect else name

end Options

end RtlBridge
