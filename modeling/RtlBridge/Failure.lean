import RtlBridge.Fault
import RtlBridge.Text.Run
import RtlBridge.Text.Utf8

/-! Everything that can end a run: a fault in a source, an argument without meaning, a file that cannot
be read or written, a text that cannot be had. -/

namespace RtlBridge

inductive ArgumentFault where
  | unknownDialect (text : String)
  | notADialect (text : String)
  | notANumber (base : Nat) (text : String)
  | noFileName (path : String)
  | unknownReport (text : String)
  | blankReport
deriving Repr, DecidableEq

/-- A quoted text in a message about numbers is cut after 200 characters. -/
def cutQuoted (text : String) : String :=
  String.ofList ((Text.quoted text).toList.take 200)

def expectedReports : String := "expected one of entities, ports, signals, processes, all"

def ArgumentFault.message : ArgumentFault → String
  | .unknownDialect text =>
      s!"unknown dialect {Text.quoted text} (expected 'legacy' or 'strict')"
  | .notADialect text => s!"{Text.quoted text} is not a valid Dialect"
  | .notANumber base text => s!"invalid literal for int() with base {base}: {cutQuoted text}"
  | .noFileName path => s!"PosixPath({Text.quoted path}) has an empty name"
  | .unknownReport text => s!"unknown analysis type {Text.quoted text}, {expectedReports}"
  | .blankReport => s!"unknown analysis type [], {expectedReports}"

/-- Files and folders that cannot be used as asked; paths are as printed. -/
inductive FileFault where
  | outside (path : String)
  | tooLarge (path : String) (size limit : Nat)
  | missing (path : String)
  | existing (path : String)
  | throughFile (path : String)
  | isFolder (path : String)
  | notAFolder (path : String)
  | nameTooLong (path : String)
  | nullInName
deriving Repr, DecidableEq

def FileFault.message : FileFault → String
  | .outside path => s!"{path} is outside the allowed folders"
  | .tooLarge path size limit => s!"{path} is {size} bytes, larger than the {limit} byte limit"
  | .missing path => s!"[Errno 2] No such file or directory: {Text.quoted path}"
  | .existing path => s!"[Errno 17] File exists: {Text.quoted path}"
  | .throughFile path => s!"[Errno 20] Not a directory: {Text.quoted path}"
  | .isFolder path => s!"[Errno 21] Is a directory: {Text.quoted path}"
  | .notAFolder path => s!"{path} is not a directory"
  | .nameTooLong path => s!"[Errno 36] File name too long: {Text.quoted path}"
  | .nullInName => "embedded null byte"

/-- Values that a run cannot do without and that were left blank. -/
inductive BlankValue where
  | path
  | workers
deriving Repr, DecidableEq

def BlankValue.message : BlankValue → String
  | .path => "expected str, bytes or os.PathLike object, not list"
  | .workers => "'>' not supported between instances of 'list' and 'int'"

/-- What an expression may lack that lowering has not checked. -/
inductive Lack where
  | literals
  | argument
deriving Repr, DecidableEq

def Lack.message : Lack → String
  | .literals => "math domain error"
  | .argument => "tuple index out of range"

inductive Failure where
  | source (fault : Fault)
  | argument (fault : ArgumentFault)
  | file (fault : FileFault)
  | decoding (fault : Text.Utf8.DecodeFault)
  | blank (value : BlankValue)
  | lacking (lack : Lack)
  | run (fault : Text.RunFault)
deriving Repr, DecidableEq

namespace Failure

def message : Failure → String
  | .source fault => fault.message
  | .argument fault => fault.message
  | .file fault => fault.message
  | .decoding fault => fault.message
  | .blank value => value.message
  | .lacking lack => lack.message
  | .run fault => fault.message

/-- Whether the program tells of a failure and ends; by the others it is broken off. -/
def isTold : Failure → Bool
  | .source _ | .argument _ | .file _ | .decoding _ | .lacking .literals => true
  | .blank _ | .lacking .argument | .run _ => false

end Failure

end RtlBridge
