import ClassAtlas.ClassFile.Journal
import ClassAtlas.ClassFile.Json
import ClassAtlas.Command.Options
import ClassAtlas.Fault.Chain
import ClassAtlas.Listing.ByteMap
import ClassAtlas.Listing.Class

/-! # The command

What the command does with its arguments and the files it finds, as a function of both.

* `Source`: what stands under a path.
* `load`: the class file under a path, with the records of its decoding.
* `Outcome`: exit code and outputs.
* `Command.plan`: what the arguments ask for.
* `Command.inspect`: the report on a class file.
* `Command.run`: the whole command.
-/

namespace ClassAtlas
set_option autoImplicit false

/-! ## Files -/

/-- What stands under a path. -/
inductive Source where
  | contents (bytes : List UInt8)
  /-- Nothing that can be read: the operation that fails, and why. -/
  | unreadable (operation reason : String)

namespace Source

/-- No file under the path. -/
def missing : Source := .unreadable "open" "no such file or directory"

def directory : Source := .unreadable "read" "is a directory"

end Source

/-- A class file with the bytes it was read from. -/
structure Loaded where
  classFile : ClassFile
  bytes : List UInt8

/-- The class file under a path, and the records of its decoding. -/
def load (path : String) : Source → List Record × Except Chain Loaded
  | .unreadable operation reason =>
    ([], .error (.load "read class file" [.note (operation ++ " " ++ path ++ ": " ++ reason)]))
  | .contents bytes =>
    let (records, result) := ClassFile.journal bytes
    (records, (result.map (⟨·, bytes⟩)).mapError Chain.ofFault)

/-! ## Records as text -/

namespace Record

def escapeChar (c : Char) : String :=
  if c = '"' then "\\\""
  else if c = '\\' then "\\\\"
  else if c = '\n' then "\\n"
  else if c = '\r' then "\\r"
  else if c = '\t' then "\\t"
  else if c.toNat < 0x20 then "\\u" ++ Text.hex 4 c.toNat
  else c.toString

def valueText : RecordValue → String
  | .number n => toString n
  | .text s => "\"" ++ String.join (s.toList.map escapeChar) ++ "\""

/-- The line of a record: its level, its message and its fields. -/
def line (r : Record) : String :=
  "DEBUG\t" ++ r.message ++ "\t\x7b"
    ++ ", ".intercalate (r.fields.map fun (key, v) => "\"" ++ key ++ "\": " ++ valueText v)
    ++ "\x7d\n"

end Record

/-! ## The command -/

/-- Exit code and outputs of a finished command. -/
structure Outcome where
  exitCode : Nat := 0
  output : String := ""
  errors : String := ""

/-- What arguments ask for. -/
inductive Plan where
  /-- Nothing that needs a class file. -/
  | finish (outcome : Outcome)
  /-- A report on a class file. -/
  | inspect (options : Options)
  /-- An interactive session on a class file. -/
  | browse (path : String)

namespace Command

def errorText (c : Chain) : String :=
  "Error: " ++ c.message ++ "\n"

/-- What the user is told about a wrong magic number. -/
def magicWarning (theme : Listing.Theme) (cf : ClassFile) : String :=
  if cf.hasValidMagic then ""
  else
    theme.token .warning ("warning: magic is " ++ cf.magic.str ++ ", not a class file?") ++ "\n"

def report (o : Options) (theme : Listing.Theme) (l : Loaded) : String :=
  if o.json then l.classFile.toJson.render ++ "\n"
  else if o.spans then theme.render (Listing.byteMap l.classFile l.bytes)
  else theme.render (Listing.classFile l.classFile)

/-- The theme for an output that is a terminal or not. -/
def themeFor (themes : Listing.Themes) (o : Options) (terminal : Bool) : Listing.Theme :=
  if terminal && !o.noColour then themes.coloured else themes.plain

/-- Loads the class file that stands under the path of the options, and reports on it. -/
def inspect (themes : Listing.Themes) (o : Options) (terminal : Bool) (source : Source) : Outcome :=
  let theme := themeFor themes o terminal
  let (records, result) := load o.path source
  let log := if o.verbose then String.join (records.map Record.line) else ""
  match result with
  | .error c => { exitCode := 1, errors := log ++ errorText c }
  | .ok l => { output := report o theme l, errors := log ++ magicWarning theme l.classFile }

def plan (arguments : List String) : Plan :=
  match Options.parse arguments with
  | .error r =>
    match r.message? with
    | some message => .finish { exitCode := 2, errors := message ++ "\n" ++ Options.usage }
    | none => .finish { errors := Options.usage }
  | .ok o =>
    if o.path = "" then .finish { exitCode := 1, errors := Options.synopsis }
    else if o.interactive then .browse o.path
    else .inspect o

/-- The command with its arguments and the files it may read, on an output that is a terminal or not;
nothing for an interactive session. -/
def run (themes : Listing.Themes) (arguments : List String) (files : String → Source)
    (terminal : Bool) : Option Outcome :=
  match plan arguments with
  | .finish outcome => some outcome
  | .inspect o => some (inspect themes o terminal (files o.path))
  | .browse _ => none

end Command

end ClassAtlas
