import ClassAtlas.Text.Quoted

/-! # Command-line options

Options come before other arguments, after one or two dashes. A switch stands alone or takes a truth
value after `=`; the path of the class file stands after `=` or is the next argument. The first
argument that is no option ends them, and so does `--`. A later option overrides an earlier one.

* `Options`: what the command is asked to do.
* `Refusal`: why the arguments are not understood.
* `Options.parse`: the options of a list of arguments.
* `Options.usage`: the description of all options.
-/

namespace ClassAtlas
set_option autoImplicit false

/-! ## Options -/

/-- What the command is asked to do. -/
structure Options where
  path : String := ""
  interactive : Bool := false
  json : Bool := false
  spans : Bool := false
  verbose : Bool := false
  noColour : Bool := false
  deriving DecidableEq

/-- Why arguments are not understood. -/
inductive Refusal where
  /-- The arguments ask for help. -/
  | help
  | badSyntax (argument : String)
  | undefined (name : String)
  | badTruthValue (value name : String)
  | missingValue (name : String)
  deriving DecidableEq

/-- The refusal in words; there are none for help. -/
def Refusal.message? : Refusal → Option String
  | help => none
  | badSyntax argument => some ("bad flag syntax: " ++ argument)
  | undefined name => some ("flag provided but not defined: -" ++ name)
  | badTruthValue value name =>
    some ("invalid boolean value " ++ Text.quote (Text.encode value) ++ " for -" ++ name
      ++ ": parse error")
  | missingValue name => some ("flag needs an argument: -" ++ name)

/-! ## Parsing -/

namespace Options

def truthValue? (s : String) : Option Bool :=
  if ["1", "t", "T", "TRUE", "true", "True"].contains s then some true
  else if ["0", "f", "F", "FALSE", "false", "False"].contains s then some false
  else none

/-- How an argument reads: it ends the options, or names one of them, perhaps with a value. -/
inductive Word where
  | ending
  | malformed
  | option (name : List Char) (value : Option (List Char))

/-- A name, and the value after the first equals sign that is not its first character. -/
def splitValue : List Char → List Char × Option (List Char)
  | [] => ([], none)
  | c :: cs =>
    match cs.dropWhile (· ≠ '=') with
    | _ :: value => (c :: cs.takeWhile (· ≠ '='), some value)
    | [] => (c :: cs, none)

def namedWord (cs : List Char) : Word :=
  match cs with
  | [] | '-' :: _ | '=' :: _ => .malformed
  | cs =>
    let (name, value) := splitValue cs
    .option name value

def word (argument : String) : Word :=
  match argument.toList with
  | ['-', '-'] => .ending
  | '-' :: '-' :: cs => namedWord cs
  | ['-'] => .ending
  | '-' :: cs => namedWord cs
  | _ => .ending

def setSwitch? (o : Options) (name : String) (value : Bool) : Option Options :=
  match name with
  | "i" => some { o with interactive := value }
  | "json" => some { o with json := value }
  | "spans" => some { o with spans := value }
  | "v" => some { o with verbose := value }
  | "no-color" => some { o with noColour := value }
  | _ => none

/-- Sets a switch to the truth value that is written after it, or else to true. -/
def applySwitch (o : Options) (name : String) (value : Option String) :
    Except Refusal Options :=
  match o.setSwitch? name true with
  | none => .error (if name = "help" ∨ name = "h" then .help else .undefined name)
  | some on =>
    match value with
    | none => .ok on
    | some text =>
      match truthValue? text with
      | some b => .ok ((o.setSwitch? name b).getD o)
      | none => .error (.badTruthValue text name)

/-- The options of arguments, on top of those already found. -/
def parseFrom (o : Options) : List String → Except Refusal Options
  | [] => .ok o
  | argument :: rest =>
    match word argument with
    | .ending => .ok o
    | .malformed => .error (.badSyntax argument)
    | .option name value =>
      let name := String.ofList name
      let value := value.map String.ofList
      if name = "class" then
        match value, rest with
        | some path, rest => parseFrom { o with path := path } rest
        | none, path :: rest => parseFrom { o with path := path } rest
        | none, [] => .error (.missingValue name)
      else
        match o.applySwitch name value with
        | .error r => .error r
        | .ok o => parseFrom o rest

def parse (arguments : List String) : Except Refusal Options :=
  parseFrom {} arguments

end Options

/-! ## Help -/

def Options.usage : String :=
  "Usage of classview:\n"
    ++ "  -class string\n    \tPath to .class file\n"
    ++ "  -i\tInteractive mode with TUI\n"
    ++ "  -json\n    \tDump the decoded tree as JSON\n"
    ++ "  -no-color\n    \tDisable colored output\n"
    ++ "  -spans\n    \tPrint the byte map instead of the listing\n"
    ++ "  -v\tDebug logging to stderr\n"

/-- How to call the command, in short. -/
def Options.synopsis : String :=
  "Usage: classview -class <File.class> [-spans] [-json] [-no-color] [-v]\n"
    ++ "       classview -class <File.class> -i  (interactive mode)\n"

end ClassAtlas
