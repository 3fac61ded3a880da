import ClassAtlas.ClassFile
import ClassAtlas.Listing.Code
import ClassAtlas.Text.LowerCase

/-! # Listing of a class

* `summary`: the header of the class.
* `isMatch`: whether a constant passes a filter.
* `constantLine`, `pool`: the constants, one on each line.
* `member`, `members`: fields or methods.
* `classFile`: the whole class.
-/

namespace ClassAtlas.Listing
set_option autoImplicit false

/-! ## Summary -/

def summaryLine (label : String) (value : Document) : Document :=
  .text (indent ++ Text.justifyLeft 14 (label ++ ":") ++ " ") :: value ++ [newline]

/-- The header of the class. A wrong magic number and trailing bytes show as warnings. -/
def summary (cf : ClassFile) : Document :=
  .token .title cf.name
    :: (if cf.hasSuperClass then [.text " extends ", .token .name cf.superName] else [])
    ++ [newline]
    ++ (if cf.hasValidMagic then []
      else summaryLine "magic" [.token .warning (cf.magic.str ++ " (expected 0xCAFEBABE)")])
    ++ summaryLine "version" [.text cf.version]
    ++ summaryLine "flags"
      [.token .flags ("(0x" ++ Text.hex 4 cf.accessFlags.raw ++ ") " ++ cf.accessFlags.name)]
    ++ (if cf.sourceFile = "" then [] else summaryLine "source" [.text cf.sourceFile])
    ++ (if cf.interfaces.isEmpty then []
      else summaryLine "interfaces"
        (separated ", " (cf.interfaces.map fun d => [.token .name d.name])))
    ++ summaryLine "constants" [.text (toString cf.pool.constants.length)]
    ++ summaryLine "fields" [.text (toString cf.fields.length)]
    ++ summaryLine "methods" [.text (toString cf.methods.length)]
    ++ match cf.trailing with
      | some d => summaryLine "trailing"
          [.token .warning (toString d.width ++ " bytes at offset " ++ toString d.offset)]
      | none => []

/-! ## The constant pool -/

/-- The first characters occur in a row within the second ones. -/
def occursIn (needle : List Char) : List Char → Bool
  | [] => needle.isEmpty
  | c :: cs => needle.isPrefixOf (c :: cs) || occursIn needle cs

/-- Whether a constant passes a filter: an empty filter passes all, `#index` that one entry, and any
other text the entries whose name or tag contains it, whatever its case. -/
def isMatch (filter : String) (c : Constant) : Bool :=
  if filter = "" then true
  else if filter.toList.head? = some '#' then filter = "#" ++ toString c.index
  else
    let needle := (Text.lower filter).toList
    occursIn needle (Text.lower c.name).toList || occursIn needle (Text.lower c.tag.name).toList

/-- One entry: its index, tag, references and name. -/
def constantLine (c : Constant) : Document :=
  let references := c.references.map fun d => "#" ++ toString d.num
  [.token .index (Text.justifyRight 6 ("#" ++ toString c.index)), .text " = ",
    .token .tag (Text.justifyLeft 18 c.tag.name)]
    ++ if references.isEmpty then [.text " ", .token .name c.name]
      else [.text (" " ++ Text.justifyLeft 14 (".".intercalate references) ++ " "),
        .token .comment ("// " ++ c.name)]

/-- The entries that pass a filter, one on each line. -/
def pool (filter : String) (p : Pool) : Document :=
  [.token .heading "Constant pool:", newline]
    ++ (p.constants.filter (isMatch filter)).flatMap fun c => constantLine c ++ [newline]

/-! ## Members and the whole class -/

/-- A field or a method with its attributes. -/
def member (m : Member) : Document :=
  .text indent
    :: (if m.accessFlags.name = "" then [] else [.token .flags m.accessFlags.name, .text " "])
    ++ [.token .name m.signature, newline,
      .text (indent ++ indent ++ "descriptor: " ++ m.descriptor), newline]
    ++ attributes (indent ++ indent) m.attributes

/-- Fields or methods under a title. -/
def members (title : String) (ms : List Member) : Document :=
  [.token .heading (title ++ ":"), newline] ++ ms.flatMap fun m => member m ++ [newline]

def classFile (cf : ClassFile) : Document :=
  summary cf ++ [newline] ++ pool "" cf.pool ++ [newline] ++ members "Fields" cf.fields ++ [newline]
    ++ members "Methods" cf.methods
    ++ if cf.attributes.isEmpty then []
      else [newline, .token .heading "Attributes:", newline] ++ attributes indent cf.attributes

end ClassAtlas.Listing
