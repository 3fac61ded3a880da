import ClassAtlas.AccessFlags
import ClassAtlas.Attribute
import ClassAtlas.Attribute.Reading
import ClassAtlas.Browser
import ClassAtlas.Browser.Prompt
import ClassAtlas.Browser.Terminal
import ClassAtlas.Browser.Toolkit
import ClassAtlas.Browser.Viewport
import ClassAtlas.ClassFile
import ClassAtlas.ClassFile.Journal
import ClassAtlas.ClassFile.Json
import ClassAtlas.ClassFile.Reading
import ClassAtlas.ClassFile.Spans
import ClassAtlas.Command
import ClassAtlas.Command.Options
import ClassAtlas.Constant
import ClassAtlas.Datum
import ClassAtlas.Decimal.Floating
import ClassAtlas.Decimal.Shortest
import ClassAtlas.Descriptor
import ClassAtlas.Fault
import ClassAtlas.Fault.Chain
import ClassAtlas.Fault.Registry
import ClassAtlas.Instruction
import ClassAtlas.Instruction.Disassembly
import ClassAtlas.Json
import ClassAtlas.Listing.ByteMap
import ClassAtlas.Listing.Class
import ClassAtlas.Listing.Code
import ClassAtlas.Listing.Document
import ClassAtlas.Listing.Theme
import ClassAtlas.Main
import ClassAtlas.Opcode
import ClassAtlas.OperandKind
import ClassAtlas.Pool
import ClassAtlas.Pool.Naming
import ClassAtlas.Proofs.Bytecode
import ClassAtlas.Proofs.BytecodeGrammar
import ClassAtlas.Proofs.Disassembly
import ClassAtlas.Proofs.Format
import ClassAtlas.Proofs.Operands
import ClassAtlas.Proofs.PoolLayout
import ClassAtlas.Proofs.Word
import ClassAtlas.Release
import ClassAtlas.Tag
import ClassAtlas.Text.Lines
import ClassAtlas.Text.LowerCase
import ClassAtlas.Text.ModifiedUtf8
import ClassAtlas.Text.Numeral
import ClassAtlas.Text.Printable
import ClassAtlas.Text.Quoted
import ClassAtlas.Text.Template
import ClassAtlas.Text.Utf8
import ClassAtlas.Window
import ClassAtlas.Window.Family
import ClassAtlas.Proofs.BodyLayout
import ClassAtlas.Proofs.AttributeLayout
import ClassAtlas.Proofs.ClassLayout
import ClassAtlas.Proofs.Ledger
import ClassAtlas.Proofs.Leaves
import ClassAtlas.Proofs.Tiling
import ClassAtlas.Proofs.Transcript
import ClassAtlas.Proofs.Partition
import ClassAtlas.Proofs.Delimiting
import ClassAtlas.Proofs.Safety
import ClassAtlas.Proofs.Declarations
import ClassAtlas.Proofs.Browsing
import ClassAtlas.Proofs.Respelling
import ClassAtlas.Proofs.Indifference
import ClassAtlas.Proofs.Sizes
import ClassAtlas.Proofs.Freshness
import ClassAtlas.Proofs.Families
import ClassAtlas.Proofs.Sessions
import ClassAtlas.Proofs.Slots
import ClassAtlas.Proofs.Shortage
import ClassAtlas.Proofs.Whereabouts
import ClassAtlas.Proofs.CutOff
import ClassAtlas.Proofs.DeclaredLength
import ClassAtlas.Proofs.Relocation
import ClassAtlas.Proofs.ProgramCounters
import ClassAtlas.Proofs.ModifiedText
import ClassAtlas.Proofs.SpanLookup
import ClassAtlas.Proofs.TableCheck
import ClassAtlas.Proofs.ControlCharacters
import ClassAtlas.Proofs.Lettering
import ClassAtlas.Proofs.ListingText
import ClassAtlas.Proofs.Colour
import ClassAtlas.Proofs.ListingLines
import ClassAtlas.Proofs.Alignment
import ClassAtlas.Proofs.Defects
import ClassAtlas.Proofs.LineLookup
import ClassAtlas.Proofs.Labels
import ClassAtlas.Proofs.ErrorChains
