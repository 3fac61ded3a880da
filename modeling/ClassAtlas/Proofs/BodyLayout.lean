import ClassAtlas.Attribute.Reading
import ClassAtlas.Proofs.References

/-! # The layout of attribute bodies

How the bodies that carry no attributes are written: references into the pool, and tables of rows
after a count.

* `NestedClassForm`, `BootstrapForm`, `LineForm`, `LocalVariableForm`, `HandlerForm`: rows as they are
  written.
* `BodyForm`: a body as it is written; `BodyForm.Under name` says which bodies belong to a name.
* `Body.reader?_reads`: what is read under a name is the layout of its bodies.
-/

namespace ClassAtlas
set_option autoImplicit false

/-! ## Rows -/

structure NestedClassForm where
  inner : Nat
  outer : Nat
  name : Nat
  flags : Nat
  deriving DecidableEq

structure BootstrapForm where
  reference : Nat
  arguments : List Nat
  deriving DecidableEq

structure LineForm where
  startPc : Nat
  line : Nat
  deriving DecidableEq

structure LocalVariableForm where
  startPc : Nat
  length : Nat
  name : Nat
  descriptor : Nat
  index : Nat
  deriving DecidableEq

structure HandlerForm where
  startPc : Nat
  endPc : Nat
  handlerPc : Nat
  catchType : Nat
  deriving DecidableEq

def NestedClassForm.bytes (r : NestedClassForm) : List UInt8 :=
  Word.bytes 2 r.inner ++ (Word.bytes 2 r.outer ++ (Word.bytes 2 r.name ++ Word.bytes 2 r.flags))

def BootstrapForm.bytes (r : BootstrapForm) : List UInt8 :=
  Word.bytes 2 r.reference ++ Word.rows (Word.bytes 2) r.arguments

def LineForm.bytes (r : LineForm) : List UInt8 :=
  Word.bytes 2 r.startPc ++ Word.bytes 2 r.line

def LocalVariableForm.bytes (r : LocalVariableForm) : List UInt8 :=
  Word.bytes 2 r.startPc ++ (Word.bytes 2 r.length ++ (Word.bytes 2 r.name
    ++ (Word.bytes 2 r.descriptor ++ Word.bytes 2 r.index)))

def HandlerForm.bytes (r : HandlerForm) : List UInt8 :=
  Word.bytes 2 r.startPc ++ (Word.bytes 2 r.endPc ++ (Word.bytes 2 r.handlerPc
    ++ Word.bytes 2 r.catchType))

def NestedClassForm.format (pool : Pool) : Format NestedClassForm NestedClass where
  legal r := pool.referenceFormat.legal r.inner ∧ (pool.optionalFormat "").legal r.outer
    ∧ (pool.optionalFormat "").legal r.name ∧ r.flags < 256 ^ 2
  bytes := bytes
  place pos r :=
    { inner := pool.referenceFormat.place pos r.inner
      outer := (pool.optionalFormat "").place (pos + 2) r.outer
      name := (pool.optionalFormat "").place (pos + 4) r.name
      flags := (Datum.wordAt (pos + 6) r.flags).named (FlagTable.ofNestedClass.describe r.flags) }

def BootstrapForm.format (pool : Pool) : Format BootstrapForm BootstrapMethod where
  legal r := pool.referenceFormat.legal r.reference ∧ pool.referenceFormat.counted.legal r.arguments
  bytes := bytes
  place pos r :=
    { reference := pool.referenceFormat.place pos r.reference
      count := (pool.referenceFormat.counted.place (pos + 2) r.arguments).1
      arguments := (pool.referenceFormat.counted.place (pos + 2) r.arguments).2 }

def LineForm.format : Format LineForm LineEntry where
  legal r := r.startPc < 256 ^ 2 ∧ r.line < 256 ^ 2
  bytes := bytes
  place pos r := ⟨Datum.wordAt pos r.startPc, Datum.wordAt (pos + 2) r.line⟩

def LocalVariableForm.format (pool : Pool) : Format LocalVariableForm LocalVariable where
  legal r := r.startPc < 256 ^ 2 ∧ r.length < 256 ^ 2 ∧ r.name < 256 ^ 2 ∧ r.descriptor < 256 ^ 2
    ∧ r.index < 256 ^ 2 ∧ (pool.text? r.name).isSome = true ∧ (pool.text? r.descriptor).isSome = true
  bytes := bytes
  place pos r :=
    { startPc := Datum.wordAt pos r.startPc
      length := Datum.wordAt (pos + 2) r.length
      name := (Datum.wordAt (pos + 4) r.name).named ((pool.text? r.name).getD "")
      descriptor := (Datum.wordAt (pos + 6) r.descriptor).named ((pool.text? r.descriptor).getD "")
      index := (Datum.wordAt (pos + 8) r.index).named ("@" ++ toString (r.index : Int)) }

/-- Rows of an exception table; catch type 0 catches anything. -/
def HandlerForm.format (pool : Pool) : Format HandlerForm Handler where
  legal r := r.startPc < 256 ^ 2 ∧ r.endPc < 256 ^ 2 ∧ r.handlerPc < 256 ^ 2
    ∧ (pool.optionalFormat "any").legal r.catchType
  bytes := bytes
  place pos r :=
    { startPc := Datum.wordAt pos r.startPc
      endPc := Datum.wordAt (pos + 2) r.endPc
      handlerPc := Datum.wordAt (pos + 4) r.handlerPc
      catchType := (pool.optionalFormat "any").place (pos + 6) r.catchType }

namespace Body

variable (pool : Pool)

theorem nestedClass_reads : Reads (nestedClass pool) (NestedClassForm.format pool) := by
  apply Runs.reads
  · exact pool.readReference_reads.bind fun inner => (pool.readOptional_reads "").bind fun outer =>
      (pool.readOptional_reads "").bind fun name => Datum.u2_reads.bind fun flags => Runs.pure
        (NestedClass.mk inner outer name (flags.named (FlagTable.ofNestedClass.describe flags.raw)))
  · intro pos bs row
    constructor
    · rintro ⟨a, ha, _, rfl, b, hb, _, rfl, c, hc, _, rfl, d, hd, _, rfl, rfl, rfl⟩
      exact ⟨⟨a, b, c, d⟩, ⟨ha, hb, hc, hd⟩, rfl, rfl⟩
    · rintro ⟨⟨a, b, c, d⟩, ⟨ha, hb, hc, hd⟩, rfl, rfl⟩
      exact ⟨a, ha, _, rfl, b, hb, _, rfl, c, hc, _, rfl, d, hd, [], rfl, rfl, rfl⟩

theorem bootstrapMethod_reads : Reads (bootstrapMethod pool) (BootstrapForm.format pool) := by
  apply Runs.reads
  · exact pool.readReference_reads.bind fun reference =>
      Format.counted_bind Datum.u2_reads (fun _ => pool.readReference_reads)
        fun count arguments => Runs.pure (BootstrapMethod.mk reference count arguments)
  · intro pos bs row
    constructor
    · rintro ⟨a, ha, _, rfl, is, his, cs, rfl, rfl, rfl⟩
      refine ⟨⟨a, is⟩, ⟨ha, his⟩, ?_, rfl⟩
      rw [List.append_nil]
      rfl
    · rintro ⟨⟨a, is⟩, ⟨ha, his⟩, rfl, rfl⟩
      exact ⟨a, ha, _, rfl, is, his, [], (List.append_nil _).symm, rfl, rfl⟩

theorem lineEntry_reads : Reads lineEntry LineForm.format := by
  apply Runs.reads
  · exact Datum.u2_reads.bind fun startPc => Datum.u2_reads.bind fun line =>
      Runs.pure (LineEntry.mk startPc line)
  · intro pos bs row
    constructor
    · rintro ⟨a, ha, _, rfl, b, hb, _, rfl, rfl, rfl⟩
      exact ⟨⟨a, b⟩, ⟨ha, hb⟩, rfl, rfl⟩
    · rintro ⟨⟨a, b⟩, ⟨ha, hb⟩, rfl, rfl⟩
      exact ⟨a, ha, _, rfl, b, hb, [], rfl, rfl, rfl⟩

theorem index_place {n pos : Nat} (hn : n < 256 ^ 2) :
    (Datum.wordAt pos n).named ("@" ++ toString (Datum.wordAt pos n).num) =
      (Datum.wordAt pos n).named ("@" ++ toString (n : Int)) := by
  rw [Datum.num_wordAt pos hn]

theorem localVariable_reads : Reads (localVariable pool) (LocalVariableForm.format pool) := by
  apply Runs.reads
  · exact Datum.u2_reads.bind fun startPc => Datum.u2_reads.bind fun length =>
      Datum.u2_reads.bind fun name => Datum.u2_reads.bind fun descriptor =>
        Datum.u2_reads.bind fun index => Runs.settled_bind (pool.referText name) fun name =>
          Runs.settled_bind (pool.referText descriptor) fun descriptor => Runs.pure
            (LocalVariable.mk startPc length name descriptor
              (index.named ("@" ++ toString index.num)))
  · intro pos bs row
    constructor
    · rintro ⟨a, ha, _, rfl, b, hb, _, rfl, c, hc, _, rfl, d, hd, _, rfl, e, he, _, rfl, name, hname,
        descriptor, hdescriptor, rfl, rfl⟩
      obtain ⟨s, hs, rfl⟩ := (pool.referText_wordAt hc).1 hname
      obtain ⟨t, ht, rfl⟩ := (pool.referText_wordAt hd).1 hdescriptor
      refine ⟨⟨a, b, c, d, e⟩, ⟨ha, hb, hc, hd, he, ?_, ?_⟩, rfl, ?_⟩
      · rw [hs]
        rfl
      · rw [ht]
        rfl
      · simp only [LocalVariableForm.format, hs, ht, Option.getD_some, ← index_place he]
        rfl
    · rintro ⟨⟨a, b, c, d, e⟩, ⟨ha, hb, hc, hd, he, hs, ht⟩, rfl, rfl⟩
      obtain ⟨s, hs⟩ := Option.isSome_iff_exists.1 hs
      obtain ⟨t, ht⟩ := Option.isSome_iff_exists.1 ht
      refine ⟨a, ha, _, rfl, b, hb, _, rfl, c, hc, _, rfl, d, hd, _, rfl, e, he, [], rfl, _,
        (pool.referText_wordAt hc).2 ⟨s, hs, rfl⟩, _, (pool.referText_wordAt hd).2 ⟨t, ht, rfl⟩, rfl, ?_⟩
      simp only [LocalVariableForm.format, hs, ht, Option.getD_some, ← index_place he]
      rfl

end Body

theorem Handler.read_reads (pool : Pool) (row : Nat) :
    Reads (read pool row) (HandlerForm.format pool) := by
  apply Runs.reads
  · exact Datum.u2_reads.bind fun startPc => Datum.u2_reads.bind fun endPc =>
      Datum.u2_reads.bind fun handlerPc => Datum.u2_reads.bind fun catchType =>
        Runs.within_settled_bind _ (pool.referOptional "any" catchType) fun catchType =>
          Runs.pure (Handler.mk startPc endPc handlerPc catchType)
  · intro pos bs r
    constructor
    · rintro ⟨a, ha, _, rfl, b, hb, _, rfl, c, hc, _, rfl, d, hd, _, rfl, catchType, hcatch, rfl, rfl⟩
      obtain ⟨hentry, rfl⟩ := (pool.referOptional_wordAt hd).1 hcatch
      exact ⟨⟨a, b, c, d⟩, ⟨ha, hb, hc, hd, hentry⟩, rfl, rfl⟩
    · rintro ⟨⟨a, b, c, d⟩, ⟨ha, hb, hc, hd, hentry⟩, rfl, rfl⟩
      exact ⟨a, ha, _, rfl, b, hb, _, rfl, c, hc, _, rfl, d, hd, [], rfl, _,
        (pool.referOptional_wordAt hd).2 ⟨hentry, rfl⟩, rfl, rfl⟩

/-! ## Bodies -/

/-- The body of an attribute as it is written. -/
inductive BodyForm where
  | constantValue (index : Nat)
  | sourceFile (index : Nat)
  | signature (index : Nat)
  | nestHost (index : Nat)
  | classList (indices : List Nat)
  | nestedClasses (rows : List NestedClassForm)
  | bootstrapMethods (rows : List BootstrapForm)
  | lineNumbers (rows : List LineForm)
  | localVariables (rows : List LocalVariableForm)
  | marker
  | uninterpreted (bytes : List UInt8)
  deriving DecidableEq

namespace BodyForm

/-- The names whose bodies are interpreted. -/
def interpreted : List String :=
  ["ConstantValue", "SourceFile", "Signature", "NestHost", "Exceptions", "NestMembers",
    "PermittedSubclasses", "InnerClasses", "BootstrapMethods", "LineNumberTable",
    "LocalVariableTable", "Deprecated", "Synthetic", "Code"]

/-- The body may stand in an attribute with this name. -/
def Under (name : String) : BodyForm → Prop
  | constantValue _ => name = "ConstantValue"
  | sourceFile _ => name = "SourceFile"
  | signature _ => name = "Signature"
  | nestHost _ => name = "NestHost"
  | classList _ => name = "Exceptions" ∨ name = "NestMembers" ∨ name = "PermittedSubclasses"
  | nestedClasses _ => name = "InnerClasses"
  | bootstrapMethods _ => name = "BootstrapMethods"
  | lineNumbers _ => name = "LineNumberTable"
  | localVariables _ => name = "LocalVariableTable"
  | marker => name = "Deprecated" ∨ name = "Synthetic"
  | uninterpreted _ => name ∉ interpreted

def bytes : BodyForm → List UInt8
  | constantValue i | sourceFile i | signature i | nestHost i => Word.bytes 2 i
  | classList is => Word.rows (Word.bytes 2) is
  | nestedClasses rows => Word.rows NestedClassForm.bytes rows
  | bootstrapMethods rows => Word.rows BootstrapForm.bytes rows
  | lineNumbers rows => Word.rows LineForm.bytes rows
  | localVariables rows => Word.rows LocalVariableForm.bytes rows
  | marker => []
  | uninterpreted bs => bs

variable (pool : Pool)

def Legal : BodyForm → Prop
  | constantValue i | sourceFile i | signature i | nestHost i => pool.referenceFormat.legal i
  | classList is => pool.referenceFormat.counted.legal is
  | nestedClasses rows => (NestedClassForm.format pool).counted.legal rows
  | bootstrapMethods rows => (BootstrapForm.format pool).counted.legal rows
  | lineNumbers rows => LineForm.format.counted.legal rows
  | localVariables rows => (LocalVariableForm.format pool).counted.legal rows
  | marker | uninterpreted _ => True

def place (pos : Nat) : BodyForm → Body
  | constantValue i => .constantValue (pool.referenceFormat.place pos i)
  | sourceFile i => .sourceFile (pool.referenceFormat.place pos i)
  | signature i => .signature (pool.referenceFormat.place pos i)
  | nestHost i => .nestHost (pool.referenceFormat.place pos i)
  | classList is =>
    let table := pool.referenceFormat.counted.place pos is
    .classList table.1 table.2
  | nestedClasses rows =>
    let table := (NestedClassForm.format pool).counted.place pos rows
    .nestedClasses table.1 table.2
  | bootstrapMethods rows =>
    let table := (BootstrapForm.format pool).counted.place pos rows
    .bootstrapMethods table.1 table.2
  | lineNumbers rows =>
    let table := LineForm.format.counted.place pos rows
    .lineNumbers ⟨table.1, table.2⟩
  | localVariables rows =>
    let table := (LocalVariableForm.format pool).counted.place pos rows
    .localVariables table.1 table.2
  | marker => .marker
  | uninterpreted bs => .uninterpreted (Datum.ofSkipped pos bs)

def format (name : String) : Format BodyForm Body where
  legal b := b.Under name ∧ b.Legal pool
  bytes := bytes
  place := place pool

end BodyForm

namespace Body

variable {pool : Pool} {name : String}

theorem readReference_reads (make : Datum → Body) (form : Nat → BodyForm)
    (hunder : ∀ b : BodyForm, b.Under name ↔ ∃ i, b = form i)
    (hform : ∀ i, ((form i).Legal pool ↔ pool.referenceFormat.legal i)
      ∧ (form i).bytes = Word.bytes 2 i
      ∧ ∀ pos, (form i).place pool pos = make (pool.referenceFormat.place pos i)) :
    Reads (readReference pool make) (BodyForm.format pool name) := by
  apply Runs.reads (pool.readReference_reads.bind fun d => Runs.pure (make d))
  intro pos bs b
  constructor
  · rintro ⟨i, hi, cs, rfl, rfl, rfl⟩
    obtain ⟨hlegal, hbytes, hplace⟩ := hform i
    refine ⟨form i, ⟨(hunder _).2 ⟨i, rfl⟩, hlegal.2 hi⟩, ?_, (hplace pos).symm⟩
    rw [List.append_nil]
    exact hbytes.symm
  · rintro ⟨b, ⟨hb, hl⟩, rfl, rfl⟩
    obtain ⟨i, rfl⟩ := (hunder b).1 hb
    obtain ⟨hlegal, hbytes, hplace⟩ := hform i
    refine ⟨i, hlegal.1 hl, [], ?_, rfl, hplace pos⟩
    rw [List.append_nil]
    exact hbytes

theorem readRows_reads {ι α : Type} {row : Reading α} {F : Format ι α} (hrow : Reads row F)
    (make : Datum → List α → Body) (form : List ι → BodyForm)
    (hunder : ∀ b : BodyForm, b.Under name ↔ ∃ xs, b = form xs)
    (hform : ∀ xs, ((form xs).Legal pool ↔ F.counted.legal xs)
      ∧ (form xs).bytes = F.counted.bytes xs
      ∧ ∀ pos, (form xs).place pool pos = make (F.counted.place pos xs).1 (F.counted.place pos xs).2) :
    Reads (readRows row make) (BodyForm.format pool name) := by
  apply Runs.reads (Format.counted_bind Datum.u2_reads (fun _ => hrow)
    fun count rows => Runs.pure (make count rows))
  intro pos bs b
  constructor
  · rintro ⟨xs, hxs, cs, rfl, rfl, rfl⟩
    obtain ⟨hlegal, hbytes, hplace⟩ := hform xs
    refine ⟨form xs, ⟨(hunder _).2 ⟨xs, rfl⟩, hlegal.2 hxs⟩, ?_, (hplace pos).symm⟩
    rw [List.append_nil]
    exact hbytes.symm
  · rintro ⟨b, ⟨hb, hl⟩, rfl, rfl⟩
    obtain ⟨xs, rfl⟩ := (hunder b).1 hb
    obtain ⟨hlegal, hbytes, hplace⟩ := hform xs
    refine ⟨xs, hlegal.1 hl, [], ?_, rfl, hplace pos⟩
    rw [List.append_nil]
    exact hbytes

theorem marker_reads (hunder : ∀ b : BodyForm, b.Under name ↔ b = .marker) :
    Reads (pure marker) (BodyForm.format pool name) := by
  apply Runs.reads (Runs.pure marker)
  intro pos bs b
  constructor
  · rintro ⟨rfl, rfl⟩
    exact ⟨.marker, ⟨(hunder _).2 rfl, trivial⟩, rfl, rfl⟩
  · rintro ⟨b, ⟨hb, -⟩, rfl, rfl⟩
    obtain rfl := (hunder b).1 hb
    exact ⟨rfl, rfl⟩

/-- A name with a reader has the bodies that the reader reads. -/
theorem reader?_reads {reader : Reading Body} (h : reader? pool name = some reader) :
    Reads reader (BodyForm.format pool name) := by
  unfold reader? at h
  split at h
  · cases h
    apply readReference_reads constantValue .constantValue
    · intro b
      cases b <;> simp [BodyForm.Under, BodyForm.interpreted]
    · exact fun _ => ⟨Iff.rfl, rfl, fun _ => rfl⟩
  · cases h
    apply readReference_reads sourceFile .sourceFile
    · intro b
      cases b <;> simp [BodyForm.Under, BodyForm.interpreted]
    · exact fun _ => ⟨Iff.rfl, rfl, fun _ => rfl⟩
  · cases h
    apply readReference_reads signature .signature
    · intro b
      cases b <;> simp [BodyForm.Under, BodyForm.interpreted]
    · exact fun _ => ⟨Iff.rfl, rfl, fun _ => rfl⟩
  · cases h
    apply readReference_reads nestHost .nestHost
    · intro b
      cases b <;> simp [BodyForm.Under, BodyForm.interpreted]
    · exact fun _ => ⟨Iff.rfl, rfl, fun _ => rfl⟩
  · cases h
    apply readRows_reads pool.readReference_reads classList .classList
    · intro b
      cases b <;> simp [BodyForm.Under, BodyForm.interpreted]
    · exact fun _ => ⟨Iff.rfl, rfl, fun _ => rfl⟩
  · cases h
    apply readRows_reads pool.readReference_reads classList .classList
    · intro b
      cases b <;> simp [BodyForm.Under, BodyForm.interpreted]
    · exact fun _ => ⟨Iff.rfl, rfl, fun _ => rfl⟩
  · cases h
    apply readRows_reads pool.readReference_reads classList .classList
    · intro b
      cases b <;> simp [BodyForm.Under, BodyForm.interpreted]
    · exact fun _ => ⟨Iff.rfl, rfl, fun _ => rfl⟩
  · cases h
    apply readRows_reads (nestedClass_reads pool) nestedClasses .nestedClasses
    · intro b
      cases b <;> simp [BodyForm.Under, BodyForm.interpreted]
    · exact fun _ => ⟨Iff.rfl, rfl, fun _ => rfl⟩
  · cases h
    apply readRows_reads (bootstrapMethod_reads pool) bootstrapMethods .bootstrapMethods
    · intro b
      cases b <;> simp [BodyForm.Under, BodyForm.interpreted]
    · exact fun _ => ⟨Iff.rfl, rfl, fun _ => rfl⟩
  · cases h
    apply readRows_reads lineEntry_reads (fun length entries => lineNumbers ⟨length, entries⟩) .lineNumbers
    · intro b
      cases b <;> simp [BodyForm.Under, BodyForm.interpreted]
    · exact fun _ => ⟨Iff.rfl, rfl, fun _ => rfl⟩
  · cases h
    apply readRows_reads (localVariable_reads pool) localVariables .localVariables
    · intro b
      cases b <;> simp [BodyForm.Under, BodyForm.interpreted]
    · exact fun _ => ⟨Iff.rfl, rfl, fun _ => rfl⟩
  · cases h
    apply marker_reads
    intro b
    cases b <;> simp [BodyForm.Under, BodyForm.interpreted]
  · cases h
    apply marker_reads
    intro b
    cases b <;> simp [BodyForm.Under, BodyForm.interpreted]
  · cases h

/-- A name without a reader is that of method bodies, or it has bodies of any bytes. -/
theorem under_of_reader?_eq_none (h : reader? pool name = none) (hcode : name ≠ "Code")
    (b : BodyForm) : b.Under name ↔ ∃ bs, b = .uninterpreted bs := by
  unfold reader? at h
  split at h
  case h_14 =>
    cases b <;> simp_all [BodyForm.Under, BodyForm.interpreted]
  all_goals cases h

theorem not_under_code (b : BodyForm) : ¬ b.Under "Code" := by
  cases b <;> simp [BodyForm.Under, BodyForm.interpreted]

end Body

end ClassAtlas
