import ClassAtlas.ClassFile.Reading
import ClassAtlas.Proofs.AttributeLayout
import ClassAtlas.Proofs.DescriptorGrammar
import ClassAtlas.Proofs.Naming

/-! # The layout of class files

A class file is written as a header with the constant pool, references to the class, its superclass
and its interfaces, the fields, the methods and the attributes. What is decoded is this layout,
followed by anything at all.

* `MemberForm`, `ClassForm`: fields and methods, and classes, as they are written.
* `ClassForm.Legal pool`: the class may stand in a file whose named pool is `pool`.
* `ClassForm.bytes`: how it is written.
* `ClassForm.tree pool trailing`: the decoded class file, with what follows it.
* `ClassFile.decode_eq_ok`: decoding succeeds exactly on written classes.
-/

namespace ClassAtlas
set_option autoImplicit false

/-! ## Members -/

/-- A field or a method as it is written. -/
structure MemberForm where
  accessFlags : Nat
  name : Nat
  descriptor : Nat
  attributes : List AttributeForm

namespace MemberForm

def bytes (m : MemberForm) : List UInt8 :=
  Word.bytes 2 m.accessFlags ++ (Word.bytes 2 m.name ++ (Word.bytes 2 m.descriptor
    ++ Word.rows AttributeForm.bytes m.attributes))

/-- Name and descriptor are Utf8 entries, and the descriptor is grammatical. -/
structure Legal (pool : Pool) (m : MemberForm) : Prop where
  accessFlags : m.accessFlags < 256 ^ 2
  name : m.name < 256 ^ 2
  descriptor : m.descriptor < 256 ^ 2
  named : (pool.text? m.name).isSome = true
  described : ∃ s, pool.text? m.descriptor = some s ∧ Descriptor.Grammatical (Text.encode s)
  attributes : (AttributeForm.lists pool).legal m.attributes

def signature (pool : Pool) (m : MemberForm) : String :=
  (Descriptor.declaration ((pool.text? m.descriptor).getD "")
    ((pool.text? m.name).getD "")).toOption.getD ""

/-- The decoded member, whose flags have the meaning of `flags`. -/
def place (pool : Pool) (flags : FlagTable) (pos : Nat) (m : MemberForm) : Member :=
  { accessFlags := (Datum.wordAt pos m.accessFlags).named (flags.describe m.accessFlags)
    nameIndex := (Datum.wordAt (pos + 2) m.name).named ((pool.text? m.name).getD "")
    descriptorIndex :=
      (Datum.wordAt (pos + 4) m.descriptor).named ((pool.text? m.descriptor).getD "")
    signature := m.signature pool
    attributeCount := Datum.wordAt (pos + 6) m.attributes.length
    attributes := AttributeForm.placeList pool (pos + 8) m.attributes }

def format (pool : Pool) (flags : FlagTable) : Format MemberForm Member where
  legal := Legal pool
  bytes := bytes
  place := place pool flags

end MemberForm

namespace Member

variable {pool : Pool}

theorem read_reads (flags : FlagTable) : Reads (read pool flags) (MemberForm.format pool flags) := by
  simp only [read, readHead, bind_assoc, pure_bind]
  apply Runs.reads
  · exact Datum.u2_reads.bind fun accessFlags => Datum.u2_reads.bind fun name =>
      Datum.u2_reads.bind fun descriptor =>
        Runs.within_settled_bind _ (pool.referText name) fun name =>
          Runs.within_settled_bind _ (pool.referText descriptor) fun descriptor =>
            Runs.within_settled_bind _ (Descriptor.declaration descriptor.name name.name)
              fun signature => (Attribute.readList_reads.within name.name).bind fun r =>
                Runs.pure (Member.mk (accessFlags.named (flags.describe accessFlags.raw)) name
                  descriptor signature r.1 r.2)
  · intro pos bs m
    constructor
    · rintro ⟨a, ha, _, rfl, b, hb, _, rfl, c, hc, _, rfl, name, hname, descriptor, hdescriptor,
        signature, hsignature, as, has, _, rfl, rfl, rfl⟩
      obtain ⟨n, hn, rfl⟩ := (pool.referText_wordAt hb).1 hname
      obtain ⟨s, hs, rfl⟩ := (pool.referText_wordAt hc).1 hdescriptor
      have hgrammar := (Descriptor.exists_declaration_iff _ _).1 ⟨signature, hsignature⟩
      have hshown : MemberForm.signature pool ⟨a, b, c, as⟩ = signature := by
        have hdecl : Descriptor.declaration s n = .ok signature := hsignature
        simp only [MemberForm.signature, hn, hs, Option.getD_some, hdecl]
        rfl
      refine ⟨⟨a, b, c, as⟩, ⟨ha, hb, hc, by rw [hn]; rfl, ⟨s, hs, hgrammar⟩, has⟩, ?_, ?_⟩
      · rw [List.append_nil]
        rfl
      · simp only [MemberForm.format, MemberForm.place, hshown, hn, hs, Option.getD_some]
        rfl
    · rintro ⟨⟨a, b, c, as⟩, ⟨ha, hb, hc, hnamed, ⟨s, hs, hgrammar⟩, has⟩, rfl, rfl⟩
      obtain ⟨n, hn⟩ := Option.isSome_iff_exists.1 hnamed
      have hs' : pool.text? (c : Int) = some s := hs
      obtain ⟨signature, hdecl⟩ := (Descriptor.exists_declaration_iff s n).2 hgrammar
      have hshown : MemberForm.signature pool ⟨a, b, c, as⟩ = signature := by
        simp only [MemberForm.signature, hn, hs', Option.getD_some, hdecl]
        rfl
      refine ⟨a, ha, _, rfl, b, hb, _, rfl, c, hc, _, rfl, _,
        (pool.referText_wordAt hb).2 ⟨n, hn, rfl⟩, _, (pool.referText_wordAt hc).2 ⟨s, hs', rfl⟩,
        signature, hdecl, as, has, [], (List.append_nil _).symm, rfl, ?_⟩
      simp only [MemberForm.format, MemberForm.place, hshown, hn, hs', Option.getD_some]
      rfl

theorem readList_reads (part : String) (flags : FlagTable) :
    Reads (readList pool part flags) (MemberForm.format pool flags).counted :=
  (read_reads flags).counted _ _

end Member

/-! ## The header -/

/-- The front of a class file as it is written. The pool is given by its slots. -/
structure HeaderForm where
  magic : Nat
  minorVersion : Nat
  majorVersion : Nat
  slots : List (Option ConstantForm)

namespace HeaderForm

def bytes (h : HeaderForm) : List UInt8 :=
  Word.bytes 4 h.magic ++ (Word.bytes 2 h.minorVersion ++ (Word.bytes 2 h.majorVersion
    ++ PoolForm.bytes h.slots))

structure Legal (h : HeaderForm) : Prop where
  magic : h.magic < 256 ^ 4
  minorVersion : h.minorVersion < 256 ^ 2
  majorVersion : h.majorVersion < 256 ^ 2
  slots : PoolForm.Legal h.slots

/-- The magic number is named after its digits. -/
def magicAt (pos n : Nat) : Datum :=
  let digits := "0x" ++ Text.hexUpper 8 n
  { Datum.ofWord 4 .structural pos n with name := digits, str := digits }

/-- The header with its pool not yet named. -/
def place (pos : Nat) (h : HeaderForm) : Header :=
  { magic := magicAt pos h.magic
    minorVersion := Datum.wordAt (pos + 4) h.minorVersion
    majorVersion := Datum.wordAt (pos + 6) h.majorVersion
    pool := PoolForm.place (pos + 8) h.slots }

def format : Format HeaderForm Header where
  legal := Legal
  bytes := bytes
  place := place

end HeaderForm

theorem Header.magic_reads : Reads (Datum.hex 4)
    { legal := fun n => n < 256 ^ 4, bytes := Word.bytes 4, place := HeaderForm.magicAt } := by
  have h := Datum.u4_reads.map fun d : Datum =>
    ({ d with name := "0x" ++ Text.hexUpper 8 d.raw, str := "0x" ++ Text.hexUpper 8 d.raw } : Datum)
  exact h

theorem Header.resolve_eq_ok {h : Header} {pool : Pool} :
    h.resolve = .ok pool ↔ h.pool.resolve = .ok pool := by
  unfold resolve
  exact Reading.mapError_eq_ok

theorem Header.read_reads : Reads read HeaderForm.format := by
  apply Runs.reads
  · exact (magic_reads.within "magic").bind fun magic =>
      (Datum.u2_reads.within "minor_version").bind fun minorVersion =>
        (Datum.u2_reads.within "major_version").bind fun majorVersion =>
          (Pool.read_reads.within "constant_pool").bind fun pool =>
            Runs.pure (Header.mk magic minorVersion majorVersion pool)
  · intro pos bs h
    constructor
    · rintro ⟨a, ha, _, rfl, b, hb, _, rfl, c, hc, _, rfl, slots, hslots, _, rfl, rfl, rfl⟩
      refine ⟨⟨a, b, c, slots⟩, ⟨ha, hb, hc, hslots⟩, ?_, rfl⟩
      rw [List.append_nil]
      rfl
    · rintro ⟨⟨a, b, c, slots⟩, ⟨ha, hb, hc, hslots⟩, rfl, rfl⟩
      exact ⟨a, ha, _, rfl, b, hb, _, rfl, c, hc, _, rfl, slots, hslots, [],
        (List.append_nil _).symm, rfl, rfl⟩

/-! ## After the pool -/

/-- A class as it is written after its pool. References are indices. -/
structure PartsForm where
  accessFlags : Nat
  thisClass : Nat
  superClass : Nat
  interfaces : List Nat
  fields : List MemberForm
  methods : List MemberForm
  attributes : List AttributeForm

namespace PartsForm

def bytes (p : PartsForm) : List UInt8 :=
  Word.bytes 2 p.accessFlags ++ (Word.bytes 2 p.thisClass ++ (Word.bytes 2 p.superClass
    ++ (Word.rows (Word.bytes 2) p.interfaces ++ (Word.rows MemberForm.bytes p.fields
      ++ (Word.rows MemberForm.bytes p.methods ++ Word.rows AttributeForm.bytes p.attributes)))))

structure Legal (pool : Pool) (p : PartsForm) : Prop where
  accessFlags : p.accessFlags < 256 ^ 2
  thisClass : pool.referenceFormat.legal p.thisClass
  superClass : (pool.optionalFormat "").legal p.superClass
  interfaces : pool.referenceFormat.counted.legal p.interfaces
  fields : (MemberForm.format pool .ofField).counted.legal p.fields
  methods : (MemberForm.format pool .ofMethod).counted.legal p.methods
  attributes : (AttributeForm.lists pool).legal p.attributes

/-- The decoded class, given its header and its named pool. -/
def place (h : Header) (pool : Pool) (pos : Nat) (p : PartsForm) : ClassFile :=
  let fields := pos + 6 + (Word.rows (Word.bytes 2) p.interfaces).length
  let methods := fields + (Word.rows MemberForm.bytes p.fields).length
  let attributes := methods + (Word.rows MemberForm.bytes p.methods).length
  { magic := h.magic
    minorVersion := h.minorVersion
    majorVersion := h.majorVersion
    pool := pool
    accessFlags :=
      (Datum.wordAt pos p.accessFlags).named (FlagTable.ofClass.describe p.accessFlags)
    thisClass := pool.referenceFormat.place (pos + 2) p.thisClass
    superClass := (pool.optionalFormat "").place (pos + 4) p.superClass
    interfaceCount := (pool.referenceFormat.counted.place (pos + 6) p.interfaces).1
    interfaces := (pool.referenceFormat.counted.place (pos + 6) p.interfaces).2
    fieldCount := ((MemberForm.format pool .ofField).counted.place fields p.fields).1
    fields := ((MemberForm.format pool .ofField).counted.place fields p.fields).2
    methodCount := ((MemberForm.format pool .ofMethod).counted.place methods p.methods).1
    methods := ((MemberForm.format pool .ofMethod).counted.place methods p.methods).2
    attributeCount := ((AttributeForm.lists pool).place attributes p.attributes).1
    attributes := ((AttributeForm.lists pool).place attributes p.attributes).2
    trailing := none }

def format (h : Header) (pool : Pool) : Format PartsForm ClassFile where
  legal := Legal pool
  bytes := bytes
  place := place h pool

end PartsForm

theorem ClassFile.readParts_reads (h : Header) (pool : Pool) :
    Reads (readParts h pool) (PartsForm.format h pool) := by
  apply Runs.reads
  · exact (Datum.u2_reads.within "access_flags").bind fun accessFlags =>
      (pool.readReference_reads.within "this_class").bind fun thisClass =>
        ((pool.readOptional_reads "").within "super_class").bind fun superClass =>
          (pool.readReference_reads.counted _ _).bind fun interfaces =>
            (Member.readList_reads "fields" .ofField).bind fun fields =>
              (Member.readList_reads "methods" .ofMethod).bind fun methods =>
                Attribute.readList_reads.bind fun attributes => Runs.pure (ClassFile.mk h.magic
                  h.minorVersion h.majorVersion pool
                  (accessFlags.named (FlagTable.ofClass.describe accessFlags.raw)) thisClass
                  superClass interfaces.1 interfaces.2 fields.1 fields.2 methods.1 methods.2
                  attributes.1 attributes.2 none)
  · intro pos bs cf
    constructor
    · rintro ⟨a, ha, _, rfl, b, hb, _, rfl, c, hc, _, rfl, is, his, _, rfl, fs, hfs, _, rfl, ms, hms, _,
        rfl, as, has, _, rfl, rfl, rfl⟩
      refine ⟨⟨a, b, c, is, fs, ms, as⟩, ⟨ha, hb, hc, his, hfs, hms, has⟩, ?_, rfl⟩
      rw [List.append_nil]
      rfl
    · rintro ⟨⟨a, b, c, is, fs, ms, as⟩, ⟨ha, hb, hc, his, hfs, hms, has⟩, rfl, rfl⟩
      exact ⟨a, ha, _, rfl, b, hb, _, rfl, c, hc, _, rfl, is, his, _, rfl, fs, hfs, _, rfl, ms, hms, _,
        rfl, as, has, [], (List.append_nil _).symm, rfl, rfl⟩

/-! ## Class files -/

/-- A class as it is written. -/
structure ClassForm extends HeaderForm, PartsForm

namespace ClassForm

def bytes (c : ClassForm) : List UInt8 :=
  c.toHeaderForm.bytes ++ c.toPartsForm.bytes

/-- The pool of the class before its entries are named. -/
def rawPool (c : ClassForm) : Pool :=
  (c.toHeaderForm.place 0).pool

/-- The class may be written: its pool can be named, which gives `pool`, and the references in the
class are references into that pool. -/
structure Legal (pool : Pool) (c : ClassForm) : Prop where
  header : c.toHeaderForm.Legal
  named : c.rawPool.resolve = .ok pool
  parts : c.toPartsForm.Legal pool

/-- What follows a class, as one value. -/
def trailingAt (pos : Nat) (bs : List UInt8) : Option Datum :=
  if bs = [] then none else some (Datum.ofSkipped pos bs)

/-- The decoded class file, with what follows the class. -/
def tree (pool : Pool) (trailing : List UInt8) (c : ClassForm) : ClassFile :=
  { c.toPartsForm.place (c.toHeaderForm.place 0) pool c.toHeaderForm.bytes.length with
    trailing := trailingAt c.bytes.length trailing }

end ClassForm

namespace ClassFile

theorem readTrailing_fills : Fills readTrailing
    { legal := fun _ => True, bytes := id, place := ClassForm.trailingAt } := by
  intro w t w'
  obtain ⟨phase, pos, rest⟩ := w
  cases rest with
  | nil =>
    simp only [readTrailing, Reading.bind_eq_ok, Reading.get_eq_ok]
    constructor
    · rintro ⟨u, v, ⟨rfl, rfl⟩, h⟩
      obtain ⟨rfl, rfl⟩ := Reading.pure_eq_ok.1 h
      exact ⟨[], trivial, Window.after_nil.2 rfl, rfl, rfl⟩
    · rintro ⟨bs, -, hafter, -, rfl⟩
      obtain ⟨rfl, -⟩ := List.append_eq_nil_iff.1 hafter.rest.symm
      exact ⟨_, _, ⟨rfl, rfl⟩, Reading.pure_eq_ok.2 ⟨rfl, Window.after_nil.1 hafter⟩⟩
  | cons b rest =>
    refine (Attribute.skip_fills some ⟨phase, pos, b :: rest⟩ t w').trans ?_
    have hplace : ∀ bs : List UInt8, b :: rest = bs ++ [] →
        some (Datum.ofSkipped pos bs) = ClassForm.trailingAt pos bs := by
      intro bs hbs
      rw [ClassForm.trailingAt, if_neg]
      rintro rfl
      cases hbs
    constructor
    · rintro ⟨bs, -, hafter, hrest, rfl⟩
      exact ⟨bs, trivial, hafter, hrest, hplace bs (hrest ▸ hafter.rest)⟩
    · rintro ⟨bs, -, hafter, hrest, rfl⟩
      exact ⟨bs, trivial, hafter, hrest, (hplace bs (hrest ▸ hafter.rest)).symm⟩

/-- Decoding succeeds exactly on what is written. -/
theorem decode_eq_ok {bytes : List UInt8} {cf : ClassFile} : decode bytes = .ok cf ↔
    ∃ (c : ClassForm) (pool : Pool) (trailing : List UInt8),
      c.Legal pool ∧ bytes = c.bytes ++ trailing ∧ cf = c.tree pool trailing := by
  have hdecode : decode bytes = .ok cf ↔ ∃ w', read (Window.ofBytes bytes) = .ok (cf, w') := by
    unfold decode
    cases read (Window.ofBytes bytes) with
    | error f => simp [Except.map]
    | ok r =>
      obtain ⟨cf', w'⟩ := r
      simp [Except.map]
  rw [hdecode]
  simp only [read, readAfterPool, Reading.bind_eq_ok, Reading.settled_eq_ok, Reading.pure_eq_ok]
  constructor
  · rintro ⟨w', h, v, hh, pool, v', ⟨hpool, rfl⟩, cf', u, hcf, t, u', ht, rfl, rfl⟩
    obtain ⟨header, hheader, hafter, rfl⟩ := (Header.read_reads _ _ _).1 hh
    obtain ⟨parts, hparts, hafter', rfl⟩ := (readParts_reads _ _ _ _ _).1 hcf
    obtain ⟨trailing, -, hafter'', hrest, rfl⟩ := (readTrailing_fills _ _ _).1 ht
    have hall := (hafter.trans hafter').trans hafter''
    refine ⟨⟨header, parts⟩, pool, trailing, ⟨hheader, Header.resolve_eq_ok.1 hpool, hparts⟩, ?_, ?_⟩
    · have hbytes := hall.rest
      rw [hrest, List.append_nil] at hbytes
      exact hbytes
    · have hpos := hafter.pos
      have hpos' := (hafter.trans hafter').pos
      rw [show (Window.ofBytes bytes).pos = 0 from rfl, Nat.zero_add] at hpos hpos'
      rw [hpos, hpos']
      rfl
  · rintro ⟨⟨header, parts⟩, pool, trailing, ⟨hheader, hnamed, hparts⟩, rfl, rfl⟩
    have hall : (Window.ofBytes (header.bytes ++ parts.bytes ++ trailing)).After
        (header.bytes ++ parts.bytes ++ trailing)
        ⟨.decode, 0 + (header.bytes ++ parts.bytes ++ trailing).length, []⟩ :=
      ⟨(List.append_nil _).symm, rfl, rfl⟩
    obtain ⟨u, hu, htrailing⟩ := hall.split
    obtain ⟨v, hv, hparts'⟩ := hu.split
    have hpos := hv.pos
    have hpos' := hu.pos
    refine ⟨_, _, v, (Header.read_reads _ _ _).2 ⟨header, hheader, hv, rfl⟩, pool, v,
      ⟨Header.resolve_eq_ok.2 hnamed, rfl⟩, _, u,
      (readParts_reads _ _ _ _ _).2 ⟨parts, hparts, hparts', rfl⟩, _, _,
      (readTrailing_fills _ _ _).2 ⟨trailing, trivial, htrailing, rfl, rfl⟩, ?_, rfl⟩
    rw [show (Window.ofBytes _).pos = 0 from rfl, Nat.zero_add] at hpos hpos'
    rw [hpos, hpos']
    rfl

end ClassFile

/-! ## Decoding what is written -/

namespace ClassForm

/-- **Decoding inverts the layout.** A class that may be written is decoded, whatever bytes follow it,
and the result is its tree: every number of the class as the value of its field, at its offset, with
the lists and the nesting of the class, and trailing bytes exactly where some follow. -/
theorem decode_bytes {pool : Pool} {c : ClassForm} (h : c.Legal pool) (trailing : List UInt8) :
    ClassFile.decode (c.bytes ++ trailing) = .ok (c.tree pool trailing)
      ∧ ((c.tree pool trailing).trailing = none ↔ trailing = []) := by
  refine ⟨ClassFile.decode_eq_ok.2 ⟨c, pool, trailing, h, rfl, rfl⟩, ?_⟩
  show trailingAt c.bytes.length trailing = none ↔ trailing = []
  unfold trailingAt
  split
  · rename_i hnil
    simp [hnil]
  · rename_i hne
    simp [hne]

/-- A class with one method, whose body holds another method body and an attribute without an
interpretation. -/
def nested : ClassForm where
  magic := 0xcafebabe
  minorVersion := 0
  majorVersion := 52
  slots := [none, some (.utf8 [0x41]), some (.classInfo 1), some (.utf8 [0x43, 0x6f, 0x64, 0x65]),
    some (.utf8 [0x28, 0x29, 0x56])]
  accessFlags := 0x21
  thisClass := 2
  superClass := 0
  interfaces := [2]
  fields := []
  methods := [⟨1, 1, 4, [.code 3 ⟨0, 1, [.fixed 0xb1 []], [⟨0, 1, 0, 0⟩]⟩
    [.code 3 ⟨0, 0, [], []⟩ [], .simple 1 (.uninterpreted [7])]]⟩]
  attributes := []

/-- The pool of `nested` with the names of its entries. -/
def nestedPool : Pool :=
  { nested.rawPool with
    slots := nested.rawPool.slots.map (Option.map (Pool.withName
      #[.unvisited, .named "A", .named "A", .named "Code", .named "()V"])) }

theorem nested_resolve : nested.rawPool.resolve = .ok nestedPool := by
  refine Pool.resolve_of_ledger ?_
  decide +kernel

theorem nested_legal : nested.Legal nestedPool := by
  have htext : nestedPool.text? 1 = some "A" ∧ nestedPool.text? 3 = some "Code"
      ∧ nestedPool.text? 4 = some "()V" ∧ (nestedPool.entry? 2).isSome = true := by
    decide +kernel
  obtain ⟨hname, hcode, hdescriptor, hclass⟩ := htext
  have hgrammar : Descriptor.Grammatical (Text.encode "()V") :=
    .inr ⟨⟨[], ⟨0, .void⟩⟩, [], [0x56], .nil, fun _ => ⟨rfl, rfl⟩,
      ⟨_, .primitive (fun _ => Descriptor.Base.noConfusion), rfl⟩, rfl⟩
  refine ⟨⟨by decide, by decide, by decide, by decide, .inr ⟨_, rfl, ?_⟩⟩, nested_resolve, ?_⟩
  · exact .narrow (by decide) rfl (.narrow (by decide) rfl (.narrow (by decide) rfl
      (.narrow (by decide) rfl .nil)))
  · refine ⟨by decide, ⟨by decide, hclass⟩, ⟨by decide, .inl rfl⟩, ⟨by decide, ?_⟩,
      ⟨by decide, by simp [nested]⟩, ⟨by decide, ?_⟩, ⟨by decide, trivial⟩⟩
    · intro i hi
      obtain rfl : i = 2 := by simpa [nested] using hi
      exact ⟨by decide, hclass⟩
    · intro m hm
      obtain rfl := List.mem_singleton.1 hm
      refine ⟨by decide, by decide, by decide, ?_, ⟨_, hdescriptor, hgrammar⟩, ⟨by decide, ?_⟩⟩
      · exact Option.isSome_iff_exists.2 ⟨_, hname⟩
      · simp only [AttributeForm.LegalList, AttributeForm.Legal]
        have hunder : BodyForm.Under "A" (.uninterpreted [7]) := by
          simp [BodyForm.Under, BodyForm.interpreted]
        refine ⟨⟨by decide, by decide, hcode, ⟨by decide, by decide, by decide, ?_, ?_⟩, by decide,
          ⟨by decide, by decide, hcode, ⟨by decide, by decide, by decide, trivial, ?_⟩, by decide,
            trivial⟩, ⟨by decide, by decide, _, hname, hunder, trivial⟩, trivial⟩, trivial⟩
        · exact ⟨⟨by decide +kernel, by decide, by decide, by decide, by decide, by simp⟩, trivial⟩
        · refine ⟨by decide, ?_⟩
          intro r hr
          obtain rfl := List.mem_singleton.1 hr
          exact ⟨by decide, by decide, by decide, by decide, .inl rfl⟩
        · exact ⟨by decide, by simp⟩

theorem decode_bytes_nested : nested.Legal nestedPool
    ∧ ClassFile.decode (nested.bytes ++ [1, 2]) = .ok (nested.tree nestedPool [1, 2])
    ∧ ((nested.tree nestedPool [1, 2]).trailing = none ↔ ([1, 2] : List UInt8) = []) :=
  ⟨nested_legal, decode_bytes nested_legal [1, 2]⟩

end ClassForm

end ClassAtlas
