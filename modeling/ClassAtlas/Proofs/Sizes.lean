import ClassAtlas.Proofs.BytecodeGrammar
import ClassAtlas.Proofs.Transcript

/-! # Declared sizes

A class file declares sizes in two ways: counts stand before lists, and lengths before code and before
the bodies of attributes. In a decoded file every one of them is kept, however deep the attribute
that declares it is nested.

* `SwitchTable.Counted`, `Body.Counted`, `Frame.Counted`: lists are as long as their counts say.
* `Attribute.Delimited`: a body takes up exactly the bytes that the length of the attribute declares.
* `ClassFile.Lists`: the attribute lists of a file, at any depth.
* `ClassFile.sizes_honoured`: the declared sizes of a decoded file.
-/

namespace ClassAtlas
set_option autoImplicit false

/-! ## Counts -/

/-- The table has as many cases as it declares. The keys of a range go from `low` to `high`. -/
def SwitchTable.Counted (table : SwitchTable) : Prop :=
  match table with
  | .range _ low high _ =>
    low.num ≤ high.num ∧ (table.cases.length : Int) = high.num - low.num + 1
      ∧ table.cases.map (·.key) = (List.range table.cases.length).map fun (k : Nat) => low.num + k
  | .pairs _ count _ => count.num = table.cases.length

def Body.Counted : Body → Prop
  | classList count classes => count.num = classes.length
  | nestedClasses count rows => count.num = rows.length
  | bootstrapMethods count methods =>
    count.num = methods.length ∧ ∀ m ∈ methods, m.count.num = m.arguments.length
  | lineNumbers table => table.length.num = table.entries.length
  | localVariables length rows => length.num = rows.length
  | constantValue _ | sourceFile _ | signature _ | nestHost _ | marker | uninterpreted _ => True

/-- The bytes that instructions take up together. -/
def Instruction.totalSize (is : List Instruction) : Nat :=
  is.foldr (fun i total => i.size + total) 0

structure Frame.Counted (f : Frame) : Prop where
  codeLength : f.codeLength.num = Instruction.totalSize f.instructions
  switches : ∀ i ∈ f.instructions, ∀ table, i.switch = some table → table.Counted
  handlers : f.handlerCount.num = f.handlers.length

namespace Attribute

/-- The lists of the body are as long as their counts say. -/
def Counted : Attribute → Prop
  | simple _ _ body => body.Counted
  | code _ _ frame _ => frame.Counted

/-! ## Windows -/

/-- The values of the body in file order. -/
def bodyData : Attribute → List Datum
  | simple _ _ body => body.data
  | code _ _ frame attributes => frame.data ++ dataOfList attributes

/-- The offset just past the body, as the attribute declares it. -/
def stop (a : Attribute) : Nat :=
  a.length.stop + a.length.num.toNat

/-- The values of the body lie in the window that the attribute declares, and fill it. -/
structure Delimited (a : Attribute) : Prop where
  nonneg : 0 ≤ a.length.num
  inside : ∀ d ∈ a.bodyData, a.length.stop ≤ d.offset ∧ d.stop ≤ a.stop
  tiles : Tiles a.length.stop a.bodyData a.stop

theorem data_eq (a : Attribute) : a.data = a.nameIndex :: a.length :: a.bodyData := by
  cases a with
  | simple name length body => rw [data, nameIndex, Attribute.length, bodyData]
  | code name length frame attributes =>
    rw [data, nameIndex, Attribute.length, bodyData, List.cons_append, List.cons_append]

end Attribute

/-- The attribute lists of a class file with their counts: those of the class and of its members, and
those of the method bodies in them, at any depth. -/
inductive ClassFile.Lists (cf : ClassFile) : Datum → List Attribute → Prop
  | ofClass : cf.Lists cf.attributeCount cf.attributes
  | ofField {m : Member} (hm : m ∈ cf.fields) : cf.Lists m.attributeCount m.attributes
  | ofMethod {m : Member} (hm : m ∈ cf.methods) : cf.Lists m.attributeCount m.attributes
  | nested {count name length : Datum} {frame : Frame} {as bs : List Attribute}
      (has : cf.Lists count as) (ha : .code name length frame bs ∈ as) :
      cf.Lists frame.attributeCount bs

/-! ## Rows -/

namespace Format

variable {ι α : Type} {F : Format ι α} {pos : Nat} {xs : List ι}

theorem mem_placeAll {a : α} (h : a ∈ F.placeAll pos xs) : ∃ x ∈ xs, ∃ p, a = F.place p x := by
  induction xs generalizing pos with
  | nil => cases h
  | cons x xs ih =>
    rcases List.mem_cons.1 h with rfl | h
    · exact ⟨x, .head _, pos, rfl⟩
    · obtain ⟨y, hy, p, rfl⟩ := ih h
      exact ⟨y, .tail _ hy, p, rfl⟩

theorem counted_num (h : F.counted.legal xs) (pos : Nat) :
    (F.counted.place pos xs).1.num = (F.counted.place pos xs).2.length := by
  show (Datum.wordAt pos xs.length).num = (F.placeAll (pos + 2) xs).length
  rw [Datum.num_wordAt pos h.1, length_placeAll]

end Format

/-! ## Code -/

theorem Op.place_counted {pool : Pool} {base pc : Nat} {op : Op} (h : op.Legal pool pc)
    {table : SwitchTable} (htable : (op.place pool base pc).switch = some table) :
    table.Counted := by
  cases op with
  | fixed code os | wide code os => cases htable
  | range padding default low high vs =>
    obtain ⟨-, -, -, -, hle, hlen, -⟩ := h
    cases htable
    have hkeys := cases_range_keys low ((Operand.formatOf pool pc .branch4).placeAll
      (base + pc + 1 + padding.length + 12) vs)
    have hcases := congrArg List.length hkeys
    rw [List.length_map, List.length_map, List.length_range] at hcases
    refine ⟨hle, ?_, ?_⟩
    · show ((SwitchTable.rangeCases low _).length : Int) = high - low + 1
      rw [hcases, Format.length_placeAll, hlen]
    · show (SwitchTable.rangeCases low _).map _ =
        (List.range (SwitchTable.rangeCases low _).length).map _
      rw [hcases]
      exact hkeys
  | pairs padding default es =>
    cases htable
    show (es.length : Int) = (List.map _ _).length
    rw [List.length_map, Format.length_placeAll]

namespace Bytecode

theorem length_bytes_cons (op : Op) (ops : List Op) :
    (bytes (op :: ops)).length = op.bytes.length + (bytes ops).length := by
  rw [bytes, List.flatMap_cons, List.length_append, bytes]

theorem totalSize_placeFrom (pool : Pool) (base pc : Nat) (ops : List Op) :
    Instruction.totalSize (placeFrom pool base pc ops) = (bytes ops).length := by
  induction ops generalizing pc with
  | nil => rfl
  | cons op ops ih =>
    have hrest := ih (pc + op.bytes.length)
    unfold Instruction.totalSize at hrest ⊢
    rw [placeFrom, List.foldr_cons, hrest, length_bytes_cons]
    rfl

theorem mem_placeFrom {pool : Pool} {base pc : Nat} {ops : List Op} (h : LegalFrom pool pc ops)
    {i : Instruction} (hi : i ∈ placeFrom pool base pc ops) :
    ∃ (op : Op) (pc' : Nat), op.Legal pool pc' ∧ i = op.place pool base pc' := by
  induction ops generalizing pc with
  | nil => cases hi
  | cons op ops ih =>
    rcases List.mem_cons.1 hi with rfl | hi
    · exact ⟨op, pc, h.1, rfl⟩
    · exact ih h.2 hi

end Bytecode

/-! ## Attributes -/

section

variable {pool : Pool}

theorem BodyForm.place_counted {b : BodyForm} (h : b.Legal pool) (pos : Nat) :
    (b.place pool pos).Counted := by
  cases b with
  | classList is => exact Format.counted_num h pos
  | nestedClasses rows => exact Format.counted_num h pos
  | bootstrapMethods rows =>
    refine ⟨Format.counted_num h pos, fun m hm => ?_⟩
    obtain ⟨row, hrow, p, rfl⟩ := Format.mem_placeAll hm
    exact Format.counted_num (h.2 row hrow).2 (p + 2)
  | lineNumbers rows => exact Format.counted_num h pos
  | localVariables rows => exact Format.counted_num h pos
  | constantValue | sourceFile | signature | nestHost | marker | uninterpreted => trivial

theorem FrameForm.num_codeLength {f : FrameForm} (h : f.Legal pool) (pos count : Nat) :
    (f.place pool pos count).codeLength.num = (Bytecode.bytes f.code).length := by
  have hlt := h.codeLength
  show (Datum.ofWord 4 .structural (pos + 4) (Bytecode.bytes f.code).length).num = _
  rw [Datum.ofWord_num _ _ (by omega)]

theorem FrameForm.place_counted {f : FrameForm} (h : f.Legal pool) (pos count : Nat) :
    (f.place pool pos count).Counted where
  codeLength := by
    rw [num_codeLength h]
    exact congrArg Int.ofNat (Bytecode.totalSize_placeFrom pool (pos + 8) 0 f.code).symm
  switches i hi table htable := by
    obtain ⟨op, pc, hop, rfl⟩ := Bytecode.mem_placeFrom h.code hi
    exact Op.place_counted hop htable
  handlers := Format.counted_num h.handlers _

namespace AttributeForm

theorem place_counted {a : AttributeForm} (h : a.Legal pool) (pos : Nat) :
    (a.place pool pos).Counted := by
  cases a with
  | simple name body =>
    rw [Legal] at h
    obtain ⟨-, -, s, -, -, hbody⟩ := h
    rw [place]
    exact BodyForm.place_counted hbody (pos + 6)
  | code name frame attributes =>
    rw [Legal] at h
    obtain ⟨-, -, -, hframe, -, -⟩ := h
    rw [place]
    exact FrameForm.place_counted hframe (pos + 6) attributes.length

theorem length_place (a : AttributeForm) (pos : Nat) :
    (a.place pool pos).length = Datum.ofWord 4 .structural (pos + 2) a.bodyBytes.length := by
  cases a with
  | simple name body => rw [place, bodyBytes, Attribute.length]
  | code name frame attributes => rw [place, Attribute.length]

theorem stop_place {a : AttributeForm} (h : a.Legal pool) (pos : Nat) :
    (a.place pool pos).length.num = a.bodyBytes.length
      ∧ (a.place pool pos).stop = pos + a.bytes.length := by
  obtain ⟨-, hlt, -⟩ := legal_iff.1 h
  have hnum : (a.place pool pos).length.num = a.bodyBytes.length := by
    rw [length_place, Datum.ofWord_num _ _ (by omega)]
  have hstop : (a.place pool pos).length.stop = pos + 6 := by
    rw [length_place]
    rfl
  refine ⟨hnum, ?_⟩
  rw [Attribute.stop, hnum, hstop, bytes, length_framed, Int.toNat_natCast]
  omega

theorem place_delimited (hpool : pool.Titled) {a : AttributeForm} (h : a.Legal pool) (pos : Nat) :
    (a.place pool pos).Delimited := by
  obtain ⟨hnum, hstop⟩ := stop_place h pos
  have hdata := (place_spells hpool pos a h).tiles
  rw [Attribute.map_datum_leaves, Attribute.data_eq, ← hstop] at hdata
  have htiles := hdata.2.2
  exact ⟨by omega, fun d hd => ⟨htiles.pos_le_offset d hd, htiles.stop_le d hd⟩, htiles⟩

theorem mem_placeList {as : List AttributeForm} {pos : Nat} {a : Attribute}
    (h : a ∈ placeList pool pos as) : ∃ form ∈ as, ∃ p, a = form.place pool p := by
  rw [placeList_eq 0] at h
  exact Format.mem_placeAll h

theorem pos_le_nameIndex {as : List AttributeForm} {pos : Nat} :
    ∀ a ∈ placeList pool pos as, pos ≤ a.nameIndex.offset := by
  induction as generalizing pos with
  | nil =>
    rw [placeList]
    simp
  | cons form as ih =>
    rw [placeList]
    intro a ha
    rcases List.mem_cons.1 ha with rfl | ha
    · cases form <;> rw [place] <;> exact Nat.le_refl pos
    · exact Nat.le_trans (Nat.le_add_right _ _) (ih a ha)

/-- The window of an attribute ends before the next attribute starts. -/
theorem placeList_apart {as : List AttributeForm} (h : LegalList pool as) (pos : Nat) :
    (placeList pool pos as).Pairwise fun a b => a.stop ≤ b.nameIndex.offset := by
  induction as generalizing pos with
  | nil =>
    rw [placeList]
    exact .nil
  | cons form as ih =>
    rw [LegalList] at h
    rw [placeList]
    refine .cons (fun b hb => ?_) (ih h.2 _)
    rw [(stop_place h.1 pos).2]
    exact pos_le_nameIndex b hb

end AttributeForm

end

/-! ## Class files -/

namespace ClassFile

/-- Every attribute list of a decoded file is written somewhere in it. -/
theorem Lists.written {pool : Pool} {c : ClassForm} (hlegal : c.Legal pool) {trailing : List UInt8}
    {count : Datum} {as : List Attribute} (h : (c.tree pool trailing).Lists count as) :
    ∃ pos forms, (AttributeForm.lists pool).legal forms
      ∧ (AttributeForm.lists pool).place pos forms = (count, as) := by
  induction h with
  | ofClass => exact ⟨_, c.attributes, hlegal.parts.attributes, rfl⟩
  | ofField hm =>
    obtain ⟨form, hform, p, rfl⟩ := Format.mem_placeAll hm
    exact ⟨p + 6, form.attributes, (hlegal.parts.fields.2 form hform).attributes, rfl⟩
  | ofMethod hm =>
    obtain ⟨form, hform, p, rfl⟩ := Format.mem_placeAll hm
    exact ⟨p + 6, form.attributes, (hlegal.parts.methods.2 form hform).attributes, rfl⟩
  | nested _ ha ih =>
    obtain ⟨pos, forms, hforms, hplace⟩ := ih
    obtain ⟨-, rfl⟩ := Prod.mk.inj hplace
    obtain ⟨form, hmem, p, hform⟩ := AttributeForm.mem_placeList ha
    have hone := AttributeForm.legalList_iff.1 hforms.2 form hmem
    cases form with
    | simple name body =>
      rw [AttributeForm.place] at hform
      cases hform
    | code name frame attributes =>
      rw [AttributeForm.Legal] at hone
      rw [AttributeForm.place] at hform
      cases hform
      exact ⟨p + 6 + frame.bytes.length, attributes, hone.2.2.2.2, rfl⟩

/-- So is every body in such a list that carries no attributes. -/
theorem Lists.body_written {pool : Pool} {c : ClassForm} (hlegal : c.Legal pool)
    {trailing : List UInt8} {count : Datum} {as : List Attribute}
    (h : (c.tree pool trailing).Lists count as) {name length : Datum} {body : Body}
    (ha : .simple name length body ∈ as) :
    ∃ form pos, BodyForm.Legal pool form ∧ form.place pool pos = body := by
  obtain ⟨pos, forms, hforms, hplace⟩ := h.written hlegal
  obtain ⟨-, rfl⟩ := Prod.mk.inj hplace
  obtain ⟨form, hmem, p, hform⟩ := AttributeForm.mem_placeList ha
  have hone := AttributeForm.legalList_iff.1 hforms.2 form hmem
  cases form with
  | simple index b =>
    rw [AttributeForm.Legal] at hone
    obtain ⟨-, -, s, -, -, hbody⟩ := hone
    rw [AttributeForm.place] at hform
    exact ⟨b, p + 6, hbody, (Attribute.simple.inj hform).2.2.symm⟩
  | code index frame attributes =>
    rw [AttributeForm.place] at hform
    cases hform

/-- **The declared sizes of a class file.** In a decoded file there are as many interfaces, fields and
methods as their counts say. Each list of attributes, at any depth, has as many as its count says; the
lists and tables in each of them have as many rows as their counts say, the instructions of a method
body are as long as it declares, and the values of a body fill the window that the attribute declares.
The windows of the attributes of one list follow each other. -/
theorem sizes_honoured {bytes : List UInt8} {cf : ClassFile} (h : decode bytes = .ok cf) :
    cf.interfaceCount.num = cf.interfaces.length ∧ cf.fieldCount.num = cf.fields.length
      ∧ cf.methodCount.num = cf.methods.length
      ∧ ∀ count as, cf.Lists count as → count.num = as.length
        ∧ (∀ a ∈ as, a.Counted ∧ a.Delimited)
        ∧ as.Pairwise fun a b => a.stop ≤ b.nameIndex.offset := by
  obtain ⟨c, pool, trailing, hlegal, rfl, rfl⟩ := decode_eq_ok.1 h
  refine ⟨Format.counted_num hlegal.parts.interfaces _, Format.counted_num hlegal.parts.fields _,
    Format.counted_num hlegal.parts.methods _, fun count as hlist => ?_⟩
  obtain ⟨pos, forms, ⟨hcount, hforms⟩, hplace⟩ := hlist.written hlegal
  obtain ⟨rfl, rfl⟩ := Prod.mk.inj hplace
  refine ⟨?_, fun a ha => ?_, AttributeForm.placeList_apart hforms (pos + 2)⟩
  · rw [Datum.num_wordAt pos hcount, AttributeForm.placeList_eq 0, Format.length_placeAll]
  · obtain ⟨form, hmem, p, rfl⟩ := AttributeForm.mem_placeList ha
    have hform := AttributeForm.legalList_iff.1 hforms form hmem
    exact ⟨AttributeForm.place_counted hform p, AttributeForm.place_delimited hlegal.titled hform p⟩

end ClassFile

/-- The class `nested` with both kinds of switches in its method, and an attribute without an
interpretation in a method body within that of the method. -/
def ClassForm.switching : ClassForm :=
  { nested with
    methods := [⟨1, 1, 4, [.code 3 ⟨1, 1, [.range [1, 2, 3] 44 0 1 [24, 44],
      .pairs [4, 5, 6] 20 [(7, 20)], .fixed 0xb1 []], []⟩
        [.code 3 ⟨0, 0, [], []⟩ [.simple 1 (.uninterpreted [7])]]]⟩] }

theorem ClassForm.switching_legal : switching.Legal nestedPool := by
  have htext : nestedPool.text? 1 = some "A" ∧ nestedPool.text? 3 = some "Code" := by
    decide +kernel
  have hunder : BodyForm.Under "A" (.uninterpreted [7]) := by
    simp [BodyForm.Under, BodyForm.interpreted]
  have halign : ∀ pc, pc % 4 = 0 → ∀ padding : List UInt8, padding.length = 3 →
      Op.Aligns pc padding := by
    intro pc hpc padding hlen
    unfold Op.Aligns
    rw [hlen]
    exact ⟨by omega, fun n hn => by omega⟩
  have hcode : Bytecode.LegalFrom nestedPool 0 [.range [1, 2, 3] 44 0 1 [24, 44],
      .pairs [4, 5, 6] 20 [(7, 20)], .fixed 0xb1 []] := by
    refine ⟨⟨halign _ rfl _ rfl, by decide, by decide, by decide, by decide, by decide, by decide⟩,
      ⟨halign _ rfl _ rfl, by decide, by decide, by decide⟩, ?_, trivial⟩
    exact ⟨by decide +kernel, by decide, by decide, by decide, by decide, by simp⟩
  have hraw : AttributeForm.Legal nestedPool (.simple 1 (.uninterpreted [7])) := by
    rw [AttributeForm.Legal]
    exact ⟨by decide, by decide, _, htext.1, hunder, trivial⟩
  have hinner : AttributeForm.Legal nestedPool
      (.code 3 ⟨0, 0, [], []⟩ [.simple 1 (.uninterpreted [7])]) := by
    rw [AttributeForm.Legal, AttributeForm.legalList_iff, List.forall_mem_singleton]
    exact ⟨by decide, by decide, htext.2, ⟨by decide, by decide, by decide, trivial, by decide,
      by simp⟩, by decide, hraw⟩
  have hparts := nested_legal.parts
  have hmethod := hparts.methods.2 _ (.head _)
  refine ⟨nested_legal.header, nested_legal.named, ⟨hparts.accessFlags, hparts.thisClass,
    hparts.superClass, hparts.interfaces, hparts.fields, ⟨by decide, fun m hm => ?_⟩,
    hparts.attributes⟩⟩
  obtain rfl := List.mem_singleton.1 hm
  refine ⟨hmethod.accessFlags, hmethod.name, hmethod.descriptor, hmethod.named, hmethod.described,
    by decide, ?_⟩
  rw [AttributeForm.legalList_iff, List.forall_mem_singleton, AttributeForm.Legal,
    AttributeForm.legalList_iff, List.forall_mem_singleton]
  exact ⟨by decide, by decide, htext.2, ⟨by decide, by decide, by decide, hcode, by decide, by simp⟩,
    by decide, hinner⟩

theorem ClassFile.sizes_honoured_switching :
    let bytes := ClassForm.switching.bytes ++ [1, 2]
    let cf := ClassForm.switching.tree ClassForm.nestedPool [1, 2]
    decode bytes = .ok cf
      ∧ cf.interfaceCount.num = cf.interfaces.length ∧ cf.fieldCount.num = cf.fields.length
      ∧ cf.methodCount.num = cf.methods.length
      ∧ ∀ count as, cf.Lists count as → count.num = as.length
        ∧ (∀ a ∈ as, a.Counted ∧ a.Delimited)
        ∧ as.Pairwise fun a b => a.stop ≤ b.nameIndex.offset := by
  intro bytes cf
  have h : decode bytes = .ok cf := decode_eq_ok.2 ⟨_, _, _, ClassForm.switching_legal, rfl, rfl⟩
  exact ⟨h, sizes_honoured h⟩

end ClassAtlas
