import ClassAtlas.Proofs.Spelling

/-! # A class file and its leaves

The leaves of a decoded class file spell the file, part by part of the layout. So a tree settles the
file it was decoded from, but for the bytes that are no numbers, and no index in it leads nowhere.

* `Op.place_spells`, `AttributeForm.place_spells`, `ConstantForm.place_spells`,
  `MemberForm.place_spells`: the leaves of the parts.
* `ClassForm.tree_spells`: the leaves of a class file.
* `ClassFile.leaves_show_bytes`: what the leaves of a decoded file say about its bytes.
* `ClassFile.references_resolve`: every index in a decoded file leads to a constant.
-/

namespace ClassAtlas
set_option autoImplicit false

/-! ## Instructions -/

namespace Role

theorem ofOperand_of_branch {kind : OperandKind} (pc : Nat) (h : kind.isBranch = true) :
    ofOperand pc kind = .jump pc := by
  cases kind <;> first | rfl | cases h

theorem ofOperand_of_signed {kind : OperandKind} (pc : Nat) (hs : kind.isSigned = true)
    (hb : kind.isBranch ≠ true) : ofOperand pc kind = .signed := by
  cases kind <;> first | rfl | exact absurd rfl hb | cases hs

theorem isPlain_ofOperand {kind : OperandKind} (pc : Nat) (hs : kind.isSigned ≠ true)
    (hw : 0 < kind.width) : (ofOperand pc kind).isPlain = true := by
  cases kind <;> first | rfl | exact absurd rfl hs | exact absurd hw (by decide)

end Role

namespace Operand

variable {pool : Pool} {pc : Nat} {o : Operand}

theorem place_shows (hpc : pc < 256 ^ 4) (hw : 0 < o.kind.width) (h : o.InRange) (pos : Nat) :
    (Leaf.mk (.ofOperand pc o.kind) (o.place pool pc pos)).Shows o.bytes := by
  have hwidth := OperandKind.width_cases hw
  by_cases hsigned : o.kind.isSigned = true
  · have hfits : Word.Fits o.kind.width o.value := by
      unfold InRange at h
      rwa [if_pos hsigned] at h
    by_cases hbranch : o.kind.isBranch = true
    · rw [Role.ofOperand_of_branch pc hbranch]
      exact Leaf.shows_jump hwidth hfits hpc rfl rfl (if_pos hbranch)
    · rw [Role.ofOperand_of_signed pc hsigned hbranch]
      exact Leaf.shows_signed hwidth hfits rfl rfl (if_neg hbranch)
  · have hbranch : o.kind.isBranch ≠ true := by
      intro hbranch
      apply hsigned
      cases hk : o.kind <;> rw [hk] at hbranch <;> first | rfl | cases hbranch
    unfold InRange at h
    rw [if_neg hsigned] at h
    obtain ⟨n, hn⟩ := Int.eq_ofNat_of_zero_le h.1
    have hlt : n < 256 ^ o.kind.width := by
      have hlt := h.2
      rw [hn, Word.cast_pow] at hlt
      exact Int.ofNat_lt.1 hlt
    have hbits : Word.bits o.kind.width o.value = n := by
      rw [hn]
      exact Word.bits_natCast hlt
    have hlong : n < 2 ^ 63 := by
      have hle : 256 ^ o.kind.width ≤ 256 ^ 4 := Nat.pow_le_pow_right (by decide) (by omega)
      omega
    have hword : (o.place pool pc pos).IsWord pos o.kind.width n := by
      refine ⟨rfl, rfl, hbits, ?_⟩
      rw [Word.twosComplement_of_lt hlong, ← hn]
      exact if_neg hbranch
    rw [bytes, hbits]
    exact Leaf.shows_word (Role.isPlain_ofOperand pc hsigned hw) hword (by omega) hlt

theorem place_resolved (h : o.Legal pool) (pos : Nat) :
    (Leaf.mk (.ofOperand pc o.kind) (o.place pool pc pos)).Resolved pool := by
  obtain ⟨kind, v⟩ := o
  cases kind with
  | constant1 | constant2 =>
    obtain ⟨c, hc⟩ := Option.isSome_iff_exists.1 (h.populated rfl)
    have hentry : pool.entry? v = some c := hc
    refine ⟨c, hentry, ?_⟩
    simp only [place, name, hentry]
  | _ => trivial

theorem place_spells (hpc : pc < 256 ^ 4) (hw : 0 < o.kind.width) (h : o.Legal pool) (pos : Nat) :
    Spells pool pos [⟨.ofOperand pc o.kind, o.place pool pc pos⟩] o.bytes := by
  refine ⟨o.bytes, [], (List.append_nil _).symm, rfl, ?_, ⟨?_, place_resolved h pos⟩, .nil _ _⟩
  · rw [bytes, Word.length_bytes]
    rfl
  · exact place_shows hpc hw h.inRange pos

end Operand

namespace Op

variable {pool : Pool} {pc : Nat}

theorem isWord_opcodeAt (pos : Nat) (code : UInt8) : (opcodeAt pos code).IsWord pos 1 code.toNat :=
  (Datum.isWord_ofWord 1 .opcode pos code.toNat).named _

theorem s4_spells (hpc : pc < 256 ^ 4) {v : Int} (h : Word.Fits 4 v) (pos : Nat) :
    Spells pool pos [⟨.signed, Operand.place pool pc pos ⟨.s4, v⟩⟩] (s4 v) :=
  Operand.place_spells hpc (by simp [OperandKind.width]) (Disassembly.legal_s4.2 h) pos

theorem branch_spells (hpc : pc < 256 ^ 4) {v : Int} (h : Word.Fits 4 v) (pos : Nat) :
    Spells pool pos [⟨.jump pc, Operand.place pool pc pos ⟨.branch4, v⟩⟩] (s4 v) :=
  Operand.place_spells hpc (by simp [OperandKind.width]) (Disassembly.legal_branch4.2 h) pos

theorem padding_spells (pool : Pool) (i : Instruction) (pos : Nat) (padding : List UInt8) :
    Spells pool pos ((paddingAt pos padding).map i.operandLeaf) padding := by
  unfold paddingAt
  split
  · exact .bulk rfl rfl rfl
  · have hnil : padding = [] := List.eq_nil_of_length_eq_zero (by omega)
    rw [hnil]
    exact .nil pool pos

theorem operands_spell (hpc : pc < 256 ^ 4) {os : List Operand} (hw : ∀ o ∈ os, 0 < o.kind.width)
    (hos : ∀ o ∈ os, o.Legal pool) (i : Instruction) (hi : i.pc = pc) (pos : Nat) :
    Spells pool pos (((Operand.format pool pc).placeAll pos os).map i.operandLeaf)
      (os.flatMap Operand.bytes) := by
  rw [List.map_eq_flatMap]
  refine .placeAll (fun o ho pos => ?_) pos
  rw [Instruction.operandLeaf, hi]
  exact Operand.place_spells hpc (hw o ho) (hos o ho) pos

theorem width_of_row {os : List Operand} {row : List OperandKind} (hrow : os.map (·.kind) = row)
    (h : ∀ kind ∈ row, 0 < kind.width) : ∀ o ∈ os, 0 < o.kind.width := by
  intro o ho
  apply h
  rw [← hrow]
  exact List.mem_map_of_mem ho

/-- Reserved bytes stand after all other operands of a row. -/
theorem operands_reserved_last (code : UInt8) :
    (Opcode.operands code).Pairwise fun a b => a = .reserved → b = .reserved := by
  have hall : ∀ n : Fin 256, (Opcode.operands (UInt8.ofFin n)).Pairwise
      fun a b => a = .reserved → b = .reserved := by
    decide +kernel
  exact hall code.toFin

theorem filter_append_filter {ds : List Datum}
    (h : ds.Pairwise fun a b => a.kind = .reserved → b.kind = .reserved) :
    ds.filter (·.kind ≠ .reserved) ++ ds.filter (·.kind = .reserved) = ds := by
  induction ds with
  | nil => rfl
  | cons d ds ih =>
    obtain ⟨hd, hds⟩ := List.pairwise_cons.1 h
    have hrest := ih hds
    by_cases hkind : d.kind = .reserved
    · have hall : ∀ e ∈ ds, e.kind = .reserved := fun e he => hd e he hkind
      have hnone : ds.filter (·.kind ≠ .reserved) = [] := by
        rw [List.filter_eq_nil_iff]
        intro e he
        simpa using hall e he
      rw [hnone, List.nil_append] at hrest
      rw [List.filter_cons_of_neg (by simpa using hkind), hnone, List.nil_append,
        List.filter_cons_of_pos (by simpa using hkind), hrest]
    · rw [List.filter_cons_of_pos (by simpa using hkind), List.cons_append,
        List.filter_cons_of_neg (by simpa using hkind), hrest]

theorem map_kind_placeAll (pool : Pool) (pc : Nat) (os : List Operand) (pos : Nat) :
    ((Operand.format pool pc).placeAll pos os).map (·.kind) = os.map (·.kind) := by
  induction os generalizing pos with
  | nil => rfl
  | cons o os ih =>
    rw [Format.placeAll, List.map_cons, ih, List.map_cons]
    rfl

theorem partLeaves_spell (hpc : pc < 256 ^ 4) (base : Nat) {op : Op} (h : op.Legal pool pc) :
    Spells pool (base + pc) (op.place pool base pc).partLeaves op.bytes := by
  cases op with
  | fixed code os =>
    obtain ⟨-, -, -, -, hrow, hos⟩ := h
    have hds := operands_spell hpc (width_of_row hrow Disassembly.operands_width) hos
      ((fixed code os).place pool base pc) rfl (base + pc + 1)
    have hlast : ((Operand.format pool pc).placeAll (base + pc + 1) os).Pairwise
        fun a b => a.kind = .reserved → b.kind = .reserved := by
      have hrow' := operands_reserved_last code
      rw [← hrow, ← map_kind_placeAll pool pc os (base + pc + 1)] at hrow'
      exact List.pairwise_map.1 hrow'
    rw [← filter_append_filter hlast, List.map_append] at hds
    show Spells _ _ (_ :: List.map _ _ ++ List.map _ _ ++ []) _
    rw [List.append_nil, List.cons_append]
    exact .octet (isWord_opcodeAt _ code) hds
  | wide code os =>
    obtain ⟨-, hrow, hos⟩ := h
    have hds := operands_spell hpc (width_of_row hrow Disassembly.wideRow_width) hos
      ((wide code os).place pool base pc) rfl (base + pc + 1 + 1)
    show Spells _ _ ((_ :: _ :: _) ++ [] ++ []) _
    rw [List.append_nil, List.append_nil]
    exact .octet (isWord_opcodeAt _ Opcode.wide) (.octet (isWord_opcodeAt _ code) hds)
  | range padding default low high vs =>
    obtain ⟨-, hdefault, hlow, hhigh, -, -, hvs⟩ := h
    have hpad := padding_spells pool ((range padding default low high vs).place pool base pc)
      (base + pc + 1) padding
    have hds : Spells pool (base + pc + 1 + padding.length + 12)
        (Role.all (.jump pc) ((Operand.formatOf pool pc .branch4).placeAll
          (base + pc + 1 + padding.length + 12) vs)) (vs.flatMap s4) :=
      .values (fun v hv => branch_spells hpc (hvs v hv)) _
    show Spells _ _ (_ :: [] ++ List.map _ _ ++ (_ :: _ :: _ :: _)) _
    rw [List.append_assoc, List.singleton_append]
    exact .octet (isWord_opcodeAt _ Opcode.tableswitch) (hpad.append
      ((branch_spells hpc hdefault _).append ((s4_spells hpc hlow _).append
        ((s4_spells hpc hhigh _).append hds))))
  | pairs padding default es =>
    obtain ⟨-, hdefault, hcount, hes⟩ := h
    have hpad := padding_spells pool ((pairs padding default es).place pool base pc)
      (base + pc + 1) padding
    have hds : Spells pool (base + pc + 1 + padding.length + 8)
        (((pairFormat pool pc).placeAll (base + pc + 1 + padding.length + 8) es).flatMap
          fun e => [⟨.signed, e.1⟩, ⟨.jump pc, e.2⟩])
        (es.flatMap fun e => s4 e.1 ++ s4 e.2) := by
      refine .placeAll (fun e he pos => ?_) _
      exact (s4_spells hpc (hes e he).1 pos).append (branch_spells hpc (hes e he).2 _)
    show Spells _ _ (_ :: [] ++ List.map _ _ ++ (_ :: _ :: _)) _
    rw [List.append_assoc, List.singleton_append]
    exact .octet (isWord_opcodeAt _ Opcode.lookupswitch) (hpad.append
      ((branch_spells hpc hdefault _).append ((s4_spells hpc hcount _).append hds)))

/-- The leaves of an instruction are in file order already, so that sorting them changes nothing. -/
theorem leaves_place (hpc : pc < 256 ^ 4) (base : Nat) {op : Op} (h : op.Legal pool pc) :
    (op.place pool base pc).leaves = (op.place pool base pc).partLeaves := by
  have hparts := partLeaves_spell hpc base h
  unfold Instruction.leaves
  apply List.mergeSort_of_pairwise
  exact (List.pairwise_map.1 hparts.tiles.pairwise).imp fun hle => decide_eq_true hle

theorem place_spells (hpc : pc < 256 ^ 4) (base : Nat) {op : Op} (h : op.Legal pool pc) :
    Spells pool (base + pc) (op.place pool base pc).leaves op.bytes := by
  rw [leaves_place hpc base h]
  exact partLeaves_spell hpc base h

end Op

theorem Bytecode.placeFrom_spells {pool : Pool} (base : Nat) {pc : Nat} {ops : List Op}
    (hlen : pc + (bytes ops).length < 256 ^ 4) (h : LegalFrom pool pc ops) :
    Spells pool (base + pc) ((placeFrom pool base pc ops).flatMap Instruction.leaves)
      (bytes ops) := by
  induction ops generalizing pc with
  | nil => exact .nil pool _
  | cons op ops ih =>
    have hsplit : (bytes (op :: ops)).length = op.bytes.length + (bytes ops).length := by
      rw [bytes, List.flatMap_cons, List.length_append, bytes]
    have hop := Op.place_spells (by omega) base h.1
    have hops := ih (by omega) h.2
    rw [← Nat.add_assoc] at hops
    rw [placeFrom, List.flatMap_cons]
    exact hop.append hops

/-! ## Attributes -/

section

variable {pool : Pool}

theorem NestedClassForm.place_spells {r : NestedClassForm} (h : (format pool).legal r) (pos : Nat) :
    Spells pool pos ((format pool).place pos r).leaves r.bytes := by
  obtain ⟨hinner, houter, hname, hflags⟩ := h
  exact .reference hinner (.optional houter (.optional hname (.label hflags (.nil _ _))))

theorem LineForm.place_spells {r : LineForm} (h : format.legal r) (pos : Nat) :
    Spells pool pos (format.place pos r).leaves r.bytes :=
  .number h.1 (.number h.2 (.nil _ _))

theorem LocalVariableForm.place_spells (hpool : pool.Titled) {r : LocalVariableForm}
    (h : (format pool).legal r) (pos : Nat) :
    Spells pool pos ((format pool).place pos r).leaves r.bytes := by
  obtain ⟨hstart, hlength, hname, hdescriptor, hindex, hnamed, hdescribed⟩ := h
  exact .number hstart (.number hlength (.textual hpool hname hnamed
    (.textual hpool hdescriptor hdescribed (.label hindex (.nil _ _)))))

theorem HandlerForm.place_spells {r : HandlerForm} (h : (format pool).legal r) (pos : Nat) :
    Spells pool pos ((format pool).place pos r).leaves r.bytes := by
  obtain ⟨hstart, hend, hhandler, hcatch⟩ := h
  exact .number hstart (.number hend (.number hhandler (.optional hcatch (.nil _ _))))

theorem Pool.references_spell {is : List Nat} (h : pool.referenceFormat.counted.legal is)
    (pos : Nat) :
    Spells pool pos (⟨.number, (pool.referenceFormat.counted.place pos is).1⟩
      :: Role.all .reference (pool.referenceFormat.counted.place pos is).2)
      (Word.rows (Word.bytes 2) is) :=
  .table h.1 (fun i hi _ => .reference (h.2 i hi) (.nil _ _)) pos

theorem BootstrapForm.place_spells {r : BootstrapForm} (h : (format pool).legal r) (pos : Nat) :
    Spells pool pos ((format pool).place pos r).leaves r.bytes :=
  .reference h.1 (Pool.references_spell h.2 (pos + 2))

theorem BodyForm.place_spells (hpool : pool.Titled) {b : BodyForm} (h : b.Legal pool) (pos : Nat) :
    Spells pool pos (b.place pool pos).leaves b.bytes := by
  cases b with
  | constantValue i | sourceFile i | signature i | nestHost i => exact .reference h (.nil _ _)
  | classList is => exact Pool.references_spell h pos
  | nestedClasses rows =>
    exact .counted h.1 (fun r hr => NestedClassForm.place_spells (h.2 r hr)) pos
  | bootstrapMethods rows =>
    exact .counted h.1 (fun r hr => BootstrapForm.place_spells (h.2 r hr)) pos
  | lineNumbers rows => exact .counted h.1 (fun r hr => LineForm.place_spells (h.2 r hr)) pos
  | localVariables rows =>
    exact .counted h.1 (fun r hr => LocalVariableForm.place_spells hpool (h.2 r hr)) pos
  | marker => exact .nil _ _
  | uninterpreted bs => exact .bulk rfl rfl rfl

theorem FrameForm.place_spells {f : FrameForm} (h : f.Legal pool) (pos : Nat) {count : Nat}
    (hcount : count < 256 ^ 2) :
    Spells pool pos (f.place pool pos count).leaves (f.bytes ++ Word.bytes 2 count) := by
  have hlength := h.codeLength
  have hcode := Bytecode.placeFrom_spells (pos + 8) (by omega) h.code
  have hhandlers : Spells pool (pos + 8 + (Bytecode.bytes f.code).length)
      (⟨.number, (f.place pool pos count).handlerCount⟩
        :: (f.place pool pos count).handlers.flatMap Handler.leaves)
      (Word.rows HandlerForm.bytes f.handlers) :=
    .counted h.handlers.1 (fun r hr => HandlerForm.place_spells (h.handlers.2 r hr)) _
  have hcounted : Spells pool (pos + f.bytes.length)
      [⟨.number, (f.place pool pos count).attributeCount⟩] (Word.bytes 2 count) :=
    .number hcount (.nil _ _)
  rw [Code.add_length_frame] at hcounted
  have hrest := hcode.append (hhandlers.append hcounted)
  simp only [Frame.leaves, bytes, List.append_assoc, List.cons_append]
  exact .number h.maxStack (.number h.maxLocals
    (.word rfl (Datum.isWord_ofWord 4 _ _ _) (by decide) hlength trivial hrest))

end

namespace AttributeForm

variable {pool : Pool}

mutual

theorem place_spells (hpool : pool.Titled) (pos : Nat) (a : AttributeForm) (h : a.Legal pool) :
    Spells pool pos (a.place pool pos).leaves a.bytes := by
  cases a with
  | simple name body =>
    rw [Legal] at h
    obtain ⟨hname, hlength, s, hs, -, hbody⟩ := h
    have hspells := BodyForm.place_spells hpool hbody (pos + 6)
    rw [place, Attribute.leaves, bytes, framed, bodyBytes]
    refine .textual hpool hname (Option.isSome_iff_exists.2 ⟨s, hs⟩) ?_
    exact .word rfl (Datum.isWord_ofWord 4 _ _ _) (by decide) hlength trivial hspells
  | code name frame attributes =>
    rw [Legal] at h
    obtain ⟨hname, hlength, hs, hframe, hcount, hattributes⟩ := h
    have hfront := FrameForm.place_spells hframe (pos + 6) hcount
    have hrest := placeList_spells hpool (pos + 6 + frame.bytes.length + 2) attributes hattributes
    rw [place, Attribute.leaves, bytes, framed]
    refine .textual hpool hname (Option.isSome_iff_exists.2 ⟨_, hs⟩) ?_
    refine .word rfl (Datum.isWord_ofWord 4 _ _ _) (by decide) hlength trivial ?_
    rw [bodyBytes, ← List.append_assoc]
    refine hfront.append ?_
    rw [List.length_append, Word.length_bytes, ← Nat.add_assoc]
    exact hrest

theorem placeList_spells (hpool : pool.Titled) (pos : Nat) (as : List AttributeForm)
    (h : LegalList pool as) :
    Spells pool pos (Attribute.leavesOfList (placeList pool pos as)) (bytesOfList as) := by
  cases as with
  | nil =>
    rw [placeList, Attribute.leavesOfList, bytesOfList]
    exact .nil _ _
  | cons a as =>
    rw [LegalList] at h
    have ha := place_spells hpool pos a h.1
    have has := placeList_spells hpool (pos + a.bytes.length) as h.2
    rw [placeList, Attribute.leavesOfList, bytesOfList]
    exact ha.append has

end

theorem lists_spell (hpool : pool.Titled) {as : List AttributeForm} (h : (lists pool).legal as)
    (pos : Nat) :
    Spells pool pos (⟨.number, ((lists pool).place pos as).1⟩
      :: Attribute.leavesOfList ((lists pool).place pos as).2) (Word.rows bytes as) := by
  have hrest := placeList_spells hpool (pos + 2) as h.2
  rw [bytesOfList_eq] at hrest
  exact .number h.1 hrest

end AttributeForm

/-! ## The pool -/

namespace Pool

variable {pool : Pool} {name : Int → String}

theorem entry?_under (i : Int) :
    Pool.entry? (pool.under name) i = (pool.entry? i).map (Constant.under name) := by
  unfold entry? under
  split
  · rw [Array.getElem?_map]
    cases pool.slots[i.toNat]? with
    | none => rfl
    | some slot => rfl
  · rfl

theorem constants_under :
    (pool.under name).constants = pool.constants.map (Constant.under name) := by
  unfold constants under
  rw [Array.toList_map, List.filterMap_map, List.map_filterMap]
  rfl

theorem asRead_place {slots : List (Option ConstantForm)} (h : PoolForm.Legal slots) (pos : Nat) :
    (PoolForm.place pos slots).AsRead := by
  have hread : read ⟨.decode, pos, PoolForm.bytes slots⟩ =
      .ok (PoolForm.place pos slots, ⟨.decode, pos + (PoolForm.bytes slots).length, []⟩) :=
    (read_reads _ _ _).2 ⟨slots, h, ⟨(List.append_nil _).symm, rfl, rfl⟩, rfl⟩
  exact asRead_of_read hread

/-- A reference under its name leads to the constant with that name. -/
theorem refers_under (h : pool.AsRead)
    (hname : ∀ i c, pool.entry? i = some c → pool.Named i (name i)) {c : Constant} {d : Datum}
    (hc : c ∈ pool.constants) (hd : d ∈ c.references) :
    (d.named (name d.num)).Refers (pool.under name) := by
  obtain ⟨c', hc'⟩ := h.entry_of_reference hname hc hd
  have hindex := (h.index_eq hc').1
  refine ⟨c'.under name, ?_, ?_⟩
  · rw [Datum.num_named, entry?_under, hc', Option.map_some]
  · show name d.num = name c'.index
    rw [hindex]

theorem titled_under (h : pool.AsRead)
    (hname : ∀ i c, pool.entry? i = some c → pool.Named i (name i)) : (pool.under name).Titled := by
  intro i c' s hc' hs
  rw [entry?_under] at hc'
  obtain ⟨c, hc, rfl⟩ := Option.map_eq_some_iff.1 hc'
  have htext : pool.text? i = some s := by
    rw [text?, hc, Option.bind_some, ← hs, Constant.under]
    cases c.payload <;> rfl
  have hderived := (hname i c hc).derived h
  have hindex := (h.index_eq hc).1
  show name c.index = s
  rw [hindex]
  exact hderived.unique ((Named.utf8 htext).derived h)

end Pool

theorem ConstantForm.place_spells {pool : Pool} {name : Int → String} {form : ConstantForm}
    (hform : form.Legal) (index pos : Nat)
    (href : ∀ d ∈ (form.place index pos).references, (d.named (name d.num)).Refers pool) :
    Spells pool pos ((form.place index pos).under name).leaves form.bytes := by
  have htag : ((form.place index pos).under name).tag.IsWord pos 1 form.tag.code.toNat :=
    (Datum.isWord_ofWord 1 _ _ _).named _
  refine .octet htag ?_
  cases form with
  | utf8 bs => exact .number hform (.bulk rfl rfl rfl)
  | integer v =>
    refine ⟨_, [], (List.append_nil _).symm, rfl, (Word.length_bytes _ _).symm, ⟨?_, trivial⟩, rfl⟩
    exact Leaf.shows_signed (by decide) hform rfl rfl rfl
  | float n =>
    exact .word rfl ((Datum.isWord_ofWord 4 _ _ _).named _) (by decide) hform trivial (.nil _ _)
  | long n | double n =>
    exact .word rfl ((Datum.isWord_ofWord 8 _ _ _).named _) (by decide) hform trivial (.nil _ _)
  | classInfo a | string a | methodType a | moduleInfo a | packageInfo a =>
    exact .named rfl hform (href _ (.head _)) (.nil _ _)
  | fieldref a b | methodref a b | interfaceMethodref a b | nameAndType a b =>
    exact .named rfl hform.1 (href _ (.head _))
      (.named rfl hform.2 (href _ (.tail _ (.head _))) (.nil _ _))
  | methodHandle a b =>
    exact .word rfl ((Datum.isWord_ofWord 1 _ _ _).named _) (by decide) hform.1 trivial
      (.named rfl hform.2 (href _ (.head _)) (.nil _ _))
  | dynamic a b | invokeDynamic a b =>
    exact .number hform.1 (.named rfl hform.2 (href _ (.head _)) (.nil _ _))

namespace PoolForm

theorem Slotted.legal {slots : List (Option ConstantForm)} (h : Slotted slots) :
    ∀ form, some form ∈ slots → form.Legal := by
  induction h with
  | nil => simp
  | narrow legal _ _ ih | wide legal _ _ ih => simpa [legal] using ih
  | wideLast legal _ => simpa using legal

theorem placeSlots_spells {pool : Pool} {name : Int → String}
    {slots : List (Option ConstantForm)} (hlegal : ∀ form, some form ∈ slots → form.Legal)
    (index pos : Nat) (href : ∀ c ∈ (placeSlots index pos slots).filterMap id,
      ∀ d ∈ c.references, (d.named (name d.num)).Refers pool) :
    Spells pool pos ((((placeSlots index pos slots).filterMap id).map
      (Constant.under name)).flatMap Constant.leaves) (slotBytes slots) := by
  induction slots generalizing index pos with
  | nil => exact .nil pool pos
  | cons slot slots ih =>
    have hslots := ih fun form hform => hlegal form (.tail _ hform)
    cases slot with
    | none => exact hslots (index + 1) pos href
    | some form =>
      have hrefs := List.forall_mem_cons.1 href
      have hfirst := form.place_spells (hlegal form (.head _)) index pos hrefs.1
      exact hfirst.append (hslots (index + 1) (pos + form.bytes.length) hrefs.2)

theorem Legal.form_legal {slots : List (Option ConstantForm)} (h : Legal slots) :
    ∀ form, some form ∈ slots → form.Legal := by
  obtain ⟨-, rfl | ⟨rest, rfl, hrest⟩⟩ := h
  · simp
  · simpa using hrest.legal

/-- The entries of a named pool, after the count. -/
theorem constants_spell {slots : List (Option ConstantForm)} (h : Legal slots) {pos : Nat}
    {name : Int → String}
    (hname : ∀ i c, Pool.entry? (place pos slots) i = some c → (place pos slots).Named i (name i)) :
    Spells ((place pos slots).under name) (pos + 2)
      (((place pos slots).under name).constants.flatMap Constant.leaves) (slotBytes slots) := by
  rw [Pool.constants_under]
  exact placeSlots_spells h.form_legal 0 (pos + 2) fun c hc d hd =>
    Pool.refers_under (Pool.asRead_place h pos) hname hc hd

end PoolForm

/-! ## Class files -/

theorem MemberForm.place_spells {pool : Pool} (hpool : pool.Titled) (flags : FlagTable)
    {m : MemberForm} (h : m.Legal pool) (pos : Nat) :
    Spells pool pos (m.place pool flags pos).leaves m.bytes := by
  obtain ⟨s, hs, -⟩ := h.described
  have hattributes := AttributeForm.lists_spell hpool h.attributes (pos + 6)
  exact .label h.accessFlags (.textual hpool h.name h.named
    (.textual hpool h.descriptor (Option.isSome_iff_exists.2 ⟨s, hs⟩) hattributes))

theorem MemberForm.list_spells {pool : Pool} (hpool : pool.Titled) (flags : FlagTable)
    {ms : List MemberForm} (h : (format pool flags).counted.legal ms) (pos : Nat) :
    Spells pool pos (⟨.number, ((format pool flags).counted.place pos ms).1⟩
      :: ((format pool flags).counted.place pos ms).2.flatMap Member.leaves)
      (Word.rows bytes ms) :=
  .counted h.1 (fun m hm => place_spells hpool flags (h.2 m hm)) pos

theorem HeaderForm.place_spells {h : HeaderForm} (hlegal : h.Legal) {name : Int → String}
    (hname : ∀ i c, (h.place 0).pool.entry? i = some c → (h.place 0).pool.Named i (name i)) :
    Spells ((h.place 0).pool.under name) 0
      (Role.all .number [(h.place 0).magic, (h.place 0).minorVersion, (h.place 0).majorVersion,
        ((h.place 0).pool.under name).count]
        ++ ((h.place 0).pool.under name).constants.flatMap Constant.leaves) h.bytes := by
  have hconstants := PoolForm.constants_spell hlegal.slots hname
  have hmagic : (h.place 0).magic.IsWord 0 4 h.magic := by
    refine ⟨rfl, rfl, rfl, ?_⟩
    simp only [place, magicAt, Datum.ofWord]
  exact .word rfl hmagic (by decide) hlegal.magic trivial (.number hlegal.minorVersion
    (.number hlegal.majorVersion (.number hlegal.slots.1 hconstants)))

theorem PartsForm.place_spells {pool : Pool} (hpool : pool.Titled) {p : PartsForm}
    (h : p.Legal pool) (header : Header) (pos : Nat) :
    let cf := p.place header pool pos
    Spells pool pos ([⟨.number, cf.accessFlags⟩, ⟨.reference, cf.thisClass⟩,
        ⟨.optional "", cf.superClass⟩, ⟨.number, cf.interfaceCount⟩]
      ++ Role.all .reference cf.interfaces
      ++ ⟨.number, cf.fieldCount⟩ :: cf.fields.flatMap Member.leaves
      ++ ⟨.number, cf.methodCount⟩ :: cf.methods.flatMap Member.leaves
      ++ ⟨.number, cf.attributeCount⟩ :: Attribute.leavesOfList cf.attributes) p.bytes := by
  have hinterfaces := Pool.references_spell h.interfaces (pos + 6)
  have hfields := MemberForm.list_spells hpool .ofField h.fields
    (pos + 6 + (Word.rows (Word.bytes 2) p.interfaces).length)
  have hmethods := MemberForm.list_spells hpool .ofMethod h.methods
    (pos + 6 + (Word.rows (Word.bytes 2) p.interfaces).length
      + (Word.rows MemberForm.bytes p.fields).length)
  have hattributes := AttributeForm.lists_spell hpool h.attributes
    (pos + 6 + (Word.rows (Word.bytes 2) p.interfaces).length
      + (Word.rows MemberForm.bytes p.fields).length
      + (Word.rows MemberForm.bytes p.methods).length)
  have hrest := hinterfaces.append (hfields.append (hmethods.append hattributes))
  intro cf
  simp only [bytes, List.append_assoc, List.cons_append, List.nil_append]
  exact .label h.accessFlags (.reference h.thisClass (.optional h.superClass hrest))

theorem ClassForm.Legal.titled {pool : Pool} {c : ClassForm} (h : c.Legal pool) : pool.Titled := by
  have hread := Pool.asRead_place h.header.slots 8
  obtain ⟨name, rfl, hname⟩ := Pool.resolve_ok hread h.named
  exact Pool.titled_under hread hname

theorem ClassForm.trailing_spells (pool : Pool) (pos : Nat) (bs : List UInt8) :
    Spells pool pos (Role.all .bulk (trailingAt pos bs).toList) bs := by
  unfold trailingAt
  split
  · rename_i hnil
    rw [hnil]
    exact .nil pool pos
  · exact .bulk rfl rfl rfl

/-- The leaves of a class file spell the file. -/
theorem ClassForm.tree_spells {pool : Pool} {c : ClassForm} (h : c.Legal pool)
    (trailing : List UInt8) :
    Spells pool 0 (c.tree pool trailing).leaves (c.bytes ++ trailing) := by
  have hpool := h.titled
  obtain ⟨name, rfl, hname⟩ := Pool.resolve_ok (Pool.asRead_place h.header.slots 8) h.named
  have hheader := HeaderForm.place_spells h.header hname
  have hparts := PartsForm.place_spells hpool h.parts (c.toHeaderForm.place 0)
    c.toHeaderForm.bytes.length
  have htrailing := trailing_spells (c.rawPool.under name) c.bytes.length trailing
  have hclass : Spells (c.rawPool.under name) 0 _ c.bytes :=
    hheader.append_of_eq (Nat.zero_add _) hparts
  have hall := hclass.append_of_eq (Nat.zero_add _) htrailing
  simp only [List.append_assoc, List.cons_append] at hall
  simp only [ClassFile.leaves, tree, List.append_assoc, List.cons_append]
  exact hall

/-! ## What a tree says about its file -/

theorem Window.bigEndian_inj {as bs : List UInt8} (hlen : as.length = bs.length)
    (h : bigEndian as = bigEndian bs) : as = bs := by
  rw [← Word.bytes_bigEndian as, ← Word.bytes_bigEndian bs, hlen, h]

namespace Spells

variable {pool : Pool} {pos : Nat} {ls : List Leaf} {as bs : List UInt8}

/-- Each leaf stands for the bytes at its place. -/
theorem sound_of_mem (h : Spells pool pos ls bs) {l : Leaf} (hl : l ∈ ls) :
    pos ≤ l.datum.offset ∧ l.datum.stop ≤ pos + bs.length
      ∧ l.Sound pool ((bs.drop (l.datum.offset - pos)).take l.datum.width) := by
  induction ls generalizing pos bs with
  | nil => cases hl
  | cons m ls ih =>
    obtain ⟨cs, ds, rfl, hoff, hwidth, hm, hls⟩ := h
    rw [List.length_append]
    rcases List.mem_cons.1 hl with rfl | hl
    · unfold Datum.stop
      refine ⟨by omega, by omega, ?_⟩
      rw [hoff, Nat.sub_self, List.drop_zero, hwidth, List.take_left]
      exact hm
    · obtain ⟨hpos, hstop, hsound⟩ := ih hls hl
      have hdrop : l.datum.offset - pos = cs.length + (l.datum.offset - (pos + cs.length)) := by
        omega
      refine ⟨by omega, by omega, ?_⟩
      rw [hdrop, List.drop_length_add_append]
      exact hsound

/-- The same leaves are the same bytes, but for those that are no numbers: the bits of a number settle
its bytes. -/
theorem agree (h : Spells pool pos ls as) (h' : Spells pool pos ls bs) :
    as.length = bs.length ∧ ∀ k, (∀ l ∈ ls, l.role = .bulk →
      pos + k < l.datum.offset ∨ l.datum.stop ≤ pos + k) → as[k]? = bs[k]? := by
  induction ls generalizing pos as bs with
  | nil =>
    obtain rfl : as = [] := h
    obtain rfl : bs = [] := h'
    exact ⟨rfl, fun _ _ => rfl⟩
  | cons l ls ih =>
    obtain ⟨cs, ds, rfl, hoff, hwidth, hl, hls⟩ := h
    obtain ⟨cs', ds', rfl, -, hwidth', hl', hls'⟩ := h'
    have hlen : cs.length = cs'.length := hwidth.symm.trans hwidth'
    rw [← hlen] at hls'
    obtain ⟨hlength, hrest⟩ := ih hls hls'
    refine ⟨by rw [List.length_append, List.length_append, hlen, hlength], fun k hk => ?_⟩
    obtain ⟨hfirst, hothers⟩ := List.forall_mem_cons.1 hk
    by_cases hlt : k < cs.length
    · have hbulk : l.role ≠ .bulk := by
        intro hbulk
        have := hfirst hbulk
        unfold Datum.stop at this
        omega
      have hnum := hl.shows
      have hnum' := hl'.shows
      unfold Leaf.Shows at hnum hnum'
      rw [if_neg hbulk] at hnum hnum'
      rw [Window.bigEndian_inj hlen (hnum.raw.symm.trans hnum'.raw),
        List.getElem?_append_left (by omega), List.getElem?_append_left (by omega)]
    · have hk' := hrest (k - cs.length) fun m hm hbulk => by
        have := hothers m hm hbulk
        omega
      rw [List.getElem?_append_right (by omega), List.getElem?_append_right (by omega), hk', hlen]

end Spells

namespace ClassFile

variable {bytes : List UInt8} {cf : ClassFile}

theorem leaves_spell (h : decode bytes = .ok cf) : Spells cf.pool 0 cf.leaves bytes := by
  obtain ⟨c, pool, trailing, hlegal, rfl, rfl⟩ := decode_eq_ok.1 h
  exact ClassForm.tree_spells hlegal trailing

/-- **The leaves of a class file and its bytes.** Every value of a decoded file is a leaf. A leaf that
is a number has one, two, four or eight bytes, keeps the bits that stand at its place, and means by
them what its part says, in 64 bits; a leaf that is no number keeps no bits. So two byte strings with
the same tree have the same length and the same bytes outside of the leaves that are no numbers. -/
theorem leaves_show_bytes (h : decode bytes = .ok cf) :
    cf.leaves.map Leaf.datum = cf.data
      ∧ (∀ l ∈ cf.leaves, l.datum.stop ≤ bytes.length
        ∧ l.Shows ((bytes.drop l.datum.offset).take l.datum.width))
      ∧ ∀ bytes', decode bytes' = .ok cf → bytes'.length = bytes.length
        ∧ ∀ k, (∀ l ∈ cf.leaves, l.role = .bulk → k < l.datum.offset ∨ l.datum.stop ≤ k) →
          bytes'[k]? = bytes[k]? := by
  have hspells := leaves_spell h
  refine ⟨cf.map_datum_leaves, fun l hl => ?_, fun bytes' h' => ?_⟩
  · obtain ⟨-, hstop, hsound⟩ := hspells.sound_of_mem hl
    rw [Nat.zero_add] at hstop
    exact ⟨hstop, hsound.shows⟩
  · obtain ⟨hlength, hbytes⟩ := (leaves_spell h').agree hspells
    simp only [Nat.zero_add] at hbytes
    exact ⟨hlength, hbytes⟩

theorem leaves_show_bytes_nested :
    let bytes := ClassForm.nested.bytes ++ [1, 2]
    let cf := ClassForm.nested.tree ClassForm.nestedPool [1, 2]
    decode bytes = .ok cf
      ∧ cf.leaves.map Leaf.datum = cf.data
      ∧ (∀ l ∈ cf.leaves, l.datum.stop ≤ bytes.length
        ∧ l.Shows ((bytes.drop l.datum.offset).take l.datum.width))
      ∧ ∀ bytes', decode bytes' = .ok cf → bytes'.length = bytes.length
        ∧ ∀ k, (∀ l ∈ cf.leaves, l.role = .bulk → k < l.datum.offset ∨ l.datum.stop ≤ k) →
          bytes'[k]? = bytes[k]? := by
  intro bytes cf
  have h : decode bytes = .ok cf := decode_eq_ok.2 ⟨_, _, _, ClassForm.nested_legal, rfl, rfl⟩
  exact ⟨h, leaves_show_bytes h⟩

/-- **The references of a class file.** Every index of a constant in a decoded file is that of a
populated slot, and is named after the constant there: in an instruction after its kind too, and
elsewhere after its name alone. Only where a reference may be missing is the index zero. Names and
descriptors are those of Utf8 constants. -/
theorem references_resolve (h : decode bytes = .ok cf) :
    cf.leaves.map Leaf.datum = cf.data ∧ (∀ l ∈ cf.leaves, l.Resolved cf.pool)
      ∧ ∀ c ∈ cf.pool.constants, ∀ d ∈ c.references, d.Refers cf.pool := by
  have hall : ∀ l ∈ cf.leaves, l.Resolved cf.pool := fun l hl =>
    ((leaves_spell h).sound_of_mem hl).2.2.resolved
  refine ⟨cf.map_datum_leaves, hall, fun c hc d hd => ?_⟩
  have hleaf : ⟨.reference, d⟩ ∈ c.leaves :=
    .tail _ (Payload.mem_leaves_of_mem_references hd)
  have hconstants : ⟨.reference, d⟩ ∈ cf.pool.constants.flatMap Constant.leaves :=
    List.mem_flatMap.2 ⟨c, hc, hleaf⟩
  exact hall ⟨.reference, d⟩ (by simp [leaves, hconstants])

theorem references_resolve_nested :
    let bytes := ClassForm.nested.bytes ++ [1, 2]
    let cf := ClassForm.nested.tree ClassForm.nestedPool [1, 2]
    decode bytes = .ok cf
      ∧ cf.leaves.map Leaf.datum = cf.data ∧ (∀ l ∈ cf.leaves, l.Resolved cf.pool)
      ∧ ∀ c ∈ cf.pool.constants, ∀ d ∈ c.references, d.Refers cf.pool := by
  intro bytes cf
  have h : decode bytes = .ok cf := decode_eq_ok.2 ⟨_, _, _, ClassForm.nested_legal, rfl, rfl⟩
  exact ⟨h, references_resolve h⟩

end ClassFile

end ClassAtlas
