import ClassAtlas.Proofs.Sizes
import ClassAtlas.Proofs.Transcript

/-! # Other bytes for the same leaves

Leaves spell more than one byte string: a leaf that is no number stands for any bytes of its width.
After the pool that makes no difference, because all the bytes that the leaves of a part spell are
those of a part with the same value. Where a leaf is padding or a body without an interpretation, the
other part has the other bytes there; everything else in it is a number, and the same.

* `Legible ls`: the leaves are numbers, and so they spell one byte string only.
* `Spells.around`: other bytes for leaves between legible ones.
* `Op.respell`, `Bytecode.respell`, `BodyForm.respell`, `FrameForm.respell`, `AttributeForm.respell`,
  `MemberForm.respell`, `PartsForm.respell`: other bytes for the leaves of the parts.
-/

namespace ClassAtlas
set_option autoImplicit false

/-! ## Legible leaves -/

/-- The leaves are numbers. -/
def Legible (ls : List Leaf) : Prop :=
  ∀ l ∈ ls, l.role ≠ .bulk

namespace Legible

variable {ls ms : List Leaf}

theorem nil : Legible [] := by
  simp [Legible]

theorem cons {role : Role} {d : Datum} (hrole : role ≠ .bulk) (h : Legible ls) :
    Legible (⟨role, d⟩ :: ls) :=
  List.forall_mem_cons.2 ⟨hrole, h⟩

theorem append (h : Legible ls) (h' : Legible ms) : Legible (ls ++ ms) := by
  intro l hl
  rcases List.mem_append.1 hl with hl | hl
  · exact h l hl
  · exact h' l hl

theorem all {role : Role} (hrole : role ≠ .bulk) (ds : List Datum) : Legible (role.all ds) := by
  intro l hl
  obtain ⟨d, -, rfl⟩ := List.mem_map.1 hl
  exact hrole

theorem flatMap {α : Type} {leaves : α → List Leaf} (h : ∀ a, Legible (leaves a)) (as : List α) :
    Legible (as.flatMap leaves) := by
  intro l hl
  obtain ⟨a, -, hl⟩ := List.mem_flatMap.1 hl
  exact h a l hl

end Legible

/-- A leaf that is no number stands for any bytes. -/
theorem Leaf.Sound.of_bulk {pool : Pool} {l : Leaf} {as : List UInt8} (h : l.Sound pool as)
    (hbulk : l.role = .bulk) (bs : List UInt8) : l.Sound pool bs := by
  have hshows := h.shows
  refine ⟨?_, h.resolved⟩
  unfold Shows at hshows ⊢
  rw [if_pos hbulk] at hshows ⊢
  exact hshows

namespace Spells

variable {pool : Pool} {pos : Nat} {ls ms front mid back : List Leaf} {as bs cs ds : List UInt8}

theorem eq_of_legible (h : Spells pool pos ls as) (h' : Spells pool pos ls bs) (hls : Legible ls) :
    as = bs := by
  obtain ⟨-, hbytes⟩ := h.agree h'
  exact List.ext_getElem? fun k => hbytes k fun l hl hbulk => absurd hbulk (hls l hl)

theorem length_eq (h : Spells pool pos ls as) (h' : Spells pool pos ls bs) :
    as.length = bs.length :=
  (h.agree h').1

theorem split_append (h : Spells pool pos (ls ++ ms) bs) :
    ∃ as cs, bs = as ++ cs ∧ Spells pool pos ls as ∧ Spells pool (pos + as.length) ms cs := by
  induction ls generalizing pos bs with
  | nil => exact ⟨[], bs, rfl, nil pool pos, h⟩
  | cons l ls ih =>
    obtain ⟨as, ds, rfl, hoff, hwidth, hl, hrest⟩ := h
    obtain ⟨as', cs, rfl, hls, hms⟩ := ih hrest
    refine ⟨as ++ as', cs, (List.append_assoc _ _ _).symm, ⟨as, as', rfl, hoff, hwidth, hl, hls⟩, ?_⟩
    rw [List.length_append, ← Nat.add_assoc]
    exact hms

/-- The bytes of leaves at the front, of which some bytes are known. -/
theorem split (h : Spells pool pos (ls ++ ms) bs) (hls : Spells pool pos ls as) :
    ∃ as' cs, bs = as' ++ cs ∧ as'.length = as.length ∧ Spells pool pos ls as'
      ∧ Spells pool (pos + as.length) ms cs := by
  obtain ⟨as', cs, rfl, hls', hms⟩ := h.split_append
  have hlen := hls'.length_eq hls
  rw [hlen] at hms
  exact ⟨as', cs, rfl, hlen, hls', hms⟩

theorem peel (h : Spells pool pos (ls ++ ms) bs) (hls : Spells pool pos ls as) (hleg : Legible ls) :
    ∃ cs, bs = as ++ cs ∧ Spells pool (pos + as.length) ms cs := by
  obtain ⟨as', cs, rfl, -, hls', hms⟩ := h.split hls
  rw [hls'.eq_of_legible hls hleg]
  exact ⟨cs, rfl, hms⟩

theorem tail (h : Spells pool pos (ls ++ ms) (as ++ bs)) (hls : Spells pool pos ls as) :
    Spells pool (pos + as.length) ms bs := by
  obtain ⟨as', cs, hbytes, hlen, -, hms⟩ := h.split hls
  rw [(List.append_inj hbytes hlen.symm).2]
  exact hms

/-- Other bytes for leaves between legible ones differ in the middle only. -/
theorem around (h : Spells pool pos (front ++ (mid ++ back)) (as ++ (bs ++ cs)))
    (hfront : Spells pool pos front as) (hmid : Spells pool (pos + as.length) mid bs)
    (hlegible : Legible front) (hlegible' : Legible back)
    (hs : Spells pool pos (front ++ (mid ++ back)) ds) :
    ∃ bs', ds = as ++ (bs' ++ cs) ∧ bs'.length = bs.length
      ∧ Spells pool (pos + as.length) mid bs' := by
  obtain ⟨ds', rfl, hrest⟩ := hs.peel hfront hlegible
  obtain ⟨bs', cs', rfl, hlen, hmid', hback'⟩ := hrest.split hmid
  have hback := (h.tail hfront).tail hmid
  rw [hback'.eq_of_legible hback hlegible']
  exact ⟨bs', rfl, hlen, hmid'⟩

theorem peel_count {n : Nat} (hn : n < 256 ^ 2)
    (h : Spells pool pos (⟨.number, Datum.wordAt pos n⟩ :: ls) bs) :
    ∃ cs, bs = Word.bytes 2 n ++ cs ∧ Spells pool (pos + 2) ls cs := by
  have hcount : Spells pool pos [⟨.number, Datum.wordAt pos n⟩] (Word.bytes 2 n ++ []) :=
    number hn (nil _ _)
  rw [List.append_nil] at hcount
  exact peel h hcount (.cons (by simp) .nil)

/-- Bytes that differ only where the leaves are no numbers are spelled by the same leaves. -/
theorem replace (h : Spells pool pos ls as) (hlen : bs.length = as.length)
    (hbytes : ∀ k, (∀ l ∈ ls, l.role = .bulk → pos + k < l.datum.offset ∨ l.datum.stop ≤ pos + k) →
      bs[k]? = as[k]?) : Spells pool pos ls bs := by
  induction ls generalizing pos as bs with
  | nil =>
    obtain rfl : as = [] := h
    exact List.eq_nil_of_length_eq_zero hlen
  | cons l ls ih =>
    obtain ⟨cs, ds, rfl, hoff, hwidth, hl, hls⟩ := h
    rw [List.length_append] at hlen
    have htake : (bs.take cs.length).length = cs.length := by
      rw [List.length_take]
      omega
    refine ⟨bs.take cs.length, bs.drop cs.length, (List.take_append_drop _ _).symm, hoff, ?_, ?_, ?_⟩
    · rw [htake]
      exact hwidth
    · by_cases hbulk : l.role = .bulk
      · exact hl.of_bulk hbulk _
      · have hsame : bs.take cs.length = cs := by
          apply List.ext_getElem?
          intro k
          by_cases hk : k < cs.length
          · have hbyte := hbytes k (List.forall_mem_cons.2 ⟨fun h => absurd h hbulk, fun m hm _ => ?_⟩)
            · rw [List.getElem?_take_of_lt hk, hbyte, List.getElem?_append_left hk]
            · obtain ⟨hle, -⟩ := hls.sound_of_mem hm
              omega
          · rw [List.getElem?_eq_none (by omega), List.getElem?_eq_none (by omega)]
        rw [hsame]
        exact hl
    · rw [htake]
      refine ih hls ?_ fun k hk => ?_
      · rw [List.length_drop]
        omega
      · have hbyte := hbytes (cs.length + k) (List.forall_mem_cons.2 ⟨fun _ => ?_, fun m hm hbulk => ?_⟩)
        · rw [List.getElem?_drop, hbyte, List.getElem?_append_right (Nat.le_add_right _ _),
            Nat.add_sub_cancel_left]
        · unfold Datum.stop
          omega
        · have := hk m hm hbulk
          omega

end Spells

/-! ## Instructions -/

theorem Role.ofOperand_ne_bulk {kind : OperandKind} (pc : Nat) (h : 0 < kind.width) :
    ofOperand pc kind ≠ .bulk := by
  cases kind <;> simp [ofOperand, OperandKind.width] at h ⊢

theorem SwitchTable.legible_leaves (pc : Nat) (table : SwitchTable) : Legible (table.leaves pc) := by
  cases table with
  | range default low high targets =>
    exact .cons (by simp) (.cons (by simp) (.cons (by simp) (.all (by simp) targets)))
  | pairs default count entries =>
    refine .cons (by simp) (.cons (by simp) (.flatMap (fun e => ?_) entries))
    exact .cons (by simp) (.cons (by simp) .nil)

theorem Instruction.legible_switch (i : Instruction) :
    Legible ((i.switch.map (SwitchTable.leaves i.pc)).getD []) := by
  cases i.switch with
  | none => exact .nil
  | some table => exact table.legible_leaves i.pc

namespace Op

variable {pool : Pool} {pc : Nat}

theorem legible_operands (pool : Pool) (pc pos : Nat) {os : List Operand}
    (hw : ∀ o ∈ os, 0 < o.kind.width) {ds : List Datum}
    (hds : ds ⊆ (Operand.format pool pc).placeAll pos os) (i : Instruction) :
    Legible (ds.map i.operandLeaf) := by
  intro l hl
  obtain ⟨d, hd, rfl⟩ := List.mem_map.1 hl
  obtain ⟨o, ho, p, rfl⟩ := Format.mem_placeAll (hds hd)
  exact Role.ofOperand_ne_bulk i.pc (hw o ho)

/-- Other bytes for a switch have another padding of the same length. -/
theorem switch_around {i : Instruction} {pos : Nat} {code : UInt8} {padding table bs : List UInt8}
    {ls : List Leaf} (h : Spells pool pos ([⟨.number, opcodeAt pos code⟩]
      ++ ((paddingAt (pos + 1) padding).map i.operandLeaf ++ ls)) ([code] ++ (padding ++ table)))
    (hls : Legible ls) (hs : Spells pool pos ([⟨.number, opcodeAt pos code⟩]
      ++ ((paddingAt (pos + 1) padding).map i.operandLeaf ++ ls)) bs) :
    ∃ padding', padding'.length = padding.length ∧ code :: (padding' ++ table) = bs := by
  have hcode : Spells pool pos [⟨.number, opcodeAt pos code⟩] [code] :=
    .octet (isWord_opcodeAt pos code) (.nil _ _)
  obtain ⟨padding', rfl, hlen, -⟩ := h.around hcode (padding_spells pool i (pos + 1) padding)
    (.cons (by simp) .nil) hls hs
  exact ⟨padding', hlen, rfl⟩

theorem paddingAt_congr {padding padding' : List UInt8} (h : padding'.length = padding.length)
    (pos : Nat) : paddingAt pos padding' = paddingAt pos padding := by
  unfold paddingAt
  rw [h]

theorem Aligns.congr {padding padding' : List UInt8} (h : Aligns pc padding)
    (hlen : padding'.length = padding.length) : Aligns pc padding' := by
  unfold Aligns
  rw [hlen]
  exact h

theorem respell (hpc : pc < 256 ^ 4) {base : Nat} {op : Op} (h : op.Legal pool pc)
    {bs : List UInt8} (hs : Spells pool (base + pc) (op.place pool base pc).leaves bs) :
    ∃ op' : Op, op'.Legal pool pc ∧ op'.bytes = bs
      ∧ op'.place pool base pc = op.place pool base pc := by
  have hop := place_spells hpc base h
  rw [leaves_place hpc base h] at hs hop
  cases op with
  | fixed code os =>
    have hw := width_of_row h.2.2.2.2.1 Disassembly.operands_width
    have hoperands : ∀ p : Datum → Bool, Legible ((((Operand.format pool pc).placeAll (base + pc + 1)
        os).filter p).map ((fixed code os).place pool base pc).operandLeaf) := fun p =>
      legible_operands pool pc (base + pc + 1) hw List.filter_sublist.subset _
    refine ⟨_, h, hop.eq_of_legible hs ?_, rfl⟩
    exact .append (.append (.cons (by simp) (hoperands _)) (hoperands _)) (Instruction.legible_switch _)
  | wide code os =>
    have hw := width_of_row h.2.1 Disassembly.wideRow_width
    have hoperands := legible_operands pool pc (base + pc + 1 + 1) hw (List.Subset.refl _)
      ((wide code os).place pool base pc)
    have hcode : Role.ofOperand pc .opcode ≠ .bulk := Role.ofOperand_ne_bulk pc (by decide)
    refine ⟨_, h, hop.eq_of_legible hs ?_, rfl⟩
    exact .append (.append (.cons (by simp) (.cons hcode hoperands)) .nil) (Instruction.legible_switch _)
  | range padding default low high vs =>
    obtain ⟨halign, hlegal⟩ := h
    obtain ⟨padding', hlen, rfl⟩ := switch_around hop (Instruction.legible_switch _) hs
    refine ⟨range padding' default low high vs, ⟨halign.congr hlen, hlegal⟩, rfl, ?_⟩
    simp only [place, tailAt, bytes, tailBytes, code, List.length_cons, List.length_append, hlen,
      paddingAt_congr hlen]
  | pairs padding default es =>
    obtain ⟨halign, hlegal⟩ := h
    obtain ⟨padding', hlen, rfl⟩ := switch_around hop (Instruction.legible_switch _) hs
    refine ⟨pairs padding' default es, ⟨halign.congr hlen, hlegal⟩, rfl, ?_⟩
    simp only [place, tailAt, bytes, tailBytes, code, List.length_cons, List.length_append, hlen,
      paddingAt_congr hlen]

end Op

theorem Bytecode.respell {pool : Pool} {base pc : Nat} {ops : List Op}
    (hlen : pc + (bytes ops).length < 256 ^ 4) (h : LegalFrom pool pc ops) {bs : List UInt8}
    (hs : Spells pool (base + pc) ((placeFrom pool base pc ops).flatMap Instruction.leaves) bs) :
    ∃ ops', LegalFrom pool pc ops' ∧ bytes ops' = bs
      ∧ placeFrom pool base pc ops' = placeFrom pool base pc ops := by
  induction ops generalizing pc bs with
  | nil =>
    obtain rfl : bs = [] := hs
    exact ⟨[], trivial, rfl, rfl⟩
  | cons op ops ih =>
    rw [length_bytes_cons] at hlen
    have hop := Op.place_spells (by omega) base h.1
    rw [placeFrom, List.flatMap_cons] at hs
    obtain ⟨as, cs, rfl, hsize, hfirst, hrest⟩ := hs.split hop
    rw [Nat.add_assoc] at hrest
    obtain ⟨op', hlegal, rfl, hplace⟩ := Op.respell (by omega) h.1 hfirst
    obtain ⟨ops', hlegal', rfl, hplace'⟩ := ih (by omega) h.2 hrest
    refine ⟨op' :: ops', ⟨hlegal, ?_⟩, rfl, ?_⟩
    · rw [hsize]
      exact hlegal'
    · rw [placeFrom, placeFrom, hsize, hplace, hplace']

/-! ## Attributes -/

theorem Body.legible_leaves {b : Body} (h : ∀ d, b ≠ .uninterpreted d) : Legible b.leaves := by
  cases b with
  | constantValue d | sourceFile d | signature d | nestHost d => exact .cons (by simp) .nil
  | classList count classes => exact .cons (by simp) (.all (by simp) classes)
  | nestedClasses count rows =>
    refine .cons (by simp) (.flatMap (fun r => ?_) rows)
    exact .cons (by simp) (.cons (by simp) (.cons (by simp) (.cons (by simp) .nil)))
  | bootstrapMethods count methods =>
    refine .cons (by simp) (.flatMap (fun m => ?_) methods)
    exact .cons (by simp) (.cons (by simp) (.all (by simp) m.arguments))
  | lineNumbers table =>
    refine .cons (by simp) (.flatMap (fun e => ?_) table.entries)
    exact .cons (by simp) (.cons (by simp) .nil)
  | localVariables length rows =>
    refine .cons (by simp) (.flatMap (fun r => ?_) rows)
    exact .cons (by simp) (.cons (by simp) (.cons (by simp) (.cons (by simp) (.cons (by simp) .nil))))
  | marker => exact .nil
  | uninterpreted d => exact absurd rfl (h d)

section

variable {pool : Pool}

theorem BodyForm.respell (hpool : pool.Titled) {name : String} {pos : Nat} {b : BodyForm}
    (hunder : b.Under name) (h : b.Legal pool) {bs : List UInt8}
    (hs : Spells pool pos (b.place pool pos).leaves bs) :
    ∃ b' : BodyForm, b'.Under name ∧ b'.Legal pool ∧ b'.bytes = bs
      ∧ b'.place pool pos = b.place pool pos := by
  have hbody := place_spells hpool h pos
  cases b with
  | uninterpreted as =>
    have hlen : bs.length = as.length := hs.length_eq hbody
    refine ⟨.uninterpreted bs, hunder, trivial, rfl, ?_⟩
    simp only [place, Datum.ofSkipped, hlen]
  | _ =>
    refine ⟨_, hunder, h, hbody.eq_of_legible hs (Body.legible_leaves fun d hd => ?_), rfl⟩
    cases hd

theorem FrameForm.respell {f : FrameForm} (h : f.Legal pool) {pos count : Nat}
    (hcount : count < 256 ^ 2) {bs : List UInt8}
    (hs : Spells pool pos (f.place pool pos count).leaves bs) :
    ∃ f' : FrameForm, f'.Legal pool ∧ f'.bytes ++ Word.bytes 2 count = bs
      ∧ f'.place pool pos count = f.place pool pos count := by
  have hlength := h.codeLength
  have hframe := place_spells h pos hcount
  have hfront : Spells pool pos [⟨.number, Datum.wordAt pos f.maxStack⟩,
      ⟨.number, Datum.wordAt (pos + 2) f.maxLocals⟩,
      ⟨.number, Datum.ofWord 4 .structural (pos + 4) (Bytecode.bytes f.code).length⟩]
      (Word.bytes 2 f.maxStack ++ (Word.bytes 2 f.maxLocals
        ++ (Word.bytes 4 (Bytecode.bytes f.code).length ++ []))) :=
    .number h.maxStack (.number h.maxLocals
      (.word rfl (Datum.isWord_ofWord 4 _ _ _) (by decide) hlength trivial (.nil _ _)))
  have hcode := Bytecode.placeFrom_spells (pos + 8) (by omega) h.code
  have hlegible : Legible (⟨.number, (f.place pool pos count).handlerCount⟩
      :: ((f.place pool pos count).handlers.flatMap Handler.leaves
        ++ [⟨.number, (f.place pool pos count).attributeCount⟩])) := by
    refine .cons (by simp) (.append (.flatMap (fun r => ?_) _) (.cons (by simp) .nil))
    exact .cons (by simp) (.cons (by simp) (.cons (by simp) (.cons (by simp) .nil)))
  simp only [Frame.leaves, bytes, List.append_assoc, List.cons_append] at hframe hs
  obtain ⟨code, rfl, hlen, hcode'⟩ := Spells.around hframe hfront hcode
    (.cons (by simp) (.cons (by simp) (.cons (by simp) .nil))) hlegible hs
  change Spells pool (pos + 8 + 0) _ code at hcode'
  obtain ⟨ops, hops, rfl, hplace⟩ := Bytecode.respell (by omega) h.code hcode'
  refine ⟨{ f with code := ops }, ⟨h.maxStack, h.maxLocals, ?_, hops, h.handlers⟩, ?_, ?_⟩
  · rw [hlen]
    exact hlength
  · simp only [bytes, hlen, List.append_assoc]
    rfl
  · simp only [place, bytes, hlen, hplace, List.length_append]

end

namespace AttributeForm

variable {pool : Pool}

/-- Name and length of an attribute, whose body may be any that has the length. -/
theorem framed_spells (hpool : pool.Titled) (pos : Nat) {name length : Nat} (hname : name < 256 ^ 2)
    (htext : (pool.text? name).isSome = true) (hlength : length < 256 ^ 4) :
    Spells pool pos [⟨.textual, (Datum.wordAt pos name).named ((pool.text? name).getD "")⟩,
      ⟨.number, Datum.ofWord 4 .structural (pos + 2) length⟩]
      (Word.bytes 2 name ++ (Word.bytes 4 length ++ [])) :=
  .textual hpool hname htext
    (.word rfl (Datum.isWord_ofWord 4 _ _ _) (by decide) hlength trivial (.nil _ _))

theorem legible_frame (name length : Datum) :
    Legible [⟨.textual, name⟩, ⟨.number, length⟩] :=
  .cons (by simp) (.cons (by simp) .nil)

mutual

/-- The parts are as long as before, so that what follows them stays where it is. -/
theorem respell (hpool : pool.Titled) (pos : Nat) (a : AttributeForm) (h : a.Legal pool)
    {bs : List UInt8} (hs : Spells pool pos (a.place pool pos).leaves bs) :
    ∃ a' : AttributeForm, a'.Legal pool ∧ a'.bytes = bs ∧ a'.place pool pos = a.place pool pos := by
  cases a with
  | simple name body =>
    rw [Legal] at h
    obtain ⟨hname, hlength, s, hs', hunder, hbody⟩ := h
    have hfront := framed_spells hpool pos hname (Option.isSome_iff_exists.2 ⟨s, hs'⟩) hlength
    have hspells := BodyForm.place_spells hpool hbody (pos + 6)
    rw [place, Attribute.leaves] at hs
    obtain ⟨cs, rfl, hrest⟩ := Spells.peel hs hfront (legible_frame _ _)
    change Spells pool (pos + 6) _ cs at hrest
    have hlen := hrest.length_eq hspells
    obtain ⟨b, hb, hlegal, rfl, hplace⟩ := BodyForm.respell hpool hunder hbody hrest
    refine ⟨simple name b, ?_, ?_, ?_⟩
    · rw [Legal, hlen]
      exact ⟨hname, hlength, s, hs', hb, hlegal⟩
    · rw [bytes, framed, bodyBytes, AttributeForm.name, hlen]
      simp only [List.append_assoc, List.nil_append]
    · rw [place, place, hlen, hplace]
  | code name frame attributes =>
    rw [Legal] at h
    obtain ⟨hname, hlength, hs', hframe, hcount, hattributes⟩ := h
    have hfront := framed_spells hpool pos hname (Option.isSome_iff_exists.2 ⟨_, hs'⟩) hlength
    have hspells := FrameForm.place_spells hframe (pos + 6) hcount
    rw [place, Attribute.leaves, List.cons_append, List.cons_append] at hs
    obtain ⟨cs, rfl, hrest⟩ := Spells.peel hs hfront (legible_frame _ _)
    change Spells pool (pos + 6) _ cs at hrest
    obtain ⟨fs, ds, rfl, hlen, hfs, hds⟩ := hrest.split hspells
    rw [List.length_append, Word.length_bytes, ← Nat.add_assoc] at hds
    obtain ⟨f, hf, rfl, hplace⟩ := FrameForm.respell hframe hcount hfs
    have hlen' := hds.length_eq (placeList_spells hpool _ attributes hattributes)
    obtain ⟨as, has, hsize, rfl, hplaces⟩ := respellList hpool _ attributes hattributes hds
    have hflen : f.bytes.length = frame.bytes.length := by
      rw [List.length_append, List.length_append] at hlen
      omega
    have hbytes : bodyBytes (code name f as) =
        f.bytes ++ (Word.bytes 2 attributes.length ++ bytesOfList as) := by
      rw [bodyBytes, hsize]
    have hbody : (bodyBytes (code name f as)).length =
        (bodyBytes (code name frame attributes)).length := by
      simp only [bodyBytes, List.length_append, Word.length_bytes, hflen, hlen']
    refine ⟨code name f as, ?_, ?_, ?_⟩
    · rw [Legal, hbody, hsize]
      exact ⟨hname, hlength, hs', hf, hcount, has⟩
    · rw [bytes, framed, hbody, hbytes, AttributeForm.name]
      simp only [List.append_assoc, List.nil_append]
    · rw [place, place, hbody, hsize, hflen, hplace, hplaces]

theorem respellList (hpool : pool.Titled) (pos : Nat) (as : List AttributeForm)
    (h : LegalList pool as) {bs : List UInt8}
    (hs : Spells pool pos (Attribute.leavesOfList (placeList pool pos as)) bs) :
    ∃ as', LegalList pool as' ∧ as'.length = as.length ∧ bytesOfList as' = bs
      ∧ placeList pool pos as' = placeList pool pos as := by
  cases as with
  | nil =>
    rw [placeList, Attribute.leavesOfList] at hs
    obtain rfl : bs = [] := hs
    exact ⟨[], h, rfl, by rw [bytesOfList], rfl⟩
  | cons a as =>
    rw [LegalList] at h
    rw [placeList, Attribute.leavesOfList] at hs
    obtain ⟨cs, ds, rfl, hlen, ha, has⟩ := hs.split (place_spells hpool pos a h.1)
    obtain ⟨a', hlegal, rfl, hplace⟩ := respell hpool pos a h.1 ha
    obtain ⟨as', hlegal', hsize, rfl, hplaces⟩ := respellList hpool _ as h.2 has
    refine ⟨a' :: as', ?_, ?_, ?_, ?_⟩
    · rw [LegalList]
      exact ⟨hlegal, hlegal'⟩
    · rw [List.length_cons, List.length_cons, hsize]
    · rw [bytesOfList, bytes]
    · rw [placeList, placeList, hplace, hlen, hplaces]

end

theorem lists_respell (hpool : pool.Titled) {pos : Nat} {as : List AttributeForm}
    (h : (lists pool).legal as) {bs : List UInt8}
    (hs : Spells pool pos (⟨.number, ((lists pool).place pos as).1⟩
      :: Attribute.leavesOfList ((lists pool).place pos as).2) bs) :
    ∃ as', (lists pool).legal as' ∧ Word.rows bytes as' = bs
      ∧ (lists pool).place pos as' = (lists pool).place pos as := by
  obtain ⟨cs, rfl, hrest⟩ := Spells.peel_count h.1 hs
  obtain ⟨as', has, hsize, rfl, hplace⟩ := respellList hpool _ as h.2 hrest
  refine ⟨as', ⟨?_, has⟩, ?_, ?_⟩
  · rw [hsize]
    exact h.1
  · rw [Word.rows, hsize, bytesOfList_eq]
  · simp only [lists, hsize]
    exact congrArg _ hplace

end AttributeForm

/-! ## Members and classes -/

/-- Other bytes for rows, where there are other bytes for one row. -/
theorem Format.respellAll {ι α : Type} {F : Format ι α} {leaves : α → List Leaf} {pool : Pool}
    (hspell : ∀ x, F.legal x → ∀ pos, Spells pool pos (leaves (F.place pos x)) (F.bytes x))
    (hrow : ∀ x, F.legal x → ∀ pos bs, Spells pool pos (leaves (F.place pos x)) bs →
      ∃ x', F.legal x' ∧ F.bytes x' = bs ∧ F.place pos x' = F.place pos x)
    {xs : List ι} (hxs : ∀ x ∈ xs, F.legal x) {pos : Nat} {bs : List UInt8}
    (hs : Spells pool pos ((F.placeAll pos xs).flatMap leaves) bs) :
    ∃ xs', (∀ x ∈ xs', F.legal x) ∧ xs'.length = xs.length ∧ xs'.flatMap F.bytes = bs
      ∧ F.placeAll pos xs' = F.placeAll pos xs := by
  induction xs generalizing pos bs with
  | nil =>
    obtain rfl : bs = [] := hs
    exact ⟨[], by simp, rfl, rfl, rfl⟩
  | cons x xs ih =>
    have hx := List.forall_mem_cons.1 hxs
    rw [placeAll, List.flatMap_cons] at hs
    obtain ⟨cs, ds, rfl, hlen, hfirst, hrest⟩ := hs.split (hspell x hx.1 pos)
    obtain ⟨x', hlegal, rfl, hplace⟩ := hrow x hx.1 pos cs hfirst
    obtain ⟨xs', hlegal', hsize, rfl, hplace'⟩ := ih hx.2 hrest
    refine ⟨x' :: xs', List.forall_mem_cons.2 ⟨hlegal, hlegal'⟩, ?_, List.flatMap_cons, ?_⟩
    · rw [List.length_cons, List.length_cons, hsize]
    · rw [placeAll, placeAll, hplace, hlen, hplace']

namespace MemberForm

variable {pool : Pool} {flags : FlagTable}

theorem respell (hpool : pool.Titled) {m : MemberForm} (h : m.Legal pool) {pos : Nat}
    {bs : List UInt8} (hs : Spells pool pos (m.place pool flags pos).leaves bs) :
    ∃ m' : MemberForm, m'.Legal pool ∧ m'.bytes = bs
      ∧ m'.place pool flags pos = m.place pool flags pos := by
  obtain ⟨s, hdescriptor, -⟩ := h.described
  have hfront : Spells pool pos [⟨.number, (m.place pool flags pos).accessFlags⟩,
      ⟨.textual, (m.place pool flags pos).nameIndex⟩,
      ⟨.textual, (m.place pool flags pos).descriptorIndex⟩] (Word.bytes 2 m.accessFlags
        ++ (Word.bytes 2 m.name ++ (Word.bytes 2 m.descriptor ++ []))) :=
    .label h.accessFlags (.textual hpool h.name h.named
      (.textual hpool h.descriptor (Option.isSome_iff_exists.2 ⟨s, hdescriptor⟩) (.nil _ _)))
  obtain ⟨cs, rfl, hrest⟩ := Spells.peel hs hfront
    (.cons (by simp) (.cons (by simp) (.cons (by simp) .nil)))
  change Spells pool (pos + 6) _ cs at hrest
  obtain ⟨as, has, rfl, hplace⟩ := AttributeForm.lists_respell hpool h.attributes hrest
  obtain ⟨hcount, hlist⟩ := Prod.mk.inj hplace
  refine ⟨{ m with attributes := as }, ⟨h.accessFlags, h.name, h.descriptor, h.named, h.described,
    has⟩, ?_, ?_⟩
  · simp only [bytes, List.append_assoc, List.nil_append]
  · simp only [place, signature]
    rw [hcount, hlist]

theorem list_respell (hpool : pool.Titled) {ms : List MemberForm}
    (h : (format pool flags).counted.legal ms) {pos : Nat} {bs : List UInt8}
    (hs : Spells pool pos (⟨.number, ((format pool flags).counted.place pos ms).1⟩
      :: ((format pool flags).counted.place pos ms).2.flatMap Member.leaves) bs) :
    ∃ ms', (format pool flags).counted.legal ms' ∧ Word.rows bytes ms' = bs
      ∧ (format pool flags).counted.place pos ms' = (format pool flags).counted.place pos ms := by
  obtain ⟨cs, rfl, hrest⟩ := Spells.peel_count h.1 hs
  obtain ⟨ms', hms, hsize, rfl, hplace⟩ := Format.respellAll
    (fun m hm pos => place_spells hpool flags hm pos)
    (fun m hm pos bs hs => respell hpool hm hs) h.2 hrest
  refine ⟨ms', ⟨?_, hms⟩, ?_, ?_⟩
  · rw [hsize]
    exact h.1
  · rw [Word.rows, hsize]
    rfl
  · simp only [Format.counted, hsize]
    exact congrArg _ hplace

end MemberForm

/-- The leaves of a class file after its pool, up to the end of the class. -/
def ClassFile.partLeaves (cf : ClassFile) : List Leaf :=
  (⟨.number, cf.accessFlags⟩ :: ⟨.reference, cf.thisClass⟩ :: ⟨.optional "", cf.superClass⟩
      :: ⟨.number, cf.interfaceCount⟩ :: Role.all .reference cf.interfaces)
    ++ ((⟨.number, cf.fieldCount⟩ :: cf.fields.flatMap Member.leaves)
      ++ ((⟨.number, cf.methodCount⟩ :: cf.methods.flatMap Member.leaves)
        ++ (⟨.number, cf.attributeCount⟩ :: Attribute.leavesOfList cf.attributes)))

namespace PartsForm

variable {pool : Pool}

theorem partLeaves_spell (hpool : pool.Titled) {p : PartsForm} (h : p.Legal pool) (header : Header)
    (pos : Nat) : Spells pool pos (p.place header pool pos).partLeaves p.bytes := by
  have hparts := place_spells hpool h header pos
  simp only [List.append_assoc, List.cons_append, List.nil_append] at hparts
  simp only [ClassFile.partLeaves, List.cons_append]
  exact hparts

theorem respell (hpool : pool.Titled) {p : PartsForm} (h : p.Legal pool) (header : Header)
    {pos : Nat} {bs : List UInt8} (hs : Spells pool pos (p.place header pool pos).partLeaves bs) :
    ∃ p' : PartsForm, p'.Legal pool ∧ p'.bytes = bs
      ∧ p'.place header pool pos = p.place header pool pos := by
  have hfront : Spells pool pos (⟨.number, (p.place header pool pos).accessFlags⟩
      :: ⟨.reference, (p.place header pool pos).thisClass⟩
      :: ⟨.optional "", (p.place header pool pos).superClass⟩
      :: ⟨.number, (p.place header pool pos).interfaceCount⟩
      :: Role.all .reference (p.place header pool pos).interfaces) (Word.bytes 2 p.accessFlags
        ++ (Word.bytes 2 p.thisClass ++ (Word.bytes 2 p.superClass
          ++ Word.rows (Word.bytes 2) p.interfaces))) :=
    .label h.accessFlags (.reference h.thisClass (.optional h.superClass
      (Pool.references_spell h.interfaces (pos + 6))))
  have hlegible := Legible.all (by simp : Role.reference ≠ .bulk) (p.place header pool pos).interfaces
  obtain ⟨cs, rfl, hrest⟩ := Spells.peel hs hfront
    (.cons (by simp) (.cons (by simp) (.cons (by simp) (.cons (by simp) hlegible))))
  have hpos : pos + (Word.bytes 2 p.accessFlags ++ (Word.bytes 2 p.thisClass
      ++ (Word.bytes 2 p.superClass ++ Word.rows (Word.bytes 2) p.interfaces))).length =
        pos + 6 + (Word.rows (Word.bytes 2) p.interfaces).length := by
    simp only [List.length_append, Word.length_bytes]
    omega
  rw [hpos] at hrest
  obtain ⟨fs, ds, rfl, hlen, hfields, hrest⟩ :=
    hrest.split (MemberForm.list_spells hpool .ofField h.fields _)
  obtain ⟨ms, es, rfl, hlen', hmethods, hattributes⟩ :=
    hrest.split (MemberForm.list_spells hpool .ofMethod h.methods _)
  obtain ⟨fields, hf, rfl, hplace⟩ := MemberForm.list_respell hpool h.fields hfields
  obtain ⟨methods, hm, rfl, hplace'⟩ := MemberForm.list_respell hpool h.methods hmethods
  obtain ⟨attributes, ha, rfl, hplace''⟩ :=
    AttributeForm.lists_respell hpool h.attributes hattributes
  refine ⟨{ p with fields, methods, attributes },
    ⟨h.accessFlags, h.thisClass, h.superClass, h.interfaces, hf, hm, ha⟩, ?_, ?_⟩
  · simp only [bytes, List.append_assoc]
  · simp only [place, hlen, hlen', hplace, hplace', hplace'']

end PartsForm

end ClassAtlas
