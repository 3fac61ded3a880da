import Mathlib.Data.List.Induction
import ClassAtlas.Proofs.Sizes
import ClassAtlas.Proofs.Transcript

/-! # Program counters

The instructions of a method body divide its code: the first one starts at 0, each other one where the
one before it ends, and the last one ends with the code. None of them is empty, so that no two share
a program counter, and the index of a method body finds each instruction at the one program counter
where it starts.

* `Op.parts_width`: every value of an instruction has a width.
* `Bytecode.extents_tile`: the extents of the instructions tile the code.
* `pcIndex?_eq_none`, `getElem?_of_pcIndex?`: what an index of instructions holds.
* `Frame.Divided`, `Code.Indexed`: the division of the code, and the lookup by program counter.
* `ClassFile.instructions_partition`: every method body of a decoded file is divided and indexed.
-/

namespace ClassAtlas
set_option autoImplicit false

/-! ## The values of an instruction -/

namespace Op

section

variable (pool : Pool) (pc pos : Nat)

theorem operands_width {os : List Operand} (h : ∀ o ∈ os, 0 < o.kind.width) :
    ∀ d ∈ (Operand.format pool pc).placeAll pos os, 0 < d.width := by
  intro d hd
  obtain ⟨o, ho, p, rfl⟩ := Format.mem_placeAll hd
  exact h o ho

theorem branches_width (vs : List Int) :
    ∀ d ∈ (Operand.formatOf pool pc .branch4).placeAll pos vs, 0 < d.width := by
  intro d hd
  obtain ⟨v, -, p, rfl⟩ := Format.mem_placeAll hd
  exact Nat.succ_pos 3

theorem pairs_width (es : List (Int × Int)) :
    ∀ d ∈ ((pairFormat pool pc).placeAll pos es).flatMap fun p => [p.1, p.2], 0 < d.width := by
  intro d hd
  obtain ⟨pair, hpair, hd⟩ := List.mem_flatMap.1 hd
  obtain ⟨e, -, p, rfl⟩ := Format.mem_placeAll hpair
  simp only [List.mem_cons, List.not_mem_nil, or_false] at hd
  rcases hd with rfl | rfl
  · exact Nat.succ_pos 3
  · exact Nat.succ_pos 3

theorem padding_width (padding : List UInt8) : ∀ d ∈ paddingAt pos padding, 0 < d.width := by
  intro d hd
  unfold paddingAt at hd
  split at hd
  · obtain rfl := List.mem_singleton.1 hd
    assumption
  · cases hd

end

variable {pool : Pool} {pc : Nat} (base : Nat)

/-- Padding of no bytes is no value, and nothing else that an instruction holds can be empty. -/
theorem parts_width {op : Op} (h : op.Legal pool pc) :
    ∀ d ∈ (op.place pool base pc).parts, 0 < d.width := by
  have hcode : ∀ pos code, 0 < (opcodeAt pos code).width := fun _ _ => Nat.one_pos
  have hhead := hcode (base + pc) op.code
  have hword : 0 < 4 := Nat.succ_pos 3
  cases op with
  | fixed code os =>
    obtain ⟨-, -, -, -, hrow, -⟩ := h
    have hds := operands_width pool pc (base + pc + 1)
      (width_of_row hrow Disassembly.operands_width)
    show ∀ d ∈ opcodeAt _ _ :: List.filter _ _ ++ List.filter _ _ ++ [], 0 < d.width
    simp only [List.append_nil, List.forall_mem_append, List.forall_mem_cons]
    exact ⟨⟨hhead, fun d hd => hds d (List.mem_filter.1 hd).1⟩,
      fun d hd => hds d (List.mem_filter.1 hd).1⟩
  | wide code os =>
    obtain ⟨-, hrow, -⟩ := h
    have hds := operands_width pool pc (base + pc + 1 + 1)
      (width_of_row hrow Disassembly.wideRow_width)
    show ∀ d ∈ (opcodeAt _ _ :: opcodeAt _ _ :: _) ++ [] ++ [], 0 < d.width
    simp only [List.append_nil, List.forall_mem_cons]
    exact ⟨hhead, hcode _ _, hds⟩
  | range padding default low high vs =>
    have hpad := padding_width (base + pc + 1) padding
    have hvs := branches_width pool pc (base + pc + 1 + padding.length + 12) vs
    show ∀ d ∈ [opcodeAt _ _] ++ paddingAt _ padding ++ (_ :: _ :: _ :: _), 0 < d.width
    rw [List.append_assoc, List.singleton_append]
    simp only [List.forall_mem_append, List.forall_mem_cons]
    exact ⟨hhead, hpad, hword, hword, hword, hvs⟩
  | pairs padding default es =>
    have hpad := padding_width (base + pc + 1) padding
    have hes := pairs_width pool pc (base + pc + 1 + padding.length + 8) es
    show ∀ d ∈ [opcodeAt _ _] ++ paddingAt _ padding ++ (_ :: _ :: _), 0 < d.width
    rw [List.append_assoc, List.singleton_append]
    simp only [List.forall_mem_append, List.forall_mem_cons]
    exact ⟨hhead, hpad, hword, hword, hes⟩

theorem data_tiles (hpc : pc < 256 ^ 4) {op : Op} (h : op.Legal pool pc) :
    Tiles (base + pc) (op.place pool base pc).data (base + pc + op.bytes.length) := by
  rw [← Instruction.map_datum_leaves]
  exact (place_spells hpc base h).tiles

theorem data_ascending (hpc : pc < 256 ^ 4) {op : Op} (h : op.Legal pool pc) :
    (op.place pool base pc).data.Pairwise fun a b => a.offset < b.offset := by
  refine (data_tiles base hpc h).ascending ?_
  intro d hd
  exact parts_width base h d (List.mem_mergeSort.1 hd)

end Op

/-! ## Instructions in a row -/

/-- The place of an instruction in the code, as one value. -/
def Instruction.extent (i : Instruction) : Datum :=
  { offset := i.pc, width := i.size }

/-- The instructions follow each other from the start of the code to `stop`, and none is empty. -/
structure Instruction.Follow (is : List Instruction) (stop : Nat) : Prop where
  extents : Tiles 0 (is.map Instruction.extent) stop
  size_pos : ∀ i ∈ is, 0 < i.size

namespace Instruction.Follow

variable {is : List Instruction} {stop : Nat}

theorem eq_nil_iff (h : Follow is stop) : is = [] ↔ stop = 0 := by
  constructor
  · rintro rfl
    exact h.extents.symm
  · rintro rfl
    cases is with
    | nil => rfl
    | cons i is =>
      have hsize := h.size_pos i (.head _)
      have hle : i.pc + i.size ≤ 0 := h.extents.stop_le i.extent (.head _)
      omega

theorem first (h : Follow is stop) (hne : is ≠ []) : is.head?.map (·.pc) = some 0 := by
  have hhead := h.extents.head_offset (mt List.map_eq_nil_iff.1 hne)
  rw [List.head?_map, Option.map_map] at hhead
  exact hhead

theorem last (h : Follow is stop) (hne : is ≠ []) :
    is.getLast?.map (fun i => i.pc + i.size) = some stop := by
  have hlast := h.extents.last_stop (mt List.map_eq_nil_iff.1 hne)
  rw [List.getLast?_map, Option.map_map] at hlast
  exact hlast

theorem next (h : Follow is stop) (n : Nat) (hn : n + 1 < is.length) :
    is[n + 1].pc = is[n].pc + is[n].size := by
  have hnext := h.extents.next_offset n (by rwa [List.length_map])
  rw [List.getElem_map, List.getElem_map] at hnext
  exact hnext

theorem stop_le (h : Follow is stop) {i : Instruction} (hi : i ∈ is) : i.pc + i.size ≤ stop :=
  h.extents.stop_le i.extent (List.mem_map_of_mem hi)

/-- A byte of the code belongs to one instruction only, so the instruction that starts there is the
one that it belongs to. -/
theorem eq_of_le_of_lt (h : Follow is stop) {i j : Instruction} (hi : i ∈ is) (hj : j ∈ is)
    (hle : i.pc ≤ j.pc) (hlt : j.pc < i.pc + i.size) : i = j := by
  have hapart : is.Pairwise fun i j => i.pc + i.size ≤ j.pc := List.pairwise_map.1 h.extents.apart
  have hsize := h.size_pos j hj
  obtain ⟨m, hm, rfl⟩ := List.getElem_of_mem hi
  obtain ⟨n, hn, rfl⟩ := List.getElem_of_mem hj
  rw [List.pairwise_iff_getElem] at hapart
  rcases Nat.lt_trichotomy m n with hmn | rfl | hmn
  · have hstop := hapart m n hm hn hmn
    omega
  · rfl
  · have hstop := hapart n m hn hm hmn
    omega

end Instruction.Follow

theorem Bytecode.extents_tile (pool : Pool) (base pc : Nat) (ops : List Op) :
    Tiles pc ((placeFrom pool base pc ops).map Instruction.extent) (pc + (bytes ops).length) := by
  induction ops generalizing pc with
  | nil => rfl
  | cons op ops ih =>
    have hrest := ih (pc + op.bytes.length)
    rw [placeFrom, List.map_cons, length_bytes_cons, ← Nat.add_assoc]
    exact ⟨rfl, hrest⟩

theorem Bytecode.placeFrom_follow {pool : Pool} {ops : List Op} (h : LegalFrom pool 0 ops)
    (base : Nat) : Instruction.Follow (placeFrom pool base 0 ops) (bytes ops).length where
  extents := by simpa only [Nat.zero_add] using extents_tile pool base 0 ops
  size_pos i hi := by
    obtain ⟨op, pc, -, rfl⟩ := mem_placeFrom h hi
    exact Nat.succ_pos _

/-! ## The index -/

section

variable {is : List Instruction} {pc : Int}

theorem pcIndex?_concat (is : List Instruction) (i : Instruction) (pc : Int) :
    pcIndex? (is ++ [i]) pc = if (i.pc : Int) = pc then some is.length else pcIndex? is pc := by
  simp [pcIndex?, List.zipIdx_append]

theorem pcIndex?_eq_none : pcIndex? is pc = none ↔ ∀ i ∈ is, (i.pc : Int) ≠ pc := by
  induction is using List.reverseRecOn with
  | nil => simp [pcIndex?]
  | append_singleton is i ih =>
    rw [pcIndex?_concat, List.forall_mem_append, List.forall_mem_singleton, ← ih]
    by_cases h : (i.pc : Int) = pc
    · simp [h]
    · simp [h]

theorem getElem?_of_pcIndex? {n : Nat} (h : pcIndex? is pc = some n) :
    ∃ i, is[n]? = some i ∧ (i.pc : Int) = pc := by
  induction is using List.reverseRecOn with
  | nil => cases h
  | append_singleton is i ih =>
    rw [pcIndex?_concat] at h
    split at h
    case isTrue hpc =>
      cases h
      exact ⟨i, List.getElem?_concat_length, hpc⟩
    case isFalse =>
      obtain ⟨j, hj, hpc⟩ := ih h
      obtain ⟨hn, -⟩ := List.getElem?_eq_some_iff.1 hj
      exact ⟨j, by rw [List.getElem?_append_left hn, hj], hpc⟩

end

/-- The lookup by program counter: it finds the one instruction that starts there, and nothing
elsewhere. -/
structure Code.Indexed (c : Code) : Prop where
  found : ∀ (pc : Int) (i : Instruction),
    c.instructionAt? pc = some i ↔ i ∈ c.frame.instructions ∧ (i.pc : Int) = pc
  missing : ∀ pc : Int,
    c.instructionAt? pc = none ↔ ∀ i ∈ c.frame.instructions, (i.pc : Int) ≠ pc
  before : ∀ pc : Int, pc < 0 → c.instructionAt? pc = none
  past : ∀ pc : Int, c.frame.codeLength.num ≤ pc → c.instructionAt? pc = none
  inside : ∀ i ∈ c.frame.instructions, ∀ pc : Int,
    (i.pc : Int) < pc → pc < ((i.pc + i.size : Nat) : Int) → c.instructionAt? pc = none

namespace Code

variable {c : Code} {stop : Nat}

theorem instructionAt?_eq_some (h : Instruction.Follow c.frame.instructions stop) {pc : Int}
    {i : Instruction} :
    c.instructionAt? pc = some i ↔ i ∈ c.frame.instructions ∧ (i.pc : Int) = pc := by
  constructor
  · intro hfound
    obtain ⟨n, hn, hi⟩ := Option.bind_eq_some_iff.1 hfound
    obtain ⟨j, hj, hpc⟩ := getElem?_of_pcIndex? hn
    obtain rfl : i = j := Option.some.inj (hi.symm.trans hj)
    exact ⟨List.mem_of_getElem? hi, hpc⟩
  · rintro ⟨hi, hpc⟩
    cases hn : pcIndex? c.frame.instructions pc with
    | none => exact absurd hpc (pcIndex?_eq_none.1 hn i hi)
    | some n =>
      obtain ⟨j, hj, hpc'⟩ := getElem?_of_pcIndex? hn
      have hsize := h.size_pos j (List.mem_of_getElem? hj)
      obtain rfl : j = i := h.eq_of_le_of_lt (List.mem_of_getElem? hj) hi (by omega) (by omega)
      exact Option.bind_eq_some_iff.2 ⟨n, hn, hj⟩

theorem instructionAt?_eq_none (h : Instruction.Follow c.frame.instructions stop) {pc : Int} :
    c.instructionAt? pc = none ↔ ∀ i ∈ c.frame.instructions, (i.pc : Int) ≠ pc := by
  rw [Option.eq_none_iff_forall_ne_some]
  constructor
  · intro hnone i hi hpc
    exact hnone i ((instructionAt?_eq_some h).2 ⟨hi, hpc⟩)
  · intro hall i hfound
    obtain ⟨hi, hpc⟩ := (instructionAt?_eq_some h).1 hfound
    exact hall i hi hpc

theorem indexed_of_follow (h : Instruction.Follow c.frame.instructions stop)
    (hlength : c.frame.codeLength.num = stop) : c.Indexed where
  found _ _ := instructionAt?_eq_some h
  missing _ := instructionAt?_eq_none h
  before pc hpc := by
    refine (instructionAt?_eq_none h).2 fun i _ => ?_
    omega
  past pc hpc := by
    refine (instructionAt?_eq_none h).2 fun i hi => ?_
    have hle := h.stop_le hi
    have hsize := h.size_pos i hi
    omega
  inside i hi pc hlt hstop := by
    refine (instructionAt?_eq_none h).2 fun j hj hpc => ?_
    obtain rfl : i = j := h.eq_of_le_of_lt hi hj (by omega) (by omega)
    omega

end Code

/-! ## Method bodies -/

/-- The instructions divide the code, which starts after its length, and the values of each of them
divide its part of it. -/
structure Frame.Divided (f : Frame) : Prop where
  empty_iff : f.instructions = [] ↔ f.codeLength.num = 0
  first : f.instructions ≠ [] → f.instructions.head?.map (·.pc) = some 0
  next : ∀ (n : Nat) (hn : n + 1 < f.instructions.length),
    f.instructions[n + 1].pc = f.instructions[n].pc + f.instructions[n].size
  last : f.instructions ≠ [] →
    f.instructions.getLast?.map (fun i => ((i.pc + i.size : Nat) : Int)) = some f.codeLength.num
  size_pos : ∀ i ∈ f.instructions, 0 < i.size
  ascending : ∀ i ∈ f.instructions, i.data.Pairwise fun a b => a.offset < b.offset
  tiles : ∀ i ∈ f.instructions,
    Tiles (f.codeLength.stop + i.pc) i.data (f.codeLength.stop + i.pc + i.size)

theorem FrameForm.place_divided {pool : Pool} {f : FrameForm} (h : f.Legal pool) (pos count : Nat) :
    (f.place pool pos count).Divided := by
  have hfollow := Bytecode.placeFrom_follow h.code (pos + 8)
  have hlength := num_codeLength h pos count
  have hpc : ∀ i ∈ Bytecode.placeFrom pool (pos + 8) 0 f.code, i.pc < 256 ^ 4 := by
    intro i hi
    have hle := hfollow.stop_le hi
    have hlt := h.codeLength
    omega
  refine ⟨?_, hfollow.first, hfollow.next, fun hne => ?_, hfollow.size_pos, fun i hi => ?_,
    fun i hi => ?_⟩
  · rw [hlength, Int.natCast_eq_zero]
    exact hfollow.eq_nil_iff
  · have hlast := congrArg (Option.map Int.ofNat) (hfollow.last hne)
    rw [Option.map_map] at hlast
    rw [hlength]
    exact hlast
  · have hi' := hpc i hi
    obtain ⟨op, pc, hop, rfl⟩ := Bytecode.mem_placeFrom h.code hi
    exact Op.data_ascending (pos + 8) hi' hop
  · have hi' := hpc i hi
    obtain ⟨op, pc, hop, rfl⟩ := Bytecode.mem_placeFrom h.code hi
    exact Op.data_tiles (pos + 8) hi' hop

/-- **The instructions of a method body.** In a decoded file the instructions of every method body, at
any depth, divide its code, and the lookup by program counter finds each of them where it starts and
nothing elsewhere. -/
theorem ClassFile.instructions_partition {bytes : List UInt8} {cf : ClassFile} (h : decode bytes = .ok cf)
    {count : Datum} {as : List Attribute} (has : cf.Lists count as) {name length : Datum}
    {frame : Frame} {bs : List Attribute} (ha : .code name length frame bs ∈ as) :
    frame.Divided ∧ Code.Indexed ⟨frame, bs⟩ := by
  obtain ⟨c, pool, trailing, hlegal, rfl, rfl⟩ := decode_eq_ok.1 h
  obtain ⟨pos, forms, hforms, hplace⟩ := has.written hlegal
  obtain ⟨-, rfl⟩ := Prod.mk.inj hplace
  obtain ⟨form, hmem, p, hform⟩ := AttributeForm.mem_placeList ha
  have hone := AttributeForm.legalList_iff.1 hforms.2 form hmem
  cases form with
  | simple name body =>
    rw [AttributeForm.place] at hform
    cases hform
  | code name f attributes =>
    rw [AttributeForm.Legal] at hone
    obtain ⟨-, -, -, hframe, -, -⟩ := hone
    rw [AttributeForm.place] at hform
    cases hform
    exact ⟨FrameForm.place_divided hframe _ _,
      Code.indexed_of_follow (Bytecode.placeFrom_follow hframe.code _)
        (FrameForm.num_codeLength hframe _ _)⟩

theorem ClassFile.instructions_partition_switching :
    let bytes := ClassForm.switching.bytes ++ [1, 2]
    let cf := ClassForm.switching.tree ClassForm.nestedPool [1, 2]
    decode bytes = .ok cf
      ∧ ∃ m ∈ cf.methods, ∃ name length frame bs, .code name length frame bs ∈ m.attributes
        ∧ frame.instructions.map (·.pc) = [0, 24, 44] ∧ frame.Divided ∧ Code.Indexed ⟨frame, bs⟩ := by
  intro bytes cf
  have h : decode bytes = .ok cf := decode_eq_ok.2 ⟨_, _, _, ClassForm.switching_legal, rfl, rfl⟩
  refine ⟨h, _, .head _, _, _, _, _, .head _, rfl, ?_⟩
  exact instructions_partition h (.ofMethod (.head _)) (.head _)

end ClassAtlas
