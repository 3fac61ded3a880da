import ClassAtlas.Proofs.Delimiting
import ClassAtlas.Proofs.Faults

/-! # Decoding is safe

Every byte string is decoded or has a fault that tells what is wrong and where. The steps that read
instructions, attributes and members are safe, to any depth of method bodies, and so is decoding. What
decoding relies on where it indexes, slices and counts holds for all files.

* `InBounds`: the bounds that decoding relies on.
* `ClassFile.decode_safe`: every byte string is decoded or has a fault of its own, within bounds.
-/

namespace ClassAtlas
set_option autoImplicit false

variable {N : Nat} {pool : Pool}

/-! ## Instructions -/

namespace Disassembly

theorem nameOperand_fails (pc : Nat) {d : Datum} (hd : d.offset ≤ N) :
    Fails (Fault.Placed Fault.ofReading N) (nameOperand pool pc d) := by
  unfold nameOperand
  split
  case h_3 | h_4 =>
    exact ((Pool.lookup_fails hd).mono fun _ hf => hf.mono Fault.ofNaming_subset).bind fun _ _ =>
      .ok _
  case h_7 =>
    split
    · exact .ok _
    · exact .error (Fault.placed_at .invalidData (by decide) hd rfl rfl)
  all_goals exact .ok _

theorem word_safe {kind : OperandKind} (h : 0 < kind.width) :
    Tame N (word kind) fun d => d.offset ≤ N := by
  have hwidth := OperandKind.width_cases h
  unfold word
  split
  · exact Datum.signed_safe hwidth kind
  · exact Datum.unsigned_safe (by omega) kind

theorem nameOperand_offset {pc : Nat} {d d' : Datum} (h : nameOperand pool pc d = .ok d') :
    d'.offset = d.offset := by
  unfold nameOperand at h
  split at h
  case h_3 | h_4 =>
    cases hc : pool.lookup d.num d.offset with
    | error f =>
      rw [hc] at h
      cases h
    | ok c =>
      rw [hc] at h
      cases h
      rfl
  case h_7 =>
    split at h
    · cases h
      rfl
    · cases h
  all_goals
    cases h
    rfl

/-- An operand of a kind that has a width. -/
theorem operand_safe (pc : Nat) {kind : OperandKind} (h : 0 < kind.width) :
    Tame N (operand pool pc kind) fun d => d.offset ≤ N :=
  (word_safe h).bind fun _ hd => .settled (nameOperand_fails pc hd) fun _ hd' =>
    Nat.le_trans (Nat.le_of_eq (nameOperand_offset hd')) hd

theorem operands_safe (pc : Nat) {kinds : List OperandKind} (h : ∀ kind ∈ kinds, 0 < kind.width) :
    Tame N (operands pool pc kinds) fun _ => True := by
  induction kinds with
  | nil => exact .pure trivial
  | cons kind kinds ih =>
    have hkinds := List.forall_mem_cons.1 h
    exact (operand_safe pc hkinds.1).bind fun _ _ => (ih hkinds.2).bind fun _ _ => .pure trivial

theorem fixedTail_safe (pc : Nat) (code : UInt8) :
    Tame N (fixedTail pool pc code) fun _ => True :=
  (operands_safe pc operands_width).bind fun _ _ => .pure trivial

theorem wideTail_safe (pc : Nat) : Tame N (wideTail pool pc) fun _ => True := by
  refine (Datum.unsigned_safe (by decide) _).bind fun d hd => ?_
  by_cases hwide : Opcode.isWidenable d.raw.toUInt8 = true
  · rw [if_pos hwide]
    exact (operands_safe pc wideRow_width).bind fun _ _ => .pure trivial
  · rw [if_neg hwide]
    exact .throw (Fault.placed_at .unknownOpcode (by decide) hd rfl rfl)

theorem ensureTable_safe (count : Int) (size : Nat) :
    Tame N (ensureTable count size) fun _ => True := by
  intro w hw
  refine ⟨fun f hf => ?_, fun u v hv => ?_⟩
  · have hshort : (w.endOfInput (count * size)).Placed Fault.ofReading N :=
      Window.endOfInput_placed hw (count * size)
    simp only [ensureTable] at hf
    split at hf
    · cases hf
    · cases hf
      exact ⟨hshort.kind_mem, hshort.unplaced, hshort.bounds⟩
  · obtain ⟨-, rfl⟩ := ensureTable_eq_ok.1 hv
    exact ⟨hw, trivial⟩

theorem switchHead_safe (base pc : Nat) : Tame N (switchHead pool base pc) fun _ => True :=
  (Datum.align_safe base).bind fun _ _ => (operand_safe pc (by decide)).bind fun _ _ =>
    .pure trivial

theorem rangeTargets_safe (pc : Nat) (low : Datum) {high : Datum} (hhigh : high.offset ≤ N) :
    Tame N (rangeTargets ensureTable pool pc low high) fun _ => True := by
  unfold rangeTargets
  split
  · exact .throw (Fault.placed_at .invalidData (by decide) hhigh rfl rfl)
  · exact (ensureTable_safe _ 4).bind fun _ _ => .repeated (fun _ => operand_safe pc (by decide)) _

theorem switchPair_safe (pc : Nat) : Tame N (switchPair pool pc) fun _ => True :=
  (operand_safe pc (by decide)).bind fun _ _ => (operand_safe pc (by decide)).bind fun _ _ =>
    .pure trivial

theorem switchPairs_safe (pc : Nat) {count : Datum} (hcount : count.offset ≤ N) :
    Tame N (switchPairs ensureTable pool pc count) fun _ => True := by
  unfold switchPairs
  split
  · exact .throw (Fault.placed_at .invalidData (by decide) hcount rfl rfl)
  · exact (ensureTable_safe _ 8).bind fun _ _ => .repeated (fun _ => switchPair_safe pc) _

theorem tail_safe (base pc : Nat) (code : UInt8) :
    Tame N (tail ensureTable pool base pc code) fun _ => True := by
  unfold tail
  split
  · exact (switchHead_safe base pc).bind fun _ _ => (operand_safe pc (by decide)).bind fun low _ =>
      (operand_safe pc (by decide)).bind fun _ hhigh => (rangeTargets_safe pc low hhigh).bind
        fun _ _ => .pure trivial
  · split
    · exact (switchHead_safe base pc).bind fun _ _ => (operand_safe pc (by decide)).bind
        fun _ hcount => (switchPairs_safe pc hcount).bind fun _ _ => .pure trivial
    · split
      · exact wideTail_safe pc
      · exact fixedTail_safe pc code

theorem instruction_safe (base : Nat) : Tame N (instruction ensureTable pool base) fun _ => True := by
  refine (Datum.unsigned_safe (by decide) _).bind fun d hd => ?_
  dsimp only
  cases Opcode.mnemonic? d.raw.toUInt8 with
  | none => exact .throw (Fault.placed_at .unknownOpcode (by decide) hd rfl rfl)
  | some mnemonic => exact (tail_safe base _ _).bind fun _ _ => .bind .get fun _ _ => .pure trivial

theorem sweep_safe (base limit : Nat) : Tame N (sweep ensureTable pool base limit) fun _ => True := by
  induction limit with
  | zero => exact .pure trivial
  | succ limit ih =>
    refine Safe.get.bind fun w _ => ?_
    split
    · exact .pure trivial
    · exact ((instruction_safe base).within _).placed.bind fun _ _ => ih.bind fun _ _ => .pure trivial

theorem disassemble_safe (pool : Pool) : Tame N (disassemble pool) fun _ => True :=
  Safe.get.bind fun w _ => sweep_safe w.pos w.remaining

end Disassembly

/-! ## Attributes -/

namespace Body

theorem readReference_safe (make : Datum → Body) :
    Tame N (readReference pool make) fun _ => True :=
  pool.readReference_safe.bind fun _ _ => .pure trivial

theorem readRows_safe {α : Type} {row : Reading α} {P : α → Prop} (h : Tame N row P)
    (make : Datum → List α → Body) : Tame N (readRows row make) fun _ => True :=
  Datum.u2_safe.bind fun _ _ => (Safe.repeated (fun _ => h) _).bind fun _ _ => .pure trivial

theorem nestedClass_safe : Tame N (nestedClass pool) fun _ => True :=
  pool.readReference_safe.bind fun _ _ => (pool.readOptional_safe "").bind fun _ _ =>
    (pool.readOptional_safe "").bind fun _ _ => Datum.u2_safe.bind fun _ _ => .pure trivial

theorem bootstrapMethod_safe : Tame N (bootstrapMethod pool) fun _ => True :=
  pool.readReference_safe.bind fun _ _ => Datum.u2_safe.bind fun _ _ =>
    (Safe.repeated (fun _ => pool.readReference_safe) _).bind fun _ _ => .pure trivial

theorem lineEntry_safe : Tame N lineEntry fun _ => True :=
  Datum.u2_safe.bind fun _ _ => Datum.u2_safe.bind fun _ _ => .pure trivial

theorem localVariable_safe : Tame N (localVariable pool) fun _ => True :=
  Datum.u2_safe.bind fun _ _ => Datum.u2_safe.bind fun _ _ => Datum.u2_safe.bind fun _ hname =>
    Datum.u2_safe.bind fun _ hdescriptor => Datum.u2_safe.bind fun _ _ =>
      (Pool.referText_fails hname).tame.bind fun _ _ =>
        (Pool.referText_fails hdescriptor).tame.bind fun _ _ => .pure trivial

theorem reader?_safe {name : String} {reader : Reading Body} (h : reader? pool name = some reader) :
    Tame N reader fun _ => True := by
  unfold reader? at h
  split at h
  case h_1 | h_2 | h_3 | h_4 =>
    cases h
    exact readReference_safe _
  case h_5 | h_6 | h_7 =>
    cases h
    exact readRows_safe pool.readReference_safe _
  case h_8 =>
    cases h
    exact readRows_safe nestedClass_safe _
  case h_9 =>
    cases h
    exact readRows_safe bootstrapMethod_safe _
  case h_10 =>
    cases h
    exact readRows_safe lineEntry_safe _
  case h_11 =>
    cases h
    exact readRows_safe localVariable_safe _
  case h_12 | h_13 =>
    cases h
    exact .pure trivial
  case h_14 => cases h

end Body

theorem Handler.read_safe (row : Nat) : Tame N (read pool row) fun _ => True :=
  Datum.u2_safe.bind fun _ _ => Datum.u2_safe.bind fun _ _ => Datum.u2_safe.bind fun _ _ =>
    Datum.u2_safe.bind fun _ hd =>
      ((Pool.referOptional_fails hd).tame.within _).placed.bind fun _ _ => .pure trivial

theorem counted_safe {α : Type} {element : Reading α} (h : Tame N element fun _ => True)
    (label : String) (segment : Nat → String) :
    Tracked N (counted label segment element) fun _ => True :=
  (Datum.u2_safe.within _).bind fun _ _ =>
    (Safe.repeated (fun _ => h.within _) _).bind fun _ _ => .pure trivial

section

variable {attributes : Reading (Datum × List Attribute)}

namespace Code

theorem readHead_safe : Tame N readHead fun h => h.window.stop ≤ N :=
  Datum.u2_safe.bind fun _ _ => Datum.u2_safe.bind fun _ _ => Datum.u4_safe.bind fun _ _ =>
    (Window.child_safe _).bind fun _ hchild => .pure hchild

theorem readHandlers_safe : Tame N (readHandlers pool) fun _ => True :=
  Datum.u2_safe.bind fun _ _ =>
    (Safe.repeated (fun row => Handler.read_safe row) _).bind fun _ _ => .pure trivial

theorem read_safe (h : Tame N attributes fun _ => True) :
    Tame N (read pool attributes) fun _ => True :=
  readHead_safe.bind fun _ hchild =>
    (Safe.onChild hchild (Disassembly.disassemble_safe pool) _).bind fun _ _ =>
      readHandlers_safe.bind fun _ _ => h.bind fun _ _ => .pure trivial

end Code

namespace Attribute

theorem whole_safe {α : Type} {step : Reading α} {P : α → Prop} (h : Tame N step P) :
    Tame N (whole step) P := by
  refine h.bind fun a ha => Safe.get.bind fun w hw => ?_
  split
  · exact .pure ha
  · have hpos : w.pos ≤ N := by
      unfold Window.stop at hw
      omega
    exact .throw (Fault.placed_at .invalidData (by decide) hpos rfl rfl)

theorem readBody_safe (h : Tame N attributes fun _ => True) (name length : Datum) :
    Tame N (readBody pool attributes name length) fun _ => True := by
  unfold readBody
  split
  · exact ((whole_safe ((Code.read_safe h).bind fun _ _ => .pure trivial)).within _).placed
  · split
    · rename_i reader hreader
      exact ((whole_safe ((Body.reader?_safe hreader).bind fun _ _ => .pure trivial)).within _).placed
    · exact Safe.get.bind fun _ _ => (Datum.skip_safe _).bind fun _ _ => .pure trivial

theorem readHead_safe : Tame N (readHead pool) fun h => h.window.stop ≤ N :=
  Datum.u2_safe.bind fun _ hd => (Pool.referText_fails hd).tame.bind fun _ _ =>
    Datum.u4_safe.bind fun _ _ => (Window.child_safe _).bind fun _ hchild => .pure hchild

theorem read_safe (h : Tame N attributes fun _ => True) :
    Tame N (read pool attributes) fun _ => True :=
  readHead_safe.bind fun _ hchild =>
    (Safe.onChild hchild (readBody_safe h _ _) _).bind fun _ _ => .pure trivial

theorem readNested_safe (depth : Nat) : Tracked N (readNested pool depth) fun _ => True := by
  induction depth with
  | zero =>
    refine Safe.within (fun w hw => ?_) _
    exact ⟨.error (Window.endOfInput_placed hw 2), fun _ _ h => nomatch h⟩
  | succ depth ih => exact counted_safe (read_safe ih.placed) _ _

theorem readList_safe (pool : Pool) : Tracked N (readList pool) fun _ => True :=
  Safe.get.bind fun w _ => readNested_safe w.remaining

end Attribute

end

/-! ## Class files -/

namespace Member

theorem readHead_safe : Tame N (readHead pool) fun _ => True :=
  Datum.u2_safe.bind fun _ _ => Datum.u2_safe.bind fun _ hname =>
    Datum.u2_safe.bind fun _ hdescriptor =>
      ((Pool.referText_fails hname).tame.within _).placed.bind fun _ _ =>
        ((Pool.referText_fails hdescriptor).tame.within _).placed.bind fun _ _ =>
          ((Descriptor.declaration_fails _ _).tame.within _).placed.bind fun _ _ => .pure trivial

theorem read_safe (flags : FlagTable) : Tame N (read pool flags) fun _ => True :=
  readHead_safe.bind fun _ _ =>
    ((Attribute.readList_safe pool).placed.within _).placed.bind fun _ _ => .pure trivial

theorem readList_safe (part : String) (flags : FlagTable) :
    Tracked N (readList pool part flags) fun _ => True :=
  counted_safe (read_safe flags) _ _

end Member

theorem Header.read_safe : Tracked N read fun h => h.pool.Within N :=
  (Datum.hex_safe.within _).bind fun _ _ => (Datum.u2_safe.within _).bind fun _ _ =>
    (Datum.u2_safe.within _).bind fun _ _ => (Pool.read_safe.placed.within _).bind fun _ hpool =>
      .pure hpool

theorem Header.resolve_fails {h : Header} (hpool : h.pool.Within N) :
    Fails (Fault.Located Fault.ofReading N) h.resolve :=
  (Pool.resolve_fails hpool).mapError fun _ hf => (hf.mono Fault.ofNaming_subset).within _

namespace ClassFile

theorem readParts_safe (h : Header) : Tracked N (readParts h pool) fun _ => True :=
  (Datum.u2_safe.within _).bind fun _ _ => (pool.readReference_safe.within _).bind fun _ _ =>
    ((pool.readOptional_safe _).within _).bind fun _ _ =>
      (counted_safe pool.readReference_safe _ _).bind fun _ _ =>
        (Member.readList_safe _ _).bind fun _ _ => (Member.readList_safe _ _).bind fun _ _ =>
          (Attribute.readList_safe pool).bind fun _ _ => .pure trivial

/-- What follows the class is always read. -/
theorem readTrailing_safe {E : Fault → Prop} : Safe N E readTrailing fun _ => True := by
  intro w hw
  have hall : w.After w.rest ⟨w.phase, w.pos + w.rest.length, []⟩ :=
    ⟨(List.append_nil _).symm, rfl, rfl⟩
  have hread := (readTrailing_fills w _ _).2 ⟨w.rest, trivial, hall, rfl, rfl⟩
  rw [hread]
  refine ⟨.ok _, fun t v hv => ?_⟩
  cases hv
  exact ⟨hw, trivial⟩

theorem read_safe : Tracked N read fun _ => True :=
  Header.read_safe.bind fun h hpool =>
    (Safe.settled (P := fun _ => True) (Header.resolve_fails hpool) fun _ _ => trivial).bind
      fun _ _ => (readParts_safe h).bind fun _ _ => readTrailing_safe.bind fun _ _ => .pure trivial

end ClassFile

/-! ## Bounds -/

namespace Pool

theorem lookup_bounds {i offset : Int} {c : Constant} (h : pool.lookup i offset = .ok c) :
    0 < i ∧ i.toNat < pool.slots.size := by
  obtain ⟨hpos, hslot⟩ := entry?_eq_some.1 (lookup_eq_ok.1 h)
  exact ⟨hpos, (Array.getElem?_eq_some_iff.1 hslot).1⟩

theorem nameEntry_bounds {i offset : Int} {ledger after : Ledger} {s : String}
    (h : pool.nameEntry i offset ledger = .ok (s, after)) :
    i.toNat < pool.slots.size ∧ after.size = ledger.size := by
  fun_induction nameEntry pool i offset ledger generalizing s after with
  | case1 | case3 | case4 | case6 | case7 => cases h
  | case2 i offset ledger c hc =>
    cases h
    exact ⟨(lookup_bounds hc).2, rfl⟩
  | case5 i offset ledger c hc =>
    cases h
    exact ⟨(lookup_bounds hc).2, Ledger.size_put ..⟩
  | case8 i offset ledger c hc hmark d hbasis basis mid hrec name hname ih =>
    cases h
    refine ⟨(lookup_bounds hc).2, ?_⟩
    rw [Ledger.size_put, (ih hrec).2, Ledger.size_put]

theorem length_placeSlots (slots : List (Option ConstantForm)) : ∀ index pos,
    (PoolForm.placeSlots index pos slots).length = slots.length := by
  induction slots with
  | nil => exact fun _ _ => rfl
  | cons slot slots ih =>
    intro index pos
    cases slot with
    | none => exact congrArg (· + 1) (ih (index + 1) pos)
    | some c => exact congrArg (· + 1) (ih (index + 1) (pos + c.bytes.length))

variable {w w' : Window}

theorem read_count (h : read w = .ok (pool, w')) : (pool.slots.size : Int) = pool.count.num := by
  obtain ⟨slots, ⟨hlen, -⟩, -, rfl⟩ := (read_reads _ _ _).1 h
  show ((PoolForm.placeSlots 0 (w.pos + 2) slots).toArray.size : Int) = (Datum.wordAt w.pos _).num
  rw [List.size_toArray, length_placeSlots, Datum.num_wordAt _ hlen]

/-- Every kind of constant that is read has a way to be named. -/
theorem resolve_knows_tags (h : read w = .ok (pool, w')) :
    Fails (fun f => f.kind ≠ .unknownTag) pool.resolve := by
  have hwithin := ((read_safe (N := w.stop) w (Nat.le_refl _)).2 pool w' h).2
  refine (resolve_fails hwithin).mono fun f hf hkind => ?_
  have hmem := hf.kind_mem
  rw [hkind] at hmem
  exact absurd hmem (by decide)

/-- In a pool that can be named, every reference has a slot. -/
theorem references_bounds {pool' : Pool} (h : read w = .ok (pool, w'))
    (hresolve : pool.resolve = .ok pool') {c : Constant} (hc : c ∈ pool.constants) {d : Datum}
    (hd : d ∈ c.references) : 0 < d.num ∧ d.num.toNat < pool.slots.size := by
  have hread := asRead_of_read h
  obtain ⟨name, -, hname⟩ := resolve_ok hread hresolve
  obtain ⟨c', hc'⟩ := hread.entry_of_reference hname hc hd
  have hlookup : pool.lookup d.num d.offset = .ok c' := lookup_eq_ok.2 hc'
  exact lookup_bounds hlookup

end Pool

theorem Payload.tag_of_read {tag : Tag} {w w' : Window} {p : Payload}
    (h : read tag w = .ok (p, w')) : p.tag = tag := by
  obtain ⟨c, ⟨htag, -⟩, -, rfl⟩ := (read_reads tag _ _ _).1 h
  exact (c.tag_payload w.pos).trans htag

namespace Disassembly

/-- A table of fewer than no targets is refused before any of it is read. -/
theorem rangeTargets_refuses (pc : Nat) {low high : Datum} (h : high.num < low.num) (w : Window) :
    ∃ f, rangeTargets ensureTable pool pc low high w = .error f ∧ f.kind = .invalidData := by
  unfold rangeTargets
  rw [if_pos h]
  exact ⟨_, rfl, rfl⟩

theorem switchPairs_refuses (pc : Nat) {count : Datum} (h : count.num < 0) (w : Window) :
    ∃ f, switchPairs ensureTable pool pc count w = .error f ∧ f.kind = .invalidData := by
  unfold switchPairs
  rw [if_pos h]
  exact ⟨_, rfl, rfl⟩

theorem rangeTargets_bounds {pc : Nat} {low high : Datum} {w w' : Window} {ts : List Datum}
    (h : rangeTargets ensureTable pool pc low high w = .ok (ts, w')) :
    (ts.length : Int) = high.num - low.num + 1 ∧ ts.length * 4 ≤ w.remaining := by
  obtain ⟨-, vs, hlen, -, hafter, rfl⟩ := rangeTargets_eq_ok.1 h
  have hbytes := length_flatMap_s4 vs
  have hroom := hafter.remaining
  rw [Format.length_placeAll]
  exact ⟨hlen, by omega⟩

theorem switchPairs_bounds {pc : Nat} {count : Datum} {w w' : Window} {ps : List (Datum × Datum)}
    (h : switchPairs ensureTable pool pc count w = .ok (ps, w')) :
    (ps.length : Int) = count.num ∧ ps.length * 8 ≤ w.remaining := by
  obtain ⟨es, hlen, -, hafter, rfl⟩ := switchPairs_eq_ok.1 h
  have hbytes := length_flatMap_pair es
  have hroom := hafter.remaining
  rw [Format.length_placeAll]
  exact ⟨hlen, by omega⟩

end Disassembly

theorem Opcode.mnemonic?_of_isWidenable {code : UInt8} (h : isWidenable code = true) :
    (mnemonic? code).isSome = true := by
  have hall : ∀ n : Fin 256, isWidenable (UInt8.ofFin n) = true →
      (mnemonic? (UInt8.ofFin n)).isSome = true := by
    decide +kernel
  exact hall code.toFin h

/-- What decoding relies on where it repeats itself, indexes, slices, counts and looks up in a table. -/
structure InBounds : Prop where
  /-- Attributes are read to any depth of method bodies. -/
  nested : ∀ pool, Attribute.readList pool =
    Attribute.readCounted (Attribute.read pool (Attribute.readList pool))
  /-- Instructions are read until no byte is left. -/
  swept : ∀ pool w is w', Disassembly.disassemble pool w = .ok (is, w') → w'.rest = []
  /-- So many bytes are taken as there are, and the window ends where it ended. -/
  taken : ∀ n w bs w', Window.take n w = .ok (bs, w') →
    (bs.length : Int) = n ∧ bs.length ≤ w.remaining ∧ w'.stop = w.stop
  /-- A count is not negative, and small. -/
  counted : ∀ w d w', Datum.u2 w = .ok (d, w') → 0 ≤ d.num ∧ d.num < 65536
  /-- Each known kind of constant has its fields, of which only bytes can be missing. -/
  formed : ∀ tag w, Fails (fun f => f.kind = .endOfInput) (Payload.read tag w)
    ∧ ∀ p w', Payload.read tag w = .ok (p, w') → p.tag = tag
  /-- There is a slot for each index below the count. -/
  slotted : ∀ w pool w', Pool.read w = .ok (pool, w') → (pool.slots.size : Int) = pool.count.num
  /-- No kind of constant is unknown when the pool is named. -/
  composed : ∀ w pool w', Pool.read w = .ok (pool, w') →
    Fails (fun f => f.kind ≠ .unknownTag) pool.resolve
  /-- An index that is looked up has a slot. -/
  found : ∀ (pool : Pool) i offset c, pool.lookup i offset = .ok c →
    0 < i ∧ i.toNat < pool.slots.size
  /-- An index that is named has a slot, and no mark is lost or added. -/
  marked : ∀ (pool : Pool) i offset ledger s after, pool.nameEntry i offset ledger = .ok (s, after) →
    i.toNat < pool.slots.size ∧ after.size = ledger.size
  /-- A reference whose name is copied has a slot. -/
  referred : ∀ w pool w' pool', Pool.read w = .ok (pool, w') → pool.resolve = .ok pool' →
    ∀ c ∈ pool.constants, ∀ d ∈ c.references, 0 < d.num ∧ d.num.toNat < pool.slots.size
  /-- A table of targets is never of negative length, nor longer than the code. -/
  targets : ∀ pool pc low high w,
    (high.num < low.num →
      ∃ f, Disassembly.rangeTargets Disassembly.ensureTable pool pc low high w = .error f
        ∧ f.kind = .invalidData)
    ∧ ∀ ts w', Disassembly.rangeTargets Disassembly.ensureTable pool pc low high w = .ok (ts, w') →
      (ts.length : Int) = high.num - low.num + 1 ∧ ts.length * 4 ≤ w.remaining
  /-- Neither is a table of pairs. -/
  pairs : ∀ pool pc count w,
    (count.num < 0 →
      ∃ f, Disassembly.switchPairs Disassembly.ensureTable pool pc count w = .error f
        ∧ f.kind = .invalidData)
    ∧ ∀ ps w', Disassembly.switchPairs Disassembly.ensureTable pool pc count w = .ok (ps, w') →
      (ps.length : Int) = count.num ∧ ps.length * 8 ≤ w.remaining
  /-- Operands in the table of opcodes have a width. -/
  sized : ∀ code, ∀ kind ∈ Opcode.operands code, 0 < kind.width
  /-- An opcode that may follow `wide` is in the table of opcodes. -/
  widened : ∀ code, Opcode.isWidenable code = true → (Opcode.mnemonic? code).isSome = true

theorem inBounds : InBounds where
  nested := Attribute.readList_eq
  swept pool w is w' h := by
    obtain ⟨_, -, -, hrest, -⟩ := (Disassembly.disassemble_fills pool w is w').1 h
    exact hrest
  taken n w bs w' h := by
    obtain ⟨hn, hafter⟩ := Window.take_eq_ok.1 h
    have hremaining := hafter.remaining
    have hpos := hafter.pos
    refine ⟨hn, by omega, ?_⟩
    unfold Window.stop
    omega
  counted w d w' h := by
    obtain ⟨n, hn, -, rfl⟩ := (Datum.u2_reads w d w').1 h
    have hnum : (Datum.wordAt w.pos n).num = n := Datum.num_wordAt w.pos hn
    have hlt : n < 65536 := hn
    show 0 ≤ (Datum.wordAt w.pos n).num ∧ (Datum.wordAt w.pos n).num < 65536
    omega
  formed tag w := by
    refine ⟨?_, fun p w' h => Payload.tag_of_read h⟩
    have hfails : Fails (Fault.Placed [] w.stop) (Payload.read tag w) :=
      (Payload.read_safe tag w (Nat.le_refl _)).1
    exact hfails.mono fun f hf => List.mem_singleton.1 hf.kind_mem
  slotted _ _ _ h := Pool.read_count h
  composed _ _ _ h := Pool.resolve_knows_tags h
  found _ _ _ _ h := Pool.lookup_bounds h
  marked _ _ _ _ _ _ h := Pool.nameEntry_bounds h
  referred _ _ _ _ h hresolve _ hc _ hd := Pool.references_bounds h hresolve hc hd
  targets _ pc _ _ w :=
    ⟨fun h => Disassembly.rangeTargets_refuses pc h w, fun _ _ h => Disassembly.rangeTargets_bounds h⟩
  pairs _ pc _ w :=
    ⟨fun h => Disassembly.switchPairs_refuses pc h w, fun _ _ h => Disassembly.switchPairs_bounds h⟩
  sized _ := Disassembly.operands_width
  widened _ := Opcode.mnemonic?_of_isWidenable

/-! ## Decoding -/

namespace ClassFile

theorem decode_fails (bytes : List UInt8) :
    Fails (Fault.Located Fault.ofReading bytes.length) (decode bytes) := by
  have hstop : (Window.ofBytes bytes).stop ≤ bytes.length := by
    simp [Window.stop, Window.remaining, Window.ofBytes]
  exact (read_safe _ hstop).1.map _

/-- **Decoding is safe.** Every byte string gives a tree or a fault. The fault has one of six kinds and
tells the part of the file it is in; it has no offset if it is a malformed descriptor, and otherwise
one within the file. Whatever is read, decoding stays within the bounds it relies on. -/
theorem decode_safe (bytes : List UInt8) :
    ((∃ cf, decode bytes = .ok cf) ∨ ∃ f, decode bytes = .error f
        ∧ f.kind ∈ [Kind.endOfInput, .unknownTag, .danglingReference, .unknownOpcode,
          .malformedDescriptor, .invalidData]
        ∧ f.path ≠ []
        ∧ (f.offset = -1 ↔ f.kind = .malformedDescriptor)
        ∧ (f.offset ≠ -1 → 0 ≤ f.offset ∧ f.offset ≤ bytes.length))
      ∧ InBounds := by
  refine ⟨?_, inBounds⟩
  cases h : decode bytes with
  | ok cf => exact .inl ⟨cf, rfl⟩
  | error f =>
    obtain ⟨hplaced, hpath⟩ := decode_fails bytes f h
    exact .inr ⟨f, rfl, hplaced.kind_mem, hpath, hplaced.unplaced, hplaced.bounds⟩

end ClassFile

end ClassAtlas
