import ClassAtlas.Proofs.ControlCharacters
import ClassAtlas.Proofs.Faults
import ClassAtlas.Proofs.Transcript

/-! # What values are named with

Every name in a decoded class is made from the texts of its Utf8 constants, from numerals and from
words of this library. A control character that stands in none of the texts stands in no name: this
module follows it from the pool through every step that reads and names values.

* `Datum.Clear k`, `Pool.Clear k`, `ClassFile.Clear k`: no name has the control character.
* `Yields step P`: what the step gives satisfies `P`.
* `Pool.Named.lacks`: the names of constants.
* `Disassembly.disassemble_yields`, `Attribute.readList_yields`, `Member.read_yields`: the parts.
* `ClassFile.decode_clear`: the file.
-/

namespace ClassAtlas
set_option autoImplicit false

variable {k : Control} {α β : Type}

/-! ## Values -/

/-- The control character stands neither in the name of the value nor in its text. -/
structure Datum.Clear (k : Control) (d : Datum) : Prop where
  name : Lacks k d.name
  str : Lacks k d.str

theorem Datum.Clear.named {d : Datum} (h : d.Clear k) {s : String} (hs : Lacks k s) :
    (d.named s).Clear k :=
  ⟨hs, h.str⟩

/-- All of the values are clear. -/
abbrev AllClear (k : Control) (ds : List Datum) : Prop :=
  ∀ d ∈ ds, d.Clear k

/-! ## What a step gives -/

/-- Whatever the step gives satisfies `P`. -/
def Yields (step : Reading α) (P : α → Prop) : Prop :=
  ∀ w a v, step w = .ok (a, v) → P a

namespace Yields

variable {P : α → Prop} {Q : β → Prop}

theorem pure {a : α} (h : P a) : Yields (pure a) P := by
  intro w b v hv
  obtain ⟨rfl, -⟩ := Reading.pure_eq_ok.1 hv
  exact h

theorem throw {f : Fault} : Yields (throw f : Reading α) P :=
  fun _ _ _ hv => (Reading.throw_eq_ok.1 hv).elim

theorem any {step : Reading α} : Yields step fun _ => True :=
  fun _ _ _ _ => trivial

theorem bind {x : Reading α} {f : α → Reading β} (h : Yields x P)
    (hf : ∀ a, P a → Yields (f a) Q) : Yields (x >>= f) Q := by
  intro w b v hv
  obtain ⟨a, u, hu, hb⟩ := Reading.bind_eq_ok.1 hv
  exact hf a (h w a u hu) u b v hb

theorem settled {r : Except Fault α} (h : ∀ a, r = .ok a → P a) : Yields (settled r) P :=
  fun _ a _ hv => h a (Reading.settled_eq_ok.1 hv).1

theorem within {step : Reading α} (h : Yields step P) (segment : String) :
    Yields (within segment step) P :=
  fun w a v hv => h w a v (Reading.within_eq_ok.1 hv)

theorem inPhase {step : Reading α} (h : Yields step P) (phase : Phase) :
    Yields (inPhase phase step) P := by
  intro w a v hv
  obtain ⟨u, hu, -⟩ := Reading.inPhase_eq_ok.1 hv
  exact h _ a u hu

theorem onChild {step : Reading α} (h : Yields step P) (phase : Phase) (child : Window) :
    Yields (onChild phase child step) fun r => P r.1 :=
  settled fun r hr => h _ r.1 r.2 hr

/-- The value is told where it stands. -/
theorem place {step : Reading α} {step' : Reading β} (g : Window → α → β)
    (heq : ∀ w, step' w = (step w).map fun r => (g w r.1, r.2)) (hg : ∀ w a, Q (g w a)) :
    Yields step' Q := by
  intro w b v hv
  rw [heq] at hv
  obtain ⟨a, u, -, hb⟩ := Reading.map_eq_ok.1 hv
  obtain ⟨rfl, -⟩ := Prod.mk.inj hb
  exact hg w a

theorem repeatedFrom {step : Nat → Reading α} (h : ∀ i, Yields (step i) P) (count : Nat) :
    ∀ first, Yields (repeatedFrom step first count) fun as => ∀ a ∈ as, P a := by
  induction count with
  | zero => exact fun _ => pure (by simp)
  | succ count ih =>
    exact fun first => (h first).bind fun a ha => (ih (first + 1)).bind fun as has =>
      pure (List.forall_mem_cons.2 ⟨ha, has⟩)

theorem repeated {step : Nat → Reading α} (h : ∀ i, Yields (step i) P) (count : Nat) :
    Yields (repeated count step) fun as => ∀ a ∈ as, P a :=
  repeatedFrom h count 0

end Yields

namespace Datum

/-- A value without a name and without a text. -/
theorem Clear.blank {d : Datum} (hname : d.name = "") (hstr : d.str = "") : d.Clear k :=
  ⟨hname ▸ lacks_empty, hstr ▸ lacks_empty⟩

theorem unsigned_yields (k : Control) (width : Int) (kind : OperandKind) :
    Yields (unsigned width kind) (Clear k) :=
  .place (fun w raw => Datum.mk w.pos width.toNat raw (Window.twosComplement 64 raw) kind "" "")
    (fun _ => rfl) fun _ _ => .blank rfl rfl

theorem signed_yields (k : Control) (width : Int) (kind : OperandKind) :
    Yields (signed width kind) (Clear k) :=
  .place (fun w raw => Datum.mk w.pos width.toNat raw
    (Window.twosComplement (8 * width.toNat) raw) kind "" "") (fun _ => rfl)
    fun _ _ => .blank rfl rfl

theorem u1_yields (k : Control) : Yields u1 (Clear k) := unsigned_yields k 1 _

theorem u2_yields (k : Control) : Yields u2 (Clear k) := unsigned_yields k 2 _

theorem u4_yields (k : Control) : Yields u4 (Clear k) := unsigned_yields k 4 _

theorem hex_yields (k : Control) (width : Int) : Yields (hex width) (Clear k) :=
  (unsigned_yields k width .structural).bind fun d _ => by
    have hdigits : Lacks k ("0x" ++ Text.hexUpper (2 * width.toNat) d.raw) :=
      lacks_append.2 ⟨.printed (by decide), Text.lacks_hexUpper _ _⟩
    exact .pure ⟨hdigits, hdigits⟩

theorem skip_yields (k : Control) (n : Int) : Yields (skip n) (Clear k) :=
  .place (fun w _ => Datum.mk w.pos n.toNat 0 0 .structural "" "") (fun _ => rfl)
    fun _ _ => .blank rfl rfl

theorem align_yields (k : Control) (base boundary : Int) : Yields (align base boundary) (Clear k) :=
  .place (fun w pad => Datum.mk w.pos pad 0 pad .padding "" "") (fun _ => rfl)
    fun _ _ => .blank rfl rfl

end Datum

theorem Yields.counted {α : Type} {P : α → Prop} {element : Reading α} (h : Yields element P)
    (k : Control) (label : String) (segment : Nat → String) :
    Yields (counted label segment element) fun r => r.1.Clear k ∧ ∀ a ∈ r.2, P a :=
  ((Datum.u2_yields k).within _).bind fun _ hcount =>
    (repeated (fun _ => h.within _) _).bind fun _ helements => .pure ⟨hcount, helements⟩

/-! ## Constants -/

/-- No name and no text in the pool has the control character. -/
structure Pool.Clear (k : Control) (pool : Pool) : Prop where
  names : ∀ c ∈ pool.constants, Lacks k c.name
  texts : ∀ c ∈ pool.constants, ∀ s, c.payload.text? = some s → Lacks k s
  data : ∀ c ∈ pool.constants, AllClear k c.data

/-- The values of the entry are clear if its text is. -/
def Payload.Clear (k : Control) (p : Payload) : Prop :=
  (∀ s, p.text? = some s → Lacks k s) → AllClear k p.data

theorem Payload.clear_of_data {p : Payload} (h : AllClear k p.data) : p.Clear k :=
  fun _ => h

theorem Payload.read_yields (tag : Tag) : Yields (read tag) (Payload.Clear k) := by
  have hone : ∀ make : Datum → Payload, (∀ a, (make a).data = [a]) →
      Yields (oneStep .reading make) (Payload.Clear k) := by
    intro make hmake
    refine (Datum.u2_yields k).bind fun a ha => .pure (clear_of_data ?_)
    rw [hmake]
    exact List.forall_mem_singleton.2 ha
  have htwo : ∀ make : Datum → Datum → Payload, (∀ a b, (make a b).data = [a, b]) →
      Yields (twoSteps .reading make) (Payload.Clear k) := by
    intro make hmake
    refine (Datum.u2_yields k).bind fun a ha => (Datum.u2_yields k).bind fun b hb =>
      .pure (clear_of_data ?_)
    rw [hmake]
    exact List.forall_mem_cons.2 ⟨ha, List.forall_mem_singleton.2 hb⟩
  cases tag with
  | utf8 =>
    refine (Datum.u2_yields k).bind fun length hlength => ?_
    refine Yields.bind (P := fun d => d.name = d.str) (.place
      (fun w s => Datum.mk w.pos length.num.toNat 0 0 .structural s s) (fun _ => rfl)
      fun _ _ => rfl) fun bytes hname => .pure fun htext => ?_
    have hstr : Lacks k bytes.str := htext _ rfl
    exact List.forall_mem_cons.2 ⟨hlength, List.forall_mem_singleton.2 ⟨hname ▸ hstr, hstr⟩⟩
  | integer =>
    exact (Datum.signed_yields k 4 _).bind fun d hd =>
      .pure (clear_of_data (List.forall_mem_singleton.2 (hd.named (lacks_int _))))
  | float =>
    exact (Datum.u4_yields k).bind fun d hd => .pure (clear_of_data
      (List.forall_mem_singleton.2 (hd.named (Decimal.Format.lacks_literal _ _))))
  | long =>
    exact (Datum.unsigned_yields k 8 _).bind fun d hd =>
      .pure (clear_of_data (List.forall_mem_singleton.2 (hd.named (lacks_int _))))
  | double =>
    exact (Datum.unsigned_yields k 8 _).bind fun d hd => .pure (clear_of_data
      (List.forall_mem_singleton.2 (hd.named (Decimal.Format.lacks_literal _ _))))
  | methodHandle =>
    exact (Datum.u1_yields k).bind fun kind hkind => (Datum.u2_yields k).bind fun reference href =>
      .pure (clear_of_data (List.forall_mem_cons.2
        ⟨hkind.named (ReferenceKind.lacks_describe _), List.forall_mem_singleton.2 href⟩))
  | classInfo | string | methodType | moduleInfo | packageInfo => exact hone _ fun _ => rfl
  | fieldref | methodref | interfaceMethodref | nameAndType | dynamic | invokeDynamic =>
    exact htwo _ fun _ _ => rfl

/-- What is known of an entry that is not yet named. -/
structure Constant.Clear (k : Control) (c : Constant) : Prop where
  tag : c.tag.Clear k
  payload : c.payload.Clear k

theorem Constant.read_yields (k : Control) (index : Nat) : Yields (read index) (Clear k) := by
  have htag : Yields readTag fun r => r.1.Clear k := by
    refine (Datum.u1_yields k).bind fun d hd => ?_
    split
    · exact .pure (hd.named (Tag.lacks_name _))
    · exact .throw
  exact htag.bind fun r hr => (Payload.read_yields r.2).bind fun p hp => .pure ⟨hr, hp⟩

namespace Pool

theorem readSlots_yields (k : Control) (count : Nat) : ∀ index,
    Yields (readSlots index count) fun slots => ∀ c, some c ∈ slots → c.Clear k := by
  induction count using Nat.strongRecOn with
  | _ count ih =>
    intro index
    cases count with
    | zero => exact .pure (by simp)
    | succ count =>
      unfold readSlots slotSteps
      refine ((Constant.read_yields k index).within _).bind fun c hc => ?_
      split
      · split
        · exact .pure (by simpa using hc)
        · rename_i count
          exact (ih count (by omega) (index + 2)).bind fun slots hslots =>
            .pure (by simpa [hc] using hslots)
      · exact (ih count (by omega) (index + 1)).bind fun slots hslots =>
          .pure (by simpa [hc] using hslots)

theorem read_yields (k : Control) : Yields read fun pool =>
    pool.count.Clear k ∧ ∀ c ∈ pool.constants, c.Clear k := by
  refine Yields.inPhase (((Datum.u2_yields k).within _).bind fun count hcount => ?_) _
  split
  · exact .pure ⟨hcount, by simp [constants]⟩
  · refine (readSlots_yields k _ 1).bind fun slots hslots => .pure ⟨hcount, fun c hc => ?_⟩
    obtain ⟨slot, hslot, rfl⟩ := List.mem_filterMap.1 hc
    exact hslots c (by simpa using hslot)

/-! ## Names of constants -/

theorem member?_lacks {pool : Pool} (htexts : ∀ i s, pool.text? i = some s → Lacks k s) {i : Int}
    {name descriptor : String} (h : pool.member? i = some (name, descriptor)) :
    Lacks k name ∧ Lacks k descriptor := by
  obtain ⟨c, n, d, -, -, hname, hdescriptor⟩ := member?_eq_some h
  exact ⟨htexts _ _ hname, htexts _ _ hdescriptor⟩

theorem Named.lacks {pool : Pool} (htexts : ∀ i s, pool.text? i = some s → Lacks k s) {i : Int}
    {s : String} (h : pool.Named i s) : Lacks k s := by
  induction h with
  | utf8 text => exact htexts _ _ text
  | @literal i c s entry text =>
    cases hp : c.payload with
    | integer | long =>
      rw [hp] at text
      cases text
      exact lacks_int _
    | float | double =>
      rw [hp] at text
      cases text
      exact Decimal.Format.lacks_literal _ _
    | _ =>
      rw [hp] at text
      cases text
  | classInfo entry payload text => exact Descriptor.lacks_dottedName (htexts _ _ text)
  | quoted entry payload text => exact htexts _ _ text
  | nameAndType member declared =>
    obtain ⟨hname, hdescriptor⟩ := member?_lacks htexts member
    exact Descriptor.lacks_declaration declared hdescriptor hname
  | member entry payload named member declared ih =>
    obtain ⟨hname, hdescriptor⟩ := member?_lacks htexts member
    refine Descriptor.lacks_declaration declared hdescriptor ?_
    exact lacks_append.2 ⟨lacks_append.2 ⟨ih, .printed (by decide)⟩, hname⟩
  | methodHandle entry payload named ih =>
    exact lacks_append.2 ⟨lacks_append.2 ⟨ReferenceKind.lacks_describe _, .printed (by decide)⟩, ih⟩
  | methodType entry payload text declared =>
    exact Descriptor.lacks_declaration declared (htexts _ _ text) lacks_empty
  | bootstrap entry payload named ih =>
    simp only [lacks_append]
    exact ⟨⟨⟨.printed (by decide), lacks_int _⟩, .printed (by decide)⟩, ih⟩

theorem references_subset_data {p : Payload} : p.references ⊆ p.data := by
  intro d hd
  cases p <;> simp_all [Payload.references, Payload.data]

/-- A reference is renamed, and other values are kept. -/
theorem mem_data_mapReferences {f : Datum → Datum} {p : Payload} {d : Datum}
    (h : d ∈ (p.mapReferences f).data) : d ∈ p.data ∨ ∃ r ∈ p.references, d = f r := by
  cases p with
  | utf8 | integer | float | long | double => exact .inl h
  | classInfo | string | methodType | moduleInfo | packageInfo =>
    exact .inr ⟨_, .head _, List.mem_singleton.1 h⟩
  | fieldref | methodref | interfaceMethodref | nameAndType =>
    rcases List.mem_cons.1 h with rfl | h
    · exact .inr ⟨_, .head _, rfl⟩
    · exact .inr ⟨_, .tail _ (.head _), List.mem_singleton.1 h⟩
  | methodHandle | dynamic | invokeDynamic =>
    rcases List.mem_cons.1 h with rfl | h
    · exact .inl (.head _)
    · exact .inr ⟨_, .head _, List.mem_singleton.1 h⟩

/-- The texts of the Utf8 constants lack the control character. -/
def TextsLack (k : Control) (pool : Pool) : Prop :=
  ∀ c ∈ pool.constants, ∀ s, c.payload.text? = some s → Lacks k s

theorem text?_mapReferences (f : Datum → Datum) (p : Payload) :
    (p.mapReferences f).text? = p.text? := by
  cases p <;> rfl

theorem resolve_clear {pool pool' : Pool} (hread : pool.AsRead)
    (hclear : ∀ c ∈ pool.constants, c.Clear k) (h : pool.resolve = .ok pool')
    (htexts : pool'.TextsLack k) : pool'.Clear k := by
  obtain ⟨name, rfl, hname⟩ := resolve_ok hread h
  have htexts' : ∀ c ∈ pool.constants, ∀ s, c.payload.text? = some s → Lacks k s := by
    intro c hc s hs
    refine htexts (c.under name) ?_ s ?_
    · rw [constants_under]
      exact List.mem_map_of_mem hc
    · rw [Constant.under, text?_mapReferences, hs]
  have hnames : ∀ i c, pool.entry? i = some c → Lacks k (name i) := by
    intro i c hc
    refine (hname i c hc).lacks fun j s hs => ?_
    obtain ⟨c', hc', hs'⟩ := Option.bind_eq_some_iff.1 hs
    exact htexts' c' (mem_constants hc') s hs'
  refine ⟨fun c' hc' => ?_, htexts, fun c' hc' d hd => ?_⟩
  · rw [constants_under] at hc'
    obtain ⟨c, hc, rfl⟩ := List.mem_map.1 hc'
    exact hnames _ c (hread.entry_of_mem hc)
  · rw [constants_under] at hc'
    obtain ⟨c, hc, rfl⟩ := List.mem_map.1 hc'
    have hdata := (hclear c hc).payload (htexts' c hc)
    rcases List.mem_cons.1 hd with rfl | hd
    · exact (hclear c hc).tag
    · rcases mem_data_mapReferences hd with hd | ⟨r, href, rfl⟩
      · exact hdata d hd
      · obtain ⟨c', hc'⟩ := hread.entry_of_reference hname hc href
        exact (hdata r (references_subset_data href)).named (hnames _ c' hc')

/-! ## References -/

variable {pool : Pool}

theorem Clear.displayName (h : pool.Clear k) (i : Int) : Lacks k (pool.displayName i) := by
  unfold Pool.displayName
  split
  · exact h.names _ (mem_constants ‹_›)
  · exact lacks_empty

theorem Clear.text? (h : pool.Clear k) {i : Int} {s : String} (hs : pool.text? i = some s) :
    Lacks k s := by
  obtain ⟨c, hc, ht⟩ := Option.bind_eq_some_iff.1 hs
  exact h.texts c (mem_constants hc) s ht

theorem Clear.refer (h : pool.Clear k) {d d' : Datum} (hd : d.Clear k)
    (hr : pool.refer d = .ok d') : d'.Clear k := by
  obtain ⟨-, rfl⟩ := (pool.refer_eq_ok).1 hr
  exact hd.named (h.displayName _)

theorem Clear.referOptional (h : pool.Clear k) {absent : String} (habsent : Lacks k absent)
    {d d' : Datum} (hd : d.Clear k) (hr : pool.referOptional absent d = .ok d') : d'.Clear k := by
  obtain ⟨-, rfl⟩ := (pool.referOptional_eq_ok).1 hr
  refine hd.named ?_
  split
  · exact habsent
  · exact h.displayName _

theorem Clear.referText (h : pool.Clear k) {d d' : Datum} (hd : d.Clear k)
    (hr : pool.referText d = .ok d') : d'.Clear k := by
  obtain ⟨s, hs, rfl⟩ := (pool.referText_eq_ok).1 hr
  exact hd.named (h.text? hs)

theorem Clear.readReference (h : pool.Clear k) : Yields pool.readReference (Datum.Clear k) :=
  (Datum.u2_yields k).bind fun _ hd => .settled fun _ hr => h.refer hd hr

theorem Clear.readOptional (h : pool.Clear k) {absent : String} (habsent : Lacks k absent) :
    Yields (pool.readOptional absent) (Datum.Clear k) :=
  (Datum.u2_yields k).bind fun _ hd => .settled fun _ hr => h.referOptional habsent hd hr

end Pool

/-! ## Instructions -/

namespace Disassembly

variable {pool : Pool}

theorem nameOperand_clear (hpool : pool.Clear k) {pc : Nat} {d d' : Datum} (hd : d.Clear k)
    (h : nameOperand pool pc d = .ok d') : d'.Clear k := by
  unfold nameOperand at h
  split at h
  case h_1 | h_2 =>
    cases h
    exact ⟨lacks_int _, hd.str⟩
  case h_3 | h_4 =>
    cases hc : pool.lookup d.num d.offset with
    | error f =>
      rw [hc] at h
      cases h
    | ok c =>
      rw [hc] at h
      cases h
      refine hd.named (lacks_append.2 ⟨lacks_append.2 ⟨Tag.lacks_name _, .printed (by decide)⟩, ?_⟩)
      exact hpool.names c (Pool.mem_constants (Pool.lookup_eq_ok.1 hc))
  case h_5 | h_6 =>
    cases h
    exact hd.named (lacks_append.2 ⟨.printed (by decide), lacks_int _⟩)
  case h_7 =>
    split at h
    · cases h
      exact hd.named (Opcode.lacks_elementType ‹_›)
    · cases h
  case h_8 =>
    cases h
    exact hd
  case h_9 =>
    cases h
    exact hd.named (lacks_int _)

theorem operand_yields (hpool : pool.Clear k) (pc : Nat) (kind : OperandKind) :
    Yields (operand pool pc kind) (Datum.Clear k) := by
  have hword : Yields (word kind) (Datum.Clear k) := by
    unfold word
    split
    · exact Datum.signed_yields k _ _
    · exact Datum.unsigned_yields k _ _
  exact hword.bind fun d hd => .settled fun d' h => nameOperand_clear hpool hd h

theorem operands_yields (hpool : pool.Clear k) (pc : Nat) (kinds : List OperandKind) :
    Yields (operands pool pc kinds) (AllClear k) := by
  induction kinds with
  | nil => exact .pure (List.forall_mem_nil _)
  | cons kind kinds ih =>
    exact (operand_yields hpool pc kind).bind fun d hd => ih.bind fun ds hds =>
      .pure (List.forall_mem_cons.2 ⟨hd, hds⟩)

/-- The values of what follows an opcode. -/
def Tail.data (t : Tail) : List Datum :=
  t.operands ++ t.hidden ++ (t.switch.map SwitchTable.data).getD []

theorem fixedTail_yields (hpool : pool.Clear k) (pc : Nat) (code : UInt8) :
    Yields (fixedTail pool pc code) fun t => AllClear k t.data := by
  refine (operands_yields hpool pc _).bind fun ds hds => .pure fun d hd => hds d ?_
  have hd' : d ∈ ds.filter (·.kind ≠ .reserved) ++ ds.filter (·.kind = .reserved) ++ [] := hd
  rw [List.append_nil, List.mem_append, List.mem_filter, List.mem_filter] at hd'
  exact hd'.elim And.left And.left

theorem wideTail_yields (hpool : pool.Clear k) (pc : Nat) :
    Yields (wideTail pool pc) fun t => AllClear k t.data := by
  refine (Datum.unsigned_yields k 1 .opcode).bind fun inner hinner => ?_
  dsimp only
  split
  · refine (operands_yields hpool pc _).bind fun ds hds => .pure ?_
    have hname : Lacks k ((Opcode.mnemonic? inner.raw.toUInt8).getD "") := by
      cases hm : Opcode.mnemonic? inner.raw.toUInt8 with
      | none => exact lacks_empty
      | some name => exact Opcode.lacks_mnemonic hm
    have hall := List.forall_mem_cons.2 ⟨hinner.named hname, hds⟩
    intro d hd
    refine hall d ?_
    simpa [Tail.data] using hd
  · exact .throw

theorem switchHead_yields (hpool : pool.Clear k) (base pc : Nat) :
    Yields (switchHead pool base pc) fun r => AllClear k r.1 ∧ r.2.Clear k := by
  refine (Datum.align_yields k base 4).bind fun pad hpad =>
    (operand_yields hpool pc .branch4).bind fun target htarget => .pure ⟨?_, htarget⟩
  dsimp only
  split
  · exact List.forall_mem_singleton.2 hpad
  · exact fun d hd => nomatch hd

theorem rangeTargets_yields (hpool : pool.Clear k) (pc : Nat) (low high : Datum) :
    Yields (rangeTargets ensureTable pool pc low high) (AllClear k) := by
  unfold rangeTargets
  split
  · exact .throw
  · exact Yields.any.bind fun _ _ => .repeated (fun _ => operand_yields hpool pc .branch4) _

theorem switchPairs_yields (hpool : pool.Clear k) (pc : Nat) (count : Datum) :
    Yields (switchPairs ensureTable pool pc count) fun es => ∀ e ∈ es, e.1.Clear k ∧ e.2.Clear k := by
  unfold switchPairs
  split
  · exact .throw
  · refine Yields.any.bind fun _ _ => .repeated (fun _ => ?_) _
    exact (operand_yields hpool pc .s4).bind fun key hkey =>
      (operand_yields hpool pc .branch4).bind fun target htarget => .pure ⟨hkey, htarget⟩

theorem tail_yields (hpool : pool.Clear k) (base pc : Nat) (code : UInt8) :
    Yields (tail ensureTable pool base pc code) fun t => AllClear k t.data := by
  unfold tail
  split
  · refine (switchHead_yields hpool base pc).bind fun r hr => (operand_yields hpool pc .s4).bind
      fun low hlow => (operand_yields hpool pc .s4).bind fun high hhigh =>
        (rangeTargets_yields hpool pc low high).bind fun targets htargets => .pure ?_
    simp only [Tail.data, Option.map_some, Option.getD_some, SwitchTable.data, List.nil_append,
      List.forall_mem_append, List.forall_mem_cons]
    exact ⟨hr.1, hr.2, hlow, hhigh, htargets⟩
  split
  · refine (switchHead_yields hpool base pc).bind fun r hr => (operand_yields hpool pc .s4).bind
      fun count hcount => (switchPairs_yields hpool pc count).bind fun es hes => .pure ?_
    simp only [Tail.data, Option.map_some, Option.getD_some, SwitchTable.data, List.nil_append,
      List.forall_mem_append, List.forall_mem_cons, List.mem_flatMap]
    refine ⟨hr.1, hr.2, hcount, ?_⟩
    rintro d ⟨e, he, hd⟩
    simp only [List.mem_cons, List.not_mem_nil, or_false] at hd
    rcases hd with rfl | rfl
    · exact (hes e he).1
    · exact (hes e he).2
  split
  · exact wideTail_yields hpool pc
  · exact fixedTail_yields hpool pc code

theorem instruction_yields (hpool : pool.Clear k) (base : Nat) :
    Yields (instruction ensureTable pool base) fun i => AllClear k i.parts := by
  refine (Datum.unsigned_yields k 1 .opcode).bind fun opcode hopcode => ?_
  dsimp only
  split
  · exact .throw
  · rename_i mnemonic hm
    refine (tail_yields hpool base _ _).bind fun t ht => Yields.any.bind fun w _ => .pure ?_
    simp only [Instruction.parts, List.cons_append]
    exact List.forall_mem_cons.2 ⟨hopcode.named (Opcode.lacks_mnemonic hm), ht⟩

theorem disassemble_yields (hpool : pool.Clear k) :
    Yields (disassemble pool) fun is => ∀ i ∈ is, AllClear k i.parts := by
  have hsweep : ∀ base limit, Yields (sweep ensureTable pool base limit) fun is =>
      ∀ i ∈ is, AllClear k i.parts := by
    intro base limit
    induction limit with
    | zero => exact .pure (by simp)
    | succ limit ih =>
      refine Yields.any.bind fun w _ => ?_
      split
      · exact .pure (by simp)
      · exact ((instruction_yields hpool base).within _).bind fun i hi => ih.bind fun is his =>
          .pure (List.forall_mem_cons.2 ⟨hi, his⟩)
  exact Yields.any.bind fun w _ => hsweep w.pos w.remaining

end Disassembly

/-! ## Attributes -/

namespace Body

variable {pool : Pool}

theorem readReference_yields (hpool : pool.Clear k) {make : Datum → Body}
    (hmake : ∀ d, (make d).data = [d]) :
    Yields (readReference pool make) fun b => AllClear k b.data :=
  hpool.readReference.bind fun d hd => .pure (by
    rw [hmake]
    exact List.forall_mem_singleton.2 hd)

/-- Rows whose values are clear. -/
theorem readRows_yields {row : Reading α} {values : α → List Datum}
    (hrow : Yields row fun a => AllClear k (values a)) {make : Datum → List α → Body}
    (hmake : ∀ count rows, (make count rows).data = count :: rows.flatMap values) :
    Yields (readRows row make) fun b => AllClear k b.data := by
  refine (Datum.u2_yields k).bind fun count hcount => (Yields.repeated (fun _ => hrow) _).bind
    fun rows hrows => .pure ?_
  rw [hmake]
  refine List.forall_mem_cons.2 ⟨hcount, fun d hd => ?_⟩
  obtain ⟨a, ha, hd⟩ := List.mem_flatMap.1 hd
  exact hrows a ha d hd

theorem nestedClass_yields (hpool : pool.Clear k) : Yields (nestedClass pool) fun r =>
    AllClear k [r.inner, r.outer, r.name, r.flags] := by
  refine hpool.readReference.bind fun inner hinner => (hpool.readOptional lacks_empty).bind
    fun outer houter => (hpool.readOptional lacks_empty).bind fun name hname =>
      (Datum.u2_yields k).bind fun flags hflags => .pure ?_
  simp only [List.forall_mem_cons, List.not_mem_nil, false_implies, implies_true, and_true]
  exact ⟨hinner, houter, hname, hflags.named (FlagTable.lacks_describe (by decide) _)⟩

theorem bootstrapMethod_yields (hpool : pool.Clear k) : Yields (bootstrapMethod pool) fun m =>
    AllClear k (m.reference :: m.count :: m.arguments) :=
  hpool.readReference.bind fun _ href => (Datum.u2_yields k).bind fun _ hcount =>
    (Yields.repeated (fun _ => hpool.readReference) _).bind fun _ harguments =>
      .pure (List.forall_mem_cons.2 ⟨href, List.forall_mem_cons.2 ⟨hcount, harguments⟩⟩)

theorem lineEntry_yields : Yields lineEntry fun e => AllClear k [e.startPc, e.line] :=
  (Datum.u2_yields k).bind fun _ hstart => (Datum.u2_yields k).bind fun _ hline =>
    .pure (List.forall_mem_cons.2 ⟨hstart, List.forall_mem_singleton.2 hline⟩)

theorem localVariable_yields (hpool : pool.Clear k) : Yields (localVariable pool) fun v =>
    AllClear k [v.startPc, v.length, v.name, v.descriptor, v.index] := by
  refine (Datum.u2_yields k).bind fun start hstart => (Datum.u2_yields k).bind fun length hlength =>
    (Datum.u2_yields k).bind fun name hname => (Datum.u2_yields k).bind
      fun descriptor hdescriptor => (Datum.u2_yields k).bind fun index hindex =>
        (Yields.settled fun _ hr => hpool.referText hname hr).bind fun name' hname' =>
          (Yields.settled fun _ hr => hpool.referText hdescriptor hr).bind
            fun descriptor' hdescriptor' => .pure ?_
  simp only [List.forall_mem_cons, List.not_mem_nil, false_implies, implies_true, and_true]
  exact ⟨hstart, hlength, hname', hdescriptor',
    hindex.named (lacks_append.2 ⟨.printed (by decide), lacks_int _⟩)⟩

theorem reader?_yields (hpool : pool.Clear k) {name : String} {reader : Reading Body}
    (h : reader? pool name = some reader) : Yields reader fun b => AllClear k b.data := by
  unfold reader? at h
  split at h
  case h_1 | h_2 | h_3 | h_4 =>
    cases h
    exact readReference_yields hpool fun _ => rfl
  case h_5 | h_6 | h_7 =>
    cases h
    have hrow : Yields pool.readReference fun d => AllClear k [d] :=
      fun w d v hv => List.forall_mem_singleton.2 (hpool.readReference w d v hv)
    refine readRows_yields hrow fun count rows => ?_
    rw [Body.data, List.flatMap_singleton']
  case h_8 =>
    cases h
    exact readRows_yields (nestedClass_yields hpool) fun _ _ => rfl
  case h_9 =>
    cases h
    exact readRows_yields (bootstrapMethod_yields hpool) fun _ _ => rfl
  case h_10 =>
    cases h
    exact readRows_yields lineEntry_yields fun _ _ => rfl
  case h_11 =>
    cases h
    exact readRows_yields (localVariable_yields hpool) fun _ _ => rfl
  case h_12 | h_13 =>
    cases h
    exact .pure (List.forall_mem_nil _)
  case h_14 => cases h

end Body

/-- The values of a row of an exception table. -/
def Handler.data (h : Handler) : List Datum :=
  [h.startPc, h.endPc, h.handlerPc, h.catchType]

theorem Handler.read_yields {pool : Pool} (hpool : pool.Clear k) (row : Nat) :
    Yields (read pool row) fun h => AllClear k h.data := by
  refine (Datum.u2_yields k).bind fun start hstart => (Datum.u2_yields k).bind fun stop hstop =>
    (Datum.u2_yields k).bind fun target htarget => (Datum.u2_yields k).bind fun type htype =>
      Yields.bind ((Yields.settled fun _ hr => hpool.referOptional (.printed (by decide)) htype
        hr).within _) fun type' htype' => .pure ?_
  simp only [data, List.forall_mem_cons, List.not_mem_nil, false_implies, implies_true, and_true]
  exact ⟨hstart, hstop, htarget, htype'⟩

namespace Code

theorem readHead_yields (k : Control) : Yields readHead fun h =>
    h.maxStack.Clear k ∧ h.maxLocals.Clear k ∧ h.codeLength.Clear k :=
  (Datum.u2_yields k).bind fun _ hstack => (Datum.u2_yields k).bind fun _ hlocals =>
    (Datum.u4_yields k).bind fun _ hlength => Yields.any.bind fun _ _ =>
      .pure ⟨hstack, hlocals, hlength⟩

theorem readHandlers_yields {pool : Pool} (hpool : pool.Clear k) : Yields (readHandlers pool)
    fun r => r.1.Clear k ∧ ∀ h ∈ r.2, AllClear k h.data :=
  (Datum.u2_yields k).bind fun _ hcount =>
    (Yields.repeated (Handler.read_yields hpool) _).bind fun _ hhandlers =>
      .pure ⟨hcount, hhandlers⟩

end Code

namespace Attribute

variable {pool : Pool}

theorem mem_dataOfList {as : List Attribute} {d : Datum} :
    d ∈ dataOfList as ↔ ∃ a ∈ as, d ∈ a.data := by
  induction as with
  | nil => simp [dataOfList]
  | cons a as ih => simp only [dataOfList, List.mem_append, ih, List.mem_cons, exists_eq_or_imp]

/-- The values of a method body are among those of the list it is in. -/
theorem clear_of_code {as bs : List Attribute} {name length : Datum} {frame : Frame}
    (h : AllClear k (dataOfList as)) (ha : .code name length frame bs ∈ as) :
    AllClear k frame.data ∧ AllClear k (dataOfList bs) := by
  have hbody : AllClear k (frame.data ++ dataOfList bs) := by
    intro d hd
    refine h d (mem_dataOfList.2 ⟨_, ha, ?_⟩)
    rw [Attribute.data]
    exact .tail _ (.tail _ hd)
  exact List.forall_mem_append.1 hbody

theorem whole_yields {step : Reading α} {P : α → Prop} (h : Yields step P) :
    Yields (whole step) P := by
  refine h.bind fun a ha => Yields.any.bind fun w _ => ?_
  split
  · exact .pure ha
  · exact .throw

/-- A count and a list of attributes whose values are clear. -/
abbrev ListClear (k : Control) (r : Datum × List Attribute) : Prop :=
  r.1.Clear k ∧ AllClear k (dataOfList r.2)

theorem code_yields (hpool : pool.Clear k) {attributes : Reading (Datum × List Attribute)}
    (h : Yields attributes (ListClear k)) : Yields (Code.read pool attributes) fun c =>
      AllClear k (c.frame.data ++ dataOfList c.attributes) := by
  refine (Code.readHead_yields k).bind fun head ⟨hstack, hlocals, hlength⟩ =>
    ((Disassembly.disassemble_yields hpool).onChild _ head.window).bind fun is his =>
      (Code.readHandlers_yields hpool).bind fun handlers ⟨hcount, hhandlers⟩ =>
        h.bind fun r hr => .pure ?_
  have hinstructions : AllClear k (is.1.flatMap Instruction.data) := by
    intro d hd
    obtain ⟨i, hi, hd⟩ := List.mem_flatMap.1 hd
    exact his i hi d (List.mem_mergeSort.1 hd)
  have hrows : AllClear k (handlers.2.flatMap Handler.data) := by
    intro d hd
    obtain ⟨row, hrow, hd⟩ := List.mem_flatMap.1 hd
    exact hhandlers row hrow d hd
  have hcatch : Frame.data ⟨head.maxStack, head.maxLocals, head.codeLength, is.1, handlers.1,
        handlers.2, r.1⟩
      = head.maxStack :: head.maxLocals :: head.codeLength :: (is.1.flatMap Instruction.data
        ++ handlers.1 :: handlers.2.flatMap Handler.data ++ [r.1]) := rfl
  rw [hcatch]
  simp only [List.cons_append, List.forall_mem_cons, List.forall_mem_append]
  exact ⟨hstack, hlocals, hlength, ⟨⟨hinstructions, hcount, hrows⟩, hr.1, List.forall_mem_nil _⟩,
    hr.2⟩

theorem readBody_yields (hpool : pool.Clear k) {attributes : Reading (Datum × List Attribute)}
    (h : Yields attributes (ListClear k)) {name length : Datum} (hname : name.Clear k)
    (hlength : length.Clear k) :
    Yields (readBody pool attributes name length) fun a => AllClear k a.data := by
  unfold readBody
  split
  · refine (whole_yields ((code_yields hpool h).bind fun c hc => .pure ?_)).within _
    rw [Attribute.data]
    exact List.forall_mem_cons.2 ⟨hname, List.forall_mem_cons.2 ⟨hlength, hc⟩⟩
  split
  · rename_i reader hreader
    refine (whole_yields ((Body.reader?_yields hpool hreader).bind fun body hbody => .pure ?_)).within _
    rw [Attribute.data]
    exact List.forall_mem_cons.2 ⟨hname, List.forall_mem_cons.2 ⟨hlength, hbody⟩⟩
  · refine Yields.any.bind fun w _ => (Datum.skip_yields k _).bind fun info hinfo => .pure ?_
    rw [Attribute.data]
    exact List.forall_mem_cons.2
      ⟨hname, List.forall_mem_cons.2 ⟨hlength, List.forall_mem_singleton.2 hinfo⟩⟩

theorem readHead_yields (hpool : pool.Clear k) :
    Yields (readHead pool) fun h => h.name.Clear k ∧ h.length.Clear k :=
  (Datum.u2_yields k).bind fun _ hindex =>
    (Yields.settled fun _ hr => hpool.referText hindex hr).bind fun _ hname =>
      (Datum.u4_yields k).bind fun _ hlength => Yields.any.bind fun _ _ => .pure ⟨hname, hlength⟩

theorem read_yields (hpool : pool.Clear k) {attributes : Reading (Datum × List Attribute)}
    (h : Yields attributes (ListClear k)) :
    Yields (read pool attributes) fun a => AllClear k a.data :=
  (readHead_yields hpool).bind fun head ⟨hname, hlength⟩ =>
    ((readBody_yields hpool h hname hlength).onChild _ head.window).bind fun _ ha => .pure ha

theorem readCounted_yields {element : Reading Attribute}
    (h : Yields element fun a => AllClear k a.data) : Yields (readCounted element) (ListClear k) := by
  intro w r v hv
  obtain ⟨hcount, has⟩ := h.counted k _ _ w r v hv
  refine ⟨hcount, fun d hd => ?_⟩
  obtain ⟨a, ha, hd⟩ := mem_dataOfList.1 hd
  exact has a ha d hd

theorem readNested_yields (hpool : pool.Clear k) (depth : Nat) :
    Yields (readNested pool depth) (ListClear k) := by
  induction depth with
  | zero => exact Yields.within (fun _ _ _ h => nomatch h) _
  | succ depth ih => exact readCounted_yields (read_yields hpool ih)

theorem readList_yields (hpool : pool.Clear k) : Yields (readList pool) (ListClear k) :=
  Yields.any.bind fun _ _ => readNested_yields hpool _

end Attribute

/-! ## Members and the file -/

/-- No name in the member has the control character. -/
structure Member.Clear (k : Control) (m : Member) : Prop where
  data : AllClear k m.data
  signature : Lacks k m.signature

/-- No name in the front of a member has the control character. -/
structure Member.Head.Clear (k : Control) (h : Member.Head) : Prop where
  accessFlags : h.accessFlags.Clear k
  name : h.name.Clear k
  descriptor : h.descriptor.Clear k
  signature : Lacks k h.signature

theorem Member.readHead_yields {pool : Pool} (hpool : pool.Clear k) :
    Yields (readHead pool) (Head.Clear k) :=
  (Datum.u2_yields k).bind fun _ haccess => (Datum.u2_yields k).bind fun _ hname =>
    (Datum.u2_yields k).bind fun _ hdescriptor => Yields.bind
      ((Yields.settled fun _ hr => hpool.referText hname hr).within _) fun _ hname' =>
    Yields.bind ((Yields.settled fun _ hr => hpool.referText hdescriptor hr).within _)
      fun _ hdescriptor' => Yields.bind
        ((Yields.settled fun _ hr => Descriptor.lacks_declaration hr hdescriptor'.name
          hname'.name).within _) fun _ hsignature =>
    .pure ⟨haccess, hname', hdescriptor', hsignature⟩

theorem Member.read_yields {pool : Pool} (hpool : pool.Clear k) {flags : FlagTable}
    (hflags : AllPrinted (flags.map (·.name))) : Yields (read pool flags) (Clear k) := by
  refine (readHead_yields hpool).bind fun h hhead =>
    ((Attribute.readList_yields hpool).within _).bind fun r hr => .pure ⟨?_, hhead.signature⟩
  simp only [Member.data, List.forall_mem_cons]
  exact ⟨hhead.accessFlags.named (FlagTable.lacks_describe hflags _), hhead.name, hhead.descriptor,
    hr.1, hr.2⟩

theorem Member.readList_yields {pool : Pool} (hpool : pool.Clear k) (part : String)
    {flags : FlagTable} (hflags : AllPrinted (flags.map (·.name))) :
    Yields (readList pool part flags) fun r => r.1.Clear k ∧ ∀ m ∈ r.2, m.Clear k :=
  (read_yields hpool hflags).counted k _ _

/-- What is known of the header before the constants are named. -/
structure Header.Clear (k : Control) (h : Header) : Prop where
  magic : h.magic.Clear k
  minorVersion : h.minorVersion.Clear k
  majorVersion : h.majorVersion.Clear k
  count : h.pool.count.Clear k
  entries : ∀ c ∈ h.pool.constants, c.Clear k
  asRead : h.pool.AsRead

theorem Header.read_yields (k : Control) : Yields read (Clear k) := by
  have hpool : Yields Pool.read fun pool =>
      (pool.count.Clear k ∧ ∀ c ∈ pool.constants, c.Clear k) ∧ pool.AsRead :=
    fun w pool v hv => ⟨Pool.read_yields k w pool v hv, Pool.asRead_of_read hv⟩
  exact ((Datum.hex_yields k 4).within _).bind fun _ hmagic =>
    ((Datum.u2_yields k).within _).bind fun _ hminor => ((Datum.u2_yields k).within _).bind
      fun _ hmajor => (hpool.within _).bind fun _ hpool =>
        .pure ⟨hmagic, hminor, hmajor, hpool.1.1, hpool.1.2, hpool.2⟩

namespace ClassFile

/-- No name in the file has the control character. -/
structure Clear (k : Control) (cf : ClassFile) : Prop where
  pool : cf.pool.Clear k
  data : AllClear k cf.data
  fields : ∀ m ∈ cf.fields, m.Clear k
  methods : ∀ m ∈ cf.methods, m.Clear k

theorem readAfterPool_pool (h : Header) (pool : Pool) :
    Yields (readAfterPool h pool) fun cf => cf.pool = pool := by
  have hparts : Yields (readParts h pool) fun cf => cf.pool = pool :=
    Yields.any.bind fun _ _ => Yields.any.bind fun _ _ => Yields.any.bind fun _ _ =>
      Yields.any.bind fun _ _ => Yields.any.bind fun _ _ => Yields.any.bind fun _ _ =>
        Yields.any.bind fun _ _ => .pure rfl
  exact hparts.bind fun _ hcf => Yields.any.bind fun _ _ => .pure hcf

theorem readTrailing_yields (k : Control) :
    Yields readTrailing fun trailing => AllClear k trailing.toList := by
  refine Yields.any.bind fun w _ => ?_
  split
  · exact .pure (List.forall_mem_nil _)
  · exact (Datum.skip_yields k _).bind fun d hd => .pure (List.forall_mem_singleton.2 hd)

theorem readAfterPool_yields {h : Header} (hheader : h.Clear k) {pool : Pool} (hpool : pool.Clear k)
    (hcount : pool.count.Clear k) : Yields (readAfterPool h pool) (Clear k) := by
  have hdata : ∀ ms : List Member, (∀ m ∈ ms, m.Clear k) → AllClear k (ms.flatMap Member.data) := by
    intro ms hms d hd
    obtain ⟨m, hm, hd⟩ := List.mem_flatMap.1 hd
    exact (hms m hm).data d hd
  have hparts : Yields (readParts h pool) fun cf => cf.Clear k ∧ cf.trailing = none := by
    refine ((Datum.u2_yields k).within _).bind fun access haccess =>
      (hpool.readReference.within _).bind fun this hthis =>
        ((hpool.readOptional lacks_empty).within _).bind fun super hsuper =>
          (hpool.readReference.counted k _ _).bind fun interfaces hinterfaces => ?_
    refine (Member.readList_yields hpool _ (by decide)).bind fun fields hfields =>
      (Member.readList_yields hpool _ (by decide)).bind fun methods hmethods =>
        (Attribute.readList_yields hpool).bind fun attributes hattributes =>
          .pure ⟨⟨hpool, ?_, hfields.2, hmethods.2⟩, rfl⟩
    have hconstants : AllClear k (pool.constants.flatMap Constant.data) := by
      intro d hd
      obtain ⟨c, hc, hd⟩ := List.mem_flatMap.1 hd
      exact hpool.data c hc d hd
    simp only [ClassFile.data, List.forall_mem_append, List.forall_mem_cons, List.cons_append,
      List.nil_append, Option.toList_none]
    have hflags : Lacks k (FlagTable.ofClass.describe access.raw) :=
      FlagTable.lacks_describe (by decide) _
    exact ⟨hheader.magic, hheader.minorVersion, hheader.majorVersion, hcount,
      ⟨⟨⟨⟨⟨hconstants, haccess.named hflags, hthis, hsuper, hinterfaces.1, List.forall_mem_nil _⟩,
        hinterfaces.2⟩, hfields.1, hdata _ hfields.2⟩, hmethods.1, hdata _ hmethods.2⟩,
        hattributes.1, hattributes.2⟩, List.forall_mem_nil _⟩
  refine hparts.bind fun cf hcf => (readTrailing_yields k).bind fun trailing htrailing => .pure ?_
  have hsplit : ClassFile.data { cf with trailing } = cf.data ++ trailing.toList := by
    rw [ClassFile.data, ClassFile.data, hcf.2, Option.toList_none, List.append_nil]
  refine ⟨hcf.1.pool, ?_, hcf.1.fields, hcf.1.methods⟩
  rw [hsplit]
  exact List.forall_mem_append.2 ⟨hcf.1.data, htrailing⟩

/-- **Control characters.** A control character that stands in none of the texts of a decoded file
stands in no name in it. -/
theorem decode_clear {bytes : List UInt8} {cf : ClassFile} (h : decode bytes = .ok cf)
    (htexts : cf.pool.TextsLack k) : cf.Clear k := by
  unfold decode at h
  cases hrun : read (Window.ofBytes bytes) with
  | error f =>
    rw [hrun] at h
    cases h
  | ok r =>
    rw [hrun] at h
    cases h
    obtain ⟨header, v, hheader, hrest⟩ := Reading.bind_eq_ok.1 hrun
    obtain ⟨pool, u, hpool, hafter⟩ := Reading.bind_eq_ok.1 hrest
    obtain ⟨hresolve, rfl⟩ := Reading.settled_eq_ok.1 hpool
    have hclear := Header.read_yields k _ _ _ hheader
    have hresolve' := Header.resolve_eq_ok.1 hresolve
    have hpool : pool.Clear k := by
      refine Pool.resolve_clear hclear.asRead hclear.entries hresolve' ?_
      rwa [← readAfterPool_pool _ _ _ _ _ hafter]
    refine readAfterPool_yields hclear hpool ?_ _ _ _ hafter
    obtain ⟨name, rfl, -⟩ := Pool.resolve_ok hclear.asRead hresolve'
    exact hclear.count

end ClassFile

theorem ClassForm.nestedPool_textsLack (k : Control) : nestedPool.TextsLack k := by
  have hprinted : ∀ c ∈ nestedPool.constants, ∀ s ∈ c.payload.text?, Printed s := by
    decide +kernel
  exact fun c hc s hs => .printed (hprinted c hc s hs)

end ClassAtlas
