import ClassAtlas.Proofs.Indifference

/-! # Labels that are numbers

The byte map calls a span by its name or text, else by its size when it is wider than eight bytes, else
by its number. Only an unsigned word of at most four bytes comes to be called by its number, and then
the number is that of its bytes: signed words, jumps and words of eight bytes all have names. Bytes
without an interpretation have no number and no name, so that up to eight of them are called 0.

* `Datum.Numbered`: the label of the value is its number.
* `Candid S ls`: no leaf is called by a number other than that of its bytes, but for those of values
  in `S`; `ClassForm.tree_candid` says it of a class file and its unread values.
* `Leaf.Sound.label`: the label of a candid leaf.
* `ClassFile.labels_tell`: the labels of a decoded file that are numbers, and those of skipped bytes.
-/

namespace ClassAtlas
set_option autoImplicit false

/-! ## Texts that are not empty -/

theorem int_text_ne_empty (n : Int) : toString n ≠ "" := by
  cases n with
  | ofNat n => exact Nat.repr_ne_empty
  | negSucc n =>
    rw [Int.toString_eq_repr, Int.repr]
    simp [String.append_eq_empty_iff]

namespace Decimal

theorem positional_ne_empty {ds : List Char} (h : ds ≠ []) (e : Int) : positional ds e ≠ "" := by
  unfold positional
  split <;> simp [String.ofList_eq_empty_iff, h]

theorem scientific_ne_empty (ds : List Char) (e : Int) : scientific ds e ≠ "" := by
  simp [scientific, String.append_eq_empty_iff]

theorem decimalText_ne_empty (n : Nat) (e : Int) : decimalText n e ≠ "" := by
  unfold decimalText
  dsimp only
  split
  · exact scientific_ne_empty _ e
  · exact positional_ne_empty Nat.toDigits_ne_nil e

theorem Format.literal_ne_empty (f : Format) (raw : Nat) : f.literal raw ≠ "" := by
  have hmagnitude : f.magnitude raw ≠ "" := by
    unfold magnitude
    dsimp only
    split
    · split
      · decide
      · exact decimalText_ne_empty _ _
    · exact decimalText_ne_empty _ _
  unfold literal
  dsimp only
  split
  · repeat' split
    all_goals decide
  · exact fun h => hmagnitude (String.append_eq_empty_iff.1 h).2

end Decimal

theorem Text.Modified.decode_ne_empty {bs : List UInt8} (h : bs ≠ []) : decode bs ≠ "" := by
  obtain ⟨b, bs, rfl⟩ := List.exists_cons_of_ne_nil h
  rw [decode, chars]
  simp [String.ofList_eq_empty_iff]

/-! ## Candid leaves -/

/-- The leaf is padding, has a name or no width, or is an unsigned word that is not of eight bytes. -/
def Leaf.Candid (l : Leaf) : Prop :=
  l.datum.kind = .padding ∨ l.datum.name ≠ "" ∨ l.datum.width = 0
    ∨ l.role.isPlain = true ∧ l.datum.width ≠ 8

/-- The leaves are candid, but for those of values in `S`. -/
def Candid (S : Datum → Prop) (ls : List Leaf) : Prop :=
  ∀ l ∈ ls, l.Candid ∨ S l.datum

namespace Candid

variable {S : Datum → Prop} {ls ms : List Leaf} {role : Role} {d : Datum}

theorem nil : Candid S [] := by
  simp [Candid]

theorem cons {l : Leaf} (hl : l.Candid) (h : Candid S ls) : Candid S (l :: ls) :=
  List.forall_mem_cons.2 ⟨.inl hl, h⟩

theorem named (hname : d.name ≠ "") (h : Candid S ls) : Candid S (⟨role, d⟩ :: ls) :=
  cons (.inr (.inl hname)) h

theorem word (width : Nat) (hrole : role.isPlain = true) (hwidth : d.width = width) (h8 : width ≠ 8)
    (h : Candid S ls) : Candid S (⟨role, d⟩ :: ls) :=
  cons (.inr (.inr (.inr ⟨hrole, hwidth ▸ h8⟩))) h

/-- A word of two bytes. -/
theorem short (hrole : role.isPlain = true) (hwidth : d.width = 2) (h : Candid S ls) :
    Candid S (⟨role, d⟩ :: ls) :=
  word 2 hrole hwidth (by decide) h

theorem append (h : Candid S ls) (h' : Candid S ms) : Candid S (ls ++ ms) := by
  intro l hl
  rcases List.mem_append.1 hl with hl | hl
  · exact h l hl
  · exact h' l hl

theorem flatMap {α : Type} {leaves : α → List Leaf} {as : List α}
    (h : ∀ a ∈ as, Candid S (leaves a)) : Candid S (as.flatMap leaves) := by
  intro l hl
  obtain ⟨a, ha, hl⟩ := List.mem_flatMap.1 hl
  exact h a ha l hl

theorem map {α : Type} {leaf : α → Leaf} {as : List α} (h : ∀ a ∈ as, (leaf a).Candid) :
    Candid S (as.map leaf) := by
  intro l hl
  obtain ⟨a, ha, rfl⟩ := List.mem_map.1 hl
  exact .inl (h a ha)

section

variable {ι α : Type} {F : Format ι α} {leaves : α → List Leaf}

theorem placeAll (h : ∀ x pos, Candid S (leaves (F.place pos x))) (pos : Nat) (xs : List ι) :
    Candid S ((F.placeAll pos xs).flatMap leaves) := by
  refine flatMap fun a ha => ?_
  obtain ⟨x, -, p, rfl⟩ := Format.mem_placeAll ha
  exact h x p

theorem counted (h : ∀ x pos, Candid S (leaves (F.place pos x))) (pos : Nat) (xs : List ι) :
    Candid S (⟨.number, (F.counted.place pos xs).1⟩ :: (F.counted.place pos xs).2.flatMap leaves) :=
  short rfl rfl (placeAll h (pos + 2) xs)

end

theorem values {ι : Type} {F : Format ι Datum} (h : ∀ x pos, Leaf.Candid ⟨role, F.place pos x⟩)
    (pos : Nat) (xs : List ι) : Candid S (role.all (F.placeAll pos xs)) := by
  refine map fun d hd => ?_
  obtain ⟨x, -, p, rfl⟩ := Format.mem_placeAll hd
  exact h x p

theorem references (pool : Pool) (pos : Nat) (is : List Nat) :
    Candid S (Role.all .reference (pool.referenceFormat.placeAll pos is)) :=
  values (fun _ _ => .inr (.inr (.inr ⟨rfl, (by decide : 2 ≠ 8)⟩))) pos is

end Candid

/-! ## Instructions -/

section

variable {S : Datum → Prop} (pool : Pool)

/-- An operand that is a signed word or a jump has a name. -/
theorem Operand.place_candid (pc pos : Nat) (o : Operand) :
    Leaf.Candid ⟨.ofOperand pc o.kind, o.place pool pc pos⟩ := by
  obtain ⟨kind, v⟩ := o
  cases kind with
  | s1 | s2 | s4 | branch2 | branch4 => exact .inr (.inl (int_text_ne_empty _))
  | padding => exact .inl rfl
  | _ => exact .inr (.inr (.inr ⟨rfl, by simp [place, OperandKind.width]⟩))

namespace Op

theorem operands_candid {pc pos : Nat} {os : List Operand} {ds : List Datum}
    (hds : ds ⊆ (Operand.format pool pc).placeAll pos os) {i : Instruction} (hi : i.pc = pc) :
    Candid S (ds.map i.operandLeaf) := by
  refine .map fun d hd => ?_
  obtain ⟨o, -, p, rfl⟩ := Format.mem_placeAll (hds hd)
  rw [Instruction.operandLeaf, hi]
  exact o.place_candid pool pc p

theorem padding_candid (i : Instruction) (pos : Nat) (padding : List UInt8) :
    Candid S ((paddingAt pos padding).map i.operandLeaf) := by
  unfold paddingAt
  split
  · exact .cons (.inl rfl) .nil
  · exact .nil

theorem partLeaves_candid (base pc : Nat) (op : Op) :
    Candid S (op.place pool base pc).partLeaves := by
  have hjump : ∀ pos v, Leaf.Candid ⟨.jump pc, Operand.place pool pc pos ⟨.branch4, v⟩⟩ :=
    fun pos v => Operand.place_candid pool pc pos ⟨.branch4, v⟩
  have hsigned : ∀ pos v, Leaf.Candid ⟨.signed, Operand.place pool pc pos ⟨.s4, v⟩⟩ :=
    fun pos v => Operand.place_candid pool pc pos ⟨.s4, v⟩
  cases op with
  | fixed code os =>
    exact .append (.append (.word 1 rfl rfl (by decide)
      (operands_candid pool List.filter_sublist.subset rfl))
      (operands_candid pool List.filter_sublist.subset rfl)) .nil
  | wide code os =>
    exact .append (.append (.word 1 rfl rfl (by decide) (.word 1 rfl rfl (by decide)
      (operands_candid pool (List.Subset.refl _) rfl))) .nil) .nil
  | range padding default low high vs =>
    exact .append (.append (.word 1 rfl rfl (by decide) .nil) (padding_candid _ _ padding))
      (.cons (hjump _ _) (.cons (hsigned _ _) (.cons (hsigned _ _)
        (.values (fun v p => hjump p v) _ vs))))
  | pairs padding default es =>
    refine .append (.append (.word 1 rfl rfl (by decide) .nil) (padding_candid _ _ padding))
      (.cons (hjump _ _) (.cons (hsigned _ _) (.placeAll (fun e p => ?_) _ es)))
    exact .cons (hsigned _ _) (.cons (hjump _ _) .nil)

theorem place_candid (base pc : Nat) (op : Op) : Candid S (op.place pool base pc).leaves := by
  intro l hl
  unfold Instruction.leaves at hl
  exact partLeaves_candid pool base pc op l (List.mem_mergeSort.1 hl)

end Op

theorem Bytecode.placeFrom_candid (base pc : Nat) (ops : List Op) :
    Candid S ((placeFrom pool base pc ops).flatMap Instruction.leaves) := by
  induction ops generalizing pc with
  | nil => exact .nil
  | cons op ops ih =>
    rw [placeFrom, List.flatMap_cons]
    exact (op.place_candid pool base pc).append (ih _)

/-! ## Attributes -/

/-- Of the bodies, only one without an interpretation is not candid. -/
theorem BodyForm.place_candid (pos : Nat) (b : BodyForm)
    (hskipped : ∀ d, b.place pool pos = .uninterpreted d → S d) :
    Candid S (b.place pool pos).leaves := by
  cases b with
  | constantValue i | sourceFile i | signature i | nestHost i => exact .short rfl rfl .nil
  | classList is => exact .short rfl rfl (.references pool (pos + 2) is)
  | nestedClasses rows =>
    refine .counted (fun r p => ?_) pos rows
    exact .short rfl rfl (.short rfl rfl (.short rfl rfl (.short rfl rfl .nil)))
  | bootstrapMethods rows =>
    refine .counted (fun r p => ?_) pos rows
    exact .short rfl rfl (.short rfl rfl (.references pool (p + 4) r.arguments))
  | lineNumbers rows =>
    refine .counted (fun r p => ?_) pos rows
    exact .short rfl rfl (.short rfl rfl .nil)
  | localVariables rows =>
    refine .counted (fun r p => ?_) pos rows
    exact .short rfl rfl (.short rfl rfl (.short rfl rfl (.short rfl rfl (.short rfl rfl .nil))))
  | marker => exact .nil
  | uninterpreted bs => exact List.forall_mem_singleton.2 (.inr (hskipped _ rfl))

theorem FrameForm.place_candid (pos count : Nat) (f : FrameForm) :
    Candid S (f.place pool pos count).leaves := by
  have hcode := Bytecode.placeFrom_candid (S := S) pool (pos + 8) 0 f.code
  have hhandlers : Candid S (⟨.number, (f.place pool pos count).handlerCount⟩
      :: (f.place pool pos count).handlers.flatMap Handler.leaves) := by
    refine .counted (fun r p => ?_) _ f.handlers
    exact .short rfl rfl (.short rfl rfl (.short rfl rfl (.short rfl rfl .nil)))
  exact .append (.append (.short rfl rfl (.short rfl rfl (.word 4 rfl rfl (by decide) hcode)))
    hhandlers) (.short rfl rfl .nil)

end

namespace AttributeForm

variable {cf : ClassFile} (pool : Pool)

mutual

/-- The leaves of an attribute in a list of the file. -/
theorem place_candid {count : Datum} {as : List Attribute} (has : cf.Lists count as) (pos : Nat)
    (form : AttributeForm) (hmem : form.place pool pos ∈ as) :
    Candid cf.Unread (form.place pool pos).leaves := by
  cases form with
  | simple name body =>
    rw [place] at hmem ⊢
    rw [Attribute.leaves]
    refine .short rfl rfl (.word 4 rfl rfl (by decide) (body.place_candid pool (pos + 6) fun d hd => ?_))
    rw [hd] at hmem
    exact .body has hmem
  | code name frame attributes =>
    rw [place] at hmem ⊢
    rw [Attribute.leaves]
    refine .append (.short rfl rfl (.word 4 rfl rfl (by decide) (frame.place_candid pool _ _))) ?_
    exact placeList_candid (.nested has hmem) _ attributes (List.Subset.refl _)

theorem placeList_candid {count : Datum} {as : List Attribute} (has : cf.Lists count as) (pos : Nat)
    (forms : List AttributeForm) (hsub : placeList pool pos forms ⊆ as) :
    Candid cf.Unread (Attribute.leavesOfList (placeList pool pos forms)) := by
  cases forms with
  | nil =>
    rw [placeList, Attribute.leavesOfList]
    exact .nil
  | cons form forms =>
    rw [placeList] at hsub ⊢
    rw [Attribute.leavesOfList]
    obtain ⟨hmem, hrest⟩ := List.cons_subset.1 hsub
    exact (place_candid has pos form hmem).append (placeList_candid has _ forms hrest)

end

end AttributeForm

/-! ## Class files -/

theorem MemberForm.place_candid {cf : ClassFile} {pool : Pool} {flags : FlagTable} {pos : Nat}
    {m : MemberForm}
    (has : cf.Lists (m.place pool flags pos).attributeCount (m.place pool flags pos).attributes) :
    Candid cf.Unread (m.place pool flags pos).leaves :=
  .short rfl rfl (.short rfl rfl (.short rfl rfl (.short rfl rfl
    (AttributeForm.placeList_candid pool has _ m.attributes (List.Subset.refl _)))))

theorem MemberForm.placeAll_candid {cf : ClassFile} {pool : Pool} {flags : FlagTable} (pos : Nat)
    (ms : List MemberForm)
    (hlists : ∀ m ∈ (format pool flags).placeAll pos ms, cf.Lists m.attributeCount m.attributes) :
    Candid cf.Unread (((format pool flags).placeAll pos ms).flatMap Member.leaves) := by
  refine .flatMap fun m hm => ?_
  have has := hlists m hm
  obtain ⟨form, -, p, rfl⟩ := Format.mem_placeAll hm
  exact place_candid has

/-- The texts, the signed numbers and the numbers of eight bytes in the pool have names. -/
theorem ConstantForm.place_candid {S : Datum → Prop} (name : Int → String) (index pos : Nat)
    (form : ConstantForm) : Candid S ((form.place index pos).under name).leaves := by
  refine .word 1 rfl rfl (by decide) ?_
  cases form with
  | utf8 bs =>
    refine .short rfl rfl (.cons ?_ .nil)
    by_cases hnil : bs = []
    · rw [hnil]
      exact .inr (.inr (.inl rfl))
    · exact .inr (.inl (Text.Modified.decode_ne_empty hnil))
  | integer v => exact .named (int_text_ne_empty v) .nil
  | float n => exact .word 4 rfl rfl (by decide) .nil
  | long n => exact .named (int_text_ne_empty _) .nil
  | double n => exact .named (Decimal.Format.literal_ne_empty _ n) .nil
  | classInfo a | string a | methodType a | moduleInfo a | packageInfo a => exact .short rfl rfl .nil
  | fieldref a b | methodref a b | interfaceMethodref a b | nameAndType a b | dynamic a b
  | invokeDynamic a b => exact .short rfl rfl (.short rfl rfl .nil)
  | methodHandle a b => exact .word 1 rfl rfl (by decide) (.short rfl rfl .nil)

theorem Pool.constants_candid {S : Datum → Prop} (name : Int → String) (pos : Nat)
    (slots : List (Option ConstantForm)) :
    Candid S (((PoolForm.place pos slots).under name).constants.flatMap Constant.leaves) := by
  rw [constants_under]
  refine .flatMap fun c hc => ?_
  obtain ⟨raw, hraw, rfl⟩ := List.mem_map.1 hc
  have hslot : some raw ∈ PoolForm.placeSlots 0 (pos + 2) slots := by
    simpa [constants, PoolForm.place] using hraw
  obtain ⟨i, hi⟩ := List.getElem?_of_mem hslot
  obtain ⟨form, p, -, rfl⟩ := placeSlots_getElem? hi
  exact form.place_candid name _ p

/-- The leaves of a class file are candid, but for its unread values. -/
theorem ClassForm.tree_candid {pool : Pool} {c : ClassForm} (h : c.Legal pool)
    (trailing : List UInt8) :
    Candid (c.tree pool trailing).Unread (c.tree pool trailing).leaves := by
  obtain ⟨hcount, hpool⟩ : pool.count.width = 2
      ∧ Candid (c.tree pool trailing).Unread (pool.constants.flatMap Constant.leaves) := by
    obtain ⟨name, rfl, -⟩ := Pool.resolve_ok (Pool.asRead_place h.header.slots 8) h.named
    exact ⟨rfl, Pool.constants_candid name 8 c.slots⟩
  have hfields : Candid (c.tree pool trailing).Unread
      ((c.tree pool trailing).fields.flatMap Member.leaves) :=
    MemberForm.placeAll_candid _ c.fields fun m hm => .ofField hm
  have hmethods : Candid (c.tree pool trailing).Unread
      ((c.tree pool trailing).methods.flatMap Member.leaves) :=
    MemberForm.placeAll_candid _ c.methods fun m hm => .ofMethod hm
  have hattributes : Candid (c.tree pool trailing).Unread
      (Attribute.leavesOfList (c.tree pool trailing).attributes) :=
    AttributeForm.placeList_candid pool .ofClass _ c.attributes (List.Subset.refl _)
  have htrailing : Candid (c.tree pool trailing).Unread
      (Role.all .bulk (c.tree pool trailing).trailing.toList) := by
    intro l hl
    obtain ⟨d, hd, rfl⟩ := List.mem_map.1 hl
    exact .inr (.trailing (Option.mem_toList.1 hd))
  have hinterfaces : Candid (c.tree pool trailing).Unread
      (Role.all .reference (c.tree pool trailing).interfaces) :=
    .references pool _ c.interfaces
  have hversions : Candid (c.tree pool trailing).Unread (Role.all .number
      [(c.tree pool trailing).magic, (c.tree pool trailing).minorVersion,
        (c.tree pool trailing).majorVersion, pool.count]) :=
    .word 4 rfl rfl (by decide) (.short rfl rfl (.short rfl rfl (.short rfl hcount .nil)))
  have hfront := hversions.append hpool
  exact .append (.append (.append (.append (.append (.append hfront (.short rfl rfl (.short rfl rfl
    (.short rfl rfl (.short rfl rfl .nil))))) hinterfaces) (.short rfl rfl hfields))
    (.short rfl rfl hmethods)) (.short rfl rfl hattributes)) htrailing

/-! ## Labels -/

/-- The label of the value is its number. -/
structure Datum.Numbered (d : Datum) : Prop where
  padding : d.kind ≠ .padding
  reserved : d.kind ≠ .reserved
  name : d.name = ""
  str : d.str = ""
  width : d.width ≤ 8

theorem Datum.Numbered.label_eq {d : Datum} (h : d.Numbered) : d.label = toString d.num := by
  have hwidth := Nat.not_lt.2 h.width
  simp [Datum.label, h.padding, h.reserved, h.name, h.str, hwidth]

theorem Datum.label_ofSkipped (pos : Nat) (bs : List UInt8) :
    (ofSkipped pos bs).label = if 8 < bs.length then toString bs.length ++ " bytes" else "0" := by
  have hzero : Int.repr 0 = "0" := rfl
  simp [Datum.label, ofSkipped, hzero]

/-- A candid leaf that is called by its number is called by that of its bytes. -/
theorem Leaf.Sound.label {pool : Pool} {l : Leaf} {bs : List UInt8} (h : l.Sound pool bs)
    (hcandid : l.Candid) (hnumber : l.datum.Numbered) (hwidth : 0 < l.datum.width) :
    l.datum.label = toString (Window.bigEndian bs) := by
  obtain hpadding | hname | hempty | ⟨hplain, h8⟩ := hcandid
  · exact absurd hpadding hnumber.padding
  · exact absurd hnumber.name hname
  · omega
  · have hbulk : l.role ≠ .bulk := by
      intro hbulk
      rw [hbulk] at hplain
      cases hplain
    have hmeaning : l.role.meaning l.datum.width l.datum.raw = l.datum.raw := by
      cases hrole : l.role <;> rw [hrole] at hplain <;> first | exact if_neg h8 | cases hplain
    have hshows := h.shows
    unfold Shows at hshows
    rw [if_neg hbulk] at hshows
    rw [hnumber.label_eq, hshows.num, hmeaning, hshows.raw]
    rfl

namespace ClassFile

variable {bytes : List UInt8} {cf : ClassFile} {d : Datum}

/-- The value is a body without an interpretation, or what follows the class. -/
def Skipped (cf : ClassFile) (d : Datum) : Prop :=
  cf.Unread d ∧ d.kind ≠ .padding

theorem Skipped.eq_ofSkipped (h : decode bytes = .ok cf) (hd : cf.Skipped d) :
    ∃ pos bs, d = Datum.ofSkipped pos bs := by
  obtain ⟨c, pool, trailing, hlegal, rfl, rfl⟩ := decode_eq_ok.1 h
  obtain ⟨hunread, hkind⟩ := hd
  cases hunread with
  | body has ha =>
    obtain ⟨form, pos, -, hplace⟩ := has.body_written hlegal ha
    cases form with
    | uninterpreted bs => exact ⟨pos, bs, (Body.uninterpreted.inj hplace).symm⟩
    | _ => cases hplace
  | padding has ha hi hd hpadding => exact absurd hpadding hkind
  | trailing hd =>
    have htrailing : ClassForm.trailingAt c.bytes.length trailing = some d := hd
    unfold ClassForm.trailingAt at htrailing
    split at htrailing
    · cases htrailing
    · exact ⟨_, trailing, (Option.some.inj htrailing).symm⟩

/-- The label of skipped bytes is their size only when there are more than eight of them. -/
theorem Skipped.label (h : decode bytes = .ok cf) (hd : cf.Skipped d) :
    d.label = if 8 < d.width then toString d.width ++ " bytes" else "0" := by
  obtain ⟨pos, bs, rfl⟩ := hd.eq_ofSkipped h
  exact Datum.label_ofSkipped pos bs

/-- A span that was not skipped is the value of a candid leaf, which stands for its bytes. -/
theorem label_of_numbered (h : decode bytes = .ok cf) (hd : d ∈ cf.spans) (hnumber : d.Numbered)
    (hskipped : ¬ cf.Skipped d) :
    d.label = toString (Window.bigEndian ((bytes.drop d.offset).take d.width)) := by
  obtain ⟨hdata, hwidth⟩ := List.mem_filter.1 hd
  rw [← map_datum_leaves] at hdata
  obtain ⟨l, hl, rfl⟩ := List.mem_map.1 hdata
  obtain ⟨-, -, hsound⟩ := (leaves_spell h).sound_of_mem hl
  have hcandid : l.Candid := by
    obtain ⟨c, pool, trailing, hlegal, rfl, rfl⟩ := decode_eq_ok.1 h
    refine (ClassForm.tree_candid hlegal trailing l hl).resolve_right fun hunread => ?_
    exact hskipped ⟨hunread, hnumber.padding⟩
  exact hsound.label hcandid hnumber (of_decide_eq_true hwidth)

/-- Labels that are numbers are those of the bytes, and those of skipped bytes are their sizes. -/
structure Labelled (cf : ClassFile) (bytes : List UInt8) : Prop where
  numbers : ∀ d ∈ cf.spans, d.Numbered →
    d.label = toString (Window.bigEndian ((bytes.drop d.offset).take d.width))
  sizes : ∀ d ∈ cf.spans, cf.Skipped d → d.label = toString d.width ++ " bytes"

/-- **Labels that are numbers.** In the byte map of a decoded file a label that is a number is the
unsigned number of the bytes of its span, if the span was not skipped. Skipped bytes are called by
their size if there are more than eight, and 0 otherwise, whatever they are. So numbers are always those
of the bytes, and skipped bytes always called by their size, exactly in the files in which no span of
eight bytes or less is skipped. -/
theorem labels_tell (h : decode bytes = .ok cf) :
    (∀ d ∈ cf.spans, d.Numbered → ¬ cf.Skipped d →
        d.label = toString (Window.bigEndian ((bytes.drop d.offset).take d.width)))
      ∧ (∀ d ∈ cf.spans, cf.Skipped d →
        d.label = if 8 < d.width then toString d.width ++ " bytes" else "0")
      ∧ (cf.Labelled bytes ↔ ∀ d ∈ cf.spans, cf.Skipped d → 8 < d.width) := by
  have hsize : ∀ n : Nat, "0" ≠ toString n ++ " bytes" := by
    intro n heq
    have hlen := congrArg String.length heq
    rw [String.length_append] at hlen
    have hzero : "0".length = 1 := by decide
    have hbytes : " bytes".length = 6 := by decide
    omega
  refine ⟨fun d => label_of_numbered h, fun d _ hd => hd.label h, fun hlabelled d hd hskipped => ?_,
    fun hwide => ⟨fun d hd hnumber => ?_, fun d hd hskipped => ?_⟩⟩
  · refine Decidable.byContradiction fun hle => ?_
    have hlabel := hskipped.label h
    rw [if_neg hle, hlabelled.sizes d hd hskipped] at hlabel
    exact hsize d.width hlabel.symm
  · refine label_of_numbered h hd hnumber fun hskipped => ?_
    have := hwide d hd hskipped
    have := hnumber.width
    omega
  · rw [hskipped.label h, if_pos (hwide d hd hskipped)]

theorem labels_tell_switching :
    let bytes := ClassForm.switching.bytes ++ [1, 2]
    let cf := ClassForm.switching.tree ClassForm.nestedPool [1, 2]
    decode bytes = .ok cf
      ∧ (∀ d ∈ cf.spans, d.Numbered → ¬ cf.Skipped d →
        d.label = toString (Window.bigEndian ((bytes.drop d.offset).take d.width)))
      ∧ (∀ d ∈ cf.spans, cf.Skipped d →
        d.label = if 8 < d.width then toString d.width ++ " bytes" else "0")
      ∧ (cf.Labelled bytes ↔ ∀ d ∈ cf.spans, cf.Skipped d → 8 < d.width) := by
  intro bytes cf
  have h : decode bytes = .ok cf := decode_eq_ok.2 ⟨_, _, _, ClassForm.switching_legal, rfl, rfl⟩
  exact ⟨h, labels_tell h⟩

/-- The two bytes after the class are called 0, which is neither their number nor their size. -/
theorem labels_tell_trailing :
    let bytes := ClassForm.nested.bytes ++ [1, 2]
    let cf := ClassForm.nested.tree ClassForm.nestedPool [1, 2]
    decode bytes = .ok cf
      ∧ (∃ d ∈ cf.spans, cf.Skipped d ∧ d.Numbered ∧ (bytes.drop d.offset).take d.width = [1, 2]
        ∧ d.label = "0" ∧ Window.bigEndian [1, 2] = 258)
      ∧ ¬ cf.Labelled bytes := by
  intro bytes cf
  have h : decode bytes = .ok cf := decode_eq_ok.2 ⟨_, _, _, ClassForm.nested_legal, rfl, rfl⟩
  let d := Datum.ofSkipped ClassForm.nested.bytes.length [1, 2]
  have htrailing : cf.trailing = some d := rfl
  have hmem : d ∈ cf.spans := by
    refine List.mem_filter.2 ⟨List.mem_append_right _ ?_, rfl⟩
    rw [htrailing]
    exact .head _
  have hkind : d.kind = .structural := rfl
  have hskipped : cf.Skipped d := ⟨.trailing htrailing, by simp [hkind]⟩
  have hnumber : d.Numbered := ⟨by simp [hkind], by simp [hkind], rfl, rfl, (by decide : 2 ≤ 8)⟩
  have hbytes : (bytes.drop d.offset).take d.width = [1, 2] := by
    show (List.drop ClassForm.nested.bytes.length (ClassForm.nested.bytes ++ [1, 2])).take 2 = [1, 2]
    rw [List.drop_left]
    rfl
  have hlabel : d.label = "0" := Datum.label_ofSkipped _ [1, 2]
  refine ⟨h, ⟨d, hmem, hskipped, hnumber, hbytes, hlabel, by decide⟩, fun hlabelled => ?_⟩
  have heq := hlabelled.numbers d hmem hnumber
  rw [hlabel, hbytes] at heq
  revert heq
  decide +kernel

end ClassFile

end ClassAtlas
