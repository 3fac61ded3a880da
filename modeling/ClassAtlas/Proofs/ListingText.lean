import ClassAtlas.Listing.ByteMap
import ClassAtlas.Listing.Class
import ClassAtlas.Proofs.Lettering
import ClassAtlas.Proofs.Sizes

/-! # What listings are made of

A listing breaks its lines itself: in fragments of their own, between fragments whose text comes from
the class. When a control character stands in no name of the class, it stands in no other fragment
of the listing, and none of the listings below the summary has a title.

* `Fragment.Clear k`: an end of line, or a fragment that is no title and lacks the control character.
* `Document.Clear k`: a listing of such fragments.
* `instruction_clear`, `body_clear`, `frame_clear`, `attributes_clear`: code and attributes.
* `pool_clear`, `member_clear`, `classFile_clear`, `byteMap_clear`: the other listings.
-/

namespace ClassAtlas.Listing
set_option autoImplicit false

variable {k : Control}

/-- The text of a fragment, as it is given to a theme. -/
def Fragment.content : Fragment → String
  | .text s => s
  | .token _ s => s

/-- An end of line, or a fragment that is no title and lacks the control character. -/
def Fragment.Clear (k : Control) : Fragment → Prop
  | .text s => s = "\n" ∨ Lacks k s
  | .token role s => role ≠ .title ∧ Lacks k s

/-- All fragments of the listing are clear. -/
def Document.Clear (k : Control) (d : Document) : Prop :=
  ∀ f ∈ d, f.Clear k

/-! ## Listings from listings -/

@[simp] theorem clear_nil : Document.Clear k [] :=
  List.forall_mem_nil _

@[simp] theorem clear_cons {f : Fragment} {d : Document} :
    Document.Clear k (f :: d) ↔ f.Clear k ∧ Document.Clear k d :=
  List.forall_mem_cons

@[simp] theorem clear_append {d e : Document} :
    Document.Clear k (d ++ e) ↔ Document.Clear k d ∧ Document.Clear k e :=
  List.forall_mem_append

theorem clear_flatMap {α : Type} {as : List α} {g : α → Document}
    (h : ∀ a ∈ as, Document.Clear k (g a)) : Document.Clear k (as.flatMap g) := by
  intro f hf
  obtain ⟨a, ha, hf⟩ := List.mem_flatMap.1 hf
  exact h a ha f hf

theorem clear_ite {p : Prop} [Decidable p] {d e : Document} (hd : p → Document.Clear k d)
    (he : ¬ p → Document.Clear k e) : Document.Clear k (if p then d else e) := by
  split
  · exact hd ‹_›
  · exact he ‹_›

@[simp] theorem clear_newline : newline.Clear k :=
  .inl rfl

@[simp] theorem clear_token {role : Role} {s : String} :
    (Fragment.token role s).Clear k ↔ role ≠ .title ∧ Lacks k s :=
  Iff.rfl

/-- Text that is no end of line. -/
theorem clear_text {s : String} (h : Lacks k s) : (Fragment.text s).Clear k :=
  .inr h

/-- A word of the listing. -/
theorem clear_word {s : String} (h : Printed s) : (Fragment.text s).Clear k :=
  .inr (.printed h)

theorem clear_separated {separator : String} {ds : List Document} (hsep : Lacks k separator)
    (h : ∀ d ∈ ds, Document.Clear k d) : Document.Clear k (separated separator ds) := by
  fun_induction separated separator ds with
  | case1 => exact clear_nil
  | case2 d => exact h d (.head _)
  | case3 d ds hne ih =>
    have hall := List.forall_mem_cons.1 h
    exact clear_append.2 ⟨hall.1, clear_cons.2 ⟨clear_text hsep, ih hall.2⟩⟩

theorem lacks_indent : Lacks k indent :=
  .printed (by decide)

@[simp] theorem lacks_numeral (width : Nat) (n : Int) : Lacks k (numeral width n) :=
  Text.lacks_justifyRight.2 (lacks_int n)

/-! ## Instructions -/

theorem target_mem_data {t : SwitchTable} {c : SwitchCase} (h : c ∈ t.cases) : c.target ∈ t.data := by
  have hrange : ∀ (targets : List Datum) (key : Int), c ∈ SwitchTable.rangeCases key targets →
      c.target ∈ targets := by
    intro targets
    induction targets with
    | nil => exact fun _ hc => nomatch hc
    | cons target targets ih =>
      intro key hc
      rcases List.mem_cons.1 hc with rfl | hc
      · exact .head _
      · exact .tail _ (ih _ hc)
  cases t with
  | range default low high targets => exact .tail _ (.tail _ (.tail _ (hrange _ _ h)))
  | pairs default count entries =>
    obtain ⟨⟨key, target⟩, hmem, rfl⟩ := List.mem_map.1 h
    exact .tail _ (.tail _ (List.mem_flatMap.2 ⟨_, hmem, .tail _ (.head _)⟩))

section

variable {pad : String} (hpad : Lacks k pad)

include hpad

theorem switchCase_clear {key : String} {target : Datum} (hkey : Lacks k key)
    (htarget : target.Clear k) : Document.Clear k (switchCase pad key target) := by
  have hfront : Lacks k (pad ++ Text.justifyRight 12 key ++ ": ") :=
    lacks_append.2 ⟨lacks_append.2 ⟨hpad, Text.lacks_justifyRight.2 hkey⟩, .printed (by decide)⟩
  simp [switchCase, clear_text hfront, htarget.name]

theorem switchTable_clear {t : SwitchTable} (ht : AllClear k t.data) :
    Document.Clear k (switchTable pad t) := by
  have hcomment : Lacks k (switchComment t) := by
    cases t with
    | range default low high targets =>
      exact lacks_append.2 ⟨lacks_append.2 ⟨lacks_append.2 ⟨.printed (by decide), lacks_int _⟩,
        .printed (by decide)⟩, lacks_int _⟩
    | pairs default count entries => exact lacks_append.2 ⟨.printed (by decide), lacks_int _⟩
  have hdefault : t.default.Clear k := by
    cases t <;> exact ht _ (.head _)
  have hrows : Document.Clear k
      (t.cases.flatMap fun c => switchCase pad (toString c.key) c.target) :=
    clear_flatMap fun c hc => switchCase_clear hpad (lacks_int _) (ht _ (target_mem_data hc))
  have hend : Lacks k (pad ++ Text.justifyRight 7 "" ++ "\x7d") :=
    lacks_append.2 ⟨lacks_append.2 ⟨hpad, Text.lacks_justifyRight.2 lacks_empty⟩,
      .printed (by decide)⟩
  have hlast : Document.Clear k (switchCase pad "default" t.default) :=
    switchCase_clear hpad (.printed (by decide)) hdefault
  simp only [switchTable, clear_append, clear_cons, clear_token, clear_newline, clear_nil, and_true]
  exact ⟨⟨⟨⟨clear_word (by decide), by decide, hcomment⟩, hrows⟩, hlast⟩, clear_text hend⟩

omit hpad in
theorem argument_clear {d : Datum} (hd : d.Clear k) : Document.Clear k (argument d) := by
  have hname : ∀ role : Role, role ≠ .title → Document.Clear k [.token role d.name] :=
    fun role hrole => clear_cons.2 ⟨⟨hrole, hd.name⟩, clear_nil⟩
  unfold argument
  split
  · exact clear_cons.2
      ⟨clear_text (lacks_append.2 ⟨.printed (by decide), lacks_int _⟩), clear_nil⟩
  split
  · exact hname _ (by decide)
  split
  · exact hname _ (by decide)
  · exact clear_cons.2 ⟨clear_text hd.name, clear_nil⟩

omit hpad in
theorem arguments_clear {ds : List Datum} (hds : AllClear k ds) :
    Document.Clear k (arguments ds) := by
  have hwords : Document.Clear k (separated ", " (ds.map argument)) :=
    clear_separated (.printed (by decide))
      (List.forall_mem_map.2 fun d hd => argument_clear (hds d hd))
  have hcomments : ∀ s ∈ (ds.filter (·.kind.isConstant)).map (·.name), Lacks k s :=
    List.forall_mem_map.2 fun d hd => (hds d (List.mem_filter.1 hd).1).name
  have hcomment : Lacks k
      (", ".intercalate ((ds.filter (·.kind.isConstant)).map (·.name))) :=
    .intercalate (.printed (by decide)) hcomments
  refine clear_append.2 ⟨clear_append.2 ⟨?_, ?_⟩, by simp⟩
  · exact clear_ite (fun _ => clear_nil) fun _ => clear_cons.2 ⟨clear_word (by decide), hwords⟩
  · refine clear_ite (fun _ => clear_nil) fun _ => ?_
    simp only [clear_cons, clear_token, clear_nil, and_true]
    exact ⟨clear_word (by decide), by decide, lacks_append.2 ⟨.printed (by decide), hcomment⟩⟩

theorem instruction_clear {i : Instruction} (hi : AllClear k i.parts) :
    Document.Clear k (instruction pad i) := by
  have hall : i.opcode.Clear k ∧ AllClear k i.operands
      ∧ AllClear k ((i.switch.map SwitchTable.data).getD []) := by
    simp only [Instruction.parts, AllClear, List.cons_append, List.forall_mem_cons,
      List.forall_mem_append] at hi
    exact ⟨hi.1, hi.2.1.1, hi.2.2⟩
  obtain ⟨hopcode, hoperands, hswitch⟩ := hall
  have hfront : Document.Clear k [.text pad, .token .index (numeral 5 i.pc ++ ":"), .text " ",
      .token .mnemonic i.mnemonic] := by
    simp only [clear_cons, clear_token, clear_nil, and_true]
    exact ⟨clear_text hpad, ⟨by decide, lacks_append.2 ⟨lacks_numeral _ _, .printed (by decide)⟩⟩,
      clear_word (by decide), by decide, hopcode.name⟩
  refine clear_append.2 ⟨hfront, ?_⟩
  cases hs : i.switch with
  | some t => exact switchTable_clear hpad (by simpa [hs] using hswitch)
  | none => exact arguments_clear hoperands

/-! ## Bodies -/

omit hpad in
theorem oneName_clear {d : Datum} (hd : d.Clear k) : Document.Clear k (oneName d) := by
  simp only [oneName, clear_cons, clear_token, clear_newline, clear_nil, and_true]
  exact ⟨clear_word (by decide), by decide, hd.name⟩

theorem nestedClass_clear {r : NestedClass} (hr : AllClear k [r.inner, r.outer, r.name, r.flags]) :
    Document.Clear k (nestedClass pad r) := by
  have hword : ∀ {p : Prop} [Decidable p] {s : String} {d : Datum}, Printed s →
      d ∈ [r.inner, r.outer, r.name, r.flags] → Lacks k (if p then "" else s ++ d.name) := by
    intro p _ s d hs hd
    split
    · exact lacks_empty
    · exact lacks_append.2 ⟨.printed hs, (hr d hd).name⟩
  have hname : Lacks k (r.inner.name ++ (if r.outer.name = "" then "" else " of " ++ r.outer.name)
      ++ (if r.name.name = "" then "" else " as " ++ r.name.name)) :=
    lacks_append.2 ⟨lacks_append.2 ⟨(hr r.inner (by simp)).name, hword (by decide) (by simp)⟩,
      hword (by decide) (by simp)⟩
  refine clear_append.2 ⟨clear_cons.2 ⟨clear_text hpad, clear_ite (fun _ => clear_nil) fun _ => ?_⟩, ?_⟩
  · exact clear_cons.2 ⟨⟨by decide, (hr r.flags (by simp)).name⟩,
      clear_cons.2 ⟨clear_word (by decide), clear_nil⟩⟩
  · exact clear_cons.2 ⟨⟨by decide, hname⟩, by simp⟩

theorem bootstrapMethod_clear {m : BootstrapMethod}
    (hm : AllClear k (m.reference :: m.count :: m.arguments)) (number : Nat) :
    Document.Clear k (bootstrapMethod pad m number) := by
  have harguments : Document.Clear k (m.arguments.flatMap fun d =>
      [.text (pad ++ indent), .token .comment d.name, newline]) := by
    refine clear_flatMap fun d hd => ?_
    simp only [clear_cons, clear_token, clear_newline, clear_nil, and_true]
    exact ⟨clear_text (lacks_append.2 ⟨hpad, lacks_indent⟩), by decide,
      (hm d (.tail _ (.tail _ hd))).name⟩
  refine clear_append.2 ⟨?_, harguments⟩
  simp only [clear_cons, clear_token, clear_newline, clear_nil, and_true]
  exact ⟨clear_text hpad, ⟨by decide, lacks_nat _⟩, clear_word (by decide), by decide,
    (hm _ (.head _)).name⟩

theorem lineEntry_clear (e : LineEntry) : Document.Clear k (lineEntry pad e) := by
  have hline : Lacks k (pad ++ "line " ++ toString e.line.num ++ ": " ++ toString e.startPc.num) := by
    simp only [lacks_append]
    exact ⟨⟨⟨⟨hpad, .printed (by decide)⟩, lacks_int _⟩, .printed (by decide)⟩, lacks_int _⟩
  exact clear_cons.2 ⟨clear_text hline, by simp⟩

theorem localVariable_clear {v : LocalVariable}
    (hv : AllClear k [v.startPc, v.length, v.name, v.descriptor, v.index]) :
    Document.Clear k (localVariable pad v) := by
  have hscope : Lacks k (" " ++ numeral 5 v.startPc.num ++ " " ++ numeral 5 v.length.num ++ " ") := by
    simp only [lacks_append, lacks_numeral, and_true]
    exact ⟨⟨.printed (by decide), .printed (by decide)⟩, .printed (by decide)⟩
  have hdescriptor : Lacks k (" " ++ v.descriptor.name) :=
    lacks_append.2 ⟨.printed (by decide), (hv v.descriptor (by simp)).name⟩
  simp only [localVariable, clear_cons, clear_token, clear_newline, clear_nil, and_true]
  exact ⟨clear_text hpad, ⟨by decide, Text.lacks_justifyRight.2 (hv v.index (by simp)).name⟩,
    clear_text hscope, ⟨by decide, (hv v.name (by simp)).name⟩, clear_text hdescriptor⟩

theorem body_clear {b : Body} (hb : AllClear k b.data) : Document.Clear k (body pad b) := by
  have hpad' : Lacks k (pad ++ indent) := lacks_append.2 ⟨hpad, lacks_indent⟩
  have hrow : ∀ {α : Type} (values : α → List Datum) {rows : List α} {count : Datum} {a : α},
      AllClear k (count :: rows.flatMap values) → a ∈ rows → AllClear k (values a) :=
    fun _ _ _ _ h ha d hd => h d (.tail _ (List.mem_flatMap.2 ⟨_, ha, hd⟩))
  cases b with
  | constantValue d | sourceFile d | signature d | nestHost d => exact oneName_clear (hb d (.head _))
  | classList count classes =>
    refine clear_cons.2 ⟨clear_newline, clear_flatMap fun d hd => ?_⟩
    simp only [clear_cons, clear_token, clear_newline, clear_nil, and_true]
    exact ⟨clear_text hpad', by decide, (hb d (.tail _ hd)).name⟩
  | nestedClasses count rows =>
    refine clear_cons.2 ⟨clear_newline, clear_flatMap fun r hr => nestedClass_clear hpad' ?_⟩
    exact hrow (fun r : NestedClass => [r.inner, r.outer, r.name, r.flags]) hb hr
  | bootstrapMethods count methods =>
    refine clear_cons.2 ⟨clear_newline, clear_flatMap fun m hm => bootstrapMethod_clear hpad' ?_ _⟩
    exact hrow (fun m : BootstrapMethod => m.reference :: m.count :: m.arguments) hb
      (List.fst_mem_of_mem_zipIdx hm)
  | lineNumbers table =>
    exact clear_cons.2 ⟨clear_newline, clear_flatMap fun e _ => lineEntry_clear hpad' e⟩
  | localVariables length rows =>
    refine clear_cons.2 ⟨clear_newline, clear_flatMap fun v hv => localVariable_clear hpad' ?_⟩
    exact hrow (fun v : LocalVariable => [v.startPc, v.length, v.name, v.descriptor, v.index]) hb hv
  | marker => simp [body]
  | uninterpreted d =>
    simp only [body, clear_cons, clear_token, clear_newline, clear_nil, and_true]
    exact ⟨clear_word (by decide), by decide, lacks_append.2 ⟨lacks_nat _, .printed (by decide)⟩⟩

/-! ## Code and attributes -/

theorem handler_clear {h : Handler} (hh : AllClear k h.data) : Document.Clear k (handler pad h) := by
  have hrange : Lacks k (pad ++ indent ++ numeral 5 h.startPc.num ++ " " ++ numeral 5 h.endPc.num
      ++ " " ++ numeral 6 h.handlerPc.num ++ " ") := by
    simp only [lacks_append, lacks_numeral, and_true]
    exact ⟨⟨⟨⟨hpad, lacks_indent⟩, .printed (by decide)⟩, .printed (by decide)⟩,
      .printed (by decide)⟩
  simp only [handler, clear_cons, clear_token, clear_newline, clear_nil, and_true]
  exact ⟨clear_text hrange, by decide, (hh h.catchType (by simp [Handler.data])).name⟩

theorem handlers_clear {hs : List Handler} (hall : ∀ h ∈ hs, AllClear k h.data) :
    Document.Clear k (handlers pad hs) := by
  refine clear_ite (fun _ => clear_nil) fun _ => clear_append.2 ⟨?_, ?_⟩
  · simp only [clear_cons, clear_token, clear_newline, clear_nil, and_true, true_and]
    exact ⟨clear_text hpad, ⟨by decide, .printed (by decide)⟩, clear_text
      (lacks_append.2 ⟨lacks_append.2 ⟨hpad, lacks_indent⟩, .printed (by decide)⟩)⟩
  · exact clear_flatMap fun h hh => handler_clear hpad (hall h hh)

omit hpad in
/-- The values of the instructions and of the exception table. -/
theorem frame_parts {f : Frame} (hf : AllClear k f.data) :
    (∀ i ∈ f.instructions, AllClear k i.parts) ∧ ∀ h ∈ f.handlers, AllClear k h.data := by
  have hdata : f.data = f.maxStack :: f.maxLocals :: f.codeLength
      :: f.instructions.flatMap Instruction.data ++ f.handlerCount
      :: f.handlers.flatMap Handler.data ++ [f.attributeCount] := rfl
  simp only [hdata, AllClear, List.cons_append, List.forall_mem_cons, List.forall_mem_append] at hf
  obtain ⟨-, -, -, ⟨hinstructions, -, hhandlers⟩, -⟩ := hf
  refine ⟨fun i hi d hd => hinstructions d ?_, fun h hh d hd => hhandlers d ?_⟩
  · exact List.mem_flatMap.2 ⟨i, hi, List.mem_mergeSort.2 hd⟩
  · exact List.mem_flatMap.2 ⟨h, hh, hd⟩

theorem frame_clear {f : Frame} (hf : AllClear k f.data) : Document.Clear k (frame pad f) := by
  obtain ⟨hinstructions, hhandlers⟩ := frame_parts hf
  have hsizes : Lacks k (pad ++ "stack=" ++ toString f.maxStack.num ++ ", locals="
      ++ toString f.maxLocals.num ++ ", code_length=" ++ toString f.codeLength.num) := by
    simp only [lacks_append, lacks_int, and_true]
    exact ⟨⟨⟨hpad, .printed (by decide)⟩, .printed (by decide)⟩, .printed (by decide)⟩
  refine clear_append.2 ⟨clear_append.2 ⟨clear_cons.2 ⟨clear_text hsizes, by simp⟩, ?_⟩, ?_⟩
  · exact clear_flatMap fun i hi => instruction_clear hpad (hinstructions i hi)
  · exact handlers_clear hpad hhandlers

theorem attributeHeading_clear {a : Attribute} (ha : a.nameIndex.Clear k) :
    Document.Clear k (attributeHeading pad a) := by
  simp only [attributeHeading, clear_cons, clear_token, clear_nil, and_true]
  exact ⟨clear_text hpad, by decide, lacks_append.2 ⟨ha.name, .printed (by decide)⟩⟩

end

mutual

theorem attributeLines_clear {pad : String} (hpad : Lacks k pad) :
    ∀ a : Attribute, AllClear k a.data → Document.Clear k (attributeLines pad a)
  | .simple name length b, ha => by
    rw [Attribute.data] at ha
    rw [attributeLines]
    exact clear_append.2 ⟨attributeHeading_clear hpad (ha name (.head _)),
      body_clear hpad fun d hd => ha d (.tail _ (.tail _ hd))⟩
  | .code name length f as, ha => by
    rw [Attribute.data] at ha
    rw [attributeLines]
    have hpad' : Lacks k (pad ++ indent) := lacks_append.2 ⟨hpad, lacks_indent⟩
    have hframe := frame_clear hpad' (f := f) fun d hd =>
      ha d (.tail _ (.tail _ (List.mem_append_left _ hd)))
    have hnested := attributes_clear hpad' as fun d hd =>
      ha d (.tail _ (.tail _ (List.mem_append_right _ hd)))
    exact clear_append.2 ⟨clear_append.2 ⟨attributeHeading_clear hpad (ha name (.head _)),
      clear_cons.2 ⟨clear_newline, hframe⟩⟩, hnested⟩

theorem attributes_clear {pad : String} (hpad : Lacks k pad) :
    ∀ as : List Attribute, AllClear k (Attribute.dataOfList as) → Document.Clear k (attributes pad as)
  | [], _ => by
    rw [attributes]
    exact clear_nil
  | a :: as, has => by
    rw [Attribute.dataOfList] at has
    rw [attributes]
    have hall := List.forall_mem_append.1 has
    exact clear_append.2 ⟨attributeLines_clear hpad a hall.1, attributes_clear hpad as hall.2⟩

end

theorem code_clear {pad : String} (hpad : Lacks k pad) {c : Code} (hframe : AllClear k c.frame.data)
    (hattributes : AllClear k (Attribute.dataOfList c.attributes)) :
    Document.Clear k (code pad c) :=
  clear_append.2 ⟨frame_clear hpad hframe, attributes_clear hpad _ hattributes⟩

/-! ## The class -/

theorem summaryLine_clear {label : String} {value : Document} (hlabel : Lacks k label)
    (hvalue : Document.Clear k value) : Document.Clear k (summaryLine label value) := by
  have hfront : Lacks k (indent ++ Text.justifyLeft 14 (label ++ ":") ++ " ") :=
    lacks_append.2 ⟨lacks_append.2 ⟨lacks_indent,
      Text.lacks_justifyLeft.2 (lacks_append.2 ⟨hlabel, .printed (by decide)⟩)⟩,
      .printed (by decide)⟩
  exact clear_append.2 ⟨clear_cons.2 ⟨clear_text hfront, hvalue⟩, by simp⟩

theorem version_lacks (cf : ClassFile) : Lacks k cf.version := by
  refine lacks_append.2 ⟨?_, ?_⟩
  · exact lacks_append.2 ⟨lacks_append.2 ⟨lacks_int _, .printed (by decide)⟩, lacks_int _⟩
  · split
    · exact lacks_append.2
        ⟨lacks_append.2 ⟨.printed (by decide), lacks_release ‹_›⟩, .printed (by decide)⟩
    · exact lacks_empty

theorem sourceFile_lacks {cf : ClassFile} (h : AllClear k (Attribute.dataOfList cf.attributes)) :
    Lacks k cf.sourceFile := by
  unfold ClassFile.sourceFile
  cases hfile : cf.attributes.findSome? Attribute.sourceFile? with
  | none => exact lacks_empty
  | some s =>
    obtain ⟨a, ha, hs⟩ := List.exists_of_findSome?_eq_some hfile
    unfold Attribute.sourceFile? at hs
    split at hs
    · cases hs
      refine (h _ (Attribute.mem_dataOfList.2 ⟨_, ha, ?_⟩)).name
      rw [Attribute.data]
      exact .tail _ (.tail _ (.head _))
    · cases hs

theorem summary_eq (cf : ClassFile) :
    summary cf = .token .title cf.name :: (summary cf).tail := rfl

/-- What follows the title. -/
theorem summary_clear {cf : ClassFile} (h : cf.Clear k) : Document.Clear k (summary cf).tail := by
  have hdata : cf.magic.Clear k ∧ cf.accessFlags.Clear k ∧ cf.superClass.Clear k
      ∧ AllClear k cf.interfaces ∧ AllClear k (Attribute.dataOfList cf.attributes) :=
    ⟨h.data _ (by simp [ClassFile.data]), h.data _ (by simp [ClassFile.data]),
      h.data _ (by simp [ClassFile.data]), fun d hd => h.data d (by simp [ClassFile.data, hd]),
      fun d hd => h.data d (by simp [ClassFile.data, hd])⟩
  obtain ⟨hmagic, hflags, hsuper, hinterfaces, hattributes⟩ := hdata
  have htoken : ∀ {role : Role} {s : String}, role ≠ .title → Lacks k s →
      Document.Clear k [.token role s] :=
    fun hrole hs => clear_cons.2 ⟨⟨hrole, hs⟩, clear_nil⟩
  have htext : ∀ {s : String}, Lacks k s → Document.Clear k [.text s] :=
    fun hs => clear_cons.2 ⟨clear_text hs, clear_nil⟩
  have hnames : Document.Clear k
      (separated ", " (cf.interfaces.map fun d => [.token .name d.name])) :=
    clear_separated (.printed (by decide))
      (List.forall_mem_map.2 fun d hd => htoken (by decide) (hinterfaces d hd).name)
  have hmask : Lacks k ("(0x" ++ Text.hex 4 cf.accessFlags.raw ++ ") " ++ cf.accessFlags.name) := by
    simp only [lacks_append, Text.lacks_hex, and_true]
    exact ⟨⟨.printed (by decide), .printed (by decide)⟩, hflags.name⟩
  have htrailing : ∀ d : Datum,
      Lacks k (toString d.width ++ " bytes at offset " ++ toString d.offset) := fun d =>
    lacks_append.2 ⟨lacks_append.2 ⟨lacks_nat _, .printed (by decide)⟩, lacks_nat _⟩
  have hline : ∀ {label : String} {value : Document}, Printed label →
      Document.Clear k value → Document.Clear k (summaryLine label value) :=
    fun hlabel hvalue => summaryLine_clear (.printed hlabel) hvalue
  simp only [summary, List.cons_append, List.tail_cons, clear_append]
  refine ⟨⟨⟨⟨⟨⟨⟨⟨⟨⟨?_, by simp⟩, ?_⟩, hline (by decide) (htext (version_lacks cf))⟩, ?_⟩, ?_⟩, ?_⟩,
    hline (by decide) (htext (lacks_nat _))⟩, hline (by decide) (htext (lacks_nat _))⟩,
    hline (by decide) (htext (lacks_nat _))⟩, ?_⟩
  · exact clear_ite (fun _ => clear_cons.2 ⟨clear_word (by decide), htoken (by decide) hsuper.name⟩)
      fun _ => clear_nil
  · exact clear_ite (fun _ => clear_nil) fun _ => hline (by decide)
      (htoken (by decide) (lacks_append.2 ⟨hmagic.str, .printed (by decide)⟩))
  · exact hline (by decide) (htoken (by decide) hmask)
  · exact clear_ite (fun _ => clear_nil) fun _ => hline (by decide)
      (htext (sourceFile_lacks hattributes))
  · exact clear_ite (fun _ => clear_nil) fun _ => hline (by decide) hnames
  · split
    · exact hline (by decide) (htoken (by decide) (htrailing _))
    · exact clear_nil

theorem lacks_references (c : Constant) :
    Lacks k (".".intercalate (c.references.map fun d => "#" ++ toString d.num)) :=
  .intercalate (.printed (by decide)) (List.forall_mem_map.2 fun _ _ =>
    lacks_append.2 ⟨.printed (by decide), lacks_int _⟩)

theorem constantLine_clear {c : Constant} (hname : Lacks k c.name) (htag : c.tag.Clear k) :
    Document.Clear k (constantLine c) := by
  refine clear_append.2 ⟨?_, clear_ite (fun _ => ?_) fun _ => ?_⟩
  all_goals simp only [clear_cons, clear_token, clear_nil, and_true]
  · exact ⟨⟨by decide, Text.lacks_justifyRight.2
      (lacks_append.2 ⟨.printed (by decide), lacks_nat _⟩)⟩, clear_word (by decide), by decide,
      Text.lacks_justifyLeft.2 htag.name⟩
  · exact ⟨clear_word (by decide), by decide, hname⟩
  · refine ⟨clear_text ?_, by decide, lacks_append.2 ⟨.printed (by decide), hname⟩⟩
    exact lacks_append.2 ⟨lacks_append.2 ⟨.printed (by decide),
      Text.lacks_justifyLeft.2 (lacks_references c)⟩, .printed (by decide)⟩

theorem pool_clear {p : Pool} (hp : p.Clear k) (filter : String) :
    Document.Clear k (pool filter p) := by
  refine clear_append.2 ⟨?_, clear_flatMap fun c hc => clear_append.2 ⟨?_, by simp⟩⟩
  · exact clear_cons.2 ⟨⟨by decide, .printed (by decide)⟩, by simp⟩
  · have hmem := (List.mem_filter.1 hc).1
    exact constantLine_clear (hp.names c hmem) (hp.data c hmem _ (.head _))

theorem member_clear {m : Member} (hm : m.Clear k) : Document.Clear k (member m) := by
  have hpad : Lacks k (indent ++ indent) := lacks_append.2 ⟨lacks_indent, lacks_indent⟩
  have hflags : m.accessFlags.Clear k := hm.data _ (.head _)
  have hdescriptor : m.descriptorIndex.Clear k := hm.data _ (.tail _ (.tail _ (.head _)))
  have hattributes := attributes_clear hpad m.attributes fun d hd =>
    hm.data d (by simp [Member.data, hd])
  refine clear_append.2 ⟨clear_append.2 ⟨clear_cons.2 ⟨clear_text lacks_indent, ?_⟩, ?_⟩, hattributes⟩
  · refine clear_ite (fun _ => clear_nil) fun _ => ?_
    exact clear_cons.2 ⟨⟨by decide, hflags.name⟩, clear_cons.2 ⟨clear_word (by decide), clear_nil⟩⟩
  · simp only [clear_cons, clear_token, clear_newline, clear_nil, and_true, true_and]
    exact ⟨⟨by decide, hm.signature⟩, clear_text (lacks_append.2
      ⟨lacks_append.2 ⟨hpad, .printed (by decide)⟩, hdescriptor.name⟩)⟩

theorem members_clear {title : String} (htitle : Lacks k title) {ms : List Member}
    (hms : ∀ m ∈ ms, m.Clear k) : Document.Clear k (members title ms) := by
  refine clear_append.2 ⟨?_, clear_flatMap fun m hm =>
    clear_append.2 ⟨member_clear (hms m hm), by simp⟩⟩
  exact clear_cons.2 ⟨⟨by decide, lacks_append.2 ⟨htitle, .printed (by decide)⟩⟩, by simp⟩

theorem classFile_eq (cf : ClassFile) :
    classFile cf = .token .title cf.name :: (classFile cf).tail := by
  rw [classFile, summary_eq]
  simp only [List.cons_append, List.tail_cons]

/-- What follows the title. -/
theorem classFile_clear {cf : ClassFile} (h : cf.Clear k) :
    Document.Clear k (classFile cf).tail := by
  have hattributes : AllClear k (Attribute.dataOfList cf.attributes) :=
    fun d hd => h.data d (by simp [ClassFile.data, hd])
  rw [classFile, summary_eq]
  simp only [List.cons_append, List.tail_cons, clear_append, clear_cons, clear_newline, clear_nil,
    and_true]
  refine ⟨⟨⟨⟨summary_clear h, pool_clear h.pool ""⟩, ?_⟩, ?_⟩, ?_⟩
  · exact members_clear (.printed (by decide)) h.fields
  · exact members_clear (.printed (by decide)) h.methods
  · refine clear_ite (fun _ => clear_nil) fun _ => ?_
    simp only [clear_cons, clear_token, clear_newline, List.nil_append, true_and]
    exact ⟨⟨by decide, .printed (by decide)⟩, attributes_clear lacks_indent _ hattributes⟩

/-! ## The byte map -/

theorem label_lacks {d : Datum} (hd : d.Clear k) : Lacks k d.label := by
  unfold Datum.label
  split
  · exact .printed (by decide)
  split
  · exact .printed (by decide)
  split
  · exact hd.name
  split
  · exact hd.str
  split
  · exact lacks_append.2 ⟨lacks_nat _, .printed (by decide)⟩
  · exact lacks_int _

theorem lacks_leadingBytes (bytes : List UInt8) : Lacks k (leadingBytes bytes) := by
  refine lacks_append.2 ⟨Text.lacks_hexBytes _, ?_⟩
  split <;> exact .printed (by decide)

theorem spanLine_clear {d : Datum} (hd : d.Clear k) (bytes : Array UInt8) :
    Document.Clear k (spanLine bytes d) := by
  have hline : Lacks k (" " ++ Text.justifyRight 4 (toString d.width) ++ "  "
      ++ Text.justifyLeft 18 (leadingBytes (bytes.extract d.offset d.stop).toList) ++ " "
      ++ d.label) := by
    simp only [lacks_append, Text.lacks_justifyRight, Text.lacks_justifyLeft, lacks_nat,
      lacks_leadingBytes, label_lacks hd, and_true]
    exact ⟨⟨.printed (by decide), .printed (by decide)⟩, .printed (by decide)⟩
  exact clear_cons.2 ⟨⟨by decide, Text.lacks_hex _ _⟩, clear_cons.2 ⟨clear_text hline, by simp⟩⟩

theorem byteMap_clear {cf : ClassFile} (h : cf.Clear k) (bytes : List UInt8) :
    Document.Clear k (byteMap cf bytes) := by
  refine clear_append.2 ⟨?_, clear_flatMap fun d hd => ?_⟩
  · exact clear_cons.2 ⟨⟨by decide, .printed (by decide)⟩, by simp⟩
  · exact spanLine_clear (h.data d (List.mem_filter.1 hd).1) _

end ClassAtlas.Listing

namespace ClassAtlas

variable {k : Control}

/-- The values of the attribute lists of a file are among its values. -/
theorem ClassFile.Clear.lists {cf : ClassFile} (h : cf.Clear k) {count : Datum}
    {as : List Attribute} (has : cf.Lists count as) : AllClear k (Attribute.dataOfList as) := by
  have hmember : ∀ m : Member, m.Clear k → AllClear k (Attribute.dataOfList m.attributes) :=
    fun m hm d hd => hm.data d (by simp [Member.data, hd])
  induction has with
  | ofClass => exact fun d hd => h.data d (by simp [ClassFile.data, hd])
  | ofField hm => exact hmember _ (h.fields _ hm)
  | ofMethod hm => exact hmember _ (h.methods _ hm)
  | nested has ha ih => exact (Attribute.clear_of_code ih ha).2

end ClassAtlas
