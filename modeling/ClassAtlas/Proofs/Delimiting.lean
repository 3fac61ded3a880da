import ClassAtlas.Proofs.ClassLayout

/-! # Where a class file ends

A step is self-delimiting when the bytes it takes tell where they end: what follows them changes
nothing, and if any of them are missing the step asks for more bytes and fails for no other reason.
Steps made from self-delimiting steps are self-delimiting. So are the steps on a part that declares its
length, whatever is read in that part. A class is read by such a step.

* `Starves step w`: the step runs out of bytes in the window.
* `Delimits step`: the step is self-delimiting.
* `AgreeBelow n s t`: two steps agree on windows of at most `n` bytes.
* `Attribute.readList_eq`: attributes are read to any depth.
* `ClassFile.decode_self_delimiting`: what decoding does to the bytes of a class, with other bytes
  after them or some of them missing.
-/

namespace ClassAtlas
set_option autoImplicit false

variable {α β : Type}

/-! ## Self-delimiting steps -/

/-- The step asks for bytes that the window does not hold. -/
def Starves (step : Reading α) (w : Window) : Prop :=
  ∃ f, step w = .error f ∧ f.kind = .endOfInput ∧ (w.pos : Int) ≤ f.offset ∧ f.offset ≤ w.stop

/-- A successful run of the step takes bytes that settle the result by themselves, and of which none
may be missing. -/
def Delimits (step : Reading α) : Prop :=
  ∀ w a w', step w = .ok (a, w') → ∃ bs, w.After bs w'
    ∧ (∀ rest, step ⟨w.phase, w.pos, bs ++ rest⟩
      = .ok (a, ⟨w.phase, w.pos + bs.length, rest⟩))
    ∧ ∀ p q, bs = p ++ q → q ≠ [] → Starves step ⟨w.phase, w.pos, p⟩

theorem Starves.bind {x : Reading α} {w : Window} (h : Starves x w) (k : α → Reading β) :
    Starves (x >>= k) w := by
  obtain ⟨f, hf, hrest⟩ := h
  refine ⟨f, ?_, hrest⟩
  simp only [Bind.bind, StateT.bind, hf]
  rfl

theorem Starves.bind_of_ok {x : Reading α} {k : α → Reading β} {w v : Window} {a : α}
    (hx : x w = .ok (a, v)) (hpos : w.pos ≤ v.pos) (hstop : v.stop = w.stop)
    (h : Starves (k a) v) : Starves (x >>= k) w := by
  obtain ⟨f, hf, hkind, hlo, hhi⟩ := h
  refine ⟨f, ?_, hkind, by omega, by omega⟩
  simp only [Bind.bind, StateT.bind, hx]
  exact hf

namespace Delimits

theorem pure (a : α) : Delimits (pure a : Reading α) := by
  intro w b w' h
  obtain ⟨rfl, rfl⟩ := Reading.pure_eq_ok.1 h
  refine ⟨[], Window.after_nil.2 rfl, fun rest => rfl, fun p q hpq hq => ?_⟩
  obtain ⟨-, rfl⟩ := List.append_eq_nil_iff.1 hpq.symm
  exact absurd rfl hq

theorem settled (result : Except Fault α) : Delimits (settled result) := by
  intro w a w' h
  obtain ⟨rfl, rfl⟩ := Reading.settled_eq_ok.1 h
  exact pure a w a w rfl

theorem throw (f : Fault) : Delimits (throw f : Reading α) :=
  fun _ _ _ h => (Reading.throw_eq_ok.1 h).elim

theorem bind {x : Reading α} {k : α → Reading β} (hx : Delimits x) (hk : ∀ a, Delimits (k a)) :
    Delimits (x >>= k) := by
  intro w b w' h
  obtain ⟨a, v, hxv, hkv⟩ := Reading.bind_eq_ok.1 h
  obtain ⟨as, hafter, hsame, hstarve⟩ := hx _ _ _ hxv
  obtain ⟨bs, hafter', hsame', hstarve'⟩ := hk a _ _ _ hkv
  rw [hafter.phase, hafter.pos] at hsame' hstarve'
  refine ⟨as ++ bs, hafter.trans hafter', fun rest => ?_, fun p q hpq hq => ?_⟩
  · have hfirst := hsame (bs ++ rest)
    have hsecond := hsame' rest
    rw [← List.append_assoc] at hfirst
    rw [Nat.add_assoc, ← List.length_append] at hsecond
    exact Reading.bind_eq_ok.2 ⟨a, _, hfirst, hsecond⟩
  · rcases List.append_eq_append_iff.1 hpq with ⟨p', rfl, hp'⟩ | ⟨q', rfl, hq'⟩
    · refine Starves.bind_of_ok (hsame p') (Nat.le_add_right _ _) ?_ (hstarve' p' q hp' hq)
      simp only [Window.stop, Window.remaining, List.length_append, Nat.add_assoc]
    · by_cases hnil : q' = []
      · subst hnil
        rw [List.append_nil] at hsame hstarve'
        have hall := hsame []
        rw [List.append_nil] at hall
        exact Starves.bind_of_ok hall (Nat.le_add_right _ _) rfl (hstarve' [] q hq'.symm hq)
      · exact (hstarve p q' rfl hnil).bind k

theorem within {step : Reading α} (h : Delimits step) (segment : String) :
    Delimits (within segment step) := by
  intro w a w' hw
  obtain ⟨bs, hafter, hsame, hstarve⟩ := h w a w' (Reading.within_eq_ok.1 hw)
  refine ⟨bs, hafter, fun rest => Reading.within_eq_ok.2 (hsame rest), fun p q hpq hq => ?_⟩
  obtain ⟨f, hf, hrest⟩ := hstarve p q hpq hq
  refine ⟨f.within segment, ?_, hrest⟩
  unfold ClassAtlas.within
  rw [hf]
  rfl

theorem inPhase {step : Reading α} (h : Delimits step) (phase : Phase) :
    Delimits (inPhase phase step) := by
  intro w a w' hw
  obtain ⟨v, hv, rfl⟩ := Reading.inPhase_eq_ok.1 hw
  obtain ⟨bs, hafter, hsame, hstarve⟩ := h _ _ _ hv
  refine ⟨bs, ⟨hafter.rest, hafter.pos, rfl⟩, fun rest => ?_, fun p q hpq hq => ?_⟩
  · exact Reading.inPhase_eq_ok.2 ⟨_, hsame rest, rfl⟩
  · obtain ⟨f, hf, hrest⟩ := hstarve p q hpq hq
    refine ⟨f, ?_, hrest⟩
    unfold ClassAtlas.inPhase
    rw [hf]
    rfl

/-- The value may be told where it stands. -/
theorem place {step : Reading α} (h : Delimits step) {step' : Reading β} (g : Phase → Nat → α → β)
    (heq : ∀ w, step' w = (step w).map fun r => (g w.phase w.pos r.1, r.2)) : Delimits step' := by
  intro w b w' hw
  rw [heq] at hw
  obtain ⟨a, v, hv, hb⟩ := Reading.map_eq_ok.1 hw
  obtain ⟨rfl, rfl⟩ := Prod.mk.inj hb
  obtain ⟨bs, hafter, hsame, hstarve⟩ := h _ _ _ hv
  refine ⟨bs, hafter, fun rest => ?_, fun p q hpq hq => ?_⟩
  · rw [heq, hsame rest]
    rfl
  · obtain ⟨f, hf, hrest⟩ := hstarve p q hpq hq
    refine ⟨f, ?_, hrest⟩
    rw [heq, hf]
    rfl

theorem repeatedFrom {step : Nat → Reading α} (h : ∀ i, Delimits (step i)) (count : Nat) :
    ∀ first, Delimits (repeatedFrom step first count) := by
  induction count with
  | zero => exact fun _ => pure []
  | succ count ih => exact fun first => (h first).bind fun a => (ih (first + 1)).bind fun as => pure _

theorem repeated {step : Nat → Reading α} (h : ∀ i, Delimits (step i)) (count : Nat) :
    Delimits (repeated count step) :=
  repeatedFrom h count 0

end Delimits

/-! ## Single values -/

theorem Window.take_delimits (n : Int) : Delimits (take n) := by
  intro w bs w' h
  obtain ⟨hn, hafter⟩ := take_eq_ok.1 h
  refine ⟨bs, hafter, fun rest => take_eq_ok.2 ⟨hn, rfl, rfl, rfl⟩, fun p q hpq hq => ?_⟩
  have hshort : p.length < bs.length := by
    have hpos := List.length_pos_iff.2 hq
    rw [hpq, List.length_append]
    omega
  have hlacks : ¬ (0 ≤ n ∧ Window.holds ⟨w.phase, w.pos, p⟩ n.toNat = true) := by
    rintro ⟨-, hholds⟩
    have hle := (holds_iff _ _).1 hholds
    simp only [remaining] at hle
    omega
  refine ⟨_, if_neg hlacks, rfl, Int.le_refl _, ?_⟩
  show (w.pos : Int) ≤ (w.pos + p.length : Nat)
  omega

theorem Window.unsigned_delimits (width : Int) : Delimits (unsigned width) := by
  unfold unsigned
  split
  · exact (take_delimits width).bind fun bs => .pure _
  · exact fun _ _ _ h => nomatch h

theorem Window.signedBits_delimits (width : Int) : Delimits (signedBits width) := by
  unfold signedBits
  split
  · exact unsigned_delimits width
  · exact fun _ _ _ h => nomatch h

theorem Window.child_delimits (n : Int) : Delimits (child n) :=
  (take_delimits n).place (fun phase pos bs => Window.mk phase pos bs) fun _ => rfl

theorem onChild_delimits (phase : Phase) (child : Window) (step : Reading α) :
    Delimits (onChild phase child step) :=
  .settled _

namespace Datum

theorem unsigned_delimits (width : Int) (kind : OperandKind) : Delimits (unsigned width kind) :=
  (Window.unsigned_delimits width).place (fun _ pos raw => Datum.mk pos width.toNat raw
    (Window.twosComplement 64 raw) kind "" "") fun _ => rfl

theorem signed_delimits (width : Int) (kind : OperandKind) : Delimits (signed width kind) :=
  (Window.signedBits_delimits width).place (fun _ pos raw => Datum.mk pos width.toNat raw
    (Window.twosComplement (8 * width.toNat) raw) kind "" "") fun _ => rfl

theorem u2_delimits : Delimits u2 := unsigned_delimits 2 _

theorem text_delimits (n : Int) : Delimits (text n) :=
  ((Window.take_delimits n).bind fun bs => .pure (Text.Modified.decode bs)).place
    (fun _ pos s => Datum.mk pos n.toNat 0 0 .structural s s) fun _ => rfl

theorem hex_delimits (width : Int) : Delimits (hex width) :=
  (unsigned_delimits width _).bind fun _ => .pure _

end Datum

theorem Delimits.counted {α : Type} {element : Reading α} (h : Delimits element) (label : String)
    (segment : Nat → String) : Delimits (counted label segment element) :=
  (Datum.u2_delimits.within _).bind fun _ =>
    (repeated (fun _ => h.within _) _).bind fun _ => .pure _

/-! ## The pool -/

namespace Payload

theorem oneStep_delimits (make : Datum → Payload) : Delimits (oneStep .reading make) :=
  Datum.u2_delimits.bind fun _ => .pure _

theorem twoSteps_delimits (make : Datum → Datum → Payload) : Delimits (twoSteps .reading make) :=
  Datum.u2_delimits.bind fun _ => Datum.u2_delimits.bind fun _ => .pure _

theorem read_delimits (tag : Tag) : Delimits (read tag) := by
  cases tag with
  | utf8 => exact Datum.u2_delimits.bind fun _ => (Datum.text_delimits _).bind fun _ => .pure _
  | integer => exact (Datum.signed_delimits _ _).bind fun _ => .pure _
  | float | long | double => exact (Datum.unsigned_delimits _ _).bind fun _ => .pure _
  | methodHandle =>
    exact (Datum.unsigned_delimits _ _).bind fun _ => Datum.u2_delimits.bind fun _ => .pure _
  | classInfo | string | methodType | moduleInfo | packageInfo => exact oneStep_delimits _
  | fieldref | methodref | interfaceMethodref | nameAndType | dynamic | invokeDynamic =>
    exact twoSteps_delimits _

end Payload

theorem Constant.read_delimits (index : Nat) : Delimits (read index) := by
  have htag : Delimits readTag := by
    refine (Datum.unsigned_delimits _ _).bind fun d => ?_
    cases Tag.ofCode? d.raw.toUInt8 with
    | none => exact .throw _
    | some tag => exact .pure _
  exact htag.bind fun r => (Payload.read_delimits r.2).bind fun _ => .pure _

namespace Pool

theorem readSlots_delimits (count : Nat) : ∀ index, Delimits (readSlots index count) := by
  induction count using Nat.strongRecOn with
  | _ count ih =>
    intro index
    cases count with
    | zero => exact .pure []
    | succ count =>
      unfold readSlots slotSteps
      refine ((Constant.read_delimits index).within _).bind fun c => ?_
      split
      · split
        · exact .pure _
        · rename_i count
          exact (ih count (by omega) (index + 2)).bind fun _ => .pure _
      · exact (ih count (by omega) (index + 1)).bind fun _ => .pure _

theorem read_delimits : Delimits read := by
  refine ((Datum.u2_delimits.within _).bind fun count => ?_).inPhase _
  split
  · exact .pure _
  · exact (readSlots_delimits _ 1).bind fun _ => .pure _

theorem readReference_delimits (pool : Pool) : Delimits pool.readReference :=
  Datum.u2_delimits.bind fun _ => .settled _

theorem readOptional_delimits (pool : Pool) (absent : String) :
    Delimits (pool.readOptional absent) :=
  Datum.u2_delimits.bind fun _ => .settled _

end Pool

theorem Header.read_delimits : Delimits read :=
  ((Datum.hex_delimits 4).within _).bind fun _ => (Datum.u2_delimits.within _).bind fun _ =>
    (Datum.u2_delimits.within _).bind fun _ => (Pool.read_delimits.within _).bind fun _ => .pure _

/-! ## Attributes

An attribute declares the length of its body, so it is self-delimiting whatever is read in the body,
and in particular however the attributes of a method body are read. -/

theorem Handler.read_delimits (pool : Pool) (row : Nat) : Delimits (read pool row) :=
  Datum.u2_delimits.bind fun _ => Datum.u2_delimits.bind fun _ => Datum.u2_delimits.bind fun _ =>
    Datum.u2_delimits.bind fun _ => ((Delimits.settled _).within _).bind fun _ => .pure _

namespace Code

theorem readHead_delimits : Delimits readHead :=
  Datum.u2_delimits.bind fun _ => Datum.u2_delimits.bind fun _ =>
    (Datum.unsigned_delimits _ _).bind fun _ => (Window.child_delimits _).bind fun _ => .pure _

theorem readHandlers_delimits (pool : Pool) : Delimits (readHandlers pool) :=
  Datum.u2_delimits.bind fun _ =>
    (Delimits.repeated (Handler.read_delimits pool) _).bind fun _ => .pure _

end Code

namespace Attribute

variable {pool : Pool}

theorem readHead_delimits (pool : Pool) : Delimits (readHead pool) :=
  Datum.u2_delimits.bind fun _ => (Delimits.settled _).bind fun _ =>
    (Datum.unsigned_delimits _ _).bind fun _ => (Window.child_delimits _).bind fun _ => .pure _

theorem read_delimits (pool : Pool) (attributes : Reading (Datum × List Attribute)) :
    Delimits (read pool attributes) :=
  (readHead_delimits pool).bind fun _ => (onChild_delimits _ _ _).bind fun _ => .pure _

end Attribute

/-! ## The depth of attributes -/

/-- The steps agree on windows of at most `n` bytes. -/
def AgreeBelow (n : Nat) (s t : Reading α) : Prop :=
  ∀ w, w.remaining ≤ n → s w = t w

theorem Delimits.remaining_le {step : Reading α} (h : Delimits step) {w w' : Window} {a : α}
    (hw : step w = .ok (a, w')) : w'.remaining ≤ w.remaining := by
  obtain ⟨bs, hafter, -⟩ := h w a w' hw
  have := hafter.remaining
  omega

theorem Reading.bind_congr {x : Reading α} {k l : α → Reading β} {w : Window}
    (h : ∀ a v, x w = .ok (a, v) → k a v = l a v) : (x >>= k) w = (x >>= l) w := by
  simp only [Bind.bind, StateT.bind]
  cases hx : x w with
  | error f => rfl
  | ok r => exact h r.1 r.2 hx

namespace AgreeBelow

variable {n : Nat} {s t : Reading α}

theorem bind {x : Reading α} {k l : α → Reading β} (hx : Delimits x)
    (h : ∀ a, AgreeBelow n (k a) (l a)) : AgreeBelow n (x >>= k) (x >>= l) := by
  intro w hw
  refine Reading.bind_congr fun a v hv => h a v ?_
  exact Nat.le_trans (hx.remaining_le hv) hw

theorem bind_left (h : AgreeBelow n s t) (k : α → Reading β) :
    AgreeBelow n (s >>= k) (t >>= k) := by
  intro w hw
  simp only [Bind.bind, StateT.bind, h w hw]

theorem within (h : AgreeBelow n s t) (segment : String) :
    AgreeBelow n (within segment s) (within segment t) := by
  intro w hw
  unfold ClassAtlas.within
  rw [h w hw]

/-- A word that is read first leaves less for the rest. -/
theorem u2_bind {k l : Datum → Reading β} (h : ∀ d, AgreeBelow n (k d) (l d)) :
    AgreeBelow (n + 1) (Datum.u2 >>= k) (Datum.u2 >>= l) := by
  intro w hw
  refine Reading.bind_congr fun d v hv => h d v ?_
  obtain ⟨i, -, hafter, -⟩ := (Datum.u2_reads _ _ _).1 hv
  have hremaining := hafter.remaining
  simp only [Datum.unsignedFormat, Word.length_bytes] at hremaining
  omega

/-- Steps on a part of the window are steps on fewer bytes. -/
theorem child (h : AgreeBelow n s t) (size : Int) (phase : Phase) (k : α × Window → Reading β) :
    AgreeBelow n (Window.child size >>= fun c => onChild phase c s >>= k)
      (Window.child size >>= fun c => onChild phase c t >>= k) := by
  intro w hw
  refine Reading.bind_congr fun c v hv => ?_
  obtain ⟨bs, -, hafter, rfl⟩ := Window.child_eq_ok.1 hv
  have hremaining := hafter.remaining
  have hpart : s ⟨phase, w.pos, bs⟩ = t ⟨phase, w.pos, bs⟩ := by
    apply h
    show bs.length ≤ n
    omega
  simp only [onChild, hpart]

theorem repeatedFrom {x y : Nat → Reading α} (hx : ∀ i, Delimits (x i))
    (h : ∀ i, AgreeBelow n (x i) (y i)) (count : Nat) :
    ∀ first, AgreeBelow n (repeatedFrom x first count) (repeatedFrom y first count) := by
  induction count with
  | zero => exact fun _ _ _ => rfl
  | succ count ih =>
    intro first w hw
    have hrest := bind (hx first) fun a => (ih (first + 1)).bind_left fun as => Pure.pure (a :: as)
    exact (hrest w hw).trans ((h first).bind_left _ w hw)

end AgreeBelow

namespace Attribute

variable {pool : Pool} {n : Nat} {s t : Reading (Datum × List Attribute)}

theorem readBody_agree (h : AgreeBelow n s t) (name length : Datum) :
    AgreeBelow n (readBody pool s name length) (readBody pool t name length) := by
  unfold readBody
  by_cases hcode : name.name = "Code"
  · rw [if_pos hcode, if_pos hcode]
    refine AgreeBelow.within (AgreeBelow.bind_left (AgreeBelow.bind_left ?_ _) _) _
    exact .bind Code.readHead_delimits fun _ => .bind (onChild_delimits _ _ _) fun _ =>
      .bind (Code.readHandlers_delimits pool) fun _ => h.bind_left _
  · rw [if_neg hcode, if_neg hcode]
    exact fun _ _ => rfl

theorem read_agree (h : AgreeBelow n s t) : AgreeBelow (n + 1) (read pool s) (read pool t) := by
  simp only [read, readHead, bind_assoc, pure_bind]
  exact .u2_bind fun _ => .bind (.settled _) fun _ => .bind (Datum.unsigned_delimits _ _) fun _ =>
    .child (readBody_agree h _ _) _ _ _

theorem readCounted_agree {a b : Reading Attribute} (ha : Delimits a) (h : AgreeBelow n a b) :
    AgreeBelow n (readCounted a) (readCounted b) :=
  .bind (Datum.u2_delimits.within _) fun _ =>
    (AgreeBelow.repeatedFrom (fun _ => ha.within _) (fun _ => h.within _) _ 0).bind_left _

/-- More depth than there are bytes makes no difference: without a byte, the count is what is missing at
every depth. -/
theorem readNested_agree (pool : Pool) (d e : Nat) (hle : d ≤ e) :
    AgreeBelow d (readNested pool d) (readNested pool e) := by
  induction d generalizing e with
  | zero =>
    intro w hw
    cases e with
    | zero => rfl
    | succ e =>
      obtain ⟨phase, pos, rest⟩ := w
      obtain rfl : rest = [] := List.eq_nil_of_length_eq_zero (Nat.le_zero.1 hw)
      rfl
  | succ d ih =>
    obtain ⟨e, rfl⟩ := Nat.exists_eq_add_one_of_ne_zero (by omega : e ≠ 0)
    exact readCounted_agree (read_delimits pool _) (read_agree (ih e (by omega)))

/-- The attributes of a method body are read like any others. -/
theorem readList_eq (pool : Pool) :
    readList pool = readCounted (read pool (readList pool)) := by
  have hagree : ∀ n, AgreeBelow n (readNested pool n) (readList pool) := by
    intro n w hw
    exact (readNested_agree pool _ n hw w (Nat.le_refl _)).symm
  funext w
  calc readList pool w = readNested pool w.remaining w := rfl
    _ = readNested pool (w.remaining + 1) w :=
      readNested_agree pool _ _ (Nat.le_succ _) w (Nat.le_refl _)
    _ = readCounted (read pool (readList pool)) w :=
      readCounted_agree (read_delimits pool _) (read_agree (hagree _)) w (Nat.le_succ _)

theorem readList_delimits (pool : Pool) : Delimits (readList pool) := by
  rw [readList_eq]
  exact (read_delimits pool _).counted _ _

end Attribute

/-! ## Class files -/

namespace Member

theorem readHead_delimits (pool : Pool) : Delimits (readHead pool) :=
  Datum.u2_delimits.bind fun _ => Datum.u2_delimits.bind fun _ => Datum.u2_delimits.bind fun _ =>
    ((Delimits.settled _).within _).bind fun _ => ((Delimits.settled _).within _).bind fun _ =>
      ((Delimits.settled _).within _).bind fun _ => .pure _

theorem read_delimits (pool : Pool) (flags : FlagTable) : Delimits (read pool flags) :=
  (readHead_delimits pool).bind fun _ =>
    ((Attribute.readList_delimits pool).within _).bind fun _ => .pure _

theorem readList_delimits (pool : Pool) (part : String) (flags : FlagTable) :
    Delimits (readList pool part flags) :=
  (read_delimits pool flags).counted _ _

end Member

namespace ClassFile

theorem readParts_delimits (h : Header) (pool : Pool) : Delimits (readParts h pool) :=
  (Datum.u2_delimits.within _).bind fun _ => (pool.readReference_delimits.within _).bind fun _ =>
    ((pool.readOptional_delimits _).within _).bind fun _ =>
      (pool.readReference_delimits.counted _ _).bind fun _ =>
        (Member.readList_delimits pool _ _).bind fun _ =>
          (Member.readList_delimits pool _ _).bind fun _ =>
            (Attribute.readList_delimits pool).bind fun _ => .pure _

/-- The class without what follows it. -/
def readClass : Reading ClassFile := do
  let h ← Header.read
  let pool ← settled h.resolve
  readParts h pool

theorem readClass_delimits : Delimits readClass :=
  Header.read_delimits.bind fun h => (Delimits.settled _).bind fun pool => readParts_delimits h pool

theorem read_eq :
    read = readClass >>= fun cf => readTrailing >>= fun trailing => pure { cf with trailing } := by
  simp only [read, readAfterPool, readClass, bind_assoc]

/-- The class of a file that may be written is read from its bytes alone. -/
theorem readClass_bytes {c : ClassForm} {pool : Pool} (h : c.Legal pool) :
    ∃ cf, readClass (Window.ofBytes c.bytes) = .ok (cf, ⟨.decode, c.bytes.length, []⟩) := by
  have hall : (Window.ofBytes c.bytes).After (c.toHeaderForm.bytes ++ c.toPartsForm.bytes)
      ⟨.decode, c.bytes.length, []⟩ :=
    ⟨(List.append_nil _).symm, (Nat.zero_add _).symm, rfl⟩
  obtain ⟨v, hheader, hparts⟩ := hall.split
  refine ⟨c.toPartsForm.place (c.toHeaderForm.place 0) pool v.pos, ?_⟩
  simp only [readClass, Reading.bind_eq_ok, Reading.settled_eq_ok]
  exact ⟨_, v, (Header.read_reads _ _ _).2 ⟨c.toHeaderForm, h.header, hheader, rfl⟩, pool, v,
    ⟨Header.resolve_eq_ok.2 h.named, rfl⟩,
    (readParts_reads _ _ _ _ _).2 ⟨c.toPartsForm, h.parts, hparts, rfl⟩⟩

/-- Bytes that a class lacks are asked for. -/
theorem decode_starves {c : ClassForm} {pool : Pool} (h : c.Legal pool) {p q : List UInt8}
    (hpq : c.bytes = p ++ q) (hq : q ≠ []) :
    ∃ f, decode p = .error f ∧ f.kind = .endOfInput ∧ 0 ≤ f.offset ∧ f.offset ≤ p.length := by
  obtain ⟨cf, hcf⟩ := readClass_bytes h
  obtain ⟨bs, hafter, -, hstarve⟩ := readClass_delimits _ _ _ hcf
  have hbs : bs = c.bytes := by
    have hrest := hafter.rest
    rw [List.append_nil] at hrest
    exact hrest.symm
  have hread : Starves read (Window.ofBytes p) := by
    rw [read_eq]
    exact (hstarve p q (hbs.trans hpq) hq).bind _
  obtain ⟨f, hf, hkind, hlo, hhi⟩ := hread
  refine ⟨f, ?_, hkind, hlo, ?_⟩
  · unfold decode
    rw [hf]
    rfl
  · simpa [Window.stop, Window.remaining, Window.ofBytes] using hhi

/-- The offset where the class ends: that of what follows it, or else the end of the bytes. -/
def classEnd (cf : ClassFile) (bytes : List UInt8) : Nat :=
  match cf.trailing with
  | some d => d.offset
  | none => bytes.length

theorem classEnd_tree (c : ClassForm) (pool : Pool) (trailing : List UInt8) :
    (c.tree pool trailing).classEnd (c.bytes ++ trailing) = c.bytes.length := by
  by_cases hnil : trailing = []
  · simp only [classEnd, ClassForm.tree, ClassForm.trailingAt, hnil, if_true, List.append_nil]
  · simp only [classEnd, ClassForm.tree, ClassForm.trailingAt, if_neg hnil, Datum.ofSkipped]

/-- **Decoding is self-delimiting.** The bytes up to the end of the class settle the tree: with any
other bytes after them the tree is the same but for the value of those bytes, and if any of them are
missing the fault is that the input ends too early, at an offset within it. -/
theorem decode_self_delimiting {bytes : List UInt8} {cf : ClassFile} (h : decode bytes = .ok cf) :
    let k := cf.classEnd bytes
    (∀ e, decode (bytes.take k ++ e) = .ok { cf with
        trailing := if e = [] then none else some { offset := k, width := e.length } })
      ∧ ∀ n, n < k → ∃ f, decode (bytes.take n) = .error f ∧ f.kind = .endOfInput
        ∧ 0 ≤ f.offset ∧ f.offset ≤ n := by
  obtain ⟨c, pool, trailing, hlegal, rfl, rfl⟩ := decode_eq_ok.1 h
  intro k
  have hk : k = c.bytes.length := classEnd_tree c pool trailing
  rw [hk]
  refine ⟨fun e => ?_, fun n hn => ?_⟩
  · rw [List.take_left]
    exact decode_eq_ok.2 ⟨c, pool, e, hlegal, rfl, rfl⟩
  · have hsplit : c.bytes = (c.bytes ++ trailing).take n ++ c.bytes.drop n := by
      rw [List.take_append_of_le_length (Nat.le_of_lt hn), List.take_append_drop]
    have hne : c.bytes.drop n ≠ [] := by
      intro hnil
      have := List.drop_eq_nil_iff.1 hnil
      omega
    obtain ⟨f, hf, hkind, hlo, hhi⟩ := decode_starves hlegal hsplit hne
    have hlen : ((c.bytes ++ trailing).take n).length ≤ n := List.length_take_le _ _
    exact ⟨f, hf, hkind, hlo, by omega⟩

theorem decode_self_delimiting_nested :
    let bytes := ClassForm.nested.bytes ++ [1, 2]
    let cf := ClassForm.nested.tree ClassForm.nestedPool [1, 2]
    let k := cf.classEnd bytes
    decode bytes = .ok cf
      ∧ (∀ e, decode (bytes.take k ++ e) = .ok { cf with
        trailing := if e = [] then none else some { offset := k, width := e.length } })
      ∧ ∀ n, n < k → ∃ f, decode (bytes.take n) = .error f ∧ f.kind = .endOfInput
        ∧ 0 ≤ f.offset ∧ f.offset ≤ n := by
  intro bytes cf k
  have h : decode bytes = .ok cf := decode_eq_ok.2 ⟨_, _, _, ClassForm.nested_legal, rfl, rfl⟩
  exact ⟨h, decode_self_delimiting h⟩

end ClassFile

end ClassAtlas
