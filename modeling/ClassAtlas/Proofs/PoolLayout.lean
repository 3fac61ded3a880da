import ClassAtlas.Pool
import ClassAtlas.Proofs.Word

/-! # The layout of the constant pool

How the pool is written: the number of slots, then each entry as its tag and its fields. An entry of
eight bytes takes the slot after it too, unless the declared number of slots ends before that one.

* `ConstantForm`: an entry as it is written, with its `tag`, its `bytes` and the constant that stands
  for it at an index and an offset.
* `PoolForm.Slotted`: slots that entries can occupy.
* `PoolForm.format`: pools, given by their slots.
* `Pool.read_reads`: what is read is this layout.
-/

namespace ClassAtlas
set_option autoImplicit false

/-! ## Entries -/

/-- An entry of the pool as it is written. References are indices, and floating-point numbers their
bits. -/
inductive ConstantForm where
  | utf8 (bytes : List UInt8)
  | integer (value : Int)
  | float (bits : Nat)
  | long (bits : Nat)
  | double (bits : Nat)
  | classInfo (name : Nat)
  | string (text : Nat)
  | fieldref (owner nameAndType : Nat)
  | methodref (owner nameAndType : Nat)
  | interfaceMethodref (owner nameAndType : Nat)
  | nameAndType (name descriptor : Nat)
  | methodHandle (kind reference : Nat)
  | methodType (descriptor : Nat)
  | dynamic (bootstrap nameAndType : Nat)
  | invokeDynamic (bootstrap nameAndType : Nat)
  | moduleInfo (name : Nat)
  | packageInfo (name : Nat)
  deriving DecidableEq

namespace ConstantForm

def tag : ConstantForm → Tag
  | utf8 .. => .utf8
  | integer .. => .integer
  | float .. => .float
  | long .. => .long
  | double .. => .double
  | classInfo .. => .classInfo
  | string .. => .string
  | fieldref .. => .fieldref
  | methodref .. => .methodref
  | interfaceMethodref .. => .interfaceMethodref
  | nameAndType .. => .nameAndType
  | methodHandle .. => .methodHandle
  | methodType .. => .methodType
  | dynamic .. => .dynamic
  | invokeDynamic .. => .invokeDynamic
  | moduleInfo .. => .moduleInfo
  | packageInfo .. => .packageInfo

/-- Every number has a place in the bytes of its field. -/
def Legal : ConstantForm → Prop
  | utf8 bs => bs.length < 256 ^ 2
  | integer v => Word.Fits 4 v
  | float n => n < 256 ^ 4
  | long n | double n => n < 256 ^ 8
  | classInfo a | string a | methodType a | moduleInfo a | packageInfo a => a < 256 ^ 2
  | methodHandle a b => a < 256 ^ 1 ∧ b < 256 ^ 2
  | fieldref a b | methodref a b | interfaceMethodref a b | nameAndType a b | dynamic a b
  | invokeDynamic a b => a < 256 ^ 2 ∧ b < 256 ^ 2

instance : (c : ConstantForm) → Decidable c.Legal
  | integer _ => inferInstanceAs (Decidable (Word.Fits _ _))
  | utf8 _ | float _ | long _ | double _ | classInfo _ | string _ | methodType _ | moduleInfo _
  | packageInfo _ => inferInstanceAs (Decidable (_ < _))
  | methodHandle _ _ | fieldref _ _ | methodref _ _ | interfaceMethodref _ _ | nameAndType _ _
  | dynamic _ _ | invokeDynamic _ _ => inferInstanceAs (Decidable (_ ∧ _))

def fieldBytes : ConstantForm → List UInt8
  | utf8 bs => Word.bytes 2 bs.length ++ bs
  | integer v => Word.bytes 4 (Word.bits 4 v)
  | float n => Word.bytes 4 n
  | long n | double n => Word.bytes 8 n
  | classInfo a | string a | methodType a | moduleInfo a | packageInfo a => Word.bytes 2 a
  | methodHandle a b => Word.bytes 1 a ++ Word.bytes 2 b
  | fieldref a b | methodref a b | interfaceMethodref a b | nameAndType a b | dynamic a b
  | invokeDynamic a b => Word.bytes 2 a ++ Word.bytes 2 b

def bytes (c : ConstantForm) : List UInt8 :=
  c.tag.code :: c.fieldBytes

/-- The fields from the offset `pos` on. -/
def payload (pos : Nat) : ConstantForm → Payload
  | utf8 bs => .utf8 (Datum.wordAt pos bs.length) (Datum.ofText (pos + 2) bs)
  | integer v => .integer ((Datum.ofSigned 4 .structural pos v).named (toString v))
  | float n =>
    .float ((Datum.ofWord 4 .structural pos n).named (Decimal.Format.single.literal n))
  | long n =>
    .long ((Datum.ofWord 8 .structural pos n).named (toString (Window.twosComplement 64 n)))
  | double n =>
    .double ((Datum.ofWord 8 .structural pos n).named (Decimal.Format.double.literal n))
  | classInfo a => .classInfo (Datum.wordAt pos a)
  | string a => .string (Datum.wordAt pos a)
  | fieldref a b => .fieldref (Datum.wordAt pos a) (Datum.wordAt (pos + 2) b)
  | methodref a b => .methodref (Datum.wordAt pos a) (Datum.wordAt (pos + 2) b)
  | interfaceMethodref a b => .interfaceMethodref (Datum.wordAt pos a) (Datum.wordAt (pos + 2) b)
  | nameAndType a b => .nameAndType (Datum.wordAt pos a) (Datum.wordAt (pos + 2) b)
  | methodHandle a b =>
    .methodHandle ((Datum.ofWord 1 .structural pos a).named (ReferenceKind.describe a.toUInt8))
      (Datum.wordAt (pos + 1) b)
  | methodType a => .methodType (Datum.wordAt pos a)
  | dynamic a b => .dynamic (Datum.wordAt pos a) (Datum.wordAt (pos + 2) b)
  | invokeDynamic a b => .invokeDynamic (Datum.wordAt pos a) (Datum.wordAt (pos + 2) b)
  | moduleInfo a => .moduleInfo (Datum.wordAt pos a)
  | packageInfo a => .packageInfo (Datum.wordAt pos a)

theorem tag_payload (pos : Nat) (c : ConstantForm) : (c.payload pos).tag = c.tag := by
  cases c <;> rfl

/-- The constant for a slot, not yet named. -/
def place (index pos : Nat) (c : ConstantForm) : Constant :=
  { index := index
    tag := (Datum.ofWord 1 .structural pos c.tag.code.toNat).named c.tag.name
    payload := c.payload (pos + 1) }

def format (index : Nat) : Format ConstantForm Constant where
  legal := Legal
  bytes := bytes
  place := place index

def fieldFormat (tag : Tag) : Format ConstantForm Payload where
  legal c := c.tag = tag ∧ c.Legal
  bytes := fieldBytes
  place := payload

end ConstantForm

namespace Payload

/-- A kind whose entries have one word for a field. -/
theorem reads_one {width : Nat} {tag : Tag} {step : Reading Payload} {word : Reading Datum}
    (make : Datum → Payload) (form : Nat → ConstantForm)
    (hword : Reads word (Datum.unsignedFormat width .structural))
    (hstep : step = word >>= fun a => pure (make a))
    (htag : ∀ c : ConstantForm, c.tag = tag → ∃ a, c = form a)
    (hform : ∀ a, (form a).tag = tag ∧ ((form a).Legal ↔ a < 256 ^ width)
      ∧ (form a).fieldBytes = Word.bytes width a
      ∧ ∀ pos, (form a).payload pos = make (Datum.ofWord width .structural pos a)) :
    Reads step (ConstantForm.fieldFormat tag) := by
  subst hstep
  apply Runs.reads (hword.bind fun a => Runs.pure (make a))
  intro pos bs p
  constructor
  · rintro ⟨a, ha, cs, rfl, rfl, rfl⟩
    obtain ⟨htag', hlegal, hbytes, hplace⟩ := hform a
    refine ⟨form a, ⟨htag', hlegal.2 ha⟩, ?_, (hplace pos).symm⟩
    rw [List.append_nil]
    exact hbytes.symm
  · rintro ⟨c, ⟨hc, hl⟩, rfl, rfl⟩
    obtain ⟨a, rfl⟩ := htag c hc
    obtain ⟨-, hlegal, hbytes, hplace⟩ := hform a
    refine ⟨a, hlegal.1 hl, [], ?_, rfl, hplace pos⟩
    rw [List.append_nil]
    exact hbytes

/-- A kind whose entries have two words for fields. -/
theorem reads_two {width : Nat} {tag : Tag} {step : Reading Payload} {word : Reading Datum}
    (make : Datum → Datum → Payload) (form : Nat → Nat → ConstantForm)
    (hword : Reads word (Datum.unsignedFormat width .structural))
    (hstep : step = do let a ← word; let b ← Datum.u2; pure (make a b))
    (htag : ∀ c : ConstantForm, c.tag = tag → ∃ a b, c = form a b)
    (hform : ∀ a b, (form a b).tag = tag ∧ ((form a b).Legal ↔ a < 256 ^ width ∧ b < 256 ^ 2)
      ∧ (form a b).fieldBytes = Word.bytes width a ++ Word.bytes 2 b
      ∧ ∀ pos, (form a b).payload pos = make (Datum.ofWord width .structural pos a)
        (Datum.wordAt (pos + width) b)) :
    Reads step (ConstantForm.fieldFormat tag) := by
  subst hstep
  apply Runs.reads
    (hword.bind fun a => Datum.u2_reads.bind fun b => Runs.pure (make a b))
  intro pos bs p
  have hlen : ∀ a, pos + (Word.bytes width a).length = pos + width := by
    intro a
    rw [Word.length_bytes]
  constructor
  · rintro ⟨a, ha, cs, rfl, b, hb, cs', rfl, rfl, rfl⟩
    obtain ⟨htag', hlegal, hbytes, hplace⟩ := hform a b
    refine ⟨form a b, ⟨htag', hlegal.2 ⟨ha, hb⟩⟩, ?_, ?_⟩
    · rw [List.append_nil]
      exact hbytes.symm
    · simp only [ConstantForm.fieldFormat, Datum.unsignedFormat, hlen, hplace]
      rfl
  · rintro ⟨c, ⟨hc, hl⟩, rfl, rfl⟩
    obtain ⟨a, b, rfl⟩ := htag c hc
    obtain ⟨-, hlegal, hbytes, hplace⟩ := hform a b
    obtain ⟨ha, hb⟩ := hlegal.1 hl
    refine ⟨a, ha, _, hbytes, b, hb, [], (List.append_nil _).symm, rfl, ?_⟩
    simp only [ConstantForm.fieldFormat, Datum.unsignedFormat, hlen, hplace]
    rfl

theorem utf8_reads : Reads (read .utf8) (ConstantForm.fieldFormat .utf8) := by
  apply Runs.reads
  · exact Datum.u2_reads.bind fun length =>
      (Datum.text_reads length.num).bind fun bytes => Runs.pure (utf8 length bytes)
  · intro pos bs p
    constructor
    · rintro ⟨n, hn, cs, rfl, text, hlen, cs', rfl, rfl, rfl⟩
      obtain rfl : text.length = n := Int.ofNat_inj.1 (hlen.trans (Datum.num_wordAt pos hn))
      refine ⟨.utf8 text, ⟨rfl, hn⟩, ?_, rfl⟩
      rw [List.append_nil]
      rfl
    · rintro ⟨c, ⟨htag, hc⟩, rfl, rfl⟩
      cases c <;> cases htag
      rename_i text
      exact ⟨text.length, hc, _, rfl, text, (Datum.num_wordAt pos hc).symm, [],
        (List.append_nil _).symm, rfl, rfl⟩

theorem integer_reads : Reads (read .integer) (ConstantForm.fieldFormat .integer) := by
  apply Runs.reads
  · exact (Datum.signed_reads (by decide) .structural).bind fun d =>
      Runs.pure (integer (d.named (toString d.num)))
  · intro pos bs p
    constructor
    · rintro ⟨v, hv, cs, rfl, rfl, rfl⟩
      exact ⟨.integer v, ⟨rfl, hv⟩, rfl, rfl⟩
    · rintro ⟨c, ⟨htag, hc⟩, rfl, rfl⟩
      cases c <;> cases htag
      exact ⟨_, hc, [], rfl, rfl, rfl⟩

/-- What is read for a kind is an entry of that kind. -/
theorem read_reads (tag : Tag) : Reads (read tag) (ConstantForm.fieldFormat tag) := by
  cases tag with
  | utf8 => exact utf8_reads
  | integer => exact integer_reads
  | float =>
    apply reads_one (fun d => float (d.named (Decimal.Format.single.literal d.raw))) .float
      Datum.u4_reads rfl
    · intro c hc
      cases c <;> cases hc
      exact ⟨_, rfl⟩
    · exact fun _ => ⟨rfl, Iff.rfl, rfl, fun _ => rfl⟩
  | long =>
    apply reads_one (fun d => long (d.named (toString d.num))) .long Datum.u8_reads rfl
    · intro c hc
      cases c <;> cases hc
      exact ⟨_, rfl⟩
    · intro a
      refine ⟨rfl, Iff.rfl, rfl, ?_⟩
      intro pos
      simp only [ConstantForm.payload, Datum.ofWord]
  | double =>
    apply reads_one (fun d => double (d.named (Decimal.Format.double.literal d.raw))) .double
      Datum.u8_reads rfl
    · intro c hc
      cases c <;> cases hc
      exact ⟨_, rfl⟩
    · exact fun _ => ⟨rfl, Iff.rfl, rfl, fun _ => rfl⟩
  | classInfo =>
    apply reads_one classInfo .classInfo Datum.u2_reads rfl
    · intro c hc
      cases c <;> cases hc
      exact ⟨_, rfl⟩
    · exact fun _ => ⟨rfl, Iff.rfl, rfl, fun _ => rfl⟩
  | string =>
    apply reads_one string .string Datum.u2_reads rfl
    · intro c hc
      cases c <;> cases hc
      exact ⟨_, rfl⟩
    · exact fun _ => ⟨rfl, Iff.rfl, rfl, fun _ => rfl⟩
  | methodType =>
    apply reads_one methodType .methodType Datum.u2_reads rfl
    · intro c hc
      cases c <;> cases hc
      exact ⟨_, rfl⟩
    · exact fun _ => ⟨rfl, Iff.rfl, rfl, fun _ => rfl⟩
  | moduleInfo =>
    apply reads_one moduleInfo .moduleInfo Datum.u2_reads rfl
    · intro c hc
      cases c <;> cases hc
      exact ⟨_, rfl⟩
    · exact fun _ => ⟨rfl, Iff.rfl, rfl, fun _ => rfl⟩
  | packageInfo =>
    apply reads_one packageInfo .packageInfo Datum.u2_reads rfl
    · intro c hc
      cases c <;> cases hc
      exact ⟨_, rfl⟩
    · exact fun _ => ⟨rfl, Iff.rfl, rfl, fun _ => rfl⟩
  | fieldref =>
    apply reads_two fieldref .fieldref Datum.u2_reads rfl
    · intro c hc
      cases c <;> cases hc
      exact ⟨_, _, rfl⟩
    · exact fun _ _ => ⟨rfl, Iff.rfl, rfl, fun _ => rfl⟩
  | methodref =>
    apply reads_two methodref .methodref Datum.u2_reads rfl
    · intro c hc
      cases c <;> cases hc
      exact ⟨_, _, rfl⟩
    · exact fun _ _ => ⟨rfl, Iff.rfl, rfl, fun _ => rfl⟩
  | interfaceMethodref =>
    apply reads_two interfaceMethodref .interfaceMethodref Datum.u2_reads rfl
    · intro c hc
      cases c <;> cases hc
      exact ⟨_, _, rfl⟩
    · exact fun _ _ => ⟨rfl, Iff.rfl, rfl, fun _ => rfl⟩
  | nameAndType =>
    apply reads_two nameAndType .nameAndType Datum.u2_reads rfl
    · intro c hc
      cases c <;> cases hc
      exact ⟨_, _, rfl⟩
    · exact fun _ _ => ⟨rfl, Iff.rfl, rfl, fun _ => rfl⟩
  | dynamic =>
    apply reads_two dynamic .dynamic Datum.u2_reads rfl
    · intro c hc
      cases c <;> cases hc
      exact ⟨_, _, rfl⟩
    · exact fun _ _ => ⟨rfl, Iff.rfl, rfl, fun _ => rfl⟩
  | invokeDynamic =>
    apply reads_two invokeDynamic .invokeDynamic Datum.u2_reads rfl
    · intro c hc
      cases c <;> cases hc
      exact ⟨_, _, rfl⟩
    · exact fun _ _ => ⟨rfl, Iff.rfl, rfl, fun _ => rfl⟩
  | methodHandle =>
    apply reads_two (fun kind reference =>
      methodHandle (kind.named (ReferenceKind.describe kind.raw.toUInt8)) reference) .methodHandle
      Datum.u1_reads rfl
    · intro c hc
      cases c <;> cases hc
      exact ⟨_, _, rfl⟩
    · exact fun _ _ => ⟨rfl, Iff.rfl, rfl, fun _ => rfl⟩

end Payload

theorem Tag.eq_code_of_ofCode? {code : UInt8} {tag : Tag} (h : ofCode? code = some tag) :
    code = tag.code := by
  revert h
  unfold ofCode?
  split <;> intro h <;> cases h <;> exact UInt8.toNat_inj.1 (by assumption)

def Tag.format : Format Tag (Datum × Tag) where
  legal _ := True
  bytes tag := [tag.code]
  place pos tag := ((Datum.ofWord 1 .structural pos tag.code.toNat).named tag.name, tag)

namespace Constant

theorem readTag_eq_ok {w w' : Window} {r : Datum × Tag} : readTag w = .ok (r, w') ↔
    ∃ d, Datum.u1 w = .ok (d, w')
      ∧ ∃ tag, Tag.ofCode? d.raw.toUInt8 = some tag ∧ r = (d.named tag.name, tag) := by
  unfold readTag tagSteps
  rw [Reading.bind_eq_ok]
  constructor
  · rintro ⟨d, v, hd, h⟩
    cases htag : Tag.ofCode? d.raw.toUInt8 with
    | none =>
      rw [htag] at h
      exact (Reading.throw_eq_ok.1 h).elim
    | some tag =>
      rw [htag] at h
      obtain ⟨rfl, rfl⟩ := Reading.pure_eq_ok.1 h
      exact ⟨d, hd, tag, htag, rfl⟩
  · rintro ⟨d, hd, tag, htag, rfl⟩
    refine ⟨d, w', hd, ?_⟩
    rw [htag]
    exact Reading.pure_eq_ok.2 ⟨rfl, rfl⟩

theorem readTag_reads : Reads readTag Tag.format := by
  have hraw : ∀ (pos : Nat) (b : UInt8),
      (Datum.ofWord 1 .structural pos b.toNat).raw.toUInt8 = b := fun _ b => UInt8.ofNat_toNat
  intro w r w'
  rw [readTag_eq_ok]
  constructor
  · rintro ⟨d, hd, tag, htag, rfl⟩
    obtain ⟨b, -, hafter, rfl⟩ := (Datum.byte_reads .structural w d w').1 hd
    have hb := Tag.eq_code_of_ofCode? ((congrArg Tag.ofCode? (hraw w.pos b)).symm.trans htag)
    subst hb
    exact ⟨tag, trivial, hafter, rfl⟩
  · rintro ⟨tag, -, hafter, rfl⟩
    refine ⟨_, (Datum.byte_reads .structural _ _ _).2 ⟨tag.code, trivial, hafter, rfl⟩, tag, ?_, rfl⟩
    exact (congrArg Tag.ofCode? (hraw w.pos tag.code)).trans (Tag.ofCode?_code tag)

theorem read_reads (index : Nat) : Reads (read index) (ConstantForm.format index) := by
  apply Runs.reads
  · exact readTag_reads.bind fun r => (Payload.read_reads r.2).bind fun payload =>
      Runs.pure (Constant.mk index r.1 payload "")
  · intro pos bs c
    constructor
    · rintro ⟨tag, -, cs, rfl, form, ⟨rfl, hform⟩, cs', rfl, rfl, rfl⟩
      refine ⟨form, hform, ?_, rfl⟩
      rw [List.append_nil]
      rfl
    · rintro ⟨form, hform, rfl, rfl⟩
      exact ⟨form.tag, trivial, _, rfl, form, ⟨rfl, hform⟩, [], (List.append_nil _).symm, rfl, rfl⟩

end Constant

/-! ## Slots -/

namespace PoolForm

/-- Slots that entries can occupy, from some index on: a wide entry leaves the slot after it unused,
if there is one. -/
inductive Slotted : List (Option ConstantForm) → Prop
  | nil : Slotted []
  | narrow {c : ConstantForm} {slots : List (Option ConstantForm)} (legal : c.Legal)
      (narrow : c.tag.isWide = false) (rest : Slotted slots) : Slotted (some c :: slots)
  | wide {c : ConstantForm} {slots : List (Option ConstantForm)} (legal : c.Legal)
      (wide : c.tag.isWide = true) (rest : Slotted slots) : Slotted (some c :: none :: slots)
  | wideLast {c : ConstantForm} (legal : c.Legal) (wide : c.tag.isWide = true) : Slotted [some c]

def slotBytes (slots : List (Option ConstantForm)) : List UInt8 :=
  slots.flatMap fun slot => (slot.map ConstantForm.bytes).getD []

def placeSlots : Nat → Nat → List (Option ConstantForm) → List (Option Constant)
  | _, _, [] => []
  | index, pos, none :: slots => none :: placeSlots (index + 1) pos slots
  | index, pos, some c :: slots =>
    some (c.place index pos) :: placeSlots (index + 1) (pos + c.bytes.length) slots

/-- So many slots, the first of which has an index. -/
def slotFormat (index count : Nat) : Format (List (Option ConstantForm)) (List (Option Constant)) where
  legal slots := slots.length = count ∧ Slotted slots
  bytes := slotBytes
  place := placeSlots index

def Follows (wide : Bool) (slots : List (Option ConstantForm)) : Prop :=
  if wide then slots = [] ∨ ∃ rest, slots = none :: rest ∧ Slotted rest else Slotted slots

/-- Slot 0 is unused; a pool may also have no slot at all. -/
def Legal (slots : List (Option ConstantForm)) : Prop :=
  slots.length < 256 ^ 2 ∧ (slots = [] ∨ ∃ rest, slots = none :: rest ∧ Slotted rest)

def bytes (slots : List (Option ConstantForm)) : List UInt8 :=
  Word.bytes 2 slots.length ++ slotBytes slots

/-- The pool, its entries not yet named. -/
def place (pos : Nat) (slots : List (Option ConstantForm)) : Pool :=
  { count := Datum.wordAt pos slots.length
    slots := (placeSlots 0 (pos + 2) slots).toArray }

def format : Format (List (Option ConstantForm)) Pool where
  legal := Legal
  bytes := bytes
  place := place

theorem slotted_cons {c : ConstantForm} {slots : List (Option ConstantForm)} :
    Slotted (some c :: slots) ↔ c.Legal ∧ Follows c.tag.isWide slots := by
  unfold Follows
  constructor
  · intro h
    cases h with
    | narrow legal narrow rest => exact ⟨legal, by rw [narrow]; exact rest⟩
    | wide legal wide rest => exact ⟨legal, by rw [wide]; exact .inr ⟨_, rfl, rest⟩⟩
    | wideLast legal wide => exact ⟨legal, by rw [wide]; exact .inl rfl⟩
  · rintro ⟨legal, h⟩
    split at h
    · rename_i wide
      obtain rfl | ⟨rest, rfl, hrest⟩ := h
      · exact .wideLast legal wide
      · exact .wide legal wide hrest
    · rename_i narrow
      exact .narrow legal (by simpa using narrow) h

end PoolForm

namespace Pool

open PoolForm

theorem readSlots_tail {count : Nat}
    (ih : ∀ m, m ≤ count → ∀ i, Reads (readSlots i m) (slotFormat i m)) (index : Nat) (c : Constant) :
    Runs (if c.isWide then
        match count with
        | 0 => pure [some c]
        | count + 1 => do
          let slots ← readSlots (index + 2) count
          pure (some c :: none :: slots)
      else do
        let slots ← readSlots (index + 1) count
        pure (some c :: slots))
      fun pos bs out => ∃ slots, (slots.length = count ∧ Follows c.isWide slots)
        ∧ bs = slotBytes slots ∧ out = some c :: placeSlots (index + 1) pos slots := by
  cases hwide : c.isWide with
  | false =>
    have hrun := (ih count (Nat.le_refl _) (index + 1)).bind fun slots => Runs.pure (some c :: slots)
    intro w out w'
    refine (hrun w out w').trans (exists_congr fun bs => and_congr_right fun _ => ?_)
    constructor
    · rintro ⟨slots, hslots, cs, rfl, rfl, rfl⟩
      exact ⟨slots, hslots, List.append_nil _, rfl⟩
    · rintro ⟨slots, hslots, rfl, rfl⟩
      exact ⟨slots, hslots, [], (List.append_nil _).symm, rfl, rfl⟩
  | true =>
    cases count with
    | zero =>
      intro w out w'
      refine (Runs.pure [some c] w out w').trans (exists_congr fun bs => and_congr_right fun _ => ?_)
      constructor
      · rintro ⟨rfl, rfl⟩
        exact ⟨[], ⟨rfl, .inl rfl⟩, rfl, rfl⟩
      · rintro ⟨slots, ⟨hlen, -⟩, rfl, rfl⟩
        obtain rfl := List.length_eq_zero_iff.1 hlen
        exact ⟨rfl, rfl⟩
    | succ count =>
      have hrun := (ih count (Nat.le_succ _) (index + 2)).bind fun slots =>
        Runs.pure (some c :: none :: slots)
      intro w out w'
      refine (hrun w out w').trans (exists_congr fun bs => and_congr_right fun _ => ?_)
      constructor
      · rintro ⟨slots, ⟨hlen, hslots⟩, cs, rfl, rfl, rfl⟩
        exact ⟨none :: slots, ⟨by rw [List.length_cons, hlen], .inr ⟨slots, rfl, hslots⟩⟩,
          List.append_nil _, rfl⟩
      · rintro ⟨slots, ⟨hlen, hslots⟩, rfl, rfl⟩
        obtain rfl | ⟨rest, rfl, hrest⟩ := hslots
        · cases hlen
        · exact ⟨rest, ⟨by simpa using hlen, hrest⟩, [], (List.append_nil _).symm, rfl, rfl⟩

theorem readSlots_reads (count : Nat) :
    ∀ index, Reads (readSlots index count) (slotFormat index count) := by
  induction count using Nat.strongRecOn with
  | _ count ih =>
    intro index
    cases count with
    | zero =>
      apply Runs.reads (Runs.pure [])
      intro pos bs out
      constructor
      · rintro ⟨rfl, rfl⟩
        exact ⟨[], ⟨rfl, .nil⟩, rfl, rfl⟩
      · rintro ⟨slots, ⟨hlen, -⟩, rfl, rfl⟩
        obtain rfl := List.length_eq_zero_iff.1 hlen
        exact ⟨rfl, rfl⟩
    | succ count =>
      have htail := readSlots_tail (fun m hm => ih m (Nat.lt_succ_of_le hm)) index
      unfold readSlots slotSteps
      apply Runs.reads
        (((Constant.read_reads index).within ("#" ++ toString index)).bind htail)
      intro pos bs out
      constructor
      · rintro ⟨c, hc, cs, rfl, slots, ⟨hlen, hfollows⟩, rfl, rfl⟩
        rw [show Constant.isWide _ = c.tag.isWide from congrArg Tag.isWide (c.tag_payload _)]
          at hfollows
        exact ⟨some c :: slots, ⟨by rw [List.length_cons, hlen], slotted_cons.2 ⟨hc, hfollows⟩⟩,
          rfl, rfl⟩
      · rintro ⟨slots, ⟨hlen, hslots⟩, rfl, rfl⟩
        obtain ⟨slot, slots, rfl⟩ := List.exists_cons_of_length_eq_add_one hlen
        obtain _ | c := slot
        · cases hslots
        · obtain ⟨hc, hfollows⟩ := slotted_cons.1 hslots
          refine ⟨c, hc, _, rfl, slots, ⟨by simpa using hlen, ?_⟩, rfl, rfl⟩
          rwa [show Constant.isWide _ = c.tag.isWide from congrArg Tag.isWide (c.tag_payload _)]

theorem read_tail (count : Datum) (n : Nat) :
    Runs (match n with
      | 0 => pure (Pool.mk count #[])
      | n + 1 => do
        let slots ← readSlots 1 n
        pure (Pool.mk count (none :: slots).toArray))
      fun pos bs pool => ∃ slots, (slots.length = n
          ∧ (slots = [] ∨ ∃ rest, slots = none :: rest ∧ Slotted rest))
        ∧ bs = slotBytes slots ∧ pool = ⟨count, (placeSlots 0 pos slots).toArray⟩ := by
  cases n with
  | zero =>
    intro w pool w'
    refine (Runs.pure _ w pool w').trans (exists_congr fun bs => and_congr_right fun _ => ?_)
    constructor
    · rintro ⟨rfl, rfl⟩
      exact ⟨[], ⟨rfl, .inl rfl⟩, rfl, rfl⟩
    · rintro ⟨slots, ⟨hlen, -⟩, rfl, rfl⟩
      obtain rfl := List.length_eq_zero_iff.1 hlen
      exact ⟨rfl, rfl⟩
  | succ n =>
    have hrun := (readSlots_reads n 1).bind fun slots =>
      Runs.pure (Pool.mk count (none :: slots).toArray)
    intro w pool w'
    refine (hrun w pool w').trans (exists_congr fun bs => and_congr_right fun _ => ?_)
    constructor
    · rintro ⟨slots, ⟨hlen, hslots⟩, cs, rfl, rfl, rfl⟩
      exact ⟨none :: slots, ⟨by rw [List.length_cons, hlen], .inr ⟨slots, rfl, hslots⟩⟩,
        List.append_nil _, rfl⟩
    · rintro ⟨slots, ⟨hlen, rfl | ⟨rest, rfl, hrest⟩⟩, rfl, rfl⟩
      · cases hlen
      · exact ⟨rest, ⟨by simpa using hlen, hrest⟩, [], (List.append_nil _).symm, rfl, rfl⟩

/-- The entries of the pool are read from the layout of the pool. -/
theorem read_reads : Reads read PoolForm.format := by
  apply Reads.inPhase
  apply Runs.reads ((Datum.u2_reads.within "constant_pool_count").bind
    fun count => read_tail count count.num.toNat)
  intro pos bs pool
  constructor
  · rintro ⟨n, hn, cs, rfl, slots, ⟨hlen, hslots⟩, rfl, rfl⟩
    obtain rfl : slots.length = n := hlen.trans (Datum.toNat_wordAt pos hn)
    exact ⟨slots, ⟨hn, hslots⟩, rfl, rfl⟩
  · rintro ⟨slots, ⟨hn, hslots⟩, rfl, rfl⟩
    exact ⟨slots.length, hn, _, rfl, slots, ⟨(Datum.toNat_wordAt pos hn).symm, hslots⟩, rfl, rfl⟩

end Pool

end ClassAtlas
