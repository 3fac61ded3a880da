import Mathlib.Algebra.Group.Int.Defs
import Mathlib.Algebra.Group.Nat.Defs
import ClassAtlas.Datum
import ClassAtlas.Proofs.Format

/-! # Words

How numbers are written, and the formats of single values: unsigned words, words in two's complement,
text, and bytes without a meaning of their own.

* `Word.bytes width n`: the big-endian bytes of a number.
* `Word.Fits width v`, `Word.bits width v`: the numbers of a two's-complement word, and their bits.
* `Datum.unsignedFormat`, `Datum.signedFormat`, `Datum.textFormat`, `Datum.skipFormat`: what the steps
  on single values read.
* `Format.counted`: a count and that many contents.
-/

namespace ClassAtlas
set_option autoImplicit false

/-! ## Big-endian bytes -/

namespace Word

/-- The low bytes of a number, most significant first. -/
def bytes : Nat → Nat → List UInt8
  | 0, _ => []
  | width + 1, n => UInt8.ofNat (n / 256 ^ width) :: bytes width n

@[simp] theorem length_bytes (width n : Nat) : (bytes width n).length = width := by
  induction width with
  | zero => rfl
  | succ width ih => rw [bytes, List.length_cons, ih]

end Word

namespace Window

theorem foldl_bigEndian (n : Nat) (bs : List UInt8) :
    bs.foldl (fun m b => m * 256 + b.toNat) n = n * 256 ^ bs.length + bigEndian bs := by
  induction bs generalizing n with
  | nil => simp [bigEndian]
  | cons b bs ih =>
    have hb : bigEndian (b :: bs) = b.toNat * 256 ^ bs.length + bigEndian bs := by
      rw [bigEndian, List.foldl_cons, ih, Nat.zero_mul, Nat.zero_add]
    rw [List.foldl_cons, ih, hb, List.length_cons, Nat.pow_succ, Nat.add_mul, Nat.mul_assoc,
      Nat.mul_comm 256, Nat.add_assoc]

theorem bigEndian_cons (b : UInt8) (bs : List UInt8) :
    bigEndian (b :: bs) = b.toNat * 256 ^ bs.length + bigEndian bs := by
  rw [bigEndian, List.foldl_cons, foldl_bigEndian, Nat.zero_mul, Nat.zero_add]

theorem bigEndian_lt (bs : List UInt8) : bigEndian bs < 256 ^ bs.length := by
  induction bs with
  | nil => simp [bigEndian]
  | cons b bs ih =>
    rw [bigEndian_cons, List.length_cons, Nat.pow_succ]
    have hb : b.toNat * 256 ^ bs.length ≤ 255 * 256 ^ bs.length :=
      Nat.mul_le_mul_right _ (Nat.le_of_lt_succ b.toNat_lt)
    omega

theorem bigEndian_bytes (width n : Nat) : bigEndian (Word.bytes width n) = n % 256 ^ width := by
  induction width with
  | zero => simp [Word.bytes, bigEndian, Nat.mod_one]
  | succ width ih =>
    have hsplit : n % 256 ^ (width + 1) = n % 256 ^ width + 256 ^ width * (n / 256 ^ width % 256) := by
      rw [Nat.pow_succ, Nat.mod_mul]
    have hbyte : (UInt8.ofNat (n / 256 ^ width)).toNat = n / 256 ^ width % 256 := UInt8.toNat_ofNat'
    rw [Word.bytes, bigEndian_cons, Word.length_bytes, ih, hbyte, hsplit, Nat.mul_comm, Nat.add_comm]

end Window

namespace Word

theorem bytes_mul_add (width q n : Nat) : bytes width (q * 256 ^ width + n) = bytes width n := by
  induction width generalizing q with
  | zero => rfl
  | succ width ih =>
    have hq : q * 256 ^ (width + 1) + n = q * 256 * 256 ^ width + n := by
      rw [Nat.pow_succ, Nat.mul_assoc, Nat.mul_comm (256 ^ width)]
    have hpos : 0 < 256 ^ width := Nat.pow_pos (by decide)
    rw [hq, bytes, ih, bytes, Nat.mul_comm (q * 256), Nat.mul_add_div hpos]
    congr 1
    rw [← UInt8.toNat_inj, UInt8.toNat_ofNat', UInt8.toNat_ofNat']
    omega

theorem bytes_bigEndian (bs : List UInt8) : bytes bs.length (Window.bigEndian bs) = bs := by
  induction bs with
  | nil => rfl
  | cons b bs ih =>
    have hpos : 0 < 256 ^ bs.length := Nat.pow_pos (by decide)
    have hlt := Window.bigEndian_lt bs
    rw [List.length_cons, bytes, Window.bigEndian_cons, bytes_mul_add, ih,
      Nat.mul_comm b.toNat, Nat.mul_add_div hpos, Nat.div_eq_of_lt hlt, Nat.add_zero,
      UInt8.ofNat_toNat]

theorem bytes_inj {width m n : Nat} (hm : m < 256 ^ width) (hn : n < 256 ^ width)
    (h : bytes width m = bytes width n) : m = n := by
  have he := congrArg Window.bigEndian h
  rwa [Window.bigEndian_bytes, Window.bigEndian_bytes, Nat.mod_eq_of_lt hm, Nat.mod_eq_of_lt hn] at he

/-! ## Two's complement -/

theorem cast_pow (width : Nat) : (256 ^ width : Int) = ((256 ^ width : Nat) : Int) := by
  rw [Int.natCast_pow]
  rfl

/-- The number has a place in a two's-complement word of `width` bytes. -/
def Fits (width : Nat) (v : Int) : Prop :=
  -(256 ^ width : Int) ≤ 2 * v ∧ 2 * v < 256 ^ width

instance (width : Nat) (v : Int) : Decidable (Fits width v) :=
  inferInstanceAs (Decidable (_ ∧ _))

/-- The bits of a number in a two's-complement word of `width` bytes. -/
def bits (width : Nat) (v : Int) : Nat :=
  (v % 256 ^ width).toNat

theorem bits_lt (width : Nat) (v : Int) : bits width v < 256 ^ width := by
  have hpos : (0 : Int) < 256 ^ width := Int.pow_pos (by decide)
  have hlt := Int.emod_lt_of_pos v hpos
  rw [bits, Int.toNat_lt (Int.emod_nonneg _ (Int.ne_of_gt hpos)), ← cast_pow]
  exact hlt

theorem twosComplement_bits {width : Nat} {v : Int} (h : Fits width v) :
    Window.twosComplement (8 * width) (bits width v) = v := by
  have hpow : Nat.pow 2 (8 * width) = 256 ^ width := Nat.pow_mul 2 8 width
  have hpos : (0 : Int) < 256 ^ width := Int.pow_pos (by decide)
  rw [Window.twosComplement, hpow, bits, Int.toNat_of_nonneg (Int.emod_nonneg _ (Int.ne_of_gt hpos))]
  rw [cast_pow, Int.emod_bmod]
  apply Int.bmod_eq_of_le_mul_two
  · rw [← cast_pow, Int.mul_comm]
    exact h.1
  · rw [← cast_pow, Int.mul_comm]
    exact h.2

theorem fits_twosComplement {width : Nat} (hw : 0 < width) (n : Nat) :
    Fits width (Window.twosComplement (8 * width) n) := by
  have hpow : Nat.pow 2 (8 * width) = 256 ^ width := Nat.pow_mul 2 8 width
  have hpos : 0 < 256 ^ width := Nat.pow_pos (by decide)
  have heven : 256 ^ width = 2 * (128 * 256 ^ (width - 1)) := by
    obtain ⟨k, rfl⟩ := Nat.exists_eq_add_one_of_ne_zero (Nat.ne_of_gt hw)
    rw [Nat.pow_succ, Nat.add_sub_cancel]
    omega
  have hlo := Int.le_bmod (x := (n : Int)) hpos
  have hhi := Int.bmod_lt (x := (n : Int)) hpos
  rw [Fits, Window.twosComplement, hpow, cast_pow]
  omega

theorem bits_twosComplement {width n : Nat} (hn : n < 256 ^ width) :
    bits width (Window.twosComplement (8 * width) n) = n := by
  have hpow : Nat.pow 2 (8 * width) = 256 ^ width := Nat.pow_mul 2 8 width
  rw [bits, Window.twosComplement, hpow, cast_pow, Int.bmod_emod,
    Int.emod_eq_of_lt (Int.natCast_nonneg n) (Int.ofNat_lt.2 hn), Int.toNat_natCast]

theorem bits_natCast {width n : Nat} (h : n < 256 ^ width) : bits width n = n := by
  rw [bits, cast_pow, Int.emod_eq_of_lt (Int.natCast_nonneg n) (Int.ofNat_lt.2 h),
    Int.toNat_natCast]

theorem twosComplement_of_lt {n : Nat} (h : n < 2 ^ 63) : Window.twosComplement 64 n = n := by
  rw [Window.twosComplement]
  apply Int.bmod_eq_of_le_mul_two
  · have : (0 : Int) ≤ n := Int.natCast_nonneg n
    simp only [Nat.pow_eq]
    omega
  · simp only [Nat.pow_eq]
    omega

end Word

/-! ## Single values -/

namespace Window

theorem unsigned_eq_ok {width : Nat} (hw : width = 1 ∨ width = 2 ∨ width = 4 ∨ width = 8) {n : Nat}
    {w w' : Window} :
    unsigned width w = .ok (n, w') ↔ n < 256 ^ width ∧ w.After (Word.bytes width n) w' := by
  have hw' : (width : Int) = 1 ∨ (width : Int) = 2 ∨ (width : Int) = 4 ∨ (width : Int) = 8 := by omega
  simp only [unsigned, if_pos hw', Reading.bind_eq_ok, Reading.pure_eq_ok, take_eq_ok]
  constructor
  · rintro ⟨bs, v, ⟨hlen, hafter⟩, rfl, rfl⟩
    obtain rfl : bs.length = width := by omega
    rw [Word.bytes_bigEndian]
    exact ⟨bigEndian_lt bs, hafter⟩
  · rintro ⟨hn, hafter⟩
    refine ⟨Word.bytes width n, w', ⟨by rw [Word.length_bytes], hafter⟩, ?_, rfl⟩
    rw [bigEndian_bytes, Nat.mod_eq_of_lt hn]

theorem signedBits_eq_unsigned {width : Nat} (hw : width = 1 ∨ width = 2 ∨ width = 4) :
    signedBits width = unsigned width := by
  have hw' : (width : Int) = 1 ∨ (width : Int) = 2 ∨ (width : Int) = 4 := by omega
  rw [signedBits, if_pos hw']

end Window

namespace Datum

def ofWord (width : Nat) (kind : OperandKind) (pos n : Nat) : Datum :=
  { offset := pos, width := width, raw := n, num := Window.twosComplement 64 n, kind := kind }

def ofSigned (width : Nat) (kind : OperandKind) (pos : Nat) (v : Int) : Datum :=
  { offset := pos, width := width, raw := Word.bits width v, num := v, kind := kind }

def ofText (pos : Nat) (bs : List UInt8) : Datum :=
  { offset := pos, width := bs.length, name := Text.Modified.decode bs,
    str := Text.Modified.decode bs }

/-- The value of bytes without a meaning of their own. -/
def ofSkipped (pos : Nat) (bs : List UInt8) : Datum :=
  { offset := pos, width := bs.length }

theorem ofWord_num {width n : Nat} (kind : OperandKind) (pos : Nat) (h : n < 2 ^ 63) :
    (ofWord width kind pos n).num = n := by
  simp only [ofWord, Word.twosComplement_of_lt h]

def unsignedFormat (width : Nat) (kind : OperandKind) : Format Nat Datum where
  legal n := n < 256 ^ width
  bytes := Word.bytes width
  place := ofWord width kind

def signedFormat (width : Nat) (kind : OperandKind) : Format Int Datum where
  legal := Word.Fits width
  bytes v := Word.bytes width (Word.bits width v)
  place := ofSigned width kind

def textFormat (n : Int) : Format (List UInt8) Datum where
  legal bs := (bs.length : Int) = n
  bytes bs := bs
  place := ofText

/-- So many bytes without a meaning of their own. -/
def skipFormat (n : Int) : Format (List UInt8) Datum where
  legal bs := (bs.length : Int) = n
  bytes bs := bs
  place := ofSkipped

theorem unsigned_reads {width : Nat} (hw : width = 1 ∨ width = 2 ∨ width = 4 ∨ width = 8)
    (kind : OperandKind) : Reads (unsigned width kind) (unsignedFormat width kind) := by
  intro w d w'
  simp only [unsigned, Reading.map_eq_ok, Window.unsigned_eq_ok hw, Prod.mk.injEq]
  constructor
  · rintro ⟨n, v, ⟨hn, hafter⟩, rfl, rfl⟩
    exact ⟨n, hn, hafter, rfl⟩
  · rintro ⟨n, hn, hafter, rfl⟩
    exact ⟨n, w', ⟨hn, hafter⟩, rfl, rfl⟩

theorem signed_reads {width : Nat} (hw : width = 1 ∨ width = 2 ∨ width = 4) (kind : OperandKind) :
    Reads (signed width kind) (signedFormat width kind) := by
  have hw' : width = 1 ∨ width = 2 ∨ width = 4 ∨ width = 8 := by omega
  intro w d w'
  simp only [signed, Window.signedBits_eq_unsigned hw, Reading.map_eq_ok, Window.unsigned_eq_ok hw',
    Prod.mk.injEq, Int.toNat_natCast]
  constructor
  · rintro ⟨n, v, ⟨hn, hafter⟩, rfl, rfl⟩
    refine ⟨Window.twosComplement (8 * width) n, Word.fits_twosComplement (by omega) n, ?_, ?_⟩
    · simp only [signedFormat, Word.bits_twosComplement hn]
      exact hafter
    · simp only [signedFormat, ofSigned, Word.bits_twosComplement hn]
  · rintro ⟨v, hv, hafter, rfl⟩
    refine ⟨Word.bits width v, w', ⟨Word.bits_lt width v, hafter⟩, ?_, rfl⟩
    simp only [signedFormat, ofSigned, Word.twosComplement_bits hv]

theorem text_reads (n : Int) : Reads (text n) (textFormat n) := by
  intro w d w'
  simp only [text, Window.text, Reading.map_eq_ok, Reading.bind_eq_ok, Reading.pure_eq_ok,
    Window.take_eq_ok, Prod.mk.injEq]
  constructor
  · rintro ⟨s, v, ⟨bs, u, ⟨hn, hafter⟩, rfl, rfl⟩, rfl, rfl⟩
    refine ⟨bs, hn, hafter, ?_⟩
    simp only [textFormat, ofText, ← hn, Int.toNat_natCast]
  · rintro ⟨bs, rfl, hafter, rfl⟩
    exact ⟨_, w', ⟨bs, w', ⟨rfl, hafter⟩, rfl, rfl⟩, rfl, rfl⟩

theorem skip_reads (n : Int) : Reads (skip n) (skipFormat n) := by
  intro w d w'
  simp only [skip, Reading.map_eq_ok, Window.skip_eq_ok, Prod.mk.injEq]
  constructor
  · rintro ⟨u, v, ⟨bs, hn, hafter⟩, rfl, rfl⟩
    refine ⟨bs, hn, hafter, ?_⟩
    simp only [skipFormat, ofSkipped, ← hn, Int.toNat_natCast]
  · rintro ⟨bs, rfl, hafter, rfl⟩
    exact ⟨(), w', ⟨bs, rfl, hafter⟩, rfl, rfl⟩

def byteFormat (kind : OperandKind) : Format UInt8 Datum where
  legal _ := True
  bytes b := [b]
  place pos b := ofWord 1 kind pos b.toNat

theorem byte_reads (kind : OperandKind) : Reads (unsigned 1 kind) (byteFormat kind) := by
  intro w d w'
  refine (unsigned_reads (Or.inl rfl) kind w d w').trans ?_
  have hbyte : ∀ n, Word.bytes 1 n = [UInt8.ofNat n] := by
    intro n
    simp only [Word.bytes, Nat.pow_zero, Nat.div_one]
  constructor
  · rintro ⟨n, hn, hafter, rfl⟩
    have hn' : n < 256 := hn
    have hval : (UInt8.ofNat n).toNat = n := by
      rw [UInt8.toNat_ofNat', Nat.mod_eq_of_lt hn']
    refine ⟨UInt8.ofNat n, trivial, ?_, ?_⟩
    · simpa only [byteFormat, unsignedFormat, hbyte n] using hafter
    · simp only [byteFormat, unsignedFormat, hval]
  · rintro ⟨b, -, hafter, rfl⟩
    refine ⟨b.toNat, b.toNat_lt, ?_, rfl⟩
    simpa only [byteFormat, unsignedFormat, hbyte b.toNat, UInt8.ofNat_toNat] using hafter

theorem u1_reads : Reads u1 (unsignedFormat 1 .structural) := unsigned_reads (by decide) _

theorem u2_reads : Reads u2 (unsignedFormat 2 .structural) := unsigned_reads (by decide) _

theorem u4_reads : Reads u4 (unsignedFormat 4 .structural) := unsigned_reads (by decide) _

theorem u8_reads : Reads u8 (unsignedFormat 8 .structural) := unsigned_reads (by decide) _

/-! ## Counted rows -/

def wordAt (pos n : Nat) : Datum :=
  ofWord 2 .structural pos n

theorem num_wordAt {n : Nat} (pos : Nat) (h : n < 256 ^ 2) : (wordAt pos n).num = n := by
  have hn : n < 65536 := h
  exact ofWord_num _ _ (by omega)

theorem toNat_wordAt {n : Nat} (pos : Nat) (h : n < 256 ^ 2) : (wordAt pos n).num.toNat = n := by
  rw [num_wordAt pos h, Int.toNat_natCast]

end Datum

/-- A word for the number of rows, then the rows. -/
def Word.rows {ι : Type} (write : ι → List UInt8) (xs : List ι) : List UInt8 :=
  bytes 2 xs.length ++ xs.flatMap write

def Format.counted {ι α : Type} (F : Format ι α) : Format (List ι) (Datum × List α) where
  legal xs := xs.length < 256 ^ 2 ∧ ∀ x ∈ xs, F.legal x
  bytes := Word.rows F.bytes
  place pos xs := (Datum.wordAt pos xs.length, F.placeAll (pos + 2) xs)

/-- A count and that many rows stand before the next step. -/
theorem Format.counted_bind {ι α β : Type} {word : Reading Datum} {step : Nat → Reading α}
    {F : Format ι α} (hword : Reads word (Datum.unsignedFormat 2 .structural))
    (h : ∀ i, Reads (step i) F) {k : Datum → List α → Reading β}
    {K : Datum → List α → Nat → List UInt8 → β → Prop} (hk : ∀ d as, Runs (k d as) (K d as)) :
    Runs (do let count ← word; let rows ← repeated count.num.toNat step; k count rows)
      fun pos bs b => ∃ xs, F.counted.legal xs ∧ ∃ cs, bs = F.counted.bytes xs ++ cs
        ∧ K (F.counted.place pos xs).1 (F.counted.place pos xs).2
          (pos + (F.counted.bytes xs).length) cs b := by
  have hrun := hword.bind fun count =>
    (Reads.repeated h count.num.toNat).bind fun rows => hk count rows
  have hstop : ∀ (pos : Nat) (xs : List ι), pos + (F.counted.bytes xs).length
      = pos + 2 + (xs.flatMap F.bytes).length := by
    intro pos xs
    simp only [Format.counted, Word.rows, List.length_append, Word.length_bytes, Nat.add_assoc]
  intro w b w'
  refine (hrun w b w').trans (exists_congr fun bs => and_congr_right fun _ => ?_)
  constructor
  · rintro ⟨n, hn, cs, rfl, xs, ⟨hlen, hxs⟩, cs', rfl, hb⟩
    obtain rfl : xs.length = n := hlen.trans (Datum.toNat_wordAt w.pos hn)
    refine ⟨xs, ⟨hn, hxs⟩, cs', (List.append_assoc _ _ _).symm, ?_⟩
    rw [hstop]
    exact hb
  · rintro ⟨xs, ⟨hn, hxs⟩, cs, rfl, hb⟩
    rw [hstop] at hb
    exact ⟨xs.length, hn, _, List.append_assoc _ _ _, xs,
      ⟨(Datum.toNat_wordAt w.pos hn).symm, hxs⟩, cs, rfl, hb⟩

theorem Reads.counted {ι α : Type} {element : Reading α} {F : Format ι α} (h : Reads element F)
    (label : String) (segment : Nat → String) : Reads (counted label segment element) F.counted := by
  apply Runs.reads (Format.counted_bind (Datum.u2_reads.within label) (fun i => h.within (segment i))
    fun count elements => Runs.pure (count, elements))
  intro pos bs r
  constructor
  · rintro ⟨xs, hxs, cs, rfl, rfl, rfl⟩
    exact ⟨xs, hxs, List.append_nil _, rfl⟩
  · rintro ⟨xs, hxs, rfl, rfl⟩
    exact ⟨xs, hxs, [], (List.append_nil _).symm, rfl, rfl⟩

end ClassAtlas
