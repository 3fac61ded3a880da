import ClassAtlas.Proofs.ClassLayout
import ClassAtlas.Proofs.Leaves
import ClassAtlas.Proofs.Ledger
import ClassAtlas.Proofs.Tiling

/-! # What the leaves spell

The leaves of a decoded class file are the file over again: in file order their bytes are those of the
file, each number is what its bytes mean in its part, and each index holds the name of the constant it
stands for. This module says so of single leaves and puts leaves in a row.

* `Role.meaning`: the number that the bits of a value mean in a part.
* `Leaf.Shows bs`: the leaf says what the bytes `bs` mean.
* `Leaf.Resolved pool`: the leaf has the name that the pool gives to its index.
* `Spells pool pos ls bs`: the leaves `ls` are the bytes `bs` from the offset `pos` on.
* `Spells.word`, `Spells.reference`, `Spells.optional`, `Spells.textual`, `Spells.bulk`: one leaf more.
-/

namespace ClassAtlas
set_option autoImplicit false

/-! ## Single leaves -/

/-- The number that the bits of a word of `width` bytes mean. -/
def Role.meaning (width raw : Nat) : Role → Int
  | .signed => Window.twosComplement (8 * width) raw
  | .jump pc => pc + Window.twosComplement (8 * width) raw
  | _ => if width = 8 then Window.twosComplement 64 raw else raw

/-- The part is that of an unsigned word. -/
def Role.isPlain : Role → Bool
  | .signed | .jump _ | .bulk => false
  | _ => true

/-- The leaf is the word that the bytes are, with its meaning, which has a place in 64 bits. -/
structure Leaf.Numeric (l : Leaf) (bs : List UInt8) : Prop where
  width : l.datum.width = 1 ∨ l.datum.width = 2 ∨ l.datum.width = 4 ∨ l.datum.width = 8
  raw : l.datum.raw = Window.bigEndian bs
  num : l.datum.num = l.role.meaning l.datum.width l.datum.raw
  fits : Word.Fits 8 l.datum.num

/-- What the leaf says about its bytes. -/
def Leaf.Shows (l : Leaf) (bs : List UInt8) : Prop :=
  if l.role = .bulk then l.datum.raw = 0 else l.Numeric bs

/-- The index of a constant, named after the constant. -/
def Datum.Refers (pool : Pool) (d : Datum) : Prop :=
  ∃ c, pool.entry? d.num = some c ∧ d.name = c.name

/-- The leaf has the name that its part asks for. -/
def Leaf.Resolved (pool : Pool) (l : Leaf) : Prop :=
  match l.role with
  | .reference => l.datum.Refers pool
  | .optional absent => if l.datum.num = 0 then l.datum.name = absent else l.datum.Refers pool
  | .textual =>
    ∃ c, pool.entry? l.datum.num = some c ∧ c.payload.tag = .utf8 ∧ l.datum.name = c.name
  | .operand =>
    ∃ c, pool.entry? l.datum.num = some c
      ∧ l.datum.name = c.payload.tag.name ++ ": " ++ c.name
  | _ => True

/-- A leaf of a file with this pool that stands for the bytes. -/
structure Leaf.Sound (pool : Pool) (l : Leaf) (bs : List UInt8) : Prop where
  shows : l.Shows bs
  resolved : l.Resolved pool

/-- The value is the unsigned word `n` of `width` bytes at an offset. -/
structure Datum.IsWord (d : Datum) (pos width n : Nat) : Prop where
  offset : d.offset = pos
  width : d.width = width
  raw : d.raw = n
  num : d.num = Window.twosComplement 64 n

theorem Datum.isWord_ofWord (width : Nat) (kind : OperandKind) (pos n : Nat) :
    (ofWord width kind pos n).IsWord pos width n := by
  refine ⟨rfl, rfl, rfl, ?_⟩
  simp only [ofWord]

theorem Datum.IsWord.named {d : Datum} {pos width n : Nat} (h : d.IsWord pos width n)
    (name : String) : (d.named name).IsWord pos width n :=
  ⟨h.offset, h.width, h.raw, h.num⟩

theorem Datum.num_named (d : Datum) (name : String) : (d.named name).num = d.num := rfl

/-- The Utf8 constants of the pool are named after their text. -/
def Pool.Titled (pool : Pool) : Prop :=
  ∀ i c s, pool.entry? i = some c → c.payload.text? = some s → c.name = s

theorem Word.Fits.mono {width width' : Nat} {v : Int} (h : Word.Fits width v) (hle : width ≤ width') :
    Word.Fits width' v := by
  have hpow : (256 ^ width : Int) ≤ 256 ^ width' := by
    rw [Word.cast_pow, Word.cast_pow]
    exact Int.ofNat_le.2 (Nat.pow_le_pow_right (by decide) hle)
  unfold Word.Fits at h ⊢
  omega

namespace Leaf

theorem shows_word {role : Role} (hrole : role.isPlain = true) {pos width n : Nat} {d : Datum}
    (hd : d.IsWord pos width n) (hw : width = 1 ∨ width = 2 ∨ width = 4 ∨ width = 8)
    (hn : n < 256 ^ width) : (Leaf.mk role d).Shows (Word.bytes width n) := by
  have hbulk : role ≠ .bulk := by
    rintro rfl
    cases hrole
  have hmeaning : role.meaning width n = if width = 8 then Window.twosComplement 64 n else n := by
    cases role <;> first | rfl | cases hrole
  have hshort : width ≠ 8 → Window.twosComplement 64 n = n := by
    intro h8
    apply Word.twosComplement_of_lt
    have hle : 256 ^ width ≤ 256 ^ 4 := Nat.pow_le_pow_right (by decide) (by omega)
    omega
  unfold Shows
  rw [if_neg hbulk]
  refine ⟨hd.width ▸ hw, ?_, ?_, ?_⟩
  · rw [hd.raw, Window.bigEndian_bytes, Nat.mod_eq_of_lt hn]
  · show d.num = role.meaning d.width d.raw
    rw [hd.width, hd.raw, hmeaning, hd.num]
    split
    · rfl
    · rename_i h8
      exact hshort h8
  · show Word.Fits 8 d.num
    rw [hd.num]
    exact Word.fits_twosComplement (by decide) n

theorem shows_signed {width : Nat} {v : Int} {d : Datum}
    (hw : width = 1 ∨ width = 2 ∨ width = 4) (hv : Word.Fits width v)
    (hwidth : d.width = width) (hraw : d.raw = Word.bits width v) (hnum : d.num = v) :
    (Leaf.mk .signed d).Shows (Word.bytes width (Word.bits width v)) := by
  refine ⟨by rw [hwidth]; omega, ?_, ?_, ?_⟩
  · rw [hraw, Window.bigEndian_bytes, Nat.mod_eq_of_lt (Word.bits_lt width v)]
  · show d.num = Window.twosComplement (8 * d.width) d.raw
    rw [hwidth, hraw, hnum, Word.twosComplement_bits hv]
  · show Word.Fits 8 d.num
    rw [hnum]
    exact hv.mono (by omega)

theorem shows_jump {width pc : Nat} {v : Int} {d : Datum}
    (hw : width = 1 ∨ width = 2 ∨ width = 4) (hv : Word.Fits width v) (hpc : pc < 256 ^ 4)
    (hwidth : d.width = width) (hraw : d.raw = Word.bits width v) (hnum : d.num = pc + v) :
    (Leaf.mk (.jump pc) d).Shows (Word.bytes width (Word.bits width v)) := by
  refine ⟨by rw [hwidth]; omega, ?_, ?_, ?_⟩
  · rw [hraw, Window.bigEndian_bytes, Nat.mod_eq_of_lt (Word.bits_lt width v)]
  · show d.num = pc + Window.twosComplement (8 * d.width) d.raw
    rw [hwidth, hraw, hnum, Word.twosComplement_bits hv]
  · have hv4 : Word.Fits 4 v := hv.mono (by omega)
    have hpc' : pc < 4294967296 := hpc
    show Word.Fits 8 d.num
    rw [hnum]
    unfold Word.Fits at hv4 ⊢
    omega

end Leaf

/-! ## Leaves in a row -/

/-- The leaves follow each other from the offset `pos` on, and each stands for its bytes. -/
def Spells (pool : Pool) : Nat → List Leaf → List UInt8 → Prop
  | _, [], bs => bs = []
  | pos, l :: ls, bs => ∃ cs ds, bs = cs ++ ds ∧ l.datum.offset = pos ∧ l.datum.width = cs.length
      ∧ l.Sound pool cs ∧ Spells pool (pos + cs.length) ls ds

namespace Spells

variable {pool : Pool} {pos : Nat} {ls ms : List Leaf} {as bs : List UInt8}

theorem nil (pool : Pool) (pos : Nat) : Spells pool pos [] [] := rfl

theorem append (h : Spells pool pos ls as) (h' : Spells pool (pos + as.length) ms bs) :
    Spells pool pos (ls ++ ms) (as ++ bs) := by
  induction ls generalizing pos as with
  | nil =>
    obtain rfl : as = [] := h
    exact h'
  | cons l ls ih =>
    obtain ⟨cs, ds, rfl, hoff, hwidth, hl, hls⟩ := h
    rw [List.length_append, ← Nat.add_assoc] at h'
    exact ⟨cs, ds ++ bs, List.append_assoc _ _ _, hoff, hwidth, hl, ih hls h'⟩

theorem append_of_eq {mid : Nat} (h : Spells pool pos ls as) (hmid : pos + as.length = mid)
    (h' : Spells pool mid ms bs) : Spells pool pos (ls ++ ms) (as ++ bs) := by
  subst hmid
  exact h.append h'

theorem tiles (h : Spells pool pos ls bs) : Tiles pos (ls.map Leaf.datum) (pos + bs.length) := by
  induction ls generalizing pos bs with
  | nil =>
    obtain rfl : bs = [] := h
    rfl
  | cons l ls ih =>
    obtain ⟨cs, ds, rfl, hoff, hwidth, -, hls⟩ := h
    have hstop : l.datum.stop = pos + cs.length := by rw [Datum.stop, hoff, hwidth]
    have hrest := ih hls
    refine ⟨hoff, ?_⟩
    rw [hstop, List.length_append, ← Nat.add_assoc]
    exact hrest

/-- An unsigned word stands before the rest. -/
theorem word {role : Role} (hrole : role.isPlain = true) {width n : Nat} {d : Datum}
    (hd : d.IsWord pos width n) (hw : width = 1 ∨ width = 2 ∨ width = 4 ∨ width = 8)
    (hn : n < 256 ^ width) (hname : Leaf.Resolved pool ⟨role, d⟩)
    (hrest : Spells pool (pos + width) ls bs) :
    Spells pool pos (⟨role, d⟩ :: ls) (Word.bytes width n ++ bs) := by
  refine ⟨Word.bytes width n, bs, rfl, hd.offset, ?_, ⟨Leaf.shows_word hrole hd hw hn, hname⟩, ?_⟩
  · rw [Word.length_bytes]
    exact hd.width
  · rw [Word.length_bytes]
    exact hrest

theorem named {role : Role} {n : Nat} {name : String} (hrole : role.isPlain = true)
    (hn : n < 256 ^ 2) (hname : Leaf.Resolved pool ⟨role, (Datum.wordAt pos n).named name⟩)
    (hrest : Spells pool (pos + 2) ls bs) :
    Spells pool pos (⟨role, (Datum.wordAt pos n).named name⟩ :: ls) (Word.bytes 2 n ++ bs) :=
  word hrole ((Datum.isWord_ofWord 2 _ pos n).named name) (by decide) hn hname hrest

theorem label {n : Nat} {name : String} (hn : n < 256 ^ 2) (hrest : Spells pool (pos + 2) ls bs) :
    Spells pool pos (⟨.number, (Datum.wordAt pos n).named name⟩ :: ls) (Word.bytes 2 n ++ bs) :=
  named rfl hn trivial hrest

theorem number {n : Nat} (hn : n < 256 ^ 2) (hrest : Spells pool (pos + 2) ls bs) :
    Spells pool pos (⟨.number, Datum.wordAt pos n⟩ :: ls) (Word.bytes 2 n ++ bs) :=
  word rfl (Datum.isWord_ofWord 2 _ pos n) (by decide) hn trivial hrest

/-- A byte stands before the rest. -/
theorem octet {b : UInt8} {d : Datum} (hd : d.IsWord pos 1 b.toNat)
    (hrest : Spells pool (pos + 1) ls bs) : Spells pool pos (⟨.number, d⟩ :: ls) (b :: bs) := by
  have hbyte : Word.bytes 1 b.toNat = [b] := by
    simp only [Word.bytes, Nat.pow_zero, Nat.div_one, UInt8.ofNat_toNat]
  have hword : Spells pool pos (⟨.number, d⟩ :: ls) (Word.bytes 1 b.toNat ++ bs) :=
    word rfl hd (by decide) b.toNat_lt trivial hrest
  rwa [hbyte] at hword

theorem reference {i : Nat} (h : pool.referenceFormat.legal i)
    (hrest : Spells pool (pos + 2) ls bs) :
    Spells pool pos (⟨.reference, pool.referenceFormat.place pos i⟩ :: ls)
      (Word.bytes 2 i ++ bs) := by
  obtain ⟨hi, hentry⟩ := h
  obtain ⟨c, hc⟩ := Option.isSome_iff_exists.1 hentry
  refine named rfl hi ⟨c, ?_, ?_⟩ hrest
  · rw [Datum.num_named, Datum.num_wordAt pos hi]
    exact hc
  · show pool.displayName i = c.name
    rw [Pool.displayName, hc]

theorem optional {absent : String} {i : Nat} (h : (pool.optionalFormat absent).legal i)
    (hrest : Spells pool (pos + 2) ls bs) :
    Spells pool pos (⟨.optional absent, (pool.optionalFormat absent).place pos i⟩ :: ls)
      (Word.bytes 2 i ++ bs) := by
  obtain ⟨hi, hentry⟩ := h
  refine named rfl hi ?_ hrest
  simp only [Leaf.Resolved, Datum.Refers, Datum.num_named, Datum.num_wordAt pos hi,
    Int.natCast_eq_zero]
  by_cases hzero : i = 0
  · rw [if_pos hzero]
    exact if_pos hzero
  · obtain ⟨c, hc⟩ := Option.isSome_iff_exists.1 (hentry.resolve_left hzero)
    rw [if_neg hzero]
    refine ⟨c, hc, ?_⟩
    show (if i = 0 then absent else pool.displayName i) = c.name
    rw [if_neg hzero, Pool.displayName, hc]

theorem textual (hpool : pool.Titled) {i : Nat} (hi : i < 256 ^ 2)
    (htext : (pool.text? i).isSome = true) (hrest : Spells pool (pos + 2) ls bs) :
    Spells pool pos (⟨.textual, (Datum.wordAt pos i).named ((pool.text? i).getD "")⟩ :: ls)
      (Word.bytes 2 i ++ bs) := by
  obtain ⟨s, hs⟩ := Option.isSome_iff_exists.1 htext
  obtain ⟨c, hc, hcs⟩ := Option.bind_eq_some_iff.1 hs
  refine named rfl hi ⟨c, ?_, ?_, ?_⟩ hrest
  · rw [Datum.num_named, Datum.num_wordAt pos hi]
    exact hc
  · cases hp : c.payload <;> rw [hp] at hcs <;> first | rfl | cases hcs
  · show (pool.text? i).getD "" = c.name
    rw [hs, hpool _ _ _ hc hcs, Option.getD_some]

theorem bulk {d : Datum} (hoff : d.offset = pos) (hwidth : d.width = as.length)
    (hraw : d.raw = 0) : Spells pool pos [⟨.bulk, d⟩] as :=
  ⟨as, [], (List.append_nil as).symm, hoff, hwidth, ⟨hraw, trivial⟩, rfl⟩

section

variable {ι α : Type} {F : Format ι α} {leaves : α → List Leaf} {xs : List ι}

theorem placeAll
    (h : ∀ x ∈ xs, ∀ pos, Spells pool pos (leaves (F.place pos x)) (F.bytes x)) (pos : Nat) :
    Spells pool pos ((F.placeAll pos xs).flatMap leaves) (xs.flatMap F.bytes) := by
  induction xs generalizing pos with
  | nil => exact nil pool pos
  | cons x xs ih =>
    have hx := List.forall_mem_cons.1 h
    rw [Format.placeAll, List.flatMap_cons, List.flatMap_cons]
    exact (hx.1 pos).append (ih hx.2 _)

theorem counted (hcount : xs.length < 256 ^ 2)
    (h : ∀ x ∈ xs, ∀ pos, Spells pool pos (leaves (F.place pos x)) (F.bytes x)) (pos : Nat) :
    Spells pool pos
      (⟨.number, (F.counted.place pos xs).1⟩ :: (F.counted.place pos xs).2.flatMap leaves)
      (F.counted.bytes xs) :=
  number hcount (placeAll h (pos + 2))

end

section

variable {ι : Type} {F : Format ι Datum} {role : Role} {xs : List ι}

/-- Contents of one value each. -/
theorem values (h : ∀ x ∈ xs, ∀ pos, Spells pool pos [⟨role, F.place pos x⟩] (F.bytes x))
    (pos : Nat) : Spells pool pos (role.all (F.placeAll pos xs)) (xs.flatMap F.bytes) := by
  rw [Role.all, List.map_eq_flatMap]
  exact placeAll h pos

theorem table (hcount : xs.length < 256 ^ 2)
    (h : ∀ x ∈ xs, ∀ pos, Spells pool pos [⟨role, F.place pos x⟩] (F.bytes x)) (pos : Nat) :
    Spells pool pos
      (⟨.number, (F.counted.place pos xs).1⟩ :: role.all (F.counted.place pos xs).2)
      (F.counted.bytes xs) :=
  number hcount (values h (pos + 2))

end

end Spells

end ClassAtlas
