import ClassAtlas.Proofs.Bytecode

/-! # Operands

The steps that read operands read exactly the legal ones.

* `Disassembly.word_reads`: the word of an operand.
* `Disassembly.nameOperand_eq_ok`: an operand has a name exactly when it is legal.
* `Disassembly.operand_reads`, `Disassembly.operands_reads`: one operand, and a row of them.
-/

namespace ClassAtlas
set_option autoImplicit false

namespace OperandKind

theorem width_cases {kind : OperandKind} (h : 0 < kind.width) :
    kind.width = 1 ∨ kind.width = 2 ∨ kind.width = 4 := by
  cases kind <;> simp [width] at h ⊢

end OperandKind

namespace Opcode

theorem elementType?_isSome (n : Nat) : (elementType? n).isSome = true ↔ 4 ≤ n ∧ n ≤ 11 := by
  constructor
  · intro h
    unfold elementType? at h
    split at h
    all_goals first | omega | cases h
  · rintro ⟨hlo, hhi⟩
    have hn : n = 4 ∨ n = 5 ∨ n = 6 ∨ n = 7 ∨ n = 8 ∨ n = 9 ∨ n = 10 ∨ n = 11 := by omega
    rcases hn with rfl | rfl | rfl | rfl | rfl | rfl | rfl | rfl <;> rfl

end Opcode

namespace Disassembly

variable {pool : Pool} {pc : Nat}

/-! ## One operand -/

/-- The words of operands of one kind, not yet named. -/
def wordFormat (kind : OperandKind) : Format Int Datum where
  legal v := Operand.InRange ⟨kind, v⟩
  bytes v := Operand.bytes ⟨kind, v⟩
  place := Datum.ofSigned kind.width kind

theorem word_reads {kind : OperandKind} (h : 0 < kind.width) :
    Reads (word kind) (wordFormat kind) := by
  have hwidth := OperandKind.width_cases h
  unfold word
  by_cases hs : kind.isSigned = true
  · rw [if_pos hs]
    intro w d w'
    refine (Datum.signed_reads hwidth kind w d w').trans ?_
    simp only [wordFormat, Datum.signedFormat, Operand.InRange, hs, if_true, Operand.bytes]
  · rw [if_neg hs]
    intro w d w'
    refine (Datum.unsigned_reads (by omega) kind w d w').trans ?_
    have hbound : (256 : Nat) ^ kind.width ≤ 256 ^ 4 := Nat.pow_le_pow_right (by decide) (by omega)
    simp only [wordFormat, Datum.unsignedFormat, Operand.InRange, hs, Operand.bytes]
    constructor
    · rintro ⟨n, hn, hafter, rfl⟩
      refine ⟨n, ⟨Int.natCast_nonneg n, by rw [Word.cast_pow]; exact Int.ofNat_lt.2 hn⟩, ?_, ?_⟩
      · rwa [Word.bits_natCast hn]
      · rw [Datum.ofWord, Datum.ofSigned, Word.bits_natCast hn, Word.twosComplement_of_lt (by omega)]
    · rintro ⟨v, ⟨h0, hv⟩, hafter, rfl⟩
      obtain ⟨n, rfl⟩ := Int.eq_ofNat_of_zero_le h0
      have hn : n < 256 ^ kind.width := by
        rw [Word.cast_pow] at hv
        exact Int.ofNat_lt.1 hv
      refine ⟨n, hn, ?_, ?_⟩
      · rwa [Word.bits_natCast hn] at hafter
      · rw [Datum.ofWord, Datum.ofSigned, Word.bits_natCast hn, Word.twosComplement_of_lt (by omega)]

theorem nameOperand_of_plain {kind : OperandKind} (hconstant : kind.isConstant = false)
    (harray : kind ≠ .arrayType) (pos : Nat) (v : Int) :
    nameOperand pool pc (Datum.ofSigned kind.width kind pos v) =
      .ok (Operand.place pool pc pos ⟨kind, v⟩) := by
  cases kind
  case constant1 | constant2 => cases hconstant
  case arrayType => exact absurd rfl harray
  case branch2 | branch4 =>
    simp only [nameOperand, Datum.ofSigned, Operand.place, Operand.name, Operand.shown,
      OperandKind.isBranch, if_true, Int.add_comm]
  all_goals rfl

theorem nameOperand_of_constant {kind : OperandKind} (hconstant : kind.isConstant = true) (pos : Nat)
    (v : Int) {d : Datum} :
    nameOperand pool pc (Datum.ofSigned kind.width kind pos v) = .ok d ↔
      (pool.entry? v).isSome = true ∧ Operand.place pool pc pos ⟨kind, v⟩ = d := by
  cases kind
  case constant1 | constant2 =>
    simp only [nameOperand, Datum.ofSigned, Pool.lookup, Operand.place, Operand.name, Operand.shown]
    cases pool.entry? v with
    | none => simp [bind, Except.bind]
    | some c => simp [bind, Except.bind, pure, Except.pure, OperandKind.isBranch, Datum.named]
  all_goals cases hconstant

theorem nameOperand_of_arrayType {n : Nat} (hn : n < 256) (pos : Nat) {d : Datum} :
    nameOperand pool pc (Datum.ofSigned 1 .arrayType pos n) = .ok d ↔
      (4 ≤ n ∧ n ≤ 11) ∧ Operand.place pool pc pos ⟨.arrayType, n⟩ = d := by
  have hbits : Word.bits 1 n = n := Word.bits_natCast hn
  rw [← Opcode.elementType?_isSome]
  simp only [nameOperand, Datum.ofSigned, OperandKind.width, hbits, Operand.place, Operand.name,
    Operand.shown, Int.toNat_natCast]
  cases Opcode.elementType? n with
  | none => simp
  | some name => simp [OperandKind.isBranch, Datum.named]

theorem nameOperand_eq_ok {kind : OperandKind} {pos : Nat} {v : Int} {d : Datum}
    (hrange : Operand.InRange ⟨kind, v⟩) :
    nameOperand pool pc (Datum.ofSigned kind.width kind pos v) = .ok d ↔
      Operand.Legal pool ⟨kind, v⟩ ∧ Operand.place pool pc pos ⟨kind, v⟩ = d := by
  by_cases hconstant : kind.isConstant = true
  · rw [nameOperand_of_constant hconstant]
    have harray : kind ≠ .arrayType := by
      rintro rfl
      cases hconstant
    constructor
    · rintro ⟨hsome, hd⟩
      exact ⟨⟨hrange, fun _ => hsome, fun h => absurd h harray⟩, hd⟩
    · rintro ⟨hlegal, hd⟩
      exact ⟨hlegal.populated hconstant, hd⟩
  · by_cases harray : kind = .arrayType
    · subst harray
      obtain ⟨n, rfl⟩ := Int.eq_ofNat_of_zero_le hrange.1
      have hn : n < 256 := Int.ofNat_lt.1 hrange.2
      refine (nameOperand_of_arrayType hn pos).trans ?_
      constructor
      · rintro ⟨⟨hlo, hhi⟩, hd⟩
        exact ⟨⟨hrange, fun h => absurd h hconstant,
          fun _ => ⟨Int.ofNat_le.2 hlo, Int.ofNat_le.2 hhi⟩⟩, hd⟩
      · rintro ⟨hlegal, hd⟩
        obtain ⟨hlo, hhi⟩ := hlegal.elementType rfl
        exact ⟨⟨Int.ofNat_le.1 hlo, Int.ofNat_le.1 hhi⟩, hd⟩
    · rw [nameOperand_of_plain (Bool.not_eq_true _ ▸ hconstant) harray, Except.ok.injEq]
      constructor
      · intro hd
        exact ⟨⟨hrange, fun h => absurd h hconstant, fun h => absurd h harray⟩, hd⟩
      · exact And.right

theorem operand_reads {kind : OperandKind} (h : 0 < kind.width) :
    Reads (operand pool pc kind) (Operand.formatOf pool pc kind) := by
  intro w d w'
  simp only [operand, Reading.bind_eq_ok, Reading.settled_eq_ok]
  constructor
  · rintro ⟨e, v, hv, hname, rfl⟩
    obtain ⟨x, hx, hafter, rfl⟩ := (word_reads h _ _ _).1 hv
    obtain ⟨hlegal, rfl⟩ := (nameOperand_eq_ok hx).1 hname
    exact ⟨x, hlegal, hafter, rfl⟩
  · rintro ⟨x, hlegal, hafter, rfl⟩
    refine ⟨_, w', (word_reads h _ _ _).2 ⟨x, hlegal.inRange, hafter, rfl⟩, ?_, rfl⟩
    exact (nameOperand_eq_ok hlegal.inRange).2 ⟨hlegal, rfl⟩

/-! ## Rows of operands -/

def rowFormat (pool : Pool) (pc : Nat) (kinds : List OperandKind) :
    Format (List Operand) (List Datum) where
  legal os := os.map (·.kind) = kinds ∧ ∀ o ∈ os, o.Legal pool
  bytes os := os.flatMap Operand.bytes
  place := (Operand.format pool pc).placeAll

theorem operands_reads {kinds : List OperandKind} (h : ∀ kind ∈ kinds, 0 < kind.width) :
    Reads (operands pool pc kinds) (rowFormat pool pc kinds) := by
  induction kinds with
  | nil =>
    intro w ds w'
    rw [operands, Reading.pure_eq_ok]
    constructor
    · rintro ⟨rfl, rfl⟩
      exact ⟨[], ⟨rfl, by simp⟩, Window.after_nil.2 rfl, rfl⟩
    · rintro ⟨os, ⟨hkinds, -⟩, hafter, rfl⟩
      obtain rfl := List.map_eq_nil_iff.1 hkinds
      exact ⟨rfl, Window.after_nil.1 hafter⟩
  | cons kind kinds ih =>
    have hkind := List.forall_mem_cons.1 h
    intro w ds w'
    simp only [operands, Reading.bind_eq_ok, Reading.pure_eq_ok]
    constructor
    · rintro ⟨d, v, hv, ds, v', hv', rfl, rfl⟩
      obtain ⟨x, hx, hax, rfl⟩ := (operand_reads hkind.1 _ _ _).1 hv
      obtain ⟨os, ⟨hkinds, hos⟩, haos, rfl⟩ := (ih hkind.2 _ _ _).1 hv'
      refine ⟨⟨kind, x⟩ :: os, ⟨by rw [List.map_cons, hkinds], ?_⟩, hax.trans haos, ?_⟩
      · exact List.forall_mem_cons.2 ⟨hx, hos⟩
      · rw [hax.pos]
        rfl
    · rintro ⟨os, ⟨hkinds, hos⟩, hafter, rfl⟩
      obtain ⟨o, os, rfl, rfl, hkinds'⟩ := List.map_eq_cons_iff.1 hkinds
      have hafter' : w.After (o.bytes ++ os.flatMap Operand.bytes) w' := hafter
      obtain ⟨v, hax, haos⟩ := hafter'.split
      have hlegal := List.forall_mem_cons.1 hos
      refine ⟨_, v, (operand_reads hkind.1 _ _ _).2 ⟨o.value, hlegal.1, hax, rfl⟩, _, w',
        (ih hkind.2 _ _ _).2 ⟨os, ⟨hkinds', hlegal.2⟩, haos, rfl⟩, ?_, rfl⟩
      rw [hax.pos]
      rfl

end Disassembly

end ClassAtlas
