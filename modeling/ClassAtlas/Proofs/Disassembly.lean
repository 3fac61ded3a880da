import ClassAtlas.Proofs.Operands

/-! # Disassembly

The steps that read instructions read exactly the legal ones, and a code array is read as a sequence
of them. What follows an opcode is treated form by form; the padding of a switch and the room for its
table are settled here.

* `Window.paddingFrom_four`: the padding of a switch.
* `Disassembly.tail_eq_ok`: what follows an opcode.
* `Disassembly.instruction_eq_ok`: one instruction.
* `Disassembly.disassemble_fills`: a code array.
-/

namespace ClassAtlas
set_option autoImplicit false

namespace Window

/-- The padding up to a multiple of four is the same whether or not the distance wraps around. -/
theorem paddingFrom_four {pos base : Nat} (h : base ≤ pos) :
    paddingFrom pos base 4 = ((4 - (pos - base) % 4) % 4 : Nat) := by
  have hwrap : ∀ x : Int, ∃ k, wrap64 x = x - 18446744073709551616 * k := by
    intro x
    exact ⟨x.bdiv (Nat.pow 2 64), Int.bmod_eq_self_sub_mul_bdiv x (Nat.pow 2 64)⟩
  obtain ⟨k, hk⟩ := hwrap (pos - base)
  have hdiv := Int.tmod_add_mul_tdiv (wrap64 (pos - base)) 4
  have hlo := Int.lt_tmod_of_pos (wrap64 (pos - base)) (show (0 : Int) < 4 by decide)
  have hhi := Int.tmod_lt_of_pos (wrap64 (pos - base)) (show (0 : Int) < 4 by decide)
  unfold paddingFrom
  generalize (wrap64 (pos - base)).tmod 4 = r at *
  have hsmall : wrap64 (4 - r) = 4 - r := by
    apply Int.bmod_eq_of_le_mul_two
    · simp only [Nat.pow_eq]
      omega
    · simp only [Nat.pow_eq]
      omega
  rw [hsmall, Int.tmod_eq_emod_of_nonneg (by omega)]
  omega

end Window

namespace Disassembly

variable {pool : Pool} {pc : Nat}

/-! ## What follows an opcode -/

theorem operands_width {code : UInt8} : ∀ kind ∈ Opcode.operands code, 0 < kind.width := by
  have hall : ∀ n : Fin 256,
      (Opcode.operands (UInt8.ofFin n)).all (fun kind => decide (0 < kind.width)) = true := by
    decide +kernel
  intro kind hkind
  exact of_decide_eq_true (List.all_eq_true.1 (hall code.toFin) kind hkind)

theorem wideRow_width {code : UInt8} : ∀ kind ∈ Op.wideRow code, 0 < kind.width := by
  have hall : (Op.wideRow code).all (fun kind => decide (0 < kind.width)) = true := by
    unfold Op.wideRow
    split
    all_goals rfl
  intro kind hkind
  exact of_decide_eq_true (List.all_eq_true.1 hall kind hkind)

theorem fixedTail_eq_ok {code : UInt8} {w w' : Window} {t : Tail} :
    fixedTail pool pc code w = .ok (t, w') ↔
      ∃ os : List Operand, (os.map (·.kind) = Opcode.operands code ∧ ∀ o ∈ os, o.Legal pool)
        ∧ w.After (os.flatMap Operand.bytes) w' ∧ t = (Op.fixed code os).tailAt pool pc w.pos :=
  (operands_reads operands_width).map
    (fun ds => ({ operands := ds.filter (·.kind ≠ .reserved),
                  hidden := ds.filter (·.kind = .reserved) } : Tail)) w t w'

theorem wideTail_eq_ok {w w' : Window} {t : Tail} :
    wideTail pool pc w = .ok (t, w') ↔
      ∃ code, ∃ os : List Operand, (Opcode.isWidenable code = true
          ∧ os.map (·.kind) = Op.wideRow code ∧ ∀ o ∈ os, o.Legal pool)
        ∧ w.After (code :: os.flatMap Operand.bytes) w'
        ∧ t = (Op.wide code os).tailAt pool pc w.pos := by
  simp only [wideTail, Reading.bind_eq_ok]
  constructor
  · rintro ⟨d, v, hd, h⟩
    obtain ⟨code, -, hcode, rfl⟩ := (Datum.byte_reads _ _ _ _).1 hd
    have hraw : (Datum.ofWord 1 .opcode w.pos code.toNat).raw.toUInt8 = code := UInt8.ofNat_toNat
    simp only [Datum.byteFormat, hraw] at h
    by_cases hwide : Opcode.isWidenable code = true
    · simp only [if_pos hwide, Reading.bind_eq_ok, Reading.pure_eq_ok] at h
      obtain ⟨ds, v', hds, rfl, rfl⟩ := h
      obtain ⟨os, ⟨hkinds, hos⟩, haos, rfl⟩ := (operands_reads wideRow_width _ _ _).1 hds
      refine ⟨code, os, ⟨hwide, hkinds, hos⟩, hcode.trans haos, ?_⟩
      rw [hcode.pos]
      rfl
    · rw [if_neg hwide, Reading.throw_eq_ok] at h
      exact h.elim
  · rintro ⟨code, os, ⟨hwide, hkinds, hos⟩, hafter, rfl⟩
    have hafter' : w.After ([code] ++ os.flatMap Operand.bytes) w' := hafter
    obtain ⟨v, hcode, haos⟩ := hafter'.split
    have hraw : (Datum.ofWord 1 .opcode w.pos code.toNat).raw.toUInt8 = code := UInt8.ofNat_toNat
    refine ⟨_, v, (Datum.byte_reads _ _ _ _).2 ⟨code, trivial, hcode, rfl⟩, ?_⟩
    simp only [Datum.byteFormat, hraw, if_pos hwide, Reading.bind_eq_ok, Reading.pure_eq_ok]
    refine ⟨_, w', (operands_reads wideRow_width _ _ _).2 ⟨os, ⟨hkinds, hos⟩, haos, rfl⟩, ?_, rfl⟩
    rw [hcode.pos]
    rfl

theorem aligns_iff {padding : List UInt8} :
    Op.Aligns pc padding ↔ padding.length = (4 - (pc + 1) % 4) % 4 := by
  unfold Op.Aligns
  constructor
  · rintro ⟨hdvd, hleast⟩
    have := hleast ((4 - (pc + 1) % 4) % 4) (by omega)
    omega
  · intro h
    refine ⟨by omega, ?_⟩
    intro n hn
    omega

theorem align_eq_ok {base : Nat} {w w' : Window} {d : Datum} (hpos : w.pos = base + pc + 1) :
    Datum.align base 4 w = .ok (d, w') ↔
      ∃ padding, Op.Aligns pc padding ∧ w.After padding w' ∧
        d = { offset := w.pos, width := padding.length, num := padding.length, kind := .padding } := by
  have hpad := Window.paddingFrom_four (show base ≤ w.pos by omega)
  have hsub : w.pos - base = pc + 1 := by omega
  rw [hsub] at hpad
  simp only [Datum.align, Window.align, Reading.map_eq_ok, Window.skip_eq_ok, hpad, aligns_iff,
    show ¬ (4 : Int) ≤ 0 by decide, if_false, Int.toNat_natCast, Prod.mk.injEq]
  constructor
  · rintro ⟨n, v, ⟨u, v', ⟨bs, hbs, hafter⟩, rfl, rfl⟩, rfl, rfl⟩
    refine ⟨bs, by omega, hafter, ?_⟩
    rw [Int.ofNat_inj.1 hbs]
  · rintro ⟨bs, hbs, hafter, rfl⟩
    refine ⟨_, w', ⟨(), w', ⟨bs, by omega, hafter⟩, rfl, rfl⟩, ?_, rfl⟩
    rw [hbs]

theorem legal_s4 {v : Int} : Operand.Legal pool ⟨.s4, v⟩ ↔ Word.Fits 4 v :=
  ⟨fun h => h.inRange, fun h => ⟨h, (by intro h; cases h), (by intro h; cases h)⟩⟩

theorem legal_branch4 {v : Int} : Operand.Legal pool ⟨.branch4, v⟩ ↔ Word.Fits 4 v :=
  ⟨fun h => h.inRange, fun h => ⟨h, (by intro h; cases h), (by intro h; cases h)⟩⟩

theorem switchHead_eq_ok {base : Nat} {w w' : Window} {r : List Datum × Datum}
    (hpos : w.pos = base + pc + 1) :
    switchHead pool base pc w = .ok (r, w') ↔
      ∃ padding v, Op.Aligns pc padding ∧ Word.Fits 4 v ∧ w.After (padding ++ Op.s4 v) w' ∧
        r = (Op.paddingAt w.pos padding,
          Operand.place pool pc (w.pos + padding.length) ⟨.branch4, v⟩) := by
  simp only [switchHead, Reading.bind_eq_ok, Reading.pure_eq_ok, align_eq_ok hpos]
  constructor
  · rintro ⟨d, v, ⟨padding, halign, hafter, rfl⟩, e, v', he, rfl, rfl⟩
    obtain ⟨x, hx, hax, rfl⟩ := (operand_reads (by decide) _ _ _).1 he
    refine ⟨padding, x, halign, legal_branch4.1 hx, hafter.trans hax, ?_⟩
    rw [hafter.pos]
    rfl
  · rintro ⟨padding, x, halign, hx, hafter, rfl⟩
    obtain ⟨v, hpad, hax⟩ := hafter.split
    refine ⟨_, v, ⟨padding, halign, hpad, rfl⟩, _, w', (operand_reads (by decide) _ _ _).2
      ⟨x, legal_branch4.2 hx, hax, rfl⟩, ?_, rfl⟩
    rw [hpad.pos]
    rfl

theorem ensureTable_eq_ok {count : Int} {size : Nat} {w w' : Window} {u : Unit} :
    ensureTable count size w = .ok (u, w') ↔ (count * size).toNat ≤ w.remaining ∧ w = w' := by
  simp only [ensureTable, Window.holds_iff]
  by_cases h : (count * size).toNat ≤ w.remaining
  · simp [h]
  · simp [h]

theorem length_flatMap_s4 (vs : List Int) : (vs.flatMap Op.s4).length = vs.length * 4 := by
  induction vs with
  | nil => rfl
  | cons v vs ih =>
    rw [List.flatMap_cons, List.length_append, ih, Op.s4, Word.length_bytes, List.length_cons]
    omega

theorem length_flatMap_pair (es : List (Int × Int)) :
    (es.flatMap fun e => Op.s4 e.1 ++ Op.s4 e.2).length = es.length * 8 := by
  induction es with
  | nil => rfl
  | cons e es ih =>
    rw [List.flatMap_cons, List.length_append, ih, List.length_append, Op.s4, Op.s4,
      Word.length_bytes, Word.length_bytes, List.length_cons]
    omega

theorem rangeTargets_eq_ok {low high : Datum} {w w' : Window} {ts : List Datum} :
    rangeTargets ensureTable pool pc low high w = .ok (ts, w') ↔
      low.num ≤ high.num ∧ ∃ vs : List Int, (vs.length : Int) = high.num - low.num + 1
        ∧ (∀ v ∈ vs, Word.Fits 4 v) ∧ w.After (vs.flatMap Op.s4) w'
        ∧ ts = (Operand.formatOf pool pc .branch4).placeAll w.pos vs := by
  unfold rangeTargets
  by_cases hinv : high.num < low.num
  · rw [if_pos hinv, Reading.throw_eq_ok, false_iff]
    rintro ⟨hle, -⟩
    omega
  · have hle : low.num ≤ high.num := by omega
    simp only [if_neg hinv, Reading.bind_eq_ok, ensureTable_eq_ok]
    constructor
    · rintro ⟨u, v, ⟨-, rfl⟩, h⟩
      obtain ⟨vs, ⟨hlen, hvs⟩, hafter, rfl⟩ :=
        (Reads.repeated (fun _ => operand_reads (by decide)) _ _ _ _).1 h
      exact ⟨hle, vs, by omega, fun v hv => legal_branch4.1 (hvs v hv), hafter, rfl⟩
    · rintro ⟨-, vs, hlen, hvs, hafter, rfl⟩
      have hbytes := length_flatMap_s4 vs
      have hroom := hafter.remaining
      refine ⟨(), w, ⟨by omega, rfl⟩, ?_⟩
      refine (Reads.repeated (fun _ => operand_reads (by decide)) _ _ _ _).2 ⟨vs, ⟨?_, ?_⟩, hafter, rfl⟩
      · omega
      · exact fun v hv => legal_branch4.2 (hvs v hv)

theorem switchPair_reads : Reads (switchPair pool pc) (Op.pairFormat pool pc) := by
  intro w r w'
  simp only [switchPair, Reading.bind_eq_ok, Reading.pure_eq_ok]
  constructor
  · rintro ⟨k, v, hk, t, v', ht, rfl, rfl⟩
    obtain ⟨x, hx, hax, rfl⟩ := (operand_reads (by decide) _ _ _).1 hk
    obtain ⟨y, hy, hay, rfl⟩ := (operand_reads (by decide) _ _ _).1 ht
    refine ⟨(x, y), ⟨hx, hy⟩, hax.trans hay, ?_⟩
    rw [hax.pos]
    rfl
  · rintro ⟨⟨x, y⟩, ⟨hx, hy⟩, hafter, rfl⟩
    have hafter' : w.After (Op.s4 x ++ Op.s4 y) w' := hafter
    obtain ⟨v, hax, hay⟩ := hafter'.split
    refine ⟨_, v, (operand_reads (by decide) _ _ _).2 ⟨x, hx, hax, rfl⟩, _, w',
      (operand_reads (by decide) _ _ _).2 ⟨y, hy, hay, rfl⟩, ?_, rfl⟩
    rw [hax.pos]
    rfl

theorem switchPairs_eq_ok {count : Datum} {w w' : Window} {ps : List (Datum × Datum)} :
    switchPairs ensureTable pool pc count w = .ok (ps, w') ↔
      ∃ es : List (Int × Int), (es.length : Int) = count.num
        ∧ (∀ e ∈ es, Word.Fits 4 e.1 ∧ Word.Fits 4 e.2)
        ∧ w.After (es.flatMap fun e => Op.s4 e.1 ++ Op.s4 e.2) w'
        ∧ ps = (Op.pairFormat pool pc).placeAll w.pos es := by
  unfold switchPairs
  by_cases hneg : count.num < 0
  · rw [if_pos hneg, Reading.throw_eq_ok, false_iff]
    rintro ⟨es, hlen, -⟩
    omega
  · simp only [if_neg hneg, Reading.bind_eq_ok, ensureTable_eq_ok]
    constructor
    · rintro ⟨u, v, ⟨-, rfl⟩, h⟩
      obtain ⟨es, ⟨hlen, hes⟩, hafter, rfl⟩ := (Reads.repeated (fun _ => switchPair_reads) _ _ _ _).1 h
      refine ⟨es, by omega, fun e he => ?_, hafter, rfl⟩
      exact ⟨legal_s4.1 (hes e he).1, legal_branch4.1 (hes e he).2⟩
    · rintro ⟨es, hlen, hes, hafter, rfl⟩
      have hbytes := length_flatMap_pair es
      have hroom := hafter.remaining
      refine ⟨(), w, ⟨by omega, rfl⟩, ?_⟩
      refine (Reads.repeated (fun _ => switchPair_reads) _ _ _ _).2 ⟨es, ⟨?_, ?_⟩, hafter, rfl⟩
      · omega
      · exact fun e he => ⟨legal_s4.2 (hes e he).1, legal_branch4.2 (hes e he).2⟩

theorem tableswitchTail_eq_ok {base : Nat} {w w' : Window} {t : Tail} (hpos : w.pos = base + pc + 1) :
    tableswitchTail ensureTable pool base pc w = .ok (t, w') ↔
      ∃ padding default low high vs, (Op.range padding default low high vs).Legal pool pc
        ∧ w.After (Op.range padding default low high vs).tailBytes w'
        ∧ t = (Op.range padding default low high vs).tailAt pool pc w.pos := by
  simp only [tableswitchTail, Reading.bind_eq_ok, Reading.pure_eq_ok, switchHead_eq_ok hpos,
    rangeTargets_eq_ok]
  constructor
  · rintro ⟨-, v₁, ⟨padding, default, halign, hdef, h₁, rfl⟩, l, v₂, hl, h, v₃, hh, ts, v₄,
      ⟨hle, vs, hlen, hvs, h₄, rfl⟩, rfl, rfl⟩
    obtain ⟨low, hlow, h₂, rfl⟩ := (operand_reads (by decide) _ _ _).1 hl
    obtain ⟨high, hhigh, h₃, rfl⟩ := (operand_reads (by decide) _ _ _).1 hh
    refine ⟨padding, default, low, high, vs,
      ⟨halign, hdef, legal_s4.1 hlow, legal_s4.1 hhigh, hle, hlen, hvs⟩, ?_, ?_⟩
    · have := h₁.trans (h₂.trans (h₃.trans h₄))
      rwa [List.append_assoc] at this
    · rw [h₃.pos, h₂.pos, h₁.pos, List.length_append]
      rfl
  · rintro ⟨padding, default, low, high, vs, ⟨halign, hdef, hlow, hhigh, hle, hlen, hvs⟩, hafter, rfl⟩
    rw [Op.tailBytes, ← List.append_assoc] at hafter
    obtain ⟨v₁, h₁, h⟩ := hafter.split
    obtain ⟨v₂, h₂, h⟩ := h.split
    obtain ⟨v₃, h₃, h₄⟩ := h.split
    refine ⟨_, v₁, ⟨padding, default, halign, hdef, h₁, rfl⟩,
      _, v₂, (operand_reads (by decide) _ _ _).2 ⟨low, legal_s4.2 hlow, h₂, rfl⟩,
      _, v₃, (operand_reads (by decide) _ _ _).2 ⟨high, legal_s4.2 hhigh, h₃, rfl⟩,
      _, w', ⟨hle, vs, hlen, hvs, h₄, rfl⟩, ?_, rfl⟩
    rw [h₃.pos, h₂.pos, h₁.pos, List.length_append]
    rfl

theorem lookupswitchTail_eq_ok {base : Nat} {w w' : Window} {t : Tail}
    (hpos : w.pos = base + pc + 1) :
    lookupswitchTail ensureTable pool base pc w = .ok (t, w') ↔
      ∃ padding default es, (Op.pairs padding default es).Legal pool pc
        ∧ w.After (Op.pairs padding default es).tailBytes w'
        ∧ t = (Op.pairs padding default es).tailAt pool pc w.pos := by
  simp only [lookupswitchTail, Reading.bind_eq_ok, Reading.pure_eq_ok, switchHead_eq_ok hpos,
    switchPairs_eq_ok]
  constructor
  · rintro ⟨-, v₁, ⟨padding, default, halign, hdef, h₁, rfl⟩, c, v₂, hc, ps, v₃,
      ⟨es, hlen, hes, h₃, rfl⟩, rfl, rfl⟩
    obtain ⟨count, hcount, h₂, rfl⟩ := (operand_reads (by decide) _ _ _).1 hc
    obtain rfl : (es.length : Int) = count := hlen
    refine ⟨padding, default, es, ⟨halign, hdef, legal_s4.1 hcount, hes⟩, ?_, ?_⟩
    · have := h₁.trans (h₂.trans h₃)
      rwa [List.append_assoc] at this
    · rw [h₂.pos, h₁.pos, List.length_append]
      rfl
  · rintro ⟨padding, default, es, ⟨halign, hdef, hcount, hes⟩, hafter, rfl⟩
    rw [Op.tailBytes, ← List.append_assoc] at hafter
    obtain ⟨v₁, h₁, h⟩ := hafter.split
    obtain ⟨v₂, h₂, h₃⟩ := h.split
    refine ⟨_, v₁, ⟨padding, default, halign, hdef, h₁, rfl⟩,
      _, v₂, (operand_reads (by decide) _ _ _).2 ⟨_, legal_s4.2 hcount, h₂, rfl⟩,
      _, w', ⟨es, rfl, hes, h₃, rfl⟩, ?_, rfl⟩
    rw [h₂.pos, h₁.pos, List.length_append]
    rfl

theorem tail_eq_ok {base : Nat} {code : UInt8} {w w' : Window} {t : Tail}
    (hpos : w.pos = base + pc + 1) (hcode : (Opcode.mnemonic? code).isSome = true) :
    tail ensureTable pool base pc code w = .ok (t, w') ↔
      ∃ op : Op, op.code = code ∧ op.Legal pool pc ∧ w.After op.tailBytes w'
        ∧ t = op.tailAt pool pc w.pos := by
  unfold tail
  by_cases htable : code = Opcode.tableswitch
  · subst htable
    rw [if_pos rfl, tableswitchTail_eq_ok hpos]
    constructor
    · rintro ⟨padding, default, low, high, vs, h⟩
      exact ⟨.range padding default low high vs, rfl, h⟩
    · rintro ⟨op, hop, hlegal, h⟩
      cases op with
      | range padding default low high vs => exact ⟨padding, default, low, high, vs, hlegal, h⟩
      | fixed code os => exact absurd hop hlegal.2.1
      | wide code os => cases hop
      | pairs padding default es => cases hop
  rw [if_neg htable]
  by_cases hlookup : code = Opcode.lookupswitch
  · subst hlookup
    rw [if_pos rfl, lookupswitchTail_eq_ok hpos]
    constructor
    · rintro ⟨padding, default, es, h⟩
      exact ⟨.pairs padding default es, rfl, h⟩
    · rintro ⟨op, hop, hlegal, h⟩
      cases op with
      | pairs padding default es => exact ⟨padding, default, es, hlegal, h⟩
      | fixed code os => exact absurd hop hlegal.2.2.1
      | wide code os => cases hop
      | range padding default low high vs => cases hop
  rw [if_neg hlookup]
  by_cases hwide : code = Opcode.wide
  · subst hwide
    rw [if_pos rfl, wideTail_eq_ok]
    constructor
    · rintro ⟨code, os, hlegal, h⟩
      exact ⟨.wide code os, rfl, hlegal, h⟩
    · rintro ⟨op, hop, hlegal, h⟩
      cases op with
      | wide code os => exact ⟨code, os, hlegal, h⟩
      | fixed code os => exact absurd hop hlegal.2.2.2.1
      | range padding default low high vs => cases hop
      | pairs padding default es => cases hop
  rw [if_neg hwide, fixedTail_eq_ok]
  constructor
  · rintro ⟨os, hos, h⟩
    exact ⟨.fixed code os, rfl, ⟨hcode, htable, hlookup, hwide, hos⟩, h⟩
  · rintro ⟨op, rfl, hlegal, h⟩
    cases op with
    | fixed code os => exact ⟨os, hlegal.2.2.2.2, h⟩
    | wide code os => exact absurd rfl hwide
    | range padding default low high vs => exact absurd rfl htable
    | pairs padding default es => exact absurd rfl hlookup

/-! ## Instructions and code arrays -/

theorem mnemonic?_code {op : Op} (h : op.Legal pool pc) : (Opcode.mnemonic? op.code).isSome = true := by
  cases op with
  | fixed code os => exact h.1
  | wide code os =>
    show (Opcode.mnemonic? Opcode.wide).isSome = true
    decide +kernel
  | range padding default low high vs =>
    show (Opcode.mnemonic? Opcode.tableswitch).isSome = true
    decide +kernel
  | pairs padding default es =>
    show (Opcode.mnemonic? Opcode.lookupswitch).isSome = true
    decide +kernel

theorem instruction_eq_ok {base : Nat} {w w' : Window} {i : Instruction} (hpos : w.pos = base + pc) :
    instruction ensureTable pool base w = .ok (i, w') ↔
      ∃ op : Op, op.Legal pool pc ∧ w.After op.bytes w' ∧ i = op.place pool base pc := by
  have hraw : ∀ code : UInt8, (Datum.ofWord 1 .opcode w.pos code.toNat).raw.toUInt8 = code :=
    fun _ => UInt8.ofNat_toNat
  have hpc : ∀ code : UInt8, (Datum.ofWord 1 .opcode w.pos code.toNat).offset - base = pc := by
    intro code
    show w.pos - base = pc
    omega
  simp only [instruction, Reading.bind_eq_ok]
  constructor
  · rintro ⟨d, v, hd, h⟩
    obtain ⟨code, -, hcode, rfl⟩ := (Datum.byte_reads _ _ _ _).1 hd
    have hv : v.pos = base + pc + 1 := by
      rw [hcode.pos, hpos]
      rfl
    simp only [Datum.byteFormat, hraw, hpc] at h
    cases hm : Opcode.mnemonic? code with
    | none =>
      rw [hm] at h
      exact (Reading.throw_eq_ok.1 h).elim
    | some mnemonic =>
      rw [hm] at h
      simp only [Reading.bind_eq_ok, Reading.pure_eq_ok, Reading.get_eq_ok] at h
      obtain ⟨t, v', ht, u, u', ⟨rfl, rfl⟩, rfl, rfl⟩ := h
      obtain ⟨op, rfl, hlegal, hafter, rfl⟩ := (tail_eq_ok hv (by rw [hm]; rfl)).1 ht
      have hwhole : w.After op.bytes v' := hcode.trans hafter
      refine ⟨op, hlegal, hwhole, ?_⟩
      have hsize : v'.pos - w.pos = op.bytes.length := by
        rw [hwhole.pos]
        omega
      simp only [Op.place, Op.opcodeAt, hm, Option.getD_some, ← hpos, hcode.pos]
      simp only [Datum.ofWord, hsize]
      rfl
  · rintro ⟨op, hlegal, hafter, rfl⟩
    have hafter' : w.After ([op.code] ++ op.tailBytes) w' := hafter
    obtain ⟨v, hcode, htail⟩ := hafter'.split
    have hv : v.pos = base + pc + 1 := by
      rw [hcode.pos, hpos]
      rfl
    have hsome := mnemonic?_code hlegal
    refine ⟨_, v, (Datum.byte_reads _ _ _ _).2 ⟨op.code, trivial, hcode, rfl⟩, ?_⟩
    simp only [Datum.byteFormat, hraw, hpc]
    obtain ⟨mnemonic, hm⟩ := Option.isSome_iff_exists.1 hsome
    rw [hm]
    simp only [Reading.bind_eq_ok, Reading.pure_eq_ok, Reading.get_eq_ok]
    refine ⟨_, w', (tail_eq_ok hv hsome).2 ⟨op, rfl, hlegal, htail, rfl⟩, w', w', ⟨rfl, rfl⟩, ?_, rfl⟩
    have hsize : w'.pos - w.pos = op.bytes.length := by
      rw [hafter.pos]
      omega
    simp only [Op.place, Op.opcodeAt, hm, Option.getD_some, ← hpos, hcode.pos]
    simp only [Datum.ofWord, hsize]
    rfl

/-- The limit on the number of instructions is never reached, since each of them takes a byte. -/
theorem sweep_of_empty {base limit : Nat} {w : Window} (h : w.rest = []) :
    sweep ensureTable pool base limit w = .ok ([], w) := by
  cases limit with
  | zero => exact Reading.pure_eq_ok.2 ⟨rfl, rfl⟩
  | succ limit =>
    rw [sweep, Reading.bind_eq_ok]
    refine ⟨w, w, Reading.get_eq_ok.2 ⟨rfl, rfl⟩, ?_⟩
    rw [if_pos (by rw [h]; rfl)]
    exact Reading.pure_eq_ok.2 ⟨rfl, rfl⟩

theorem sweep_empty_eq_ok {base limit : Nat} {w w' : Window} {is : List Instruction}
    (hempty : w.rest = []) : sweep ensureTable pool base limit w = .ok (is, w') ↔
      ∃ ops, Bytecode.LegalFrom pool pc ops ∧ w.After (Bytecode.bytes ops) w' ∧ w'.rest = []
        ∧ is = Bytecode.placeFrom pool base pc ops := by
  rw [sweep_of_empty hempty]
  constructor
  · intro h
    obtain ⟨rfl, rfl⟩ := Prod.mk.inj (Except.ok.inj h)
    exact ⟨[], trivial, Window.after_nil.2 rfl, hempty, rfl⟩
  · rintro ⟨ops, -, hafter, -, rfl⟩
    cases ops with
    | nil =>
      obtain rfl := Window.after_nil.1 hafter
      rfl
    | cons op ops =>
      have hrest := hafter.rest
      rw [hempty] at hrest
      cases hrest

/-- An instruction takes a byte, so that the limit suffices for what is left. -/
theorem sweep_eq_ok {base limit : Nat} {w w' : Window} {is : List Instruction}
    (hpos : w.pos = base + pc) (hlimit : w.remaining ≤ limit) :
    sweep ensureTable pool base limit w = .ok (is, w') ↔
      ∃ ops, Bytecode.LegalFrom pool pc ops ∧ w.After (Bytecode.bytes ops) w' ∧ w'.rest = []
        ∧ is = Bytecode.placeFrom pool base pc ops := by
  induction limit generalizing pc w is with
  | zero => exact sweep_empty_eq_ok (List.length_eq_zero_iff.1 (Nat.le_zero.1 hlimit))
  | succ limit ih =>
    by_cases hempty : w.rest = []
    · exact sweep_empty_eq_ok hempty
    simp only [sweep, Reading.bind_eq_ok, Reading.get_eq_ok]
    have hrest : ¬ w.rest.isEmpty = true := by simpa using hempty
    constructor
    · rintro ⟨u, u', ⟨rfl, rfl⟩, h⟩
      simp only [if_neg hrest, Reading.bind_eq_ok, Reading.pure_eq_ok, Reading.within_eq_ok] at h
      obtain ⟨i, v, hi, is, v', his, rfl, rfl⟩ := h
      obtain ⟨op, hop, hax, rfl⟩ := (instruction_eq_ok hpos).1 hi
      have hroom := hax.remaining
      have hone : 0 < op.bytes.length := Nat.succ_pos _
      obtain ⟨ops, hops, haxs, hdone, rfl⟩ :=
        (ih (by rw [hax.pos, hpos, Nat.add_assoc]) (by omega)).1 his
      exact ⟨op :: ops, ⟨hop, hops⟩, hax.trans haxs, hdone, rfl⟩
    · rintro ⟨ops, hlegal, hafter, hdone, rfl⟩
      refine ⟨w, w, ⟨rfl, rfl⟩, ?_⟩
      simp only [if_neg hrest, Reading.bind_eq_ok, Reading.pure_eq_ok, Reading.within_eq_ok]
      cases ops with
      | nil =>
        rw [← Window.after_nil.1 hafter] at hdone
        exact absurd hdone hempty
      | cons op ops =>
        have hafter' : w.After (op.bytes ++ Bytecode.bytes ops) w' := hafter
        obtain ⟨v, hax, haxs⟩ := hafter'.split
        have hroom := hax.remaining
        have hone : 0 < op.bytes.length := Nat.succ_pos _
        refine ⟨_, v, (instruction_eq_ok hpos).2 ⟨op, hlegal.1, hax, rfl⟩, _, w',
          (ih (by rw [hax.pos, hpos, Nat.add_assoc]) (by omega)).2 ⟨ops, hlegal.2, haxs, hdone, rfl⟩,
          rfl, rfl⟩

theorem disassemble_fills (pool : Pool) : Fills (disassemble pool) (Bytecode.format pool) := by
  intro w is w'
  simp only [disassemble, disassembleBy, Reading.bind_eq_ok, Reading.get_eq_ok]
  constructor
  · rintro ⟨u, u', ⟨rfl, rfl⟩, h⟩
    exact (sweep_eq_ok rfl (Nat.le_refl _)).1 h
  · intro h
    exact ⟨w, w, ⟨rfl, rfl⟩, (sweep_eq_ok rfl (Nat.le_refl _)).2 h⟩

end Disassembly

end ClassAtlas
