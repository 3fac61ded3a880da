import ClassAtlas.Proofs.Disassembly

/-! # The bytecode grammar

Disassembly accepts exactly the code arrays of the grammar. No instruction is written as the front of
another one, so that a code array is written in one way only, and the decoded instructions show that
one way.

* `Op.place_shown`: a decoded instruction says what the written one says.
* `Op.eq_of_bytes_append`: instructions that may stand at one place differ in their bytes.
* `Bytecode.eq_of_bytes_eq`: so do sequences of instructions.
* `Bytecode.disassemble_accepts_iff`: the language of the disassembler, and what it gives.
-/

namespace ClassAtlas
set_option autoImplicit false

/-! ## What is shown -/

namespace Op

variable (pool : Pool) (pc : Nat)

theorem map_filter_placeAll (os : List Operand) (pos : Nat) :
    (((Operand.format pool pc).placeAll pos os).filter (·.kind ≠ .reserved)).map
        (fun d => (d.kind, d.num)) =
      (os.filter (·.kind ≠ .reserved)).map fun o => (o.kind, o.shown pc) := by
  induction os generalizing pos with
  | nil => rfl
  | cons o os ih =>
    have hkind : ((Operand.format pool pc).place pos o).kind = o.kind := rfl
    rw [Format.placeAll, List.filter_cons, List.filter_cons, hkind]
    by_cases h : o.kind ≠ .reserved
    · rw [if_pos (decide_eq_true h), if_pos (decide_eq_true h), List.map_cons, List.map_cons, ih]
      rfl
    · rw [if_neg (by simpa using h), if_neg (by simpa using h), ih]

theorem map_placeAll (os : List Operand) (pos : Nat) :
    ((Operand.format pool pc).placeAll pos os).map (fun d => (d.kind, d.num)) =
      os.map fun o => (o.kind, o.shown pc) := by
  induction os generalizing pos with
  | nil => rfl
  | cons o os ih =>
    rw [Format.placeAll, List.map_cons, ih]
    rfl

/-- Which operands are jumps, and where to, is read off kinds and numbers. -/
theorem targets_of_kinds (ds : List Datum) :
    (ds.filter (·.kind.isBranch)).map (·.num) =
      ((ds.map fun d => (d.kind, d.num)).filter (·.1.isBranch)).map (·.2) := by
  induction ds with
  | nil => rfl
  | cons d ds ih =>
    rw [List.map_cons, List.filter_cons, List.filter_cons]
    by_cases h : d.kind.isBranch = true
    · rw [if_pos h, if_pos h, List.map_cons, List.map_cons, ih]
    · rw [if_neg h, if_neg h, ih]

theorem targets_of_operands (os : List Operand) :
    ((os.map fun o => (o.kind, o.shown pc)).filter (·.1.isBranch)).map (·.2) =
      ((os.filter (·.kind.isBranch)).map (·.value)).map fun v => (pc : Int) + v := by
  induction os with
  | nil => rfl
  | cons o os ih =>
    rw [List.map_cons, List.filter_cons, List.filter_cons]
    by_cases h : o.kind.isBranch = true
    · rw [if_pos h, if_pos h, List.map_cons, List.map_cons, List.map_cons, ih, Operand.shown, if_pos h]
    · rw [if_neg h, if_neg h, ih]

theorem filter_branch_filter (os : List Operand) :
    (os.filter (·.kind ≠ .reserved)).filter (·.kind.isBranch) = os.filter (·.kind.isBranch) := by
  rw [List.filter_filter]
  apply List.filter_congr
  intro o _
  cases o.kind <;> rfl

theorem cases_range_keys (low : Int) (ts : List Datum) :
    (SwitchTable.rangeCases low ts).map (·.key) = (List.range ts.length).map fun (k : Nat) => low + k := by
  induction ts generalizing low with
  | nil => rfl
  | cons t ts ih =>
    rw [SwitchTable.rangeCases, List.map_cons, ih, List.length_cons, List.range_succ_eq_map,
      List.map_cons, List.map_map]
    congr 1
    · simp
    · apply List.map_congr_left
      intro k _
      simp only [Function.comp_apply, Nat.succ_eq_add_one, Int.natCast_add]
      omega

theorem cases_range_targets (low : Int) (ts : List Datum) :
    (SwitchTable.rangeCases low ts).map (·.target.num) = ts.map (·.num) := by
  induction ts generalizing low with
  | nil => rfl
  | cons t ts ih => rw [SwitchTable.rangeCases, List.map_cons, ih, List.map_cons]

theorem map_num_placeAll (vs : List Int) (pos : Nat) :
    ((Operand.formatOf pool pc .branch4).placeAll pos vs).map (·.num) =
      vs.map fun v => (pc : Int) + v := by
  induction vs generalizing pos with
  | nil => rfl
  | cons v vs ih =>
    rw [Format.placeAll, List.map_cons, ih]
    rfl

theorem map_pair_placeAll (es : List (Int × Int)) (pos : Nat) :
    ((pairFormat pool pc).placeAll pos es).map (fun p => (p.1.num, p.2.num)) =
      es.map fun e => (e.1, (pc : Int) + e.2) := by
  induction es generalizing pos with
  | nil => rfl
  | cons e es ih =>
    rw [Format.placeAll, List.map_cons, ih]
    rfl

variable {pool : Pool} {base pc : Nat}

theorem place_shown {op : Op} (h : op.Legal pool pc) : op.Shown pc (op.place pool base pc) := by
  have hname : Opcode.mnemonic? op.code = some (op.place pool base pc).mnemonic := by
    obtain ⟨mnemonic, hm⟩ := Option.isSome_iff_exists.1 (Disassembly.mnemonic?_code h)
    show Opcode.mnemonic? op.code = some ((Opcode.mnemonic? op.code).getD "")
    rw [hm, Option.getD_some]
  cases op with
  | fixed code os =>
    have hshown := map_filter_placeAll pool pc os (base + pc + 1)
    refine ⟨rfl, rfl, hname, hshown, rfl, ?_⟩
    show (List.filter _ _).map _ ++ [] = _
    rw [List.append_nil, targets_of_kinds]
    show List.map _ (List.filter _ (List.map _ (List.filter _ _))) = _
    rw [hshown, targets_of_operands, filter_branch_filter]
    rfl
  | wide code os =>
    have hshown := map_placeAll pool pc os (base + pc + 1 + 1)
    have hcode : (opcodeAt (base + pc + 1) code).num = code.toNat := by
      have hlt := code.toNat_lt
      rw [opcodeAt, Datum.named, Datum.ofWord_num _ _ (by omega)]
    refine ⟨rfl, rfl, hname, ?_, rfl, ?_⟩
    · show (_, _) :: List.map _ _ = _
      rw [hshown, hcode]
      rfl
    · show (List.filter _ (_ :: _)).map _ ++ [] = _
      rw [List.append_nil, List.filter_cons_of_neg Bool.false_ne_true, targets_of_kinds, hshown,
        targets_of_operands]
      rfl
  | range padding default low high vs =>
    refine ⟨rfl, rfl, hname, rfl, ?_, ?_⟩
    · show (SwitchTable.rangeCases low _).map _ = _
      rw [cases_range_keys, Format.length_placeAll]
      rfl
    · show ((pc : Int) + default) :: (SwitchTable.rangeCases low _).map _ = _
      rw [cases_range_targets, map_num_placeAll]
      rfl
  | pairs padding default es =>
    have hpairs := map_pair_placeAll pool pc es (base + pc + 1 + padding.length + 8)
    refine ⟨rfl, rfl, hname, rfl, ?_, ?_⟩
    · have hkeys := congrArg (List.map Prod.fst) hpairs
      rw [List.map_map, List.map_map] at hkeys
      show (List.map _ (List.map _ _)) = _
      rw [List.map_map]
      exact hkeys
    · have htargets := congrArg (List.map Prod.snd) hpairs
      rw [List.map_map, List.map_map] at htargets
      show ((pc : Int) + default) :: List.map _ (List.map _ _) = _
      rw [List.map_map]
      show _ = ((pc : Int) + default) :: List.map _ (List.map _ _)
      rw [List.map_map]
      exact congrArg _ htargets

end Op

theorem Bytecode.placeFrom_shown {pool : Pool} {base pc : Nat} {ops : List Op}
    (h : LegalFrom pool pc ops) : ShownFrom pc ops (placeFrom pool base pc ops) := by
  induction ops generalizing pc with
  | nil => trivial
  | cons op ops ih => exact ⟨Op.place_shown h.1, ih h.2⟩

/-! ## One way of writing -/

namespace Operand

theorem value_eq {kind : OperandKind} {v v' : Int} (h : InRange ⟨kind, v⟩) (h' : InRange ⟨kind, v'⟩)
    (he : Word.bits kind.width v = Word.bits kind.width v') : v = v' := by
  unfold InRange at h h'
  by_cases hs : kind.isSigned = true
  · simp only [hs, if_true] at h h'
    rw [← Word.twosComplement_bits h, ← Word.twosComplement_bits h', he]
  · simp only [hs] at h h'
    obtain ⟨n, rfl⟩ := Int.eq_ofNat_of_zero_le h.1
    obtain ⟨n', rfl⟩ := Int.eq_ofNat_of_zero_le h'.1
    have hn := h.2
    have hn' := h'.2
    simp only [Word.cast_pow, Int.ofNat_lt] at hn hn'
    rw [Word.bits_natCast hn, Word.bits_natCast hn'] at he
    rw [he]

theorem eq_of_bytes_append {kind : OperandKind} {v v' : Int} {r r' : List UInt8}
    (h : InRange ⟨kind, v⟩) (h' : InRange ⟨kind, v'⟩)
    (he : bytes ⟨kind, v⟩ ++ r = bytes ⟨kind, v'⟩ ++ r') : v = v' ∧ r = r' := by
  obtain ⟨hbytes, hr⟩ := List.append_inj he (by rw [bytes, bytes, Word.length_bytes, Word.length_bytes])
  refine ⟨value_eq h h' ?_, hr⟩
  exact Word.bytes_inj (Word.bits_lt _ _) (Word.bits_lt _ _) hbytes

theorem row_eq_of_bytes_append {pool : Pool} {os os' : List Operand} {r r' : List UInt8}
    (hkind : os.map (·.kind) = os'.map (·.kind)) (h : ∀ o ∈ os, o.Legal pool)
    (h' : ∀ o ∈ os', o.Legal pool)
    (he : os.flatMap bytes ++ r = os'.flatMap bytes ++ r') : os = os' ∧ r = r' := by
  induction os generalizing os' with
  | nil =>
    obtain rfl := List.map_eq_nil_iff.1 hkind.symm
    exact ⟨rfl, he⟩
  | cons o os ih =>
    obtain ⟨o', os', rfl, hk, hks⟩ := List.map_eq_cons_iff.1 hkind.symm
    have hl := List.forall_mem_cons.1 h
    have hl' := List.forall_mem_cons.1 h'
    obtain ⟨kind, v⟩ := o
    obtain ⟨kind', v'⟩ := o'
    obtain rfl : kind' = kind := hk
    simp only [List.flatMap_cons, List.append_assoc] at he
    obtain ⟨rfl, he'⟩ := eq_of_bytes_append hl.1.inRange hl'.1.inRange he
    obtain ⟨rfl, hr⟩ := ih hks.symm hl.2 hl'.2 he'
    exact ⟨rfl, hr⟩

end Operand

namespace Op

variable {pool : Pool} {pc : Nat}

theorem s4_eq_of_append {v v' : Int} {r r' : List UInt8} (h : Word.Fits 4 v) (h' : Word.Fits 4 v')
    (he : s4 v ++ r = s4 v' ++ r') : v = v' ∧ r = r' :=
  Operand.eq_of_bytes_append (show Operand.InRange ⟨.s4, v⟩ from h) h' he

theorem distances_eq_of_append {vs vs' : List Int} {r r' : List UInt8}
    (hlen : vs.length = vs'.length) (h : ∀ v ∈ vs, Word.Fits 4 v) (h' : ∀ v ∈ vs', Word.Fits 4 v)
    (he : vs.flatMap s4 ++ r = vs'.flatMap s4 ++ r') : vs = vs' ∧ r = r' := by
  induction vs generalizing vs' with
  | nil =>
    obtain rfl := List.length_eq_zero_iff.1 hlen.symm
    exact ⟨rfl, he⟩
  | cons v vs ih =>
    obtain ⟨v', vs', rfl⟩ := List.exists_cons_of_length_eq_add_one hlen.symm
    have hl := List.forall_mem_cons.1 h
    have hl' := List.forall_mem_cons.1 h'
    simp only [List.flatMap_cons, List.append_assoc] at he
    obtain ⟨rfl, he'⟩ := s4_eq_of_append hl.1 hl'.1 he
    obtain ⟨rfl, hr⟩ := ih (by simpa using hlen) hl.2 hl'.2 he'
    exact ⟨rfl, hr⟩

theorem entries_eq_of_append {es es' : List (Int × Int)} {r r' : List UInt8}
    (hlen : es.length = es'.length) (h : ∀ e ∈ es, Word.Fits 4 e.1 ∧ Word.Fits 4 e.2)
    (h' : ∀ e ∈ es', Word.Fits 4 e.1 ∧ Word.Fits 4 e.2)
    (he : es.flatMap (fun e => s4 e.1 ++ s4 e.2) ++ r =
      es'.flatMap (fun e => s4 e.1 ++ s4 e.2) ++ r') : es = es' ∧ r = r' := by
  induction es generalizing es' with
  | nil =>
    obtain rfl := List.length_eq_zero_iff.1 hlen.symm
    exact ⟨rfl, he⟩
  | cons e es ih =>
    obtain ⟨e', es', rfl⟩ := List.exists_cons_of_length_eq_add_one hlen.symm
    obtain ⟨k, v⟩ := e
    obtain ⟨k', v'⟩ := e'
    have hl := List.forall_mem_cons.1 h
    have hl' := List.forall_mem_cons.1 h'
    simp only [List.flatMap_cons, List.append_assoc] at he
    obtain ⟨rfl, he'⟩ := s4_eq_of_append hl.1.1 hl'.1.1 he
    obtain ⟨rfl, he''⟩ := s4_eq_of_append hl.1.2 hl'.1.2 he'
    obtain ⟨rfl, hr⟩ := ih (by simpa using hlen) hl.2 hl'.2 he''
    exact ⟨rfl, hr⟩

theorem padding_eq_of_append {padding padding' r r' : List UInt8} (h : Aligns pc padding)
    (h' : Aligns pc padding') (he : padding ++ r = padding' ++ r') : padding = padding' ∧ r = r' :=
  List.append_inj he (by rw [Disassembly.aligns_iff.1 h, Disassembly.aligns_iff.1 h'])

/-- The opcode settles the form of an instruction, and the form its bytes. -/
theorem eq_of_bytes_append {op op' : Op} {r r' : List UInt8} (h : op.Legal pool pc)
    (h' : op'.Legal pool pc) (he : op.bytes ++ r = op'.bytes ++ r') : op = op' ∧ r = r' := by
  have hcons : op.code :: (op.tailBytes ++ r) = op'.code :: (op'.tailBytes ++ r') := he
  obtain ⟨hcode, htail⟩ := List.cons.inj hcons
  cases op with
  | fixed code os =>
    cases op' with
    | fixed code' os' =>
      obtain rfl : code = code' := hcode
      obtain ⟨rfl, hr⟩ :=
        Operand.row_eq_of_bytes_append (h.2.2.2.2.1.trans h'.2.2.2.2.1.symm) h.2.2.2.2.2 h'.2.2.2.2.2 htail
      exact ⟨rfl, hr⟩
    | wide => exact absurd hcode h.2.2.2.1
    | range => exact absurd hcode h.2.1
    | pairs => exact absurd hcode h.2.2.1
  | wide code os =>
    cases op' with
    | fixed code' os' => exact absurd hcode.symm h'.2.2.2.1
    | wide code' os' =>
      obtain ⟨rfl, htail'⟩ := List.cons.inj htail
      obtain ⟨rfl, hr⟩ :=
        Operand.row_eq_of_bytes_append (h.2.1.trans h'.2.1.symm) h.2.2 h'.2.2 htail'
      exact ⟨rfl, hr⟩
    | range => cases hcode
    | pairs => cases hcode
  | range padding default low high vs =>
    cases op' with
    | fixed code' os' => exact absurd hcode.symm h'.2.1
    | wide => cases hcode
    | pairs => cases hcode
    | range padding' default' low' high' vs' =>
      obtain ⟨hpad, hdef, hlow, hhigh, -, hlen, hvs⟩ := h
      obtain ⟨hpad', hdef', hlow', hhigh', -, hlen', hvs'⟩ := h'
      simp only [tailBytes, List.append_assoc] at htail
      obtain ⟨rfl, h₁⟩ := padding_eq_of_append hpad hpad' htail
      obtain ⟨rfl, h₂⟩ := s4_eq_of_append hdef hdef' h₁
      obtain ⟨rfl, h₃⟩ := s4_eq_of_append hlow hlow' h₂
      obtain ⟨rfl, h₄⟩ := s4_eq_of_append hhigh hhigh' h₃
      obtain ⟨rfl, hr⟩ := distances_eq_of_append (by omega) hvs hvs' h₄
      exact ⟨rfl, hr⟩
  | pairs padding default es =>
    cases op' with
    | fixed code' os' => exact absurd hcode.symm h'.2.2.1
    | wide => cases hcode
    | range => cases hcode
    | pairs padding' default' es' =>
      obtain ⟨hpad, hdef, hcount, hes⟩ := h
      obtain ⟨hpad', hdef', hcount', hes'⟩ := h'
      simp only [tailBytes, List.append_assoc] at htail
      obtain ⟨rfl, h₁⟩ := padding_eq_of_append hpad hpad' htail
      obtain ⟨rfl, h₂⟩ := s4_eq_of_append hdef hdef' h₁
      obtain ⟨hlen, h₃⟩ := s4_eq_of_append hcount hcount' h₂
      obtain ⟨rfl, hr⟩ := entries_eq_of_append (Int.ofNat_inj.1 hlen) hes hes' h₃
      exact ⟨rfl, hr⟩

end Op

namespace Bytecode

theorem eq_of_bytes_eq {pool : Pool} {pc : Nat} {ops ops' : List Op} (h : LegalFrom pool pc ops)
    (h' : LegalFrom pool pc ops') (he : bytes ops = bytes ops') : ops = ops' := by
  induction ops generalizing pc ops' with
  | nil =>
    cases ops' with
    | nil => rfl
    | cons op' ops' => cases he
  | cons op ops ih =>
    cases ops' with
    | nil => cases he
    | cons op' ops' =>
      obtain ⟨rfl, he'⟩ := Op.eq_of_bytes_append h.1 h'.1 he
      rw [ih h.2 h'.2 he']

/-- **The language of the disassembler.** It accepts a code array exactly when the bytes are a
sequence of instructions that may stand where they stand. There is then one such sequence, and what is
decoded is that sequence: program counters, sizes, mnemonics, operands, keys and targets. -/
theorem disassemble_accepts_iff (pool : Pool) (w : Window) :
    ((∃ is w', Disassembly.disassemble pool w = .ok (is, w')) ↔
        ∃ ops, LegalFrom pool 0 ops ∧ bytes ops = w.rest) ∧
      ∀ is w', Disassembly.disassemble pool w = .ok (is, w') →
        ∃ ops, (LegalFrom pool 0 ops ∧ bytes ops = w.rest) ∧
          (∀ ops', LegalFrom pool 0 ops' ∧ bytes ops' = w.rest → ops' = ops) ∧
          ShownFrom 0 ops is ∧ is = placeFrom pool w.pos 0 ops ∧
          w' = { w with pos := w.stop, rest := [] } := by
  have hrun := Disassembly.disassemble_fills pool w
  constructor
  · constructor
    · rintro ⟨is, w', h⟩
      obtain ⟨ops, hlegal, hafter, hdone, -⟩ := (hrun is w').1 h
      refine ⟨ops, hlegal, ?_⟩
      rw [hafter.rest, hdone, List.append_nil]
      rfl
    · rintro ⟨ops, hlegal, hbytes⟩
      refine ⟨placeFrom pool w.pos 0 ops, ⟨w.phase, w.pos + w.rest.length, []⟩, (hrun _ _).2 ?_⟩
      refine ⟨ops, hlegal, ⟨?_, ?_, rfl⟩, rfl, rfl⟩
      · rw [List.append_nil]
        exact hbytes.symm
      · rw [← hbytes]
        rfl
  · intro is w' h
    obtain ⟨ops, hlegal, hafter, hdone, rfl⟩ := (hrun is w').1 h
    have hbytes : bytes ops = w.rest := by
      rw [hafter.rest, hdone, List.append_nil]
      rfl
    refine ⟨ops, ⟨hlegal, hbytes⟩, ?_, placeFrom_shown hlegal, rfl, ?_⟩
    · rintro ops' ⟨hlegal', hbytes'⟩
      exact eq_of_bytes_eq hlegal' hlegal (hbytes'.trans hbytes.symm)
    · rw [hafter.eq_mk, hdone, Window.stop, Window.remaining, ← hbytes]
      rfl

end Bytecode

end ClassAtlas
