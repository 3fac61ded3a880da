import ClassAtlas.Proofs.Shortage

/-! # The size check of jump tables

Before a switch reads its table, it checks that the code array has room for it: a header of a few bytes
may announce four thousand million targets. The check is exact. Its arithmetic stays within 64 bits, it
passes where the table is there and nowhere else, and behind it the table is read without a fault. So it
is never seen in a result: without it the same code arrays are read, as the same instructions, and the
others fail for the same kind of reason, if only after most of the table.

* `Fixed size step`: the step takes `size` bytes where so many are left, and wants bytes elsewhere.
* `Alike`, `Agrees`: runs with the same value, or with faults of one kind in one part; steps that run
  alike on every window.
* `Disassembly.disassembleUnchecked`: disassembly without the check.
* `Disassembly.Exact`: what the size check of a table is good for.
* `Disassembly.tableCheck_exact`: the check in front of both kinds of tables.
-/

namespace ClassAtlas
set_option autoImplicit false

variable {α β : Type}

open Reading

/-! ## Steps of a fixed size -/

/-- The step takes `size` bytes, whatever they are; where fewer are left it fails for want of bytes. -/
structure Fixed (size : Nat) (step : Reading α) : Prop where
  takes : ∀ w : Window, size ≤ w.remaining →
    ∃ a bs v, step w = .ok (a, v) ∧ w.After bs v ∧ bs.length = size
  starves : ∀ w : Window, w.remaining < size →
    ∃ f, step w = .error f ∧ f.kind = .endOfInput ∧ f.path = []

namespace Fixed

variable {m n size : Nat}

theorem pure (a : α) : Fixed 0 (pure a : Reading α) where
  takes w _ := ⟨a, [], w, rfl, Window.after_nil.2 rfl, rfl⟩
  starves _ h := absurd h (Nat.not_lt_zero _)

theorem bind {x : Reading α} {k : α → Reading β} (hx : Fixed m x) (hk : ∀ a, Fixed n (k a)) :
    Fixed (m + n) (x >>= k) where
  takes := by
    intro w h
    obtain ⟨a, as, u, hu, hafter, hlen⟩ := hx.takes w (by omega)
    have hroom := hafter.remaining
    obtain ⟨b, bs, v, hv, hafter', hlen'⟩ := (hk a).takes u (by omega)
    refine ⟨b, as ++ bs, v, bind_eq_ok.2 ⟨a, u, hu, hv⟩, hafter.trans hafter', ?_⟩
    rw [List.length_append, hlen, hlen']
  starves := by
    intro w h
    by_cases hm : w.remaining < m
    · obtain ⟨f, hf, hkind, hpath⟩ := hx.starves w hm
      exact ⟨f, bind_eq_error.2 (.inl hf), hkind, hpath⟩
    · obtain ⟨a, as, u, hu, hafter, hlen⟩ := hx.takes w (by omega)
      have hroom := hafter.remaining
      obtain ⟨f, hf, hkind, hpath⟩ := (hk a).starves u (by omega)
      exact ⟨f, bind_eq_error.2 (.inr ⟨a, u, hu, hf⟩), hkind, hpath⟩

/-- The value may be told where it stands. -/
theorem place {step : Reading α} {step' : Reading β} (h : Fixed size step) (g : Window → α → β)
    (heq : ∀ w, step' w = (step w).map fun r => (g w r.1, r.2)) : Fixed size step' where
  takes := by
    intro w hw
    obtain ⟨a, bs, v, hv, hafter⟩ := h.takes w hw
    refine ⟨g w a, bs, v, ?_, hafter⟩
    rw [heq, hv]
    rfl
  starves := by
    intro w hw
    obtain ⟨f, hf, hfault⟩ := h.starves w hw
    refine ⟨f, ?_, hfault⟩
    rw [heq, hf]
    rfl

/-- A result that never fails on what the step gives takes no bytes of its own. -/
theorem settled {x : Reading α} {result : α → Except Fault β} (h : Fixed size x)
    (hresult : ∀ w a v, x w = .ok (a, v) → ∃ b, result a = .ok b) :
    Fixed size (x >>= fun a => settled (result a)) where
  takes := by
    intro w hw
    obtain ⟨a, bs, v, hv, hafter⟩ := h.takes w hw
    obtain ⟨b, hb⟩ := hresult w a v hv
    exact ⟨b, bs, v, bind_eq_ok.2 ⟨a, v, hv, settled_eq_ok.2 ⟨hb, rfl⟩⟩, hafter⟩
  starves := by
    intro w hw
    obtain ⟨f, hf, hfault⟩ := h.starves w hw
    exact ⟨f, bind_eq_error.2 (.inl hf), hfault⟩

theorem repeatedFrom {step : Nat → Reading α} (h : ∀ i, Fixed size (step i)) (count : Nat) :
    ∀ first, Fixed (count * size) (repeatedFrom step first count) := by
  induction count with
  | zero =>
    intro first
    rw [Nat.zero_mul]
    exact pure []
  | succ count ih =>
    intro first
    rw [Nat.succ_mul, Nat.add_comm]
    exact (h first).bind fun a => (ih (first + 1)).bind fun as => pure (a :: as)

theorem repeated {step : Nat → Reading α} (h : ∀ i, Fixed size (step i)) (count : Nat) :
    Fixed (count * size) (repeated count step) :=
  repeatedFrom h count 0

end Fixed

/-! ## Steps that run alike -/

/-- The same value, or faults of one kind in one part. -/
inductive Alike : Except Fault α → Except Fault α → Prop where
  | ok (a : α) : Alike (.ok a) (.ok a)
  | error {f g : Fault} (kind : f.kind = g.kind) (path : f.path = g.path) :
    Alike (.error f) (.error g)

theorem Alike.refl (r : Except Fault α) : Alike r r := by
  cases r with
  | ok a => exact .ok a
  | error f => exact .error rfl rfl

/-- From every window the steps run alike. -/
def Agrees (x y : Reading α) : Prop :=
  ∀ w : Window, Alike (x w) (y w)

namespace Agrees

theorem refl (x : Reading α) : Agrees x x :=
  fun w => .refl (x w)

theorem bind {x y : Reading α} {k l : α → Reading β} (hx : Agrees x y)
    (hk : ∀ a, Agrees (k a) (l a)) : Agrees (x >>= k) (y >>= l) := by
  intro w
  have hrun := hx w
  simp only [Bind.bind, StateT.bind]
  generalize x w = r, y w = r' at hrun ⊢
  cases hrun with
  | ok a => exact hk a.1 a.2
  | error hkind hpath => exact .error hkind hpath

theorem within {x y : Reading α} (h : Agrees x y) (segment : String) :
    Agrees (within segment x) (within segment y) := by
  intro w
  have hrun := h w
  simp only [ClassAtlas.within]
  generalize x w = r, y w = r' at hrun ⊢
  cases hrun with
  | ok a => exact .ok a
  | error hkind hpath => exact .error hkind (congrArg (segment :: ·) hpath)

end Agrees

/-! ## The steps of a jump table -/

namespace Window

theorem take_fixed (n : Nat) : Fixed n (take n) where
  takes := by
    intro w h
    have hlen : (w.rest.take n).length = n := List.length_take_of_le h
    have hafter : w.After (w.rest.take n) ⟨w.phase, w.pos + n, w.rest.drop n⟩ :=
      ⟨(List.take_append_drop _ _).symm, by rw [hlen], rfl⟩
    exact ⟨_, _, _, take_eq_ok.2 ⟨by rw [hlen], hafter⟩, hafter, hlen⟩
  starves := by
    intro w h
    have hlacks : ¬ w.holds n = true := fun hholds => by
      have hle := (holds_iff w n).1 hholds
      omega
    exact ⟨w.endOfInput n, if_neg fun hn => hlacks hn.2, rfl, rfl⟩

theorem signedBits_fixed : Fixed 4 (signedBits 4) :=
  (take_fixed 4).bind fun bs => .pure (bigEndian bs)

end Window

namespace Disassembly

variable {pool : Pool} {pc : Nat}

/-- An operand of four bytes that is neither an index nor an element type. -/
theorem operand_fixed {kind : OperandKind} (hword : word kind = Datum.signed 4 kind)
    (hwidth : kind.width = 4) : Fixed 4 (operand pool pc kind) := by
  have hplain : kind.isConstant = false ∧ kind ≠ .arrayType := by
    cases kind <;> simp_all [OperandKind.width, OperandKind.isConstant]
  have hsigned : Fixed 4 (Datum.signed 4 kind) :=
    Window.signedBits_fixed.place (fun w raw =>
      { offset := w.pos, width := 4, raw := raw, num := Window.twosComplement 32 raw, kind := kind })
      fun w => rfl
  rw [operand, hword]
  refine hsigned.settled fun w d v hd => ?_
  obtain ⟨n, -, -, rfl⟩ := (Datum.signed_reads (.inr (.inr rfl)) kind _ _ _).1 hd
  have hname : nameOperand pool pc (Datum.ofSigned kind.width kind w.pos n)
      = .ok (Operand.place pool pc w.pos ⟨kind, n⟩) := nameOperand_of_plain hplain.1 hplain.2 w.pos n
  rw [hwidth] at hname
  exact ⟨_, hname⟩

theorem target_fixed : Fixed 4 (operand pool pc .branch4) :=
  operand_fixed rfl rfl

theorem key_fixed : Fixed 4 (operand pool pc .s4) :=
  operand_fixed rfl rfl

theorem switchPair_fixed : Fixed 8 (switchPair pool pc) :=
  key_fixed.bind fun _ => target_fixed.bind fun _ => .pure _

/-! ## The check -/

theorem ensureTable_iff {count : Int} {size : Nat} {w : Window} :
    ensureTable count size w = .ok ((), w) ↔ count * size ≤ w.remaining := by
  rw [ensureTable_eq_ok, and_iff_left rfl, Int.toNat_le]

theorem ensureTable_of_short {count : Int} {size : Nat} {w : Window}
    (h : ¬ count * size ≤ w.remaining) : ∃ f, ensureTable count size w = .error f
      ∧ f.kind = .endOfInput ∧ f.path = [] := by
  have hlacks : ¬ w.holds (count * size).toNat = true := fun hholds =>
    h (Int.toNat_le.1 ((Window.holds_iff w _).1 hholds))
  exact ⟨_, if_neg hlacks, rfl, rfl⟩

/-- What the check is good for in front of a table of `count` rows of `size` bytes. -/
structure Exact (table : Reading (List α)) (row : Reading α) (count : Int) (size : Nat)
    (w : Window) : Prop where
  /-- The table is read behind the check, one row after the other. -/
  guarded : table w = (ensureTable count size >>= fun _ => repeated count.toNat fun _ => row) w
  /-- Neither the number of rows nor that of bytes leaves 64 bits. -/
  fits : Word.Fits 8 count ∧ Word.Fits 8 (count * size)
  /-- The check passes exactly where the window holds the table. -/
  passes : ensureTable count size w = .ok ((), w) ↔ count * size ≤ w.remaining
  /-- Elsewhere the table is missed. -/
  refuses : ¬ count * size ≤ w.remaining →
    ∃ f, ensureTable count size w = .error f ∧ f.kind = .endOfInput
  /-- Behind the check all of the table is read, without a fault. -/
  reads : ensureTable count size w = .ok ((), w) → ∃ rows bs v,
    repeated count.toNat (fun _ => row) w = .ok (rows, v) ∧ w.After bs v
      ∧ (bs.length : Int) = count * size
  /-- The rows that room is made for are no more than could be there. -/
  room : ensureTable count size w = .ok ((), w) → count ≤ (w.remaining / size : Nat)

theorem Exact.of_fixed {table : Reading (List α)} {row : Reading α} {count : Int} {size : Nat}
    {w : Window} (hrow : Fixed size row) (hsize : 0 < size) (hcount : 0 ≤ count)
    (hfits : Word.Fits 8 count ∧ Word.Fits 8 (count * size))
    (hguarded : table w = (ensureTable count size >>= fun _ => repeated count.toNat fun _ => row) w) :
    Exact table row count size w where
  guarded := hguarded
  fits := hfits
  passes := ensureTable_iff
  refuses := by
    intro h
    obtain ⟨f, hf, hkind, -⟩ := ensureTable_of_short h
    exact ⟨f, hf, hkind⟩
  reads := by
    intro h
    obtain ⟨n, rfl⟩ := Int.eq_ofNat_of_zero_le hcount
    have hroom : ((n * size : Nat) : Int) ≤ w.remaining := by
      rw [Int.natCast_mul]
      exact ensureTable_iff.1 h
    obtain ⟨rows, bs, v, hrows, hafter, hlen⟩ :=
      (Fixed.repeated (fun _ => hrow) n).takes w (Int.ofNat_le.1 hroom)
    exact ⟨rows, bs, v, hrows, hafter, by rw [hlen, Int.natCast_mul]⟩
  room := by
    intro h
    have hsize' : (0 : Int) < size := Int.ofNat_lt.2 hsize
    rw [Int.natCast_ediv, Int.le_ediv_iff_mul_le hsize']
    exact ensureTable_iff.1 h

/-- Without the check the table is missed in a row of it, and not in front. -/
theorem ensureTable_agrees {row : Reading α} {size : Nat} (hrow : Fixed size row) {count : Int}
    (hcount : 0 ≤ count) :
    Agrees (ensureTable count size >>= fun _ => repeated count.toNat fun _ => row)
      (repeated count.toNat fun _ => row) := by
  intro w
  by_cases h : count * size ≤ w.remaining
  · rw [bind_of_ok (ensureTable_iff.2 h)]
    exact .refl _
  · obtain ⟨n, rfl⟩ := Int.eq_ofNat_of_zero_le hcount
    have hshort : w.remaining < n * size := by
      rw [← Int.natCast_mul, Int.ofNat_le] at h
      exact Nat.lt_of_not_le h
    obtain ⟨f, hf, hkind, hpath⟩ := ensureTable_of_short h
    obtain ⟨g, hg, hkind', hpath'⟩ := (Fixed.repeated (fun _ => hrow) n).starves w hshort
    rw [bind_eq_error.2 (.inl hf), Int.toNat_natCast, hg]
    exact .error (hkind.trans hkind'.symm) (hpath.trans hpath'.symm)

/-! ## Disassembly without the check -/

/-- No check in front of a table. -/
def noCheck : TableCheck := fun _ _ => pure ()

/-- Disassembly without a check in front of the tables. -/
abbrev disassembleUnchecked (pool : Pool) : Reading (List Instruction) :=
  disassembleBy noCheck pool

theorem rangeTargets_agrees (low high : Datum) :
    Agrees (rangeTargets ensureTable pool pc low high) (rangeTargets noCheck pool pc low high) := by
  unfold rangeTargets
  by_cases hinv : high.num < low.num
  · rw [if_pos hinv, if_pos hinv]
    exact .refl _
  · rw [if_neg hinv, if_neg hinv]
    exact ensureTable_agrees target_fixed (by omega)

theorem switchPairs_agrees (count : Datum) :
    Agrees (switchPairs ensureTable pool pc count) (switchPairs noCheck pool pc count) := by
  unfold switchPairs
  by_cases hneg : count.num < 0
  · rw [if_pos hneg, if_pos hneg]
    exact .refl _
  · rw [if_neg hneg, if_neg hneg]
    exact ensureTable_agrees switchPair_fixed (by omega)

theorem tail_agrees (base : Nat) (code : UInt8) :
    Agrees (tail ensureTable pool base pc code) (tail noCheck pool base pc code) := by
  unfold tail
  split
  · exact (Agrees.refl _).bind fun _ => (Agrees.refl _).bind fun low =>
      (Agrees.refl _).bind fun high => (rangeTargets_agrees low high).bind fun _ => .refl _
  · split
    · exact (Agrees.refl _).bind fun _ => (Agrees.refl _).bind fun count =>
        (switchPairs_agrees count).bind fun _ => .refl _
    · exact .refl _

theorem instruction_agrees (base : Nat) :
    Agrees (instruction ensureTable pool base) (instruction noCheck pool base) := by
  refine (Agrees.refl _).bind fun opcode => ?_
  dsimp only
  split
  · exact .refl _
  · exact (tail_agrees base _).bind fun _ => .refl _

theorem sweep_agrees (base limit : Nat) :
    Agrees (sweep ensureTable pool base limit) (sweep noCheck pool base limit) := by
  induction limit with
  | zero => exact .refl _
  | succ limit ih =>
    refine (Agrees.refl _).bind fun w => ?_
    split
    · exact .refl _
    · exact ((instruction_agrees base).within _).bind fun _ => ih.bind fun _ => .refl _

theorem disassemble_agrees (pool : Pool) :
    Agrees (disassemble pool) (disassembleUnchecked pool) :=
  (Agrees.refl _).bind fun w => sweep_agrees w.pos w.remaining

/-! ## Exactness -/

/-- **The size check of jump tables.** For the bounds of any range, and for any number of pairs, the
check is exact. Without it every code array is disassembled alike. -/
theorem tableCheck_exact (pool : Pool) :
    (∀ (pc : Nat) (u v w : Window) (low high : Datum), operand pool pc .s4 u = .ok (low, v) →
        operand pool pc .s4 v = .ok (high, w) → low.num ≤ high.num →
        Word.Fits 8 (high.num - low.num)
          ∧ Exact (rangeTargets ensureTable pool pc low high) (operand pool pc .branch4)
            (high.num - low.num + 1) 4 w)
      ∧ (∀ (pc : Nat) (v w : Window) (count : Datum), operand pool pc .s4 v = .ok (count, w) →
        0 ≤ count.num → Exact (switchPairs ensureTable pool pc count) (switchPair pool pc) count.num 8 w)
      ∧ ∀ w, Alike (disassemble pool w) (disassembleUnchecked pool w) := by
  have hbound : ∀ {pc : Nat} {v w : Window} {d : Datum}, operand pool pc .s4 v = .ok (d, w) →
      -(256 ^ 4 : Int) ≤ 2 * d.num ∧ 2 * d.num < 256 ^ 4 := by
    intro pc v w d h
    obtain ⟨x, hx, -, rfl⟩ := (operand_reads (by decide) _ _ _).1 h
    exact legal_s4.1 hx
  refine ⟨fun pc u v w low high hlow hhigh hle => ?_, fun pc v w count hcount hpos => ?_,
    disassemble_agrees pool⟩
  · have hlo := hbound hlow
    have hhi := hbound hhigh
    refine ⟨by unfold Word.Fits; omega, .of_fixed target_fixed (by decide) (by omega) ?_ ?_⟩
    · unfold Word.Fits
      omega
    · rw [rangeTargets, if_neg (Int.not_lt.2 hle)]
  · have hrange := hbound hcount
    refine .of_fixed switchPair_fixed (by decide) hpos ?_ ?_
    · unfold Word.Fits
      omega
    · rw [switchPairs, if_neg (Int.not_lt.2 hpos)]

/-- The widest range there is, in front of a single target, and a table of one pair. -/
theorem tableCheck_exact_widest :
    let pool : Pool := ⟨{}, #[]⟩
    let range : Window := ⟨.disassemble, 8, [0x80, 0, 0, 0, 0x7f, 0xff, 0xff, 0xff, 0, 0, 0, 3]⟩
    let pairs : Window := ⟨.disassemble, 8, [0, 0, 0, 1, 0, 0, 0, 7, 0, 0, 0, 3]⟩
    (∃ v w low high, operand pool 2 .s4 range = .ok (low, v) ∧ operand pool 2 .s4 v = .ok (high, w)
        ∧ high.num - low.num + 1 = 2 ^ 32 ∧ low.num ≤ high.num
        ∧ Exact (rangeTargets ensureTable pool 2 low high) (operand pool 2 .branch4)
          (high.num - low.num + 1) 4 w)
      ∧ ∃ w count, operand pool 2 .s4 pairs = .ok (count, w) ∧ count.num = 1 ∧ 0 ≤ count.num
        ∧ Exact (switchPairs ensureTable pool 2 count) (switchPair pool 2) count.num 8 w := by
  intro pool range pairs
  refine ⟨⟨_, _, _, _, rfl, rfl, by decide, by decide, ?_⟩, _, _, rfl, by decide, by decide, ?_⟩
  · exact ((tableCheck_exact pool).1 2 range _ _ _ _ rfl rfl (by decide)).2
  · exact (tableCheck_exact pool).2.1 2 pairs _ _ rfl (by decide)

end Disassembly

end ClassAtlas
