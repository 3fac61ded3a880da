import ClassAtlas.Proofs.Safety

/-! # Where bytes run out

What a failing run of a step did before it failed. A step made from steps fails in one of them, after
those before it have succeeded; in a list, after so many elements. A plain step reads values one after
the other without naming any part: when it wants bytes that are not there, its fault is that of the
window at the value which is cut off.

* `Reading.bind_eq_error`, `repeatedFrom_eq_error`: failing runs of steps in a row.
* `Following element i w v`: from `w`, a count and `i` elements are read up to `v`, and more are to come.
* `counted_eq_error`: failing runs of a counted list.
* `RunsDry step w v need`: the step wants `need` bytes at `v`, where fewer are left.
* `Plain phase step`: in this phase, the step runs dry whenever it fails for want of bytes.
-/

namespace ClassAtlas
set_option autoImplicit false

variable {α β : Type}

/-! ## Steps that fail -/

namespace Reading

theorem bind_eq_error {x : Reading α} {k : α → Reading β} {w : Window} {f : Fault} :
    (x >>= k) w = .error f ↔ x w = .error f ∨ ∃ a v, x w = .ok (a, v) ∧ k a v = .error f := by
  simp only [bind, StateT.bind]
  cases x w with
  | error e => simp [Except.bind]
  | ok r =>
    constructor
    · intro h
      exact .inr ⟨r.1, r.2, rfl, h⟩
    · rintro (h | ⟨a, v, hr, h⟩)
      · cases h
      · cases hr
        exact h

theorem pure_eq_error {a : α} {w : Window} {f : Fault} :
    (pure a : Reading α) w = .error f ↔ False :=
  ⟨fun h => (by cases h), False.elim⟩

theorem get_eq_error {w : Window} {f : Fault} : (get : Reading Window) w = .error f ↔ False :=
  ⟨fun h => (by cases h), False.elim⟩

theorem bind_pure_eq_error {x : Reading α} {g : α → β} {w : Window} {f : Fault} :
    (x >>= fun a => pure (g a)) w = .error f ↔ x w = .error f := by
  simp only [bind_eq_error, pure_eq_error, and_false, exists_false, or_false]

theorem get_bind_eq_error {k : Window → Reading β} {w : Window} {f : Fault} :
    (get >>= k) w = .error f ↔ k w w = .error f :=
  Iff.rfl

theorem throw_eq_error {f g : Fault} {w : Window} :
    (throw f : Reading α) w = .error g ↔ f = g := by
  show Except.error f = Except.error g ↔ f = g
  simp

theorem within_eq_error {segment : String} {x : Reading α} {w : Window} {f : Fault} :
    within segment x w = .error f ↔ ∃ g, x w = .error g ∧ f = g.within segment := by
  unfold within
  cases x w with
  | ok r => exact ⟨nofun, fun ⟨_, h, _⟩ => nomatch h⟩
  | error g =>
    show Except.error (g.within segment) = Except.error f ↔ _
    simp [eq_comm]

theorem settled_eq_error {r : Except Fault α} {w : Window} {f : Fault} :
    settled r w = .error f ↔ r = .error f := by
  unfold settled
  cases r <;> simp [Except.map]

theorem inPhase_eq_error {phase : Phase} {x : Reading α} {w : Window} {f : Fault} :
    inPhase phase x w = .error f ↔ x { w with phase := phase } = .error f := by
  unfold inPhase
  cases x { w with phase := phase } <;> simp [Except.map]

theorem onChild_eq_error {phase : Phase} {c : Window} {x : Reading α} {w : Window} {f : Fault} :
    onChild phase c x w = .error f ↔ x { c with phase := phase } = .error f :=
  settled_eq_error

end Reading

open Reading

/-- A step that takes all bytes that are left, whatever they are, never fails. -/
theorem Fills.ne_error {step : Reading α} {place : Nat → List UInt8 → α}
    (h : Fills step { legal := fun _ => True, bytes := id, place := place }) (w : Window) (f : Fault) :
    step w ≠ .error f := by
  intro hf
  have hall : w.After w.rest ⟨w.phase, w.pos + w.rest.length, []⟩ :=
    ⟨(List.append_nil _).symm, rfl, rfl⟩
  have hok := (h w _ _).2 ⟨w.rest, trivial, hall, rfl, rfl⟩
  cases hok.symm.trans hf

/-- A row of steps fails in one of them, after those before it. -/
theorem repeatedFrom_eq_error {step : Nat → Reading α} {first count : Nat} {w : Window} {f : Fault} :
    repeatedFrom step first count w = .error f ↔ ∃ i < count, ∃ as v,
      repeatedFrom step first i w = .ok (as, v) ∧ as.length = i ∧ step (first + i) v = .error f := by
  induction count generalizing first w with
  | zero => simp [repeatedFrom, pure_eq_error]
  | succ count ih =>
    simp only [repeatedFrom, bind_eq_error, pure_eq_error, and_false, exists_false, or_false, ih]
    constructor
    · rintro (h | ⟨a, u, ha, i, hi, as, v, has, hlen, h⟩)
      · exact ⟨0, Nat.succ_pos _, [], w, rfl, rfl, h⟩
      · refine ⟨i + 1, by omega, a :: as, v, ?_, by rw [List.length_cons, hlen], ?_⟩
        · simp only [repeatedFrom, bind_eq_ok, pure_eq_ok]
          exact ⟨a, u, ha, as, v, has, rfl, rfl⟩
        · rwa [show first + (i + 1) = first + 1 + i by omega]
    · rintro ⟨i, hi, as, v, has, hlen, h⟩
      cases i with
      | zero =>
        obtain ⟨-, rfl⟩ := pure_eq_ok.1 has
        exact .inl h
      | succ i =>
        simp only [repeatedFrom, bind_eq_ok, pure_eq_ok] at has
        obtain ⟨a, u, ha, as, v, has, rfl, rfl⟩ := has
        refine .inr ⟨a, u, ha, i, by omega, as, v, has, by simpa using hlen, ?_⟩
        rwa [show first + 1 + i = first + (i + 1) by omega]

theorem repeatedFrom_within_eq_ok {element : Reading α} {segment : Nat → String} {first count : Nat}
    {w v : Window} {as : List α} :
    repeatedFrom (fun i => within (segment i) element) first count w = .ok (as, v) ↔
      repeatedFrom (fun _ => element) first count w = .ok (as, v) := by
  induction count generalizing first w as with
  | zero => rfl
  | succ count ih =>
    simp only [repeatedFrom, bind_eq_ok, within_eq_ok, pure_eq_ok]
    constructor
    · rintro ⟨a, u, ha, bs, v', hbs, rfl, rfl⟩
      exact ⟨a, u, ha, bs, v', ih.1 hbs, rfl, rfl⟩
    · rintro ⟨a, u, ha, bs, v', hbs, rfl, rfl⟩
      exact ⟨a, u, ha, bs, v', ih.2 hbs, rfl, rfl⟩

/-! ## Counted lists -/

/-- From `w`, a count and `i` elements are read, which leaves `v`; by the count there are more. -/
def Following (element : Reading α) (i : Nat) (w v : Window) : Prop :=
  ∃ count u as, Datum.u2 w = .ok (count, u) ∧ i < count.num.toNat
    ∧ repeated i (fun _ => element) u = .ok (as, v) ∧ as.length = i

theorem counted_eq_error {label : String} {segment : Nat → String} {element : Reading α} {w : Window}
    {f : Fault} : counted label segment element w = .error f ↔
      (∃ g, Datum.u2 w = .error g ∧ f = g.within label)
        ∨ ∃ i v g, Following element i w v ∧ element v = .error g ∧ f = g.within (segment i) := by
  simp only [counted, repeated, bind_eq_error, pure_eq_error, and_false, exists_false, or_false,
    within_eq_error, within_eq_ok, repeatedFrom_eq_error, repeatedFrom_within_eq_ok, Nat.zero_add]
  refine or_congr_right ⟨?_, ?_⟩
  · rintro ⟨count, u, hcount, i, hi, as, v, has, hlen, g, hg, rfl⟩
    exact ⟨i, v, g, ⟨count, u, as, hcount, hi, has, hlen⟩, hg, rfl⟩
  · rintro ⟨i, v, g, ⟨count, u, as, hcount, hi, has, hlen⟩, hg, rfl⟩
    exact ⟨count, u, hcount, i, hi, as, v, has, hlen, g, hg, rfl⟩

theorem Following.after {element : Reading α} (h : Delimits element) {i : Nat} {w v : Window}
    (hv : Following element i w v) : ∃ bs, w.After bs v ∧ 2 ≤ bs.length := by
  obtain ⟨count, u, as, hcount, -, has, -⟩ := hv
  obtain ⟨n, -, hafter, -⟩ := (Datum.u2_reads _ _ _).1 hcount
  obtain ⟨bs, hafter', -⟩ := (Delimits.repeated (fun _ => h) i) _ _ _ has
  refine ⟨_, hafter.trans hafter', ?_⟩
  have htwo : ((Datum.unsignedFormat 2 .structural).bytes n).length = 2 := Word.length_bytes 2 n
  rw [List.length_append, htwo]
  omega

/-! ## Plain steps -/

/-- From `w` the step comes as far as `v`, and there it wants `need` bytes, of which some are missing. -/
structure RunsDry (step : Reading α) (w v : Window) (need : Int) : Prop where
  reached : ∃ bs, w.After bs v
  short : v.remaining < need
  fault : step w = .error (v.endOfInput need)

/-- The step takes bytes from the window, or fails; for want of bytes it fails by running dry. -/
structure PlainAt (step : Reading α) (w : Window) : Prop where
  moves : ∀ a v, step w = .ok (a, v) → ∃ bs, w.After bs v
  dry : ∀ f, step w = .error f → f.kind = .endOfInput → ∃ v need, RunsDry step w v need

def Plain (phase : Phase) (step : Reading α) : Prop :=
  ∀ w : Window, w.phase = phase → PlainAt step w

/-- The result is never a fault for want of bytes. -/
abbrev NeverShort (r : Except Fault α) : Prop :=
  Fails (fun f => f.kind ≠ .endOfInput) r

theorem RunsDry.phase {step : Reading α} {w v : Window} {need : Int} (h : RunsDry step w v need) :
    v.phase = w.phase := by
  obtain ⟨bs, hafter⟩ := h.reached
  exact hafter.phase

theorem RunsDry.bind {x : Reading α} {w v : Window} {need : Int} (h : RunsDry x w v need)
    (k : α → Reading β) : RunsDry (x >>= k) w v need :=
  ⟨h.reached, h.short, bind_eq_error.2 (.inl h.fault)⟩

namespace PlainAt

variable {w : Window}

theorem pure (a : α) : PlainAt (pure a) w where
  moves := by
    rintro b v h
    obtain ⟨-, rfl⟩ := pure_eq_ok.1 h
    exact ⟨[], Window.after_nil.2 rfl⟩
  dry := fun _ h => (pure_eq_error.1 h).elim

theorem settled {r : Except Fault α} (h : NeverShort r) : PlainAt (settled r) w where
  moves := by
    rintro b v hv
    obtain ⟨-, rfl⟩ := settled_eq_ok.1 hv
    exact ⟨[], Window.after_nil.2 rfl⟩
  dry := fun f hf hkind => absurd hkind (h f (settled_eq_error.1 hf))

theorem bind {x : Reading α} {k : α → Reading β} (hx : PlainAt x w)
    (hk : ∀ a v, x w = .ok (a, v) → PlainAt (k a) v) : PlainAt (x >>= k) w where
  moves := by
    intro b v h
    obtain ⟨a, u, hu, hv⟩ := bind_eq_ok.1 h
    obtain ⟨as, has⟩ := hx.moves a u hu
    obtain ⟨bs, hbs⟩ := (hk a u hu).moves b v hv
    exact ⟨as ++ bs, has.trans hbs⟩
  dry := by
    intro f h hkind
    rcases bind_eq_error.1 h with hf | ⟨a, u, hu, hf⟩
    · obtain ⟨v, need, hdry⟩ := hx.dry f hf hkind
      exact ⟨v, need, hdry.bind k⟩
    · obtain ⟨v, need, hdry⟩ := (hk a u hu).dry f hf hkind
      obtain ⟨as, has⟩ := hx.moves a u hu
      obtain ⟨bs, hbs⟩ := hdry.reached
      exact ⟨v, need, ⟨as ++ bs, has.trans hbs⟩, hdry.short,
        bind_eq_error.2 (.inr ⟨a, u, hu, hdry.fault⟩)⟩

theorem place {step : Reading α} {step' : Reading β} (h : PlainAt step w) (g : α → β)
    (heq : step' w = (step w).map fun r => (g r.1, r.2)) : PlainAt step' w where
  moves := by
    intro b v hv
    rw [heq] at hv
    obtain ⟨a, u, hu, hb⟩ := map_eq_ok.1 hv
    obtain ⟨-, rfl⟩ := Prod.mk.inj hb
    exact h.moves a u hu
  dry := by
    intro f hf hkind
    have hsame : ∀ e, step' w = .error e ↔ step w = .error e := by
      intro e
      rw [heq]
      cases step w <;> simp [Except.map]
    obtain ⟨v, need, hdry⟩ := h.dry f ((hsame f).1 hf) hkind
    exact ⟨v, need, hdry.reached, hdry.short, (hsame _).2 hdry.fault⟩

end PlainAt

namespace Plain

variable {phase : Phase}

theorem pure (a : α) : Plain phase (pure a : Reading α) :=
  fun _ _ => .pure a

theorem get : Plain phase (get : Reading Window) := by
  refine fun w _ => ⟨fun u v h => ?_, fun f h => (get_eq_error.1 h).elim⟩
  obtain ⟨-, rfl⟩ := get_eq_ok.1 h
  exact ⟨[], Window.after_nil.2 rfl⟩

theorem settled {r : Except Fault α} (h : NeverShort r) : Plain phase (settled r) :=
  fun _ _ => .settled h

theorem throw {f : Fault} (h : f.kind ≠ .endOfInput) : Plain phase (throw f : Reading α) :=
  fun _ _ => ⟨fun _ _ hv => (throw_eq_ok.1 hv).elim,
    fun _ hg hkind => absurd (throw_eq_error.1 hg ▸ hkind) h⟩

/-- A result that needs no reading may stand in a part of its own. -/
theorem within_settled {r : Except Fault α} (h : NeverShort r) (segment : String) :
    Plain phase (within segment (ClassAtlas.settled r)) := by
  refine fun w _ => ⟨fun a v hv => (PlainAt.settled h).moves a v (within_eq_ok.1 hv), ?_⟩
  intro f hf hkind
  obtain ⟨g, hg, rfl⟩ := within_eq_error.1 hf
  exact absurd hkind (h g (settled_eq_error.1 hg))

theorem bind {x : Reading α} {k : α → Reading β} (hx : Plain phase x) (hk : ∀ a, Plain phase (k a)) :
    Plain phase (x >>= k) := by
  intro w hw
  refine (hx w hw).bind fun a v hv => ?_
  obtain ⟨bs, hafter⟩ := (hx w hw).moves a v hv
  exact hk a v (hafter.phase.trans hw)

theorem place {step : Reading α} {step' : Reading β} (h : Plain phase step) (g : Window → α → β)
    (heq : ∀ w, step' w = (step w).map fun r => (g w r.1, r.2)) : Plain phase step' :=
  fun w hw => (h w hw).place (g w) (heq w)

/-- A fault for want of bytes, seen from the parts around, is that of the value which is cut off. -/
theorem cut_off {step : Reading α} {w : Window} {f g : Fault} {path : List String}
    (h : Plain phase step) (hw : w.phase = phase) (hg : step w = .error g)
    (hkind : g.kind = .endOfInput) (hf : f = { g with path := path ++ g.path }) :
    ∃ v need, RunsDry step w v need ∧ v.phase = phase
      ∧ f = { v.endOfInput need with path := path } := by
  obtain ⟨v, need, hdry⟩ := (h w hw).dry g hg hkind
  refine ⟨v, need, hdry, hdry.phase.trans hw, ?_⟩
  obtain rfl : g = v.endOfInput need := Except.error.inj (hg.symm.trans hdry.fault)
  rw [hf, show (v.endOfInput need).path = [] from rfl, List.append_nil]

theorem repeatedFrom {step : Nat → Reading α} (h : ∀ i, Plain phase (step i)) (count : Nat) :
    ∀ first, Plain phase (repeatedFrom step first count) := by
  induction count with
  | zero => exact fun _ => pure []
  | succ count ih =>
    exact fun first => (h first).bind fun _ => (ih (first + 1)).bind fun _ => pure _

theorem repeated {step : Nat → Reading α} (h : ∀ i, Plain phase (step i)) (count : Nat) :
    Plain phase (repeated count step) :=
  repeatedFrom h count 0

end Plain

/-! ## References and names need no bytes -/

theorem NeverShort.error {f : Fault} (kind : Kind) (hne : kind ≠ .endOfInput) (h : f.kind = kind) :
    NeverShort (.error f : Except Fault α) :=
  Fails.error (h ▸ hne)

theorem Descriptor.declaration_neverShort (desc name : String) :
    NeverShort (declaration desc name) := by
  simp only [declaration]
  cases format (Text.encode desc) (Text.encode name) with
  | ok r => exact .ok _
  | error d => exact NeverShort.error .malformedDescriptor (by decide) rfl

namespace Pool

variable {pool : Pool}

theorem lookup_neverShort (i offset : Int) : NeverShort (pool.lookup i offset) := by
  unfold lookup
  split
  · exact .ok _
  · exact NeverShort.error .danglingReference (by decide) rfl

theorem textOf_neverShort (d : Datum) : NeverShort (pool.textOf d) := by
  refine (lookup_neverShort _ _).bind fun c _ => ?_
  split
  · exact .ok _
  · exact NeverShort.error .invalidData (by decide) rfl

theorem refer_neverShort (d : Datum) : NeverShort (pool.refer d) :=
  (lookup_neverShort _ _).bind fun _ _ => .ok _

theorem referOptional_neverShort (absent : String) (d : Datum) :
    NeverShort (pool.referOptional absent d) := by
  unfold referOptional
  split
  · exact .ok _
  · exact refer_neverShort d

theorem referText_neverShort (d : Datum) : NeverShort (pool.referText d) :=
  (textOf_neverShort d).bind fun _ _ => .ok _

theorem memberName_neverShort (owner : String) (d : Datum) :
    NeverShort (pool.memberName owner d) := by
  refine Fails.bind ?_ fun r _ => Descriptor.declaration_neverShort _ _
  refine (lookup_neverShort _ _).bind fun c _ => ?_
  split
  · exact (textOf_neverShort _).bind fun _ _ => (textOf_neverShort _).bind fun _ _ => .ok _
  · exact NeverShort.error .invalidData (by decide) rfl

theorem compose_neverShort (basis : String) (p : Payload) : NeverShort (pool.compose basis p) := by
  cases p with
  | classInfo d => exact (textOf_neverShort d).map _
  | string d | moduleInfo d | packageInfo d => exact textOf_neverShort d
  | nameAndType name descriptor =>
    exact (textOf_neverShort _).bind fun _ _ => (textOf_neverShort _).bind fun _ _ =>
      Descriptor.declaration_neverShort _ _
  | methodType d =>
    exact (textOf_neverShort d).bind fun _ _ => Descriptor.declaration_neverShort _ _
  | fieldref owner d | methodref owner d | interfaceMethodref owner d =>
    exact memberName_neverShort basis d
  | _ => exact .ok _

theorem nameEntry_neverShort (i offset : Int) (ledger : Ledger) :
    NeverShort (pool.nameEntry i offset ledger) := by
  intro f hf
  fun_induction nameEntry pool i offset ledger with
  | case2 | case5 | case8 => cases hf
  | case1 i offset ledger f' hlookup =>
    cases hf
    exact lookup_neverShort _ _ _ hlookup
  | case3 => exact NeverShort.error .invalidData (by decide) rfl f hf
  | case4 i offset ledger c hc hmark hbasis f' hcompose =>
    cases hf
    exact compose_neverShort _ _ _ hcompose
  | case6 i offset ledger c hc hmark d hbasis f' hrec ih =>
    cases hf
    exact ih hrec
  | case7 i offset ledger c hc hmark d hbasis basis mid hrec f' hcompose ih =>
    cases hf
    exact compose_neverShort _ _ _ hcompose

theorem nameSlots_neverShort (slots : List (Option Constant)) (ledger : Ledger) :
    NeverShort (pool.nameSlots slots ledger) := by
  intro f hf
  fun_induction nameSlots pool slots ledger with
  | case1 => cases hf
  | case2 slots ledger ih => exact ih hf
  | case3 c slots ledger f' hentry =>
    cases hf
    exact nameEntry_neverShort _ _ _ f' hentry
  | case4 c slots ledger s mid hentry ih => exact ih hf

theorem resolve_neverShort (pool : Pool) : NeverShort pool.resolve :=
  (nameSlots_neverShort _ _).bind fun _ _ => .ok _

end Pool

/-! ## Single values -/

section

variable {phase : Phase}

namespace Window

theorem take_plain {n : Int} (hn : 0 ≤ n) : Plain phase (take n) := by
  refine fun w _ => ⟨fun bs v h => ⟨bs, (take_eq_ok.1 h).2⟩, fun f hf _ => ?_⟩
  have hlacks : ¬ (0 ≤ n ∧ w.holds n.toNat = true) := by
    intro hholds
    unfold take at hf
    rw [if_pos hholds] at hf
    cases hf
  have hshort : ¬ n.toNat ≤ w.remaining := fun hle => hlacks ⟨hn, (holds_iff w _).2 hle⟩
  exact ⟨w, n, ⟨[], after_nil.2 rfl⟩, by omega, if_neg hlacks⟩

theorem refuse_plain {cause : Cause} (h : cause.kind ≠ .endOfInput) :
    Plain phase (refuse cause : Reading α) := by
  refine fun w _ => ⟨fun a v hv => ?_, fun f hf hkind => ?_⟩
  · cases hv
  · cases hf
    exact absurd hkind h

theorem unsigned_plain (width : Int) : Plain phase (unsigned width) := by
  unfold unsigned
  split
  · exact (take_plain (by omega)).bind fun _ => .pure _
  · exact refuse_plain (by decide)

theorem signedBits_plain (width : Int) : Plain phase (signedBits width) := by
  unfold signedBits
  split
  · exact unsigned_plain width
  · exact refuse_plain (by decide)

theorem child_plain {n : Int} (hn : 0 ≤ n) : Plain phase (child n) :=
  (take_plain hn).place (fun w bs => { w with rest := bs }) fun _ => rfl

/-- Padding to a multiple of four is never negative, wherever it is counted from: the remainder is
between -3 and 3, so that four minus it does not wrap. -/
theorem paddingFrom_four_nonneg (pos base : Int) : 0 ≤ paddingFrom pos base 4 := by
  have hlow := Int.lt_tmod_of_pos (wrap64 (pos - base)) (show (0 : Int) < 4 by decide)
  have hhigh := Int.tmod_lt_of_pos (wrap64 (pos - base)) (show (0 : Int) < 4 by decide)
  unfold paddingFrom
  generalize (wrap64 (pos - base)).tmod 4 = r at hlow hhigh ⊢
  have hsmall : wrap64 (4 - r) = 4 - r := by
    apply Int.bmod_eq_of_le_mul_two
    · simp only [Nat.pow_eq]
      omega
    · simp only [Nat.pow_eq]
      omega
  rw [hsmall]
  exact Int.tmod_nonneg _ (by omega)

theorem align_plain (base : Int) : Plain phase (align base 4) := by
  intro w hw
  have hskip : Plain phase (skip (paddingFrom w.pos base 4)) :=
    (take_plain (paddingFrom_four_nonneg _ _)).bind fun _ => .pure _
  exact (hskip w hw).place (fun _ => (paddingFrom w.pos base 4).toNat) rfl

end Window

namespace Datum

theorem unsigned_plain (width : Int) (kind : OperandKind) : Plain phase (unsigned width kind) :=
  (Window.unsigned_plain width).place (fun w raw => Datum.mk w.pos width.toNat raw
    (Window.twosComplement 64 raw) kind "" "") fun _ => rfl

theorem signed_plain (width : Int) (kind : OperandKind) : Plain phase (signed width kind) :=
  (Window.signedBits_plain width).place (fun w raw => Datum.mk w.pos width.toNat raw
    (Window.twosComplement (8 * width.toNat) raw) kind "" "") fun _ => rfl

theorem u2_plain : Plain phase u2 := unsigned_plain 2 _

theorem hex_plain (width : Int) : Plain phase (hex width) :=
  (unsigned_plain width _).bind fun _ => .pure _

theorem text_plain {n : Int} (hn : 0 ≤ n) : Plain phase (text n) :=
  ((Window.take_plain hn).bind fun bs => .pure (Text.Modified.decode bs)).place
    (fun w s => Datum.mk w.pos n.toNat 0 0 .structural s s) fun _ => rfl

theorem align_plain (base : Int) : Plain phase (align base 4) :=
  (Window.align_plain base).place
    (fun w pad => Datum.mk w.pos pad 0 pad .padding "" "") fun _ => rfl

end Datum

/-! ## Constants -/

theorem Payload.read_plain (tag : Tag) : Plain phase (read tag) := by
  cases tag with
  | utf8 =>
    intro w hw
    dsimp only [read, steps, Stepping.reading]
    refine (Datum.u2_plain w hw).bind fun length v hv => ?_
    obtain ⟨n, hn, hafter, rfl⟩ := (Datum.u2_reads _ _ _).1 hv
    have hlength : (0 : Int) ≤ (Datum.wordAt w.pos n).num := by
      rw [Datum.num_wordAt _ hn]
      exact Int.natCast_nonneg n
    exact ((Datum.text_plain hlength).bind fun _ => .pure _) v (hafter.phase.trans hw)
  | integer => exact (Datum.signed_plain _ _).bind fun _ => .pure _
  | float | long | double => exact (Datum.unsigned_plain _ _).bind fun _ => .pure _
  | methodHandle =>
    exact (Datum.unsigned_plain _ _).bind fun _ => Datum.u2_plain.bind fun _ => .pure _
  | classInfo | string | methodType | moduleInfo | packageInfo =>
    exact Datum.u2_plain.bind fun _ => .pure _
  | fieldref | methodref | interfaceMethodref | nameAndType | dynamic | invokeDynamic =>
    exact Datum.u2_plain.bind fun _ => Datum.u2_plain.bind fun _ => .pure _

theorem Constant.read_plain (index : Nat) : Plain phase (read index) := by
  have htag : Plain phase readTag := by
    refine (Datum.unsigned_plain _ _).bind fun d => ?_
    split
    · exact .pure _
    · exact .throw (show Kind.unknownTag ≠ .endOfInput by decide)
  exact htag.bind fun r => (Payload.read_plain r.2).bind fun _ => .pure _

theorem Pool.readReference_plain (pool : Pool) : Plain phase pool.readReference :=
  Datum.u2_plain.bind fun d => .settled (refer_neverShort d)

theorem Pool.readOptional_plain (pool : Pool) (absent : String) :
    Plain phase (pool.readOptional absent) :=
  Datum.u2_plain.bind fun d => .settled (referOptional_neverShort absent d)

/-! ## Instructions -/

namespace Disassembly

variable {pool : Pool}

theorem nameOperand_neverShort (pc : Nat) (d : Datum) : NeverShort (nameOperand pool pc d) := by
  unfold nameOperand
  split
  case h_3 | h_4 => exact (Pool.lookup_neverShort _ _).bind fun _ _ => .ok _
  case h_7 =>
    split
    · exact .ok _
    · exact NeverShort.error .invalidData (by decide) rfl
  all_goals exact .ok _

theorem operand_plain (pc : Nat) (kind : OperandKind) : Plain phase (operand pool pc kind) := by
  have hword : Plain phase (word kind) := by
    unfold word
    split
    · exact Datum.signed_plain _ _
    · exact Datum.unsigned_plain _ _
  exact hword.bind fun d => .settled (nameOperand_neverShort pc d)

theorem operands_plain (pc : Nat) (kinds : List OperandKind) :
    Plain phase (operands pool pc kinds) := by
  induction kinds with
  | nil => exact .pure []
  | cons kind kinds ih => exact (operand_plain pc kind).bind fun _ => ih.bind fun _ => .pure _

theorem wideTail_plain (pc : Nat) : Plain phase (wideTail pool pc) := by
  refine (Datum.unsigned_plain _ _).bind fun d => ?_
  dsimp only
  split
  · exact (operands_plain pc _).bind fun _ => .pure _
  · exact .throw (show Kind.unknownOpcode ≠ .endOfInput by decide)

/-- A table that does not fit is missed where it would start. -/
theorem ensureTable_plain (count : Int) (size : Nat) :
    Plain .disassemble (ensureTable count size) := by
  refine fun w hw => ⟨fun u v h => ?_, fun f hf _ => ?_⟩
  · obtain ⟨-, rfl⟩ := ensureTable_eq_ok.1 h
    exact ⟨[], Window.after_nil.2 rfl⟩
  · have hlacks : ¬ w.holds (count * size).toNat = true := by
      intro hholds
      simp only [ensureTable, if_pos hholds] at hf
      cases hf
    have hshort : ¬ (count * size).toNat ≤ w.remaining :=
      fun hle => hlacks ((Window.holds_iff w _).2 hle)
    refine ⟨w, count * size, ⟨[], Window.after_nil.2 rfl⟩, by omega, ?_⟩
    simp only [ensureTable, if_neg hlacks, Window.endOfInput, hw]

theorem switchHead_plain (base pc : Nat) : Plain phase (switchHead pool base pc) :=
  (Datum.align_plain base).bind fun _ => (operand_plain pc _).bind fun _ => .pure _

theorem rangeTargets_plain (pc : Nat) (low high : Datum) :
    Plain .disassemble (rangeTargets ensureTable pool pc low high) := by
  unfold rangeTargets
  split
  · exact .throw (show Kind.invalidData ≠ .endOfInput by decide)
  · exact (ensureTable_plain _ 4).bind fun _ => .repeated (fun _ => operand_plain pc _) _

theorem switchPairs_plain (pc : Nat) (count : Datum) :
    Plain .disassemble (switchPairs ensureTable pool pc count) := by
  have hpair : Plain .disassemble (switchPair pool pc) :=
    (operand_plain pc _).bind fun _ => (operand_plain pc _).bind fun _ => .pure _
  unfold switchPairs
  split
  · exact .throw (show Kind.invalidData ≠ .endOfInput by decide)
  · exact (ensureTable_plain _ 8).bind fun _ => .repeated (fun _ => hpair) _

theorem tail_plain (base pc : Nat) (code : UInt8) :
    Plain .disassemble (tail ensureTable pool base pc code) := by
  unfold tail
  split
  · exact (switchHead_plain base pc).bind fun _ => (operand_plain pc _).bind fun low =>
      (operand_plain pc _).bind fun high => (rangeTargets_plain pc low high).bind fun _ => .pure _
  · split
    · exact (switchHead_plain base pc).bind fun _ => (operand_plain pc _).bind fun count =>
        (switchPairs_plain pc count).bind fun _ => .pure _
    · split
      · exact wideTail_plain pc
      · exact (operands_plain pc _).bind fun _ => .pure _

theorem instruction_plain (pool : Pool) (base : Nat) :
    Plain .disassemble (instruction ensureTable pool base) := by
  refine (Datum.unsigned_plain _ _).bind fun d => ?_
  dsimp only
  split
  · exact .throw (show Kind.unknownOpcode ≠ .endOfInput by decide)
  · exact (tail_plain base _ _).bind fun _ => Plain.get.bind fun _ => .pure _

end Disassembly

/-! ## Bodies of attributes -/

namespace Body

variable {pool : Pool}

theorem readRows_plain {row : Reading α} (h : Plain phase row) (make : Datum → List α → Body) :
    Plain phase (readRows row make) :=
  Datum.u2_plain.bind fun _ => (Plain.repeated (fun _ => h) _).bind fun _ => .pure _

theorem nestedClass_plain : Plain phase (nestedClass pool) :=
  pool.readReference_plain.bind fun _ => (pool.readOptional_plain "").bind fun _ =>
    (pool.readOptional_plain "").bind fun _ => Datum.u2_plain.bind fun _ => .pure _

theorem bootstrapMethod_plain : Plain phase (bootstrapMethod pool) :=
  pool.readReference_plain.bind fun _ => Datum.u2_plain.bind fun _ =>
    (Plain.repeated (fun _ => pool.readReference_plain) _).bind fun _ => .pure _

theorem lineEntry_plain : Plain phase lineEntry :=
  Datum.u2_plain.bind fun _ => Datum.u2_plain.bind fun _ => .pure _

theorem localVariable_plain : Plain phase (localVariable pool) :=
  Datum.u2_plain.bind fun _ => Datum.u2_plain.bind fun _ => Datum.u2_plain.bind fun name =>
    Datum.u2_plain.bind fun descriptor => Datum.u2_plain.bind fun _ =>
      (Plain.settled (Pool.referText_neverShort name)).bind fun _ =>
        (Plain.settled (Pool.referText_neverShort descriptor)).bind fun _ => .pure _

theorem reader?_plain {name : String} {reader : Reading Body} (h : reader? pool name = some reader) :
    Plain phase reader := by
  unfold reader? at h
  split at h
  case h_1 | h_2 | h_3 | h_4 =>
    cases h
    exact pool.readReference_plain.bind fun _ => .pure _
  case h_5 | h_6 | h_7 =>
    cases h
    exact readRows_plain pool.readReference_plain _
  case h_8 =>
    cases h
    exact readRows_plain nestedClass_plain _
  case h_9 =>
    cases h
    exact readRows_plain bootstrapMethod_plain _
  case h_10 =>
    cases h
    exact readRows_plain lineEntry_plain _
  case h_11 =>
    cases h
    exact readRows_plain localVariable_plain _
  case h_12 | h_13 =>
    cases h
    exact .pure _
  case h_14 => cases h

end Body

theorem Handler.read_plain (pool : Pool) (row : Nat) : Plain phase (read pool row) :=
  Datum.u2_plain.bind fun _ => Datum.u2_plain.bind fun _ => Datum.u2_plain.bind fun _ =>
    Datum.u2_plain.bind fun d =>
      (Plain.within_settled (Pool.referOptional_neverShort "any" d) _).bind fun _ => .pure _

end

end ClassAtlas
