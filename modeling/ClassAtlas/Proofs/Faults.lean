import ClassAtlas.Proofs.Ledger

/-! # Faults and where they are

Reading and naming constants fails for a few reasons only, and each fault has an offset within the
file, but for malformed descriptors, which stand in no particular place. A step is safe when its faults
are such faults and it never reaches past the end of the file; steps made from safe steps are safe.

* `Fault.Placed ks N f`: bytes are missing or the fault has one of the kinds `ks`, and it has an offset
  up to `N` unless it is a malformed descriptor.
* `Fault.Located ks N f`: the same, with a path.
* `Fails E r`: the fault of a result satisfies `E`.
* `Safe N E step P`: from a window that ends by `N`, the faults of the step satisfy `E`, and its values
  `P`.
* `Pool.read_safe`, `Pool.resolve_fails`: the faults of the pool.
-/

namespace ClassAtlas
set_option autoImplicit false

variable {α β : Type}

/-! ## Faults -/

namespace Fault

/-- Bytes are missing, or the fault has one of the kinds. A malformed descriptor has no offset; any other
fault has one in the first `N` bytes or just after them. -/
structure Placed (ks : List Kind) (N : Nat) (f : Fault) : Prop where
  kind_mem : f.kind ∈ Kind.endOfInput :: ks
  unplaced : f.offset = -1 ↔ f.kind = .malformedDescriptor
  bounds : f.offset ≠ -1 → 0 ≤ f.offset ∧ f.offset ≤ N

/-- A placed fault that tells the part it is in. -/
def Located (ks : List Kind) (N : Nat) (f : Fault) : Prop :=
  f.Placed ks N ∧ f.path ≠ []

theorem Placed.mono {ks ls : List Kind} {N : Nat} {f : Fault} (h : f.Placed ks N) (hle : ks ⊆ ls) :
    f.Placed ls N :=
  ⟨List.cons_subset_cons _ hle h.kind_mem, h.unplaced, h.bounds⟩

/-- Seen from the part around it, the fault tells that part. -/
theorem Placed.within {ks : List Kind} {N : Nat} {f : Fault} (h : f.Placed ks N) (segment : String) :
    (f.within segment).Located ks N :=
  ⟨⟨h.kind_mem, h.unplaced, h.bounds⟩, List.cons_ne_nil _ _⟩

/-- A fault that stands somewhere is no malformed descriptor. -/
theorem placed_at {ks : List Kind} {N n : Nat} {f : Fault} (kind : Kind)
    (hks : kind ∈ Kind.endOfInput :: ks ∧ kind ≠ .malformedDescriptor) (hn : n ≤ N)
    (hkind : f.kind = kind) (hoffset : f.offset = n) : f.Placed ks N := by
  subst hkind
  refine ⟨hks.1, ⟨fun h => ?_, fun h => absurd h hks.2⟩, fun _ => ?_⟩
  · omega
  · omega

/-- The kinds of faults while constants are named. -/
def ofNaming : List Kind :=
  [.danglingReference, .malformedDescriptor, .invalidData]

/-- The kinds of faults of a file that is not too short. -/
def ofReading : List Kind :=
  [.unknownTag, .danglingReference, .unknownOpcode, .malformedDescriptor, .invalidData]

theorem ofNaming_subset : ofNaming ⊆ ofReading := by decide

end Fault

/-- The fault of the result, if there is one, satisfies `E`. -/
def Fails (E : Fault → Prop) (r : Except Fault α) : Prop :=
  ∀ f, r = .error f → E f

namespace Fails

variable {E : Fault → Prop}

theorem ok (a : α) : Fails E (.ok a : Except Fault α) :=
  fun _ h => nomatch h

theorem error {f : Fault} (h : E f) : Fails E (.error f : Except Fault α) := by
  intro f' hf
  cases hf
  exact h

theorem bind {r : Except Fault α} {k : α → Except Fault β} (hr : Fails E r)
    (hk : ∀ a, r = .ok a → Fails E (k a)) : Fails E (r >>= k) := by
  cases r with
  | error f => exact error (hr f rfl)
  | ok a => exact hk a rfl

theorem map {r : Except Fault α} (hr : Fails E r) (g : α → β) : Fails E (r.map g) := by
  cases r with
  | error f => exact error (hr f rfl)
  | ok a => exact ok (g a)

theorem mono {E' : Fault → Prop} {r : Except Fault α} (hr : Fails E r) (h : ∀ f, E f → E' f) :
    Fails E' r :=
  fun f hf => h f (hr f hf)

theorem mapError {E' : Fault → Prop} {r : Except Fault α} {g : Fault → Fault} (hr : Fails E r)
    (h : ∀ f, E f → E' (g f)) : Fails E' (r.mapError g) := by
  cases r with
  | error f => exact error (h f (hr f rfl))
  | ok a => exact ok a

end Fails

/-! ## References and names -/

section

variable {N : Nat}

theorem Descriptor.declaration_fails (desc name : String) :
    Fails (Fault.Placed Fault.ofNaming N) (declaration desc name) := by
  intro f h
  simp only [declaration] at h
  cases hr : format (Text.encode desc) (Text.encode name) with
  | ok r =>
    rw [hr] at h
    cases h
  | error d =>
    rw [hr] at h
    cases h
    have hkind : Kind.malformedDescriptor ∈ Kind.endOfInput :: Fault.ofNaming := by decide
    exact ⟨hkind, ⟨fun _ => rfl, fun _ => rfl⟩, fun hne => absurd rfl hne⟩

/-- The tag and the references of the constant stand in the first `N` bytes. -/
def Constant.Within (N : Nat) (c : Constant) : Prop :=
  c.tag.offset ≤ N ∧ ∀ d ∈ c.references, d.offset ≤ N

namespace Pool

/-- The constants of the pool stand in the first `N` bytes. -/
def Within (N : Nat) (pool : Pool) : Prop :=
  ∀ c ∈ pool.constants, c.Within N

variable {pool : Pool}

theorem mem_constants {i : Int} {c : Constant} (h : pool.entry? i = some c) :
    c ∈ pool.constants := by
  have hslot := (entry?_eq_some.1 h).2
  rw [← Array.getElem?_toList] at hslot
  exact List.mem_filterMap.2 ⟨some c, List.mem_of_getElem? hslot, rfl⟩

theorem Within.references (h : pool.Within N) {i offset : Int} {c : Constant}
    (hc : pool.lookup i offset = .ok c) : ∀ d ∈ c.references, d.offset ≤ N :=
  (h c (mem_constants (lookup_eq_ok.1 hc))).2

theorem lookup_fails {i : Int} {n : Nat} (hn : n ≤ N) :
    Fails (Fault.Placed Fault.ofNaming N) (pool.lookup i n) := by
  unfold lookup
  cases pool.entry? i with
  | some c => exact .ok c
  | none => exact .error (Fault.placed_at .danglingReference (by decide) hn rfl rfl)

theorem textOf_fails {d : Datum} (hd : d.offset ≤ N) :
    Fails (Fault.Placed Fault.ofNaming N) (pool.textOf d) := by
  refine (lookup_fails hd).bind fun c _ => ?_
  cases c.payload with
  | utf8 length bytes => exact .ok _
  | _ => exact .error (Fault.placed_at .invalidData (by decide) hd rfl rfl)

theorem refer_fails {d : Datum} (hd : d.offset ≤ N) :
    Fails (Fault.Placed Fault.ofNaming N) (pool.refer d) :=
  (lookup_fails hd).bind fun _ _ => .ok _

theorem referOptional_fails {absent : String} {d : Datum} (hd : d.offset ≤ N) :
    Fails (Fault.Placed Fault.ofNaming N) (pool.referOptional absent d) := by
  unfold referOptional
  split
  · exact .ok _
  · exact refer_fails hd

theorem referText_fails {d : Datum} (hd : d.offset ≤ N) :
    Fails (Fault.Placed Fault.ofNaming N) (pool.referText d) :=
  (textOf_fails hd).bind fun _ _ => .ok _

theorem memberName_fails (h : pool.Within N) (owner : String) {d : Datum} (hd : d.offset ≤ N) :
    Fails (Fault.Placed Fault.ofNaming N) (pool.memberName owner d) := by
  refine Fails.bind ?_ fun r _ => Descriptor.declaration_fails _ _
  refine (lookup_fails hd).bind fun c hc => ?_
  have hrefs := h.references hc
  cases hp : c.payload with
  | nameAndType name descriptor =>
    rw [Constant.references, hp] at hrefs
    exact (textOf_fails (hrefs name (.head _))).bind fun _ _ =>
      (textOf_fails (hrefs descriptor (.tail _ (.head _)))).bind fun _ _ => .ok _
  | _ => exact .error (Fault.placed_at .invalidData (by decide) hd rfl rfl)

theorem compose_fails (h : pool.Within N) (basis : String) {p : Payload}
    (hp : ∀ d ∈ p.references, d.offset ≤ N) :
    Fails (Fault.Placed Fault.ofNaming N) (pool.compose basis p) := by
  cases p with
  | classInfo d => exact (textOf_fails (hp d (.head _))).map _
  | string d | moduleInfo d | packageInfo d => exact textOf_fails (hp d (.head _))
  | nameAndType name descriptor =>
    exact (textOf_fails (hp name (.head _))).bind fun _ _ =>
      (textOf_fails (hp descriptor (.tail _ (.head _)))).bind fun _ _ =>
        Descriptor.declaration_fails _ _
  | methodType d =>
    exact (textOf_fails (hp d (.head _))).bind fun _ _ => Descriptor.declaration_fails _ _
  | fieldref owner d | methodref owner d | interfaceMethodref owner d =>
    exact memberName_fails h basis (hp d (.tail _ (.head _)))
  | _ => exact .ok _

theorem basis_mem_references {p : Payload} {d : Datum} (h : p.basis? = some d) :
    d ∈ p.references := by
  cases p <;> cases h <;> simp [Payload.references]

/-- The basis of an entry is one of its references, so that the offset of its fault is bounded too. -/
theorem nameEntry_fails (h : pool.Within N) {i offset : Int} {ledger : Ledger}
    (hoffset : ∃ n : Nat, offset = n ∧ n ≤ N) :
    Fails (Fault.Placed Fault.ofNaming N) (pool.nameEntry i offset ledger) := by
  intro f hf
  fun_induction nameEntry pool i offset ledger with
  | case2 | case5 | case8 => cases hf
  | case1 i offset ledger f' hlookup =>
    obtain ⟨n, rfl, hn⟩ := hoffset
    cases hf
    exact lookup_fails hn _ hlookup
  | case3 i offset ledger c hc hmark =>
    obtain ⟨n, rfl, hn⟩ := hoffset
    cases hf
    exact Fault.placed_at .invalidData (by decide) hn rfl rfl
  | case4 i offset ledger c hc hmark hbasis f' hcompose =>
    cases hf
    exact compose_fails h _ (h.references hc) _ hcompose
  | case6 i offset ledger c hc hmark d hbasis f' hrec ih =>
    cases hf
    exact ih ⟨d.offset, rfl, h.references hc d (basis_mem_references hbasis)⟩ hrec
  | case7 i offset ledger c hc hmark d hbasis basis mid hrec f' hcompose ih =>
    cases hf
    exact compose_fails h _ (h.references hc) _ hcompose

theorem nameSlots_fails (h : pool.Within N) {slots : List (Option Constant)} {ledger : Ledger}
    (hslots : ∀ c, some c ∈ slots → c ∈ pool.constants) :
    Fails (Fault.Placed Fault.ofNaming N) (pool.nameSlots slots ledger) := by
  intro f hf
  fun_induction nameSlots pool slots ledger with
  | case1 => cases hf
  | case2 slots ledger ih => exact ih (fun c hc => hslots c (.tail _ hc)) hf
  | case3 c slots ledger f' hentry =>
    cases hf
    have hoffset := (h c (hslots c (.head _))).1
    exact ((nameEntry_fails h ⟨c.tag.offset, rfl, hoffset⟩ _ hentry).within _).1
  | case4 c slots ledger s mid hentry ih => exact ih (fun c hc => hslots c (.tail _ hc)) hf

theorem resolve_fails (h : pool.Within N) :
    Fails (Fault.Placed Fault.ofNaming N) pool.resolve := by
  refine (nameSlots_fails h fun c hc => ?_).bind fun _ _ => .ok _
  exact List.mem_filterMap.2 ⟨some c, hc, rfl⟩

end Pool

end

/-! ## Safe steps -/

/-- From a window that ends by `N`, the faults of the step satisfy `E`; a value that it gives satisfies
`P`, and the window after it ends by `N` too. -/
def Safe (N : Nat) (E : Fault → Prop) (step : Reading α) (P : α → Prop) : Prop :=
  ∀ w, w.stop ≤ N → Fails E (step w) ∧ ∀ a v, step w = .ok (a, v) → v.stop ≤ N ∧ P a

/-- The faults of the step stand in the first `N` bytes or just after them. -/
abbrev Tame (N : Nat) (step : Reading α) (P : α → Prop) : Prop :=
  Safe N (Fault.Placed Fault.ofReading N) step P

/-- The faults of the step also tell the part they are in. -/
abbrev Tracked (N : Nat) (step : Reading α) (P : α → Prop) : Prop :=
  Safe N (Fault.Located Fault.ofReading N) step P

namespace Safe

variable {N : Nat} {E : Fault → Prop} {P : α → Prop} {Q : β → Prop} {step : Reading α}

theorem pure {a : α} (h : P a) : Safe N E (pure a) P := by
  intro w hw
  refine ⟨.ok _, fun b v hv => ?_⟩
  obtain ⟨rfl, rfl⟩ := Reading.pure_eq_ok.1 hv
  exact ⟨hw, h⟩

theorem throw {f : Fault} (h : E f) : Safe N E (throw f) P :=
  fun _ _ => ⟨.error h, fun _ _ hv => (Reading.throw_eq_ok.1 hv).elim⟩

theorem get : Safe N E get fun w : Window => w.stop ≤ N := by
  intro w hw
  refine ⟨.ok _, fun u v hv => ?_⟩
  obtain ⟨rfl, rfl⟩ := Reading.get_eq_ok.1 hv
  exact ⟨hw, hw⟩

theorem bind {k : α → Reading β} (h : Safe N E step P) (hk : ∀ a, P a → Safe N E (k a) Q) :
    Safe N E (step >>= k) Q := by
  intro w hw
  obtain ⟨hfails, hgives⟩ := h w hw
  refine ⟨hfails.bind fun r hr => ?_, fun b v hv => ?_⟩
  · obtain ⟨hstop, ha⟩ := hgives r.1 r.2 hr
    exact (hk r.1 ha r.2 hstop).1
  · obtain ⟨a, u, hu, hb⟩ := Reading.bind_eq_ok.1 hv
    obtain ⟨hstop, ha⟩ := hgives a u hu
    exact (hk a ha u hstop).2 b v hb

theorem settled {r : Except Fault α} (h : Fails E r) (hr : ∀ a, r = .ok a → P a) :
    Safe N E (settled r) P := by
  intro w hw
  refine ⟨h.map _, fun a v hv => ?_⟩
  obtain ⟨ha, rfl⟩ := Reading.settled_eq_ok.1 hv
  exact ⟨hw, hr a ha⟩

theorem mono {E' : Fault → Prop} {P' : α → Prop} (h : Safe N E step P) (hE : ∀ f, E f → E' f)
    (hP : ∀ a, P a → P' a) : Safe N E' step P' :=
  fun w hw => ⟨(h w hw).1.mono hE, fun a v hv => ((h w hw).2 a v hv).imp_right (hP a)⟩

theorem within {ks : List Kind} (h : Safe N (Fault.Placed ks N) step P) (segment : String) :
    Safe N (Fault.Located ks N) (within segment step) P := by
  intro w hw
  obtain ⟨hfails, hgives⟩ := h w hw
  refine ⟨hfails.mapError fun f hf => hf.within segment, fun a v hv => ?_⟩
  exact hgives a v (Reading.within_eq_ok.1 hv)

/-- A fault that tells the part it is in is placed all the same. -/
theorem placed {ks : List Kind} (h : Safe N (Fault.Located ks N) step P) :
    Safe N (Fault.Placed ks N) step P :=
  h.mono (fun _ hf => hf.1) fun _ ha => ha

theorem inPhase (h : Safe N E step P) (phase : Phase) : Safe N E (inPhase phase step) P := by
  intro w hw
  obtain ⟨hfails, hgives⟩ := h { w with phase := phase } hw
  refine ⟨hfails.map _, fun a v hv => ?_⟩
  obtain ⟨u, hu, rfl⟩ := Reading.inPhase_eq_ok.1 hv
  exact hgives a u hu

/-- The value may be told where it stands. -/
theorem place {step' : Reading β} (h : Safe N E step P) (g : Window → α → β)
    (heq : ∀ w, step' w = (step w).map fun r => (g w r.1, r.2))
    (hg : ∀ w a, w.stop ≤ N → Q (g w a)) : Safe N E step' Q := by
  intro w hw
  obtain ⟨hfails, hgives⟩ := h w hw
  rw [heq]
  refine ⟨hfails.map _, fun b v hv => ?_⟩
  obtain ⟨a, u, hu, hb⟩ := Reading.map_eq_ok.1 hv
  obtain ⟨rfl, rfl⟩ := Prod.mk.inj hb
  exact ⟨(hgives a u hu).1, hg w a hw⟩

theorem repeatedFrom {step : Nat → Reading α} (h : ∀ i, Safe N E (step i) P) (count : Nat) :
    ∀ first, Safe N E (repeatedFrom step first count) fun _ => True := by
  induction count with
  | zero => exact fun _ => pure trivial
  | succ count ih =>
    exact fun first => (h first).bind fun _ _ => (ih (first + 1)).bind fun _ _ => pure trivial

theorem repeated {step : Nat → Reading α} (h : ∀ i, Safe N E (step i) P) (count : Nat) :
    Safe N E (repeated count step) fun _ => True :=
  repeatedFrom h count 0

theorem onChild {child : Window} (hchild : child.stop ≤ N) (h : Safe N E step P) (phase : Phase) :
    Safe N E (onChild phase child step) fun r => P r.1 := by
  obtain ⟨hfails, hgives⟩ := h { child with phase := phase } hchild
  exact settled hfails fun r hr => (hgives r.1 r.2 hr).2

end Safe

/-! ## Single values

The only fault of a single value is that bytes are missing. -/

section

variable {N : Nat} {ks : List Kind}

theorem Window.endOfInput_placed {w : Window} (h : w.stop ≤ N) (need : Int) :
    (w.endOfInput need).Placed ks N := by
  refine Fault.placed_at .endOfInput ⟨.head _, by decide⟩ (n := w.pos) ?_ rfl rfl
  unfold stop at h
  omega

namespace Window

theorem take_safe (n : Int) : Safe N (Fault.Placed ks N) (take n) fun _ => True := by
  intro w hw
  refine ⟨fun f hf => ?_, fun bs v hv => ?_⟩
  · unfold take at hf
    split at hf
    · cases hf
    · cases hf
      exact endOfInput_placed hw n
  · obtain ⟨-, hafter⟩ := take_eq_ok.1 hv
    have hpos := hafter.pos
    have hremaining := hafter.remaining
    unfold stop at hw ⊢
    exact ⟨by omega, trivial⟩

theorem unsigned_safe {width : Nat} (hw : width = 1 ∨ width = 2 ∨ width = 4 ∨ width = 8) :
    Safe N (Fault.Placed ks N) (unsigned width) fun _ => True := by
  unfold unsigned
  rw [if_pos (by omega)]
  exact (take_safe width).bind fun _ _ => .pure trivial

theorem text_safe (n : Int) : Safe N (Fault.Placed ks N) (text n) fun _ => True :=
  (take_safe n).bind fun _ _ => .pure trivial

theorem skip_safe (n : Int) : Safe N (Fault.Placed ks N) (skip n) fun _ => True :=
  (take_safe n).bind fun _ _ => .pure trivial

theorem child_safe (n : Int) : Safe N (Fault.Placed ks N) (child n) fun c => c.stop ≤ N := by
  intro w hw
  obtain ⟨hfails, hgives⟩ := take_safe n w hw
  refine ⟨hfails.map _, fun c v hv => ?_⟩
  obtain ⟨bs, hn, hafter, rfl⟩ := child_eq_ok.1 hv
  have hremaining := hafter.remaining
  refine ⟨(hgives bs v (take_eq_ok.2 ⟨hn, hafter⟩)).1, ?_⟩
  simp only [stop, remaining] at hw hremaining ⊢
  omega

end Window

namespace Datum

/-- A word of a width that words have. -/
theorem unsigned_safe {width : Nat} (hw : width = 1 ∨ width = 2 ∨ width = 4 ∨ width = 8)
    (kind : OperandKind) :
    Safe N (Fault.Placed ks N) (unsigned width kind) fun d => d.offset ≤ N := by
  refine (Window.unsigned_safe hw).place (fun w raw => Datum.mk w.pos width raw
    (Window.twosComplement 64 raw) kind "" "") (fun _ => rfl) fun w raw hstop => ?_
  unfold Window.stop at hstop
  show w.pos ≤ N
  omega

theorem signed_safe {width : Nat} (hw : width = 1 ∨ width = 2 ∨ width = 4) (kind : OperandKind) :
    Safe N (Fault.Placed ks N) (signed width kind) fun d => d.offset ≤ N := by
  have hbits : Safe N (Fault.Placed ks N) (Window.signedBits width) fun _ => True := by
    rw [Window.signedBits_eq_unsigned hw]
    exact Window.unsigned_safe (by omega)
  refine hbits.place (fun w raw => Datum.mk w.pos width raw
    (Window.twosComplement (8 * width) raw) kind "" "") (fun _ => rfl) fun w raw hstop => ?_
  unfold Window.stop at hstop
  show w.pos ≤ N
  omega

theorem u1_safe : Safe N (Fault.Placed ks N) u1 fun d => d.offset ≤ N :=
  unsigned_safe (by decide) _

theorem u2_safe : Safe N (Fault.Placed ks N) u2 fun d => d.offset ≤ N :=
  unsigned_safe (by decide) _

theorem u4_safe : Safe N (Fault.Placed ks N) u4 fun d => d.offset ≤ N :=
  unsigned_safe (by decide) _

theorem hex_safe : Safe N (Fault.Placed ks N) (hex 4) fun _ => True :=
  u4_safe.bind fun _ _ => .pure trivial

theorem text_safe (n : Int) : Safe N (Fault.Placed ks N) (text n) fun _ => True :=
  (Window.text_safe n).place
    (fun w s => Datum.mk w.pos n.toNat 0 0 .structural s s) (fun _ => rfl) fun _ _ _ => trivial

theorem skip_safe (n : Int) : Safe N (Fault.Placed ks N) (skip n) fun _ => True :=
  (Window.skip_safe n).place
    (fun w _ => Datum.mk w.pos n.toNat 0 0 .structural "" "") (fun _ => rfl) fun _ _ _ => trivial

/-- Padding up to a multiple of four. -/
theorem align_safe (base : Nat) : Safe N (Fault.Placed ks N) (align base 4) fun _ => True := by
  have hpad : Safe N (Fault.Placed ks N) (Window.align base 4) fun _ => True := by
    intro w hw
    obtain ⟨hfails, hgives⟩ := Window.skip_safe (Window.paddingFrom w.pos base 4) w hw
    refine ⟨hfails.map _, fun pad v hv => ?_⟩
    obtain ⟨u, v', hskip, hpair⟩ := Reading.map_eq_ok.1 hv
    obtain ⟨-, rfl⟩ := Prod.mk.inj hpair
    exact hgives u v' hskip
  exact hpad.place (fun w pad => Datum.mk w.pos pad 0 pad .padding "" "") (fun _ => rfl)
    fun _ _ _ => trivial

end Datum

/-! ## Constants -/

/-- Every kind of constant has its fields, of which only bytes can be missing. -/
theorem Payload.read_safe (tag : Tag) :
    Safe N (Fault.Placed ks N) (read tag) fun p => ∀ d ∈ p.references, d.offset ≤ N := by
  have hone : ∀ make : Datum → Payload, (∀ a, (make a).references = [a]) →
      Safe N (Fault.Placed ks N) (oneStep .reading make) fun p => ∀ d ∈ p.references, d.offset ≤ N := by
    intro make hmake
    refine Datum.u2_safe.bind fun a ha => .pure ?_
    simpa [hmake] using ha
  have htwo : ∀ make : Datum → Datum → Payload, (∀ a b, (make a b).references ⊆ [a, b]) →
      Safe N (Fault.Placed ks N) (twoSteps .reading make) fun p => ∀ d ∈ p.references, d.offset ≤ N := by
    intro make hmake
    refine Datum.u2_safe.bind fun a ha => Datum.u2_safe.bind fun b hb =>
      .pure fun d hd => ?_
    have hpair := hmake a b hd
    simp only [List.mem_cons, List.not_mem_nil, or_false] at hpair
    rcases hpair with rfl | rfl
    · exact ha
    · exact hb
  cases tag with
  | utf8 =>
    exact Datum.u2_safe.bind fun _ _ => (Datum.text_safe _).bind fun _ _ =>
      .pure (by simp [references])
  | integer =>
    exact (Datum.signed_safe (by decide) _).bind fun _ _ => .pure (by simp [references])
  | float | long | double =>
    exact (Datum.unsigned_safe (by decide) _).bind fun _ _ => .pure (by simp [references])
  | methodHandle =>
    exact Datum.u1_safe.bind fun _ _ => Datum.u2_safe.bind fun b hb =>
      .pure (by simpa [references] using hb)
  | classInfo | string | methodType | moduleInfo | packageInfo => exact hone _ fun _ => rfl
  | fieldref | methodref | interfaceMethodref | nameAndType | dynamic | invokeDynamic =>
    exact htwo _ fun _ _ => by simp [references]

theorem Constant.read_safe (index : Nat) :
    Tame N (read index) (Within N) := by
  have htag : Tame N readTag fun r => r.1.offset ≤ N := by
    refine Datum.u1_safe.bind fun d hd => ?_
    cases Tag.ofCode? d.raw.toUInt8 with
    | none => exact .throw (Fault.placed_at .unknownTag (by decide) hd rfl rfl)
    | some tag => exact .pure hd
  exact htag.bind fun r hr => (Payload.read_safe r.2).bind fun p hp => .pure ⟨hr, hp⟩

theorem Pool.readSlots_safe (count : Nat) : ∀ index,
    Tracked N (readSlots index count)
      fun slots => ∀ c, some c ∈ slots → c.Within N := by
  induction count using Nat.strongRecOn with
  | _ count ih =>
    intro index
    cases count with
    | zero => exact .pure (by simp)
    | succ count =>
      unfold readSlots slotSteps
      refine ((Constant.read_safe index).within _).bind fun c hc => ?_
      split
      · split
        · exact .pure (by simpa using hc)
        · rename_i count
          exact (ih count (by omega) (index + 2)).bind fun slots hslots =>
            .pure (by simpa [hc] using hslots)
      · exact (ih count (by omega) (index + 1)).bind fun slots hslots =>
          .pure (by simpa [hc] using hslots)

theorem Pool.read_safe :
    Tracked N read (Within N) := by
  refine Safe.inPhase ((Datum.u2_safe.within _).bind fun count _ => ?_) _
  split
  · exact .pure (by simp [Within, constants])
  · refine (readSlots_safe _ 1).bind fun slots hslots => .pure fun c hc => ?_
    obtain ⟨slot, hslot, rfl⟩ := List.mem_filterMap.1 hc
    exact hslots c (by simpa using hslot)

theorem Fails.tame {r : Except Fault α} (h : Fails (Fault.Placed Fault.ofNaming N) r) :
    Tame N (settled r) fun _ => True :=
  .settled (h.mono fun _ hf => hf.mono Fault.ofNaming_subset) fun _ _ => trivial

theorem Pool.readReference_safe (pool : Pool) : Tame N pool.readReference fun _ => True :=
  Datum.u2_safe.bind fun _ hd => (refer_fails hd).tame

theorem Pool.readOptional_safe (pool : Pool) (absent : String) :
    Tame N (pool.readOptional absent) fun _ => True :=
  Datum.u2_safe.bind fun _ hd => (referOptional_fails hd).tame

end

end ClassAtlas
