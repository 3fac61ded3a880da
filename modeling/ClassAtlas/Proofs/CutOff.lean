import ClassAtlas.Proofs.Sizes
import ClassAtlas.Proofs.Whereabouts

/-! # Where decoding runs out of bytes

A class file is read part by part, so whatever is missing is missing after some parts that were read.
The places of a class file are the values of its own, the count and the entries of the pool, the
interfaces, the heads of members, and the places in the attributes of members and of the class. Decoding
fails for want of bytes at one of them, and the phase, the path and the indices of the fault agree with
it.

* `Parts.Reaches`: a reading in parts comes as far as one of them.
* `ClassFile.Left`: so does the reading of a class file after its pool.
* `ClassFile.Place`: the places, with `path`, `phase`, `inPool`, `inBody` and `pc?`.
* `ClassFile.Dry bytes place v need`: the parts before the place are read, and at `v` there are fewer than
  `need` bytes.
* `ClassFile.read_cut_off`: reading is cut off at a place.
* `ClassFile.decode_cut_off`: what the fault says about the place.
-/

namespace ClassAtlas
set_option autoImplicit false

open Reading

variable {α β : Type}

/-! ## The pool -/

namespace Pool

theorem readSlots_narrow {index count : Nat} {w u v : Window} {c : Constant}
    {slots : List (Option Constant)} (hc : Constant.read index w = .ok (c, u))
    (hnarrow : ¬ c.isWide = true) (hslots : readSlots (index + 1) count u = .ok (slots, v)) :
    readSlots index (count + 1) w = .ok (some c :: slots, v) := by
  unfold readSlots slotSteps
  refine bind_eq_ok.2 ⟨c, u, within_eq_ok.2 hc, ?_⟩
  rw [if_neg hnarrow]
  exact bind_eq_ok.2 ⟨slots, v, hslots, rfl⟩

theorem readSlots_wide {index count : Nat} {w u v : Window} {c : Constant}
    {slots : List (Option Constant)} (hc : Constant.read index w = .ok (c, u))
    (hwide : c.isWide = true) (hslots : readSlots (index + 2) count u = .ok (slots, v)) :
    readSlots index (count + 2) w = .ok (some c :: none :: slots, v) := by
  unfold readSlots slotSteps
  refine bind_eq_ok.2 ⟨c, u, within_eq_ok.2 hc, ?_⟩
  rw [if_pos hwide]
  exact bind_eq_ok.2 ⟨slots, v, hslots, rfl⟩

/-- Slots are cut off in an entry, after the entries before it. A wide entry takes two slots at once. -/
theorem readSlots_error (count : Nat) : ∀ {index : Nat} {w : Window} {f : Fault},
    readSlots index count w = .error f → ∃ k < count, ∃ slots v g,
      readSlots index k w = .ok (slots, v) ∧ Constant.read (index + k) v = .error g
        ∧ f = g.within ("#" ++ toString (index + k)) := by
  induction count using Nat.strongRecOn with
  | _ count ih =>
    intro index w f h
    cases count with
    | zero => exact (pure_eq_error.1 h).elim
    | succ count =>
      unfold readSlots slotSteps at h
      rcases bind_eq_error.1 h with hfirst | ⟨c, u, hc, h⟩
      · obtain ⟨g, hg, rfl⟩ := within_eq_error.1 hfirst
        exact ⟨0, Nat.succ_pos _, [], w, g, rfl, hg, rfl⟩
      have hc := within_eq_ok.1 hc
      by_cases hwide : c.isWide = true
      · rw [if_pos hwide] at h
        cases count with
        | zero => exact (pure_eq_error.1 h).elim
        | succ count =>
          obtain ⟨k, hk, slots, v, g, hslots, hg, rfl⟩ :=
            ih count (by omega) (bind_pure_eq_error.1 h)
          rw [show index + 2 + k = index + (k + 2) by omega] at hg ⊢
          exact ⟨k + 2, by omega, _, v, g, readSlots_wide hc hwide hslots, hg, rfl⟩
      · rw [if_neg hwide] at h
        obtain ⟨k, hk, slots, v, g, hslots, hg, rfl⟩ :=
          ih count (by omega) (bind_pure_eq_error.1 h)
        rw [show index + 1 + k = index + (k + 1) by omega] at hg ⊢
        exact ⟨k + 1, by omega, _, v, g, readSlots_narrow hc hwide hslots, hg, rfl⟩

end Pool

theorem Header.resolve_neverShort (h : Header) : NeverShort h.resolve := by
  intro f hf
  unfold Header.resolve at hf
  cases hpool : h.pool.resolve with
  | ok pool =>
    rw [hpool] at hf
    cases hf
  | error g =>
    rw [hpool] at hf
    cases hf
    exact h.pool.resolve_neverShort g hpool

/-! ## Readings in parts -/

/-- From `w` on, the parts of `p` before `q` are read, and `q` begins at `v`. -/
inductive Parts.Reaches (p : Parts β) (w : Window) : Parts β → Window → Prop
  | start : Reaches p w p w
  | named {γ : Type} {segment : String} {step : Reading γ} {rest : γ → Parts β} {u v : Window} {c : γ}
      (before : Reaches p w (.named segment step rest) u) (next : step u = .ok (c, v)) :
      Reaches p w (rest c) v
  | listed {γ : Type} {step : Reading γ} {rest : γ → Parts β} {u v : Window} {c : γ}
      (before : Reaches p w (.listed step rest) u) (next : step u = .ok (c, v)) :
      Reaches p w (rest c) v

/-! ## Places -/

namespace ClassFile

/-- A value of the class itself. -/
inductive Item where
  | magic
  | minorVersion
  | majorVersion
  | accessFlags
  | thisClass
  | superClass
  | interfacesCount
  | fieldsCount
  | methodsCount
  deriving DecidableEq

def Item.label : Item → String
  | magic => "magic"
  | minorVersion => "minor_version"
  | majorVersion => "major_version"
  | accessFlags => "access_flags"
  | thisClass => "this_class"
  | superClass => "super_class"
  | interfacesCount => "interfaces_count"
  | fieldsCount => "fields_count"
  | methodsCount => "methods_count"

inductive Part where
  | fields
  | methods
  deriving DecidableEq

namespace Part

def label : Part → String
  | fields => "fields"
  | methods => "methods"

def flags : Part → FlagTable
  | fields => .ofField
  | methods => .ofMethod

def count : Part → Item
  | fields => .fieldsCount
  | methods => .methodsCount

end Part

/-- A place in a class file where bytes can be missing. -/
inductive Place where
  | item (value : Item)
  | poolCount
  /-- The entry of the pool in slot `i`. -/
  | poolEntry (i : Nat)
  | interface (i : Nat)
  /-- The flags, the name or the descriptor of member `i`. -/
  | memberHead (part : Part) (i : Nat)
  /-- A place in the attributes of member `i`, which has this name. -/
  | inMember (part : Part) (i : Nat) (name : String) (inner : Attribute.Place)
  | inClass (inner : Attribute.Place)
  deriving DecidableEq

namespace Place

def path : Place → List String
  | item value => [value.label]
  | poolCount => ["constant_pool", "constant_pool_count"]
  | poolEntry i => ["constant_pool", "#" ++ toString i]
  | interface i => ["interfaces[" ++ toString i ++ "]"]
  | memberHead part i => [part.label ++ "[" ++ toString i ++ "]"]
  | inMember part i name inner => (part.label ++ "[" ++ toString i ++ "]") :: name :: inner.path
  | inClass inner => inner.path

def phase : Place → Phase
  | item _ | interface _ | memberHead .. => .decode
  | poolCount | poolEntry _ => .constantPool
  | inMember _ _ _ inner | inClass inner => inner.phase .decode

def inPool : Place → Bool
  | poolCount | poolEntry _ => true
  | _ => false

/-- The place is in the body of an interpreted attribute, at any depth. -/
def inBody : Place → Bool
  | inMember _ _ _ inner | inClass inner => inner.inBody
  | _ => false

/-- The instruction that the place is in, by its position in the code. -/
def pc? : Place → Option Nat
  | inMember _ _ _ inner | inClass inner => inner.pc?
  | _ => none

end Place

/-! ## The parts before a place -/

/-- The header of `bytes` is read, the names of its pool are those of `pool`, and of the parts after
the pool those before `q` are read, which leaves `w`. -/
def Left (bytes : List UInt8) (pool : Pool) (q : Parts ClassFile) (w : Window) : Prop :=
  ∃ h u, Header.read (Window.ofBytes bytes) = .ok (h, u) ∧ h.resolve = .ok pool
    ∧ (parts h pool).Reaches u q w

/-- The bytes of a class file run out at a place: the parts before it are read, and there a step wants
`need` bytes at `v`. -/
inductive Dry (bytes : List UInt8) : Place → Window → Int → Prop
  | header {γ : Type} {value : Item} {step : Reading γ} {rest : γ → Parts Header} {w v : Window}
      {need : Int}
      (before : Header.parts.Reaches (Window.ofBytes bytes) (.named value.label step rest) w)
      (dry : RunsDry step w v need) : Dry bytes (.item value) v need
  | poolCount {rest : Pool → Parts Header} {w v : Window} {need : Int}
      (before : Header.parts.Reaches (Window.ofBytes bytes) (.named "constant_pool" Pool.read rest) w)
      (dry : RunsDry Datum.u2 { w with phase := .constantPool } v need) :
      Dry bytes .poolCount v need
  | poolEntry {rest : Pool → Parts Header} {count : Datum} {k : Nat}
      {slots : List (Option Constant)} {w u u' v : Window} {need : Int}
      (before : Header.parts.Reaches (Window.ofBytes bytes) (.named "constant_pool" Pool.read rest) w)
      (counted : Datum.u2 { w with phase := .constantPool } = .ok (count, u))
      (more : 1 + k < count.num.toNat)
      (slots : Pool.readSlots 1 k u = .ok (slots, u')) (dry : RunsDry (Constant.read (1 + k)) u' v need) :
      Dry bytes (.poolEntry (1 + k)) v need
  | item {γ : Type} {value : Item} {pool : Pool} {step : Reading γ} {rest : γ → Parts ClassFile}
      {w v : Window} {need : Int} (before : Left bytes pool (.named value.label step rest) w)
      (dry : RunsDry step w v need) : Dry bytes (.item value) v need
  | interfacesCount {pool : Pool} {rest : Datum × List Datum → Parts ClassFile} {w v : Window}
      {need : Int} (before : Left bytes pool (.listed (readInterfaces pool) rest) w)
      (dry : RunsDry Datum.u2 w v need) : Dry bytes (.item .interfacesCount) v need
  | interface {pool : Pool} {rest : Datum × List Datum → Parts ClassFile} {i : Nat} {w u v : Window}
      {need : Int} (before : Left bytes pool (.listed (readInterfaces pool) rest) w)
      (following : Following pool.readReference i w u)
      (dry : RunsDry pool.readReference u v need) : Dry bytes (.interface i) v need
  | memberCount {part : Part} {pool : Pool} {rest : Datum × List Member → Parts ClassFile}
      {w v : Window} {need : Int}
      (before : Left bytes pool (.listed (Member.readList pool part.label part.flags) rest) w)
      (dry : RunsDry Datum.u2 w v need) : Dry bytes (.item part.count) v need
  | memberHead {part : Part} {pool : Pool} {rest : Datum × List Member → Parts ClassFile} {i : Nat}
      {w u v : Window} {need : Int}
      (before : Left bytes pool (.listed (Member.readList pool part.label part.flags) rest) w)
      (following : Following (Member.read pool part.flags) i w u)
      (dry : RunsDry (Member.readHead pool) u v need) : Dry bytes (.memberHead part i) v need
  | inMember {part : Part} {pool : Pool} {rest : Datum × List Member → Parts ClassFile} {i : Nat}
      {h : Member.Head} {inner : Attribute.Place} {w u list v : Window} {need : Int}
      (before : Left bytes pool (.listed (Member.readList pool part.label part.flags) rest) w)
      (following : Following (Member.read pool part.flags) i w u)
      (headed : Member.readHead pool u = .ok (h, list))
      (dry : Attribute.Dry pool inner list v need) :
      Dry bytes (.inMember part i h.name.name inner) v need
  | inClass {pool : Pool} {rest : Datum × List Attribute → Parts ClassFile} {inner : Attribute.Place}
      {w v : Window} {need : Int}
      (before : Left bytes pool (.listed (Attribute.readList pool) rest) w)
      (dry : Attribute.Dry pool inner w v need) : Dry bytes (.inClass inner) v need

/-- The fault is that of a place where the bytes of the file run out. -/
def CutOff (bytes : List UInt8) (f : Fault) : Prop :=
  ∃ place v need, Dry bytes place v need ∧ v.phase = place.phase
    ∧ f = { v.endOfInput need with path := place.path }

/-! ## From faults to places -/

variable {bytes : List UInt8} {pool : Pool} {w : Window} {f : Fault}

theorem cut_off_at (place : Place) {step : Reading α} {g : Fault} (hplain : Plain place.phase step)
    (hw : w.phase = place.phase) (hg : step w = .error g) (hkind : g.kind = .endOfInput)
    (hf : f = { g with path := place.path ++ g.path })
    (hdry : ∀ v need, RunsDry step w v need → Dry bytes place v need) : CutOff bytes f := by
  obtain ⟨v, need, hruns, hphase, rfl⟩ := hplain.cut_off hw hg hkind hf
  exact ⟨place, v, need, hdry v need hruns, hphase, rfl⟩

theorem Left.named {segment : String} {step : Reading α} {rest : α → Parts ClassFile} {u : Window}
    {a : α} (h : Left bytes pool (.named segment step rest) w) (hstep : step w = .ok (a, u)) :
    Left bytes pool (rest a) u := by
  obtain ⟨header, v, hread, hpool, hreaches⟩ := h
  exact ⟨header, v, hread, hpool, hreaches.named hstep⟩

theorem Left.listed {step : Reading α} {rest : α → Parts ClassFile} {u : Window} {a : α}
    (h : Left bytes pool (.listed step rest) w) (hstep : step w = .ok (a, u)) :
    Left bytes pool (rest a) u := by
  obtain ⟨header, v, hread, hpool, hreaches⟩ := h
  exact ⟨header, v, hread, hpool, hreaches.listed hstep⟩

theorem phase_of_delimits {step : Reading α} {u : Window} {a : α} (h : Delimits step)
    (hw : w.phase = .decode) (hstep : step w = .ok (a, u)) : u.phase = .decode := by
  obtain ⟨bs, hafter, -⟩ := h _ _ _ hstep
  exact hafter.phase.trans hw

/-- A value of the class is cut off at its place, or it is read and the parts after it fail. -/
theorem item_cut_off (value : Item) {step : Reading α} {rest : α → Parts β}
    (hplain : Plain .decode step) (hw : w.phase = .decode)
    (hdry : ∀ v need, RunsDry step w v need → Dry bytes (.item value) v need)
    (h : (Parts.named value.label step rest).read w = .error f) (hkind : f.kind = .endOfInput) :
    CutOff bytes f
      ∨ ∃ a u, step w = .ok (a, u) ∧ u.phase = .decode ∧ (rest a).read u = .error f := by
  rcases bind_eq_error.1 h with hstep | ⟨a, u, hstep, hrest⟩
  · obtain ⟨g, hg, rfl⟩ := within_eq_error.1 hstep
    exact .inl (cut_off_at (.item value) hplain hw hg hkind rfl hdry)
  · have hstep := within_eq_ok.1 hstep
    obtain ⟨bs, hafter⟩ := (hplain w hw).moves a u hstep
    exact .inr ⟨a, u, hstep, hafter.phase.trans hw, hrest⟩

theorem members_cut_off (part : Part) {rest : Datum × List Member → Parts ClassFile}
    (hw : Left bytes pool (.listed (Member.readList pool part.label part.flags) rest) w)
    (hphase : w.phase = .decode) (h : Member.readList pool part.label part.flags w = .error f)
    (hkind : f.kind = .endOfInput) : CutOff bytes f := by
  rcases counted_eq_error.1 h with ⟨g, hg, rfl⟩ | ⟨i, u, g, hfollowing, hg, rfl⟩
  · refine cut_off_at (.item part.count) Datum.u2_plain hphase hg hkind ?_ fun _ _ => .memberCount hw
    cases part <;> rfl
  obtain ⟨bs, hafter, -⟩ := hfollowing.after (Member.read_delimits pool _)
  have hu := hafter.phase.trans hphase
  rcases Member.read_eq_error.1 hg with hhead | ⟨head, list, e, hhead, hlist, rfl⟩
  · exact cut_off_at (.memberHead part i) (Member.readHead_plain pool) hu hhead hkind rfl
      fun _ _ => .memberHead hw hfollowing
  · obtain ⟨cs, hafter'⟩ := (Member.readHead_plain pool u hu).moves head list hhead
    obtain ⟨inner, v, need, hdry, hinner, rfl⟩ := Attribute.readList_cut_off pool list e hlist hkind
    refine ⟨.inMember part i head.name.name inner, v, need, .inMember hw hfollowing hhead hdry, ?_, rfl⟩
    rw [hinner, hafter'.phase, hu]
    rfl

theorem attributes_cut_off {rest : Datum × List Attribute → Parts ClassFile}
    (hw : Left bytes pool (.listed (Attribute.readList pool) rest) w) (hphase : w.phase = .decode)
    (h : Attribute.readList pool w = .error f) (hkind : f.kind = .endOfInput) : CutOff bytes f := by
  obtain ⟨inner, v, need, hdry, hinner, rfl⟩ := Attribute.readList_cut_off pool w f h hkind
  refine ⟨.inClass inner, v, need, .inClass hw hdry, ?_, rfl⟩
  rw [hinner, hphase]
  rfl

theorem pool_cut_off {rest : Pool → Parts Header}
    (hw : Header.parts.Reaches (Window.ofBytes bytes) (.named "constant_pool" Pool.read rest) w)
    (h : Pool.read w = .error f) (hkind : f.kind = .endOfInput) :
    CutOff bytes (f.within "constant_pool") := by
  rcases bind_eq_error.1 (inPhase_eq_error.1 h) with hcount | ⟨count, u, hcount, h⟩
  · obtain ⟨g, hg, rfl⟩ := within_eq_error.1 hcount
    exact cut_off_at .poolCount Datum.u2_plain rfl hg hkind rfl fun _ _ => .poolCount hw
  have hcount := within_eq_ok.1 hcount
  cases hn : count.num.toNat with
  | zero =>
    rw [hn] at h
    exact (pure_eq_error.1 h).elim
  | succ n =>
    rw [hn] at h
    obtain ⟨k, hk, slots, u', g, hbefore, hg, rfl⟩ :=
      Pool.readSlots_error n (bind_pure_eq_error.1 h)
    obtain ⟨bs, hafter⟩ := (Datum.u2_plain _ rfl).moves count u hcount
    obtain ⟨cs, hafter', -⟩ := Pool.readSlots_delimits k 1 _ _ _ hbefore
    refine cut_off_at (.poolEntry (1 + k)) (Constant.read_plain _) (hafter'.phase.trans hafter.phase)
      hg hkind rfl fun _ _ => .poolEntry hw hcount (by omega) hbefore

theorem interfaces_cut_off {rest : Datum × List Datum → Parts ClassFile}
    (hw : Left bytes pool (.listed (readInterfaces pool) rest) w) (hphase : w.phase = .decode)
    (h : readInterfaces pool w = .error f) (hkind : f.kind = .endOfInput) : CutOff bytes f := by
  rcases counted_eq_error.1 h with ⟨g, hg, rfl⟩ | ⟨i, u, g, hfollowing, hg, rfl⟩
  · exact cut_off_at (.item .interfacesCount) Datum.u2_plain hphase hg hkind rfl
      fun _ _ => .interfacesCount hw
  · obtain ⟨bs, hafter, -⟩ := hfollowing.after pool.readReference_delimits
    exact cut_off_at (.interface i) pool.readReference_plain (hafter.phase.trans hphase) hg hkind rfl
      fun _ _ => .interface hw hfollowing

theorem header_cut_off (h : Header.read (Window.ofBytes bytes) = .error f)
    (hkind : f.kind = .endOfInput) : CutOff bytes f := by
  have hw : Header.parts.Reaches (Window.ofBytes bytes) Header.parts (Window.ofBytes bytes) := .start
  rcases item_cut_off .magic (Datum.hex_plain 4) rfl (fun _ _ => .header hw) h hkind
    with hcut | ⟨magic, u, hmagic, hphase, h⟩
  · exact hcut
  have hw := hw.named hmagic
  rcases item_cut_off .minorVersion Datum.u2_plain hphase (fun _ _ => .header hw) h hkind
    with hcut | ⟨minor, u, hminor, hphase, h⟩
  · exact hcut
  have hw := hw.named hminor
  rcases item_cut_off .majorVersion Datum.u2_plain hphase (fun _ _ => .header hw) h hkind
    with hcut | ⟨major, u, hmajor, hphase, h⟩
  · exact hcut
  have hw := hw.named hmajor
  obtain ⟨g, hg, rfl⟩ := within_eq_error.1 (bind_pure_eq_error.1 h)
  exact pool_cut_off hw hg hkind

theorem readParts_cut_off {h : Header} (hread : Header.read (Window.ofBytes bytes) = .ok (h, w))
    (hpool : h.resolve = .ok pool) (hf : readParts h pool w = .error f)
    (hkind : f.kind = .endOfInput) : CutOff bytes f := by
  have hw : Left bytes pool (parts h pool) w := ⟨h, w, hread, hpool, .start⟩
  have hphase := phase_of_delimits Header.read_delimits rfl hread
  rcases item_cut_off .accessFlags Datum.u2_plain hphase (fun _ _ => .item hw) hf hkind
    with hcut | ⟨flags, u, hflags, hphase, hf⟩
  · exact hcut
  have hw := hw.named hflags
  rcases item_cut_off .thisClass pool.readReference_plain hphase (fun _ _ => .item hw) hf hkind
    with hcut | ⟨this, u, hthis, hphase, hf⟩
  · exact hcut
  have hw := hw.named hthis
  rcases item_cut_off .superClass (pool.readOptional_plain "") hphase (fun _ _ => .item hw) hf hkind
    with hcut | ⟨super, u, hsuper, hphase, hf⟩
  · exact hcut
  have hw := hw.named hsuper
  rcases bind_eq_error.1 hf with hlist | ⟨interfaces, u, hlist, hf⟩
  · exact interfaces_cut_off hw hphase hlist hkind
  have hw := hw.listed hlist
  have hphase := phase_of_delimits (pool.readReference_delimits.counted _ _) hphase hlist
  rcases bind_eq_error.1 hf with hlist | ⟨fields, u, hlist, hf⟩
  · exact members_cut_off .fields hw hphase hlist hkind
  have hw := hw.listed hlist
  have hphase := phase_of_delimits (Member.readList_delimits pool _ _) hphase hlist
  rcases bind_eq_error.1 hf with hlist | ⟨methods, u, hlist, hf⟩
  · exact members_cut_off .methods hw hphase hlist hkind
  have hw := hw.listed hlist
  have hphase := phase_of_delimits (Member.readList_delimits pool _ _) hphase hlist
  exact attributes_cut_off hw hphase (bind_pure_eq_error.1 hf) hkind

/-- Only the class can be cut off: what follows it is all there. -/
theorem read_cut_off (h : read (Window.ofBytes bytes) = .error f) (hkind : f.kind = .endOfInput) :
    CutOff bytes f := by
  unfold read at h
  rcases bind_eq_error.1 h with hheader | ⟨header, w, hheader, h⟩
  · exact header_cut_off hheader hkind
  rcases bind_eq_error.1 h with hresolve | ⟨pool, u, hresolve, h⟩
  · exact absurd hkind (Header.resolve_neverShort header f (settled_eq_error.1 hresolve))
  obtain ⟨hpool, rfl⟩ := settled_eq_ok.1 hresolve
  rcases bind_eq_error.1 h with hparts | ⟨cf, v, -, h⟩
  · exact readParts_cut_off hheader hpool hparts hkind
  · exact absurd (bind_pure_eq_error.1 h) (readTrailing_fills.ne_error v f)

/-! ## What the fault says -/

namespace Place

theorem head?_path (place : Place) :
    place.path.head? = some "constant_pool" ↔ place.inPool = true := by
  have hother : ∀ {s : String}, s.toList.head? ≠ some 'c' →
      (some s = some "constant_pool" ↔ false = true) :=
    fun hs => ⟨fun h => absurd (Option.some.inj h) (Attribute.ne_constantPool hs), fun h => by cases h⟩
  cases place with
  | item value =>
    refine hother ?_
    cases value <;> decide
  | poolCount | poolEntry => exact ⟨fun _ => rfl, fun _ => rfl⟩
  | interface => exact hother (by simp)
  | memberHead part | inMember part =>
    refine hother ?_
    cases part <;> simp [Part.label]
  | inClass inner => exact ⟨fun h => absurd h inner.head?_path_ne, fun h => by cases h⟩

/-- A place is in the pool, in an instruction, elsewhere in a body, or in none of these, and its phase
tells which. -/
theorem phase_cases (place : Place) :
    place.inPool = true ∧ place.inBody = false ∧ place.pc? = none ∧ place.phase = .constantPool
    ∨ place.inPool = false ∧ place.inBody = true ∧ (∃ pc, place.pc? = some pc)
      ∧ place.phase = .disassemble
    ∨ place.inPool = false ∧ place.inBody = true ∧ place.pc? = none ∧ place.phase = .attributeBody
    ∨ place.inPool = false ∧ place.inBody = false ∧ place.pc? = none ∧ place.phase = .decode := by
  cases place with
  | poolCount | poolEntry => exact .inl ⟨rfl, rfl, rfl, rfl⟩
  | inMember _ _ _ inner | inClass inner =>
    rcases inner.phase_cases .decode with hcode | hbody | houter
    · exact .inr (.inl ⟨rfl, hcode⟩)
    · exact .inr (.inr (.inl ⟨rfl, hbody⟩))
    · exact .inr (.inr (.inr ⟨rfl, houter⟩))
  | item | interface | memberHead => exact .inr (.inr (.inr ⟨rfl, rfl, rfl, rfl⟩))

end Place

theorem Dry.getLast?_path {place : Place} {v : Window} {need : Int} (h : Dry bytes place v need)
    (pc : Nat) : place.path.getLast? = some ("code@" ++ toString pc) ↔ place.pc? = some pc := by
  have hother : ∀ {s : String}, s.toList.take 3 ≠ ['c', 'o', 'd'] →
      (some s = some ("code@" ++ toString pc) ↔ none = some pc) :=
    fun hs => ⟨fun h => absurd (Option.some.inj h) (Attribute.ne_codeAt hs pc), fun h => by cases h⟩
  cases h with
  | @header _ value | @item _ value =>
    refine hother (s := value.label) ?_
    cases value <;> decide
  | poolCount => exact hother (s := "constant_pool_count") (by decide)
  | interfacesCount => exact hother (s := "interfaces_count") (by decide)
  | poolEntry | interface => exact hother (by simp)
  | @memberCount part =>
    refine hother (s := part.count.label) ?_
    cases part <;> decide
  | @memberHead part =>
    refine hother ?_
    cases part <;> simp [Part.label]
  | @inMember part pool rest i head inner w u list v need before following headed dry =>
    show (_ :: _ :: inner.path).getLast? = _ ↔ inner.pc? = some pc
    rw [List.getLast?_cons_cons, Attribute.Place.getLast?_cons_path]
    exact dry.getLast?_path pc
  | inClass before dry => exact dry.getLast?_path pc

/-- Where decoding fails for want of bytes, the fault is that of a place where the bytes run out: the
path is that of the place, with the number of siblings before each part, and the phase says which kind of
place it is. -/
theorem decode_cut_off (h : decode bytes = .error f) (hkind : f.kind = .endOfInput) :
    ∃ place v need, Dry bytes place v need ∧ f = { v.endOfInput need with path := place.path }
      ∧ (f.phase = .constantPool ↔ f.path.head? = some "constant_pool")
      ∧ (f.phase = .disassemble ↔ ∃ pc : Nat, f.path.getLast? = some ("code@" ++ toString pc))
      ∧ (∀ pc : Nat, f.path.getLast? = some ("code@" ++ toString pc) ↔ place.pc? = some pc)
      ∧ (f.phase = .attributeBody ↔ place.inBody = true ∧ place.pc? = none)
      ∧ (f.phase = .decode ↔ f.path.head? ≠ some "constant_pool" ∧ place.inBody = false) := by
  have hread : read (Window.ofBytes bytes) = .error f := by
    unfold decode at h
    cases hread : read (Window.ofBytes bytes) with
    | error g =>
      rw [hread] at h
      cases h
      rfl
    | ok r =>
      rw [hread] at h
      cases h
  obtain ⟨place, v, need, hdry, hphase, rfl⟩ := read_cut_off hread hkind
  have hlast := hdry.getLast?_path
  refine ⟨place, v, need, hdry, rfl, ?_⟩
  simp only [hlast, ne_eq, place.head?_path, show (v.endOfInput need).phase = place.phase from hphase]
  rcases place.phase_cases with ⟨hpool, hbody, hpc, hphase⟩ | ⟨hpool, hbody, ⟨pc, hpc⟩, hphase⟩
    | ⟨hpool, hbody, hpc, hphase⟩ | ⟨hpool, hbody, hpc, hphase⟩
  all_goals
    rw [hpool, hbody, hpc, hphase]
    simp [Phase.constantPool, Phase.disassemble, Phase.attributeBody, Phase.decode]

/-- The class `switching` with a last instruction that wants two bytes after the code. -/
def overrun : List UInt8 :=
  ClassForm.switching.bytes.set 110 0x11

def overrunFault : Fault :=
  { phase := .disassemble
    cause := .endOfInput 2 0
    offset := 111
    path := ["methods[0]", "A", "attributes[0]", "Code", "code@44"] }

theorem decode_overrun : decode overrun = .error overrunFault := by
  have hfault : (match decode overrun with
      | .ok _ => none
      | .error f => some f) = some overrunFault := by
    decide +kernel
  cases hdecode : decode overrun with
  | ok cf =>
    rw [hdecode] at hfault
    cases hfault
  | error f =>
    rw [hdecode] at hfault
    exact congrArg Except.error (Option.some.inj hfault)

theorem decode_cut_off_overrun : decode overrun = .error overrunFault
    ∧ overrunFault.kind = .endOfInput
    ∧ ∃ place v need, Dry overrun place v need
      ∧ overrunFault = { v.endOfInput need with path := place.path } ∧ place.pc? = some 44 := by
  have hkind : overrunFault.kind = .endOfInput := by decide
  obtain ⟨place, v, need, hdry, hfault, -, -, hlast, -⟩ := decode_cut_off decode_overrun hkind
  exact ⟨decode_overrun, hkind, place, v, need, hdry, hfault, (hlast 44).1 (by decide)⟩

end ClassFile

end ClassAtlas
