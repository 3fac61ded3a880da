import ClassAtlas.Proofs.Shortage

/-! # Where attributes run out of bytes

When bytes are missing in a list of attributes, they are missing somewhere: in the count, in the head of
an attribute, in a body that is interpreted, in an instruction of a method body, or in the attributes of
that method body. A place says where, by the number of attributes before it and by the parts around it.
The list is cut off at a place when all that stands before it is read and the next value there runs dry.
Reading the list fails for want of bytes in such places only. The fault tells the place: the path spells
it out, and the phase says what kind of place it is.

* `Attribute.read_eq_error`, `Code.read_eq_error`, `Member.read_eq_error`: failing runs, head by head.
* `Disassembly.Swept`, `Disassembly.sweep_error`: code fails after whole instructions.
* `Attribute.Place`: the places, with `path`, `phase`, `inBody` and `pc?`.
* `Attribute.Dry pool place w v need`: all before the place is read, and at `v` there are fewer than
  `need` bytes.
* `Attribute.readList_cut_off`: the list is cut off at a place, to any depth of method bodies.
* `Attribute.Place.phase_cases`, `Attribute.Dry.getLast?_path`: what phase and path say of the place.
-/

namespace ClassAtlas
set_option autoImplicit false

open Reading

variable {α β : Type} {pool : Pool}

/-! ## Heads and what follows them -/

/-- The window on the body, in the phase of bodies. -/
def Attribute.Head.body (h : Attribute.Head) : Window :=
  { h.window with phase := .attributeBody }

/-- The window on the code, in the phase of code. -/
def Code.Head.code (h : Code.Head) : Window :=
  { h.window with phase := .disassemble }

namespace Attribute

theorem readHead_plain {phase : Phase} (pool : Pool) : Plain phase (readHead pool) :=
  Datum.u2_plain.bind fun name => (Plain.settled (Pool.referText_neverShort name)).bind fun _ =>
    (Datum.unsigned_plain _ _).bind fun length =>
      (Window.child_plain (Int.natCast_nonneg length.raw)).bind fun _ => .pure _

theorem read_eq_error {attributes : Reading (Datum × List Attribute)} {w : Window} {f : Fault} :
    read pool attributes w = .error f ↔ readHead pool w = .error f
      ∨ ∃ h v, readHead pool w = .ok (h, v)
        ∧ readBody pool attributes h.name h.length h.body = .error f := by
  simp only [read, bind_eq_error, onChild_eq_error, pure_eq_error, and_false, exists_false, or_false]
  rfl

end Attribute

namespace Code

theorem readHead_plain {phase : Phase} : Plain phase readHead :=
  Datum.u2_plain.bind fun _ => Datum.u2_plain.bind fun _ => (Datum.unsigned_plain _ _).bind
    fun length => (Window.child_plain (Int.natCast_nonneg length.raw)).bind fun _ => .pure _

theorem readHandlers_plain {phase : Phase} (pool : Pool) : Plain phase (readHandlers pool) :=
  Datum.u2_plain.bind fun _ => (Plain.repeated (Handler.read_plain pool) _).bind fun _ => .pure _

/-- The code is read in a window of its own, so that what follows it starts at `v` again. -/
theorem read_eq_error {attributes : Reading (Datum × List Attribute)} {w : Window} {f : Fault} :
    read pool attributes w = .error f ↔ readHead w = .error f
      ∨ ∃ h v, readHead w = .ok (h, v) ∧ (Disassembly.disassemble pool h.code = .error f
        ∨ ∃ is u, Disassembly.disassemble pool h.code = .ok (is, u)
          ∧ (readHandlers pool v = .error f
            ∨ ∃ hs v', readHandlers pool v = .ok (hs, v') ∧ attributes v' = .error f)) := by
  simp only [read, bind_eq_error, onChild_eq_error, pure_eq_error, and_false, exists_false, or_false]
  refine or_congr_right (exists_congr fun h => exists_congr fun v => and_congr_right fun _ =>
    or_congr Iff.rfl ?_)
  constructor
  · rintro ⟨⟨is, u⟩, v', hchild, hrest⟩
    obtain ⟨hrun, rfl⟩ := settled_eq_ok.1 hchild
    exact ⟨is, u, hrun, hrest⟩
  · rintro ⟨is, u, hrun, hrest⟩
    exact ⟨(is, u), v, settled_eq_ok.2 ⟨hrun, rfl⟩, hrest⟩

end Code

namespace Member

theorem readHead_plain {phase : Phase} (pool : Pool) : Plain phase (readHead pool) :=
  Datum.u2_plain.bind fun _ => Datum.u2_plain.bind fun name => Datum.u2_plain.bind
    fun descriptor => (Plain.within_settled (Pool.referText_neverShort name) _).bind fun _ =>
      (Plain.within_settled (Pool.referText_neverShort descriptor) _).bind fun _ =>
        (Plain.within_settled (Descriptor.declaration_neverShort _ _) _).bind fun _ => .pure _

theorem read_eq_error {flags : FlagTable} {w : Window} {f : Fault} :
    read pool flags w = .error f ↔ readHead pool w = .error f
      ∨ ∃ h v g, readHead pool w = .ok (h, v) ∧ Attribute.readList pool v = .error g
        ∧ f = g.within h.name.name := by
  simp only [read, bind_eq_error, within_eq_error, pure_eq_error, and_false, exists_false, or_false,
    exists_and_left]

end Member

/-! ## Code -/

namespace Disassembly

/-- The instructions `is` are read one after the other, in code that starts at `base`, from the window
`w` up to `v`. -/
inductive Swept (pool : Pool) (base : Nat) : Window → List Instruction → Window → Prop
  | nil {w : Window} : Swept pool base w [] w
  | cons {w u v : Window} {i : Instruction} {is : List Instruction}
      (first : instruction ensureTable pool base w = .ok (i, u)) (rest : Swept pool base u is v) :
      Swept pool base w (i :: is) v

theorem sweep_error {base limit : Nat} {w : Window} {f : Fault}
    (h : sweep ensureTable pool base limit w = .error f) :
    ∃ is v g, Swept pool base w is v ∧ v.rest ≠ [] ∧ instruction ensureTable pool base v = .error g
      ∧ f = g.within ("code@" ++ toString (v.pos - base)) := by
  induction limit generalizing w with
  | zero => exact (pure_eq_error.1 h).elim
  | succ limit ih =>
    have h := get_bind_eq_error.1 h
    by_cases hempty : w.rest.isEmpty = true
    · rw [if_pos hempty] at h
      exact (pure_eq_error.1 h).elim
    · rw [if_neg hempty] at h
      rcases bind_eq_error.1 h with hfirst | ⟨i, u, hi, hrest⟩
      · obtain ⟨g, hg, rfl⟩ := within_eq_error.1 hfirst
        exact ⟨[], w, g, .nil, by simpa using hempty, hg, rfl⟩
      · obtain ⟨is, v, g, hswept, hsome, hg, rfl⟩ := ih (bind_pure_eq_error.1 hrest)
        exact ⟨i :: is, v, g, .cons (within_eq_ok.1 hi) hswept, hsome, hg, rfl⟩

theorem Swept.phase {base : Nat} {w v : Window} {is : List Instruction}
    (h : Swept pool base w is v) (hw : w.phase = .disassemble) : v.phase = .disassemble := by
  induction h with
  | nil => exact hw
  | cons first rest ih =>
    obtain ⟨bs, hafter⟩ := (instruction_plain pool base _ hw).moves _ _ first
    exact ih (hafter.phase.trans hw)

end Disassembly

/-! ## Attributes -/

namespace Attribute

variable {attributes : Reading (Datum × List Attribute)}

theorem whole_error {step : Reading α} {w : Window} {f : Fault} (h : whole step w = .error f)
    (hkind : f.kind = .endOfInput) : step w = .error f := by
  rcases bind_eq_error.1 h with hstep | ⟨a, v, -, hrest⟩
  · exact hstep
  · have hend := get_bind_eq_error.1 hrest
    split at hend
    · exact (pure_eq_error.1 hend).elim
    · obtain rfl := throw_eq_error.1 hend
      exact absurd hkind (show Kind.invalidData ≠ .endOfInput by decide)

/-- A body wants bytes only where its name is interpreted. -/
theorem readBody_error {name length : Datum} {w : Window} {f : Fault}
    (h : readBody pool attributes name length w = .error f) (hkind : f.kind = .endOfInput) :
    (∃ g, name.name = "Code" ∧ Code.read pool attributes w = .error g ∧ f = g.within "Code")
      ∨ ∃ reader g, Body.reader? pool name.name = some reader ∧ reader w = .error g
        ∧ f = g.within name.name := by
  unfold readBody at h
  by_cases hcode : name.name = "Code"
  · rw [if_pos hcode] at h
    obtain ⟨g, hg, rfl⟩ := within_eq_error.1 h
    have hread := bind_pure_eq_error.1 (whole_error hg hkind)
    exact .inl ⟨g, hcode, hread, by rw [hcode]⟩
  · rw [if_neg hcode] at h
    cases hreader : Body.reader? pool name.name with
    | some reader =>
      rw [hreader] at h
      obtain ⟨g, hg, rfl⟩ := within_eq_error.1 h
      have hread := bind_pure_eq_error.1 (whole_error hg hkind)
      exact .inr ⟨reader, g, rfl, hread, rfl⟩
    | none =>
      rw [hreader] at h
      exact absurd h
        ((skip_fills fun info => simple name length (.uninterpreted info)).ne_error w f)

/-- A place in a list of attributes where bytes can be missing. -/
inductive Place where
  | count
  /-- The name or the length of attribute `i`, or the body itself if it is longer than what is left. -/
  | head (i : Nat)
  /-- The body of attribute `i`, which has this name; of a method body, what is neither code nor
  attributes. -/
  | body (i : Nat) (name : String)
  /-- The instruction at `pc` of the method body that attribute `i` is. -/
  | code (i pc : Nat)
  /-- A place in the attributes of the method body that attribute `i` is. -/
  | nested (i : Nat) (inner : Place)
  deriving DecidableEq

namespace Place

def path : Place → List String
  | count => ["attributes_count"]
  | head i => ["attributes[" ++ toString i ++ "]"]
  | body i name => ["attributes[" ++ toString i ++ "]", name]
  | code i pc => ["attributes[" ++ toString i ++ "]", "Code", "code@" ++ toString pc]
  | nested i inner => ("attributes[" ++ toString i ++ "]") :: "Code" :: inner.path

/-- The phase of a place in a list that is read in the phase `outer`. -/
def phase (outer : Phase) : Place → Phase
  | count | head _ => outer
  | body .. => .attributeBody
  | code .. => .disassemble
  | nested _ inner => inner.phase .attributeBody

/-- The place is in the body of an interpreted attribute of the list. -/
def inBody : Place → Bool
  | count | head _ => false
  | body .. | code .. | nested .. => true

/-- The instruction that the place is in, by its position in the code. -/
def pc? : Place → Option Nat
  | code _ pc => some pc
  | nested _ inner => inner.pc?
  | _ => none

end Place

/-- Attribute `i` of the list at `w` has this name, and `body` is the window on its body. -/
def Opened (pool : Pool) (i : Nat) (w : Window) (name : String) (body : Window) : Prop :=
  ∃ u h v, Following (read pool (readList pool)) i w u ∧ readHead pool u = .ok (h, v)
    ∧ h.name.name = name ∧ h.body = body

/-- The bytes of a list of attributes run out at a place: all that stands before it is read, and there
a step wants `need` bytes at `v`. -/
inductive Dry (pool : Pool) : Place → Window → Window → Int → Prop
  | count {w v : Window} {need : Int} (dry : RunsDry Datum.u2 w v need) : Dry pool .count w v need
  | head {i : Nat} {w u v : Window} {need : Int}
      (before : Following (read pool (readList pool)) i w u)
      (dry : RunsDry (readHead pool) u v need) : Dry pool (.head i) w v need
  | body {i : Nat} {name : String} {reader : Reading Body} {w body v : Window} {need : Int}
      (opened : Opened pool i w name body) (interpreted : Body.reader? pool name = some reader)
      (dry : RunsDry reader body v need) : Dry pool (.body i name) w v need
  | frame {i : Nat} {w body v : Window} {need : Int} (opened : Opened pool i w "Code" body)
      (dry : RunsDry Code.readHead body v need) : Dry pool (.body i "Code") w v need
  | code {i : Nat} {h : Code.Head} {is : List Instruction} {w body rest u v : Window} {need : Int}
      (opened : Opened pool i w "Code" body) (headed : Code.readHead body = .ok (h, rest))
      (swept : Disassembly.Swept pool h.code.pos h.code is u) (more : u.rest ≠ [])
      (dry : RunsDry (Disassembly.instruction Disassembly.ensureTable pool h.code.pos) u v need) :
      Dry pool (.code i (u.pos - h.code.pos)) w v need
  | handlers {i : Nat} {h : Code.Head} {is : List Instruction} {w body rest u v : Window} {need : Int}
      (opened : Opened pool i w "Code" body) (headed : Code.readHead body = .ok (h, rest))
      (disassembled : Disassembly.disassemble pool h.code = .ok (is, u))
      (dry : RunsDry (Code.readHandlers pool) rest v need) : Dry pool (.body i "Code") w v need
  | nested {i : Nat} {inner : Place} {h : Code.Head} {is : List Instruction}
      {hs : Datum × List Handler} {w body rest u list v : Window} {need : Int}
      (opened : Opened pool i w "Code" body) (headed : Code.readHead body = .ok (h, rest))
      (disassembled : Disassembly.disassemble pool h.code = .ok (is, u))
      (handled : Code.readHandlers pool rest = .ok (hs, list)) (dry : Dry pool inner list v need) :
      Dry pool (.nested i inner) w v need

/-- The fault is that of a place where the bytes of the list at `w` run out. -/
def CutOff (pool : Pool) (w : Window) (f : Fault) : Prop :=
  ∃ place v need, Dry pool place w v need ∧ v.phase = place.phase w.phase
    ∧ f = { v.endOfInput need with path := place.path }

theorem cut_off_at (place : Place) {step : Reading α} {w u : Window} {f g : Fault}
    (hplain : Plain (place.phase w.phase) step) (hu : u.phase = place.phase w.phase)
    (hg : step u = .error g) (hkind : g.kind = .endOfInput)
    (hf : f = { g with path := place.path ++ g.path })
    (hdry : ∀ v need, RunsDry step u v need → Dry pool place w v need) : CutOff pool w f := by
  obtain ⟨v, need, hruns, hphase, rfl⟩ := hplain.cut_off hu hg hkind hf
  exact ⟨place, v, need, hdry v need hruns, hphase, rfl⟩

theorem readHead_window {w v : Window} {h : Head} (hw : readHead pool w = .ok (h, v)) :
    h.window.remaining ≤ w.remaining := by
  simp only [readHead, bind_eq_ok, pure_eq_ok, settled_eq_ok] at hw
  obtain ⟨d, u, hd, name, u', ⟨-, rfl⟩, length, u'', hlength, window, v', hchild, rfl, -⟩ := hw
  obtain ⟨bs, -, hafter, rfl⟩ := Window.child_eq_ok.1 hchild
  have hu := Datum.u2_delimits.remaining_le hd
  have hu' := (Datum.unsigned_delimits _ _).remaining_le hlength
  have hbs := hafter.remaining
  show bs.length ≤ w.remaining
  omega

theorem Opened.phase {i : Nat} {w body : Window} {name : String} (h : Opened pool i w name body) :
    body.phase = .attributeBody := by
  obtain ⟨u, h, v, -, -, -, rfl⟩ := h
  rfl

theorem Opened.remaining_lt {i : Nat} {w body : Window} {name : String}
    (h : Opened pool i w name body) : body.remaining < w.remaining := by
  obtain ⟨u, h, v, hfollowing, hhead, -, rfl⟩ := h
  obtain ⟨bs, hafter, hlen⟩ := hfollowing.after (read_delimits pool _)
  have hwindow := readHead_window hhead
  have hu := hafter.remaining
  show h.window.remaining < w.remaining
  omega

theorem Opened.cut_off_code {i : Nat} {w body : Window} {g : Fault}
    (hopened : Opened pool i w "Code" body)
    (ih : ∀ list : Window, list.remaining < w.remaining → ∀ f, readList pool list = .error f →
      f.kind = .endOfInput → CutOff pool list f)
    (hg : Code.read pool (readList pool) body = .error g) (hkind : g.kind = .endOfInput) :
    CutOff pool w ((g.within "Code").within ("attributes[" ++ toString i ++ "]")) := by
  have hbody := hopened.phase
  rcases Code.read_eq_error.1 hg with hhead | ⟨h, rest, hhead, hg⟩
  · exact cut_off_at (.body i "Code") Code.readHead_plain hbody hhead hkind rfl
      fun _ _ => .frame hopened
  rcases hg with hcode | ⟨is, u, hcode, hg⟩
  · obtain ⟨is, u, g, hswept, hmore, hinstruction, rfl⟩ := Disassembly.sweep_error hcode
    have hphase : u.phase = .disassemble := hswept.phase rfl
    exact cut_off_at (.code i (u.pos - h.code.pos)) (Disassembly.instruction_plain pool _) hphase
      hinstruction hkind rfl fun _ _ => .code hopened hhead hswept hmore
  obtain ⟨bs, hafter⟩ := (Code.readHead_plain body hbody).moves h rest hhead
  have hrest := hafter.phase.trans hbody
  rcases hg with hhandlers | ⟨hs, list, hhandlers, hlist⟩
  · exact cut_off_at (.body i "Code") (Code.readHandlers_plain pool) hrest hhandlers hkind rfl
      fun _ _ => .handlers hopened hhead hcode
  · obtain ⟨cs, hafter'⟩ := (Code.readHandlers_plain pool rest hrest).moves hs list hhandlers
    have hlt := hopened.remaining_lt
    have hle := (hafter.trans hafter').remaining
    obtain ⟨place, v, need, hdry, hphase, rfl⟩ := ih list (by omega) g hlist hkind
    refine ⟨.nested i place, v, need, .nested hopened hhead hcode hhandlers hdry, ?_, rfl⟩
    rw [hphase, hafter'.phase, hrest]
    rfl

/-- By the bytes that are left: the attributes of a method body have fewer than the list around it. -/
theorem readList_cut_off (pool : Pool) (w : Window) (f : Fault) (h : readList pool w = .error f)
    (hkind : f.kind = .endOfInput) : CutOff pool w f := by
  induction hn : w.remaining using Nat.strongRecOn generalizing w f with
  | _ n ih =>
    subst hn
    rw [readList_eq] at h
    rcases counted_eq_error.1 h with ⟨g, hg, rfl⟩ | ⟨i, u, g, hfollowing, hg, rfl⟩
    · exact cut_off_at .count Datum.u2_plain rfl hg hkind rfl fun _ _ => .count
    rcases read_eq_error.1 hg with hhead | ⟨head, rest, hhead, hbody⟩
    · obtain ⟨bs, hafter, -⟩ := hfollowing.after (read_delimits pool _)
      exact cut_off_at (.head i) (readHead_plain pool) hafter.phase hhead hkind rfl
        fun _ _ => .head hfollowing
    rcases readBody_error hbody hkind with ⟨g, hname, hcode, rfl⟩ | ⟨reader, g, hreader, hread, rfl⟩
    · exact Opened.cut_off_code ⟨u, head, rest, hfollowing, hhead, hname, rfl⟩
        (fun list hlt f hf hkind => ih _ hlt list f hf hkind rfl) hcode hkind
    · have hopened : Opened pool i w head.name.name head.body :=
        ⟨u, head, rest, hfollowing, hhead, rfl, rfl⟩
      exact cut_off_at (.body i head.name.name) (Body.reader?_plain hreader) rfl hread hkind rfl
        fun _ _ => .body hopened hreader

/-! ## What the fault of an attribute says -/

theorem ne_constantPool {s : String} (h : s.toList.head? ≠ some 'c') : s ≠ "constant_pool" := by
  rintro rfl
  exact h (by decide)

/-- No other segment of a path reads like that of an instruction. -/
theorem ne_codeAt {s : String} (h : s.toList.take 3 ≠ ['c', 'o', 'd']) (pc : Nat) :
    s ≠ "code@" ++ toString pc := by
  rintro rfl
  simp at h

theorem codeAt_inj {pc pc' : Nat} :
    "code@" ++ toString pc = "code@" ++ toString pc' ↔ pc = pc' := by
  refine ⟨fun h => ?_, fun h => h ▸ rfl⟩
  have hdigits : Nat.toDigits 10 pc = Nat.toDigits 10 pc' := by
    have hlists := congrArg String.toList ((String.append_right_inj _).1 h)
    rwa [Nat.toString_eq_repr, Nat.toString_eq_repr, Nat.toList_repr, Nat.toList_repr] at hlists
  calc pc = Nat.ofDigitChars 10 (Nat.toDigits 10 pc) 0 :=
        (Nat.ofDigitChars_toDigits (by decide) (by decide)).symm
    _ = pc' := by rw [hdigits, Nat.ofDigitChars_toDigits (by decide) (by decide)]

theorem ne_codeAt_of_interpreted {name : String} {reader : Reading Body}
    (h : Body.reader? pool name = some reader) (pc : Nat) : name ≠ "code@" ++ toString pc := by
  unfold Body.reader? at h
  split at h
  case h_14 => cases h
  all_goals exact ne_codeAt (by decide) pc

namespace Place

/-- A place is in an instruction, elsewhere in a body, or in the list itself, and its phase tells which. -/
theorem phase_cases (outer : Phase) (place : Place) :
    place.inBody = true ∧ (∃ pc, place.pc? = some pc) ∧ place.phase outer = .disassemble
    ∨ place.inBody = true ∧ place.pc? = none ∧ place.phase outer = .attributeBody
    ∨ place.inBody = false ∧ place.pc? = none ∧ place.phase outer = outer := by
  induction place generalizing outer with
  | count | head => exact .inr (.inr ⟨rfl, rfl, rfl⟩)
  | body => exact .inr (.inl ⟨rfl, rfl, rfl⟩)
  | code i pc => exact .inl ⟨rfl, ⟨pc, rfl⟩, rfl⟩
  | nested i inner ih =>
    rcases ih .attributeBody with ⟨-, hpc, hphase⟩ | ⟨-, hpc, hphase⟩ | ⟨-, hpc, hphase⟩
    · exact .inl ⟨rfl, hpc, hphase⟩
    · exact .inr (.inl ⟨rfl, hpc, hphase⟩)
    · exact .inr (.inl ⟨rfl, hpc, hphase⟩)

theorem getLast?_cons_path (s : String) (place : Place) :
    (s :: place.path).getLast? = place.path.getLast? := by
  cases place <;> rfl

theorem head?_path_ne (place : Place) : place.path.head? ≠ some "constant_pool" := by
  cases place with
  | count => exact fun h => ne_constantPool (by decide) (Option.some.inj h)
  | head | body | code | nested => exact fun h => ne_constantPool (by simp) (Option.some.inj h)

end Place

theorem Dry.getLast?_path {place : Place} {w v : Window} {need : Int}
    (h : Dry pool place w v need) (pc : Nat) :
    place.path.getLast? = some ("code@" ++ toString pc) ↔ place.pc? = some pc := by
  have hother : ∀ {s : String}, s ≠ "code@" ++ toString pc →
      (some s = some ("code@" ++ toString pc) ↔ none = some pc) :=
    fun hs => ⟨fun h => absurd (Option.some.inj h) hs, fun h => by cases h⟩
  induction h with
  | count => exact hother (ne_codeAt (by decide) pc)
  | head => exact hother (ne_codeAt (by simp) pc)
  | body opened interpreted => exact hother (ne_codeAt_of_interpreted interpreted pc)
  | frame | handlers => exact hother (ne_codeAt (s := "Code") (by decide) pc)
  | code => exact Option.some_inj.trans (codeAt_inj.trans Option.some_inj.symm)
  | @nested i inner h is hs w body rest u list v need opened headed disassembled handled dry ih =>
    show (_ :: "Code" :: inner.path).getLast? = _ ↔ inner.pc? = some pc
    rw [List.getLast?_cons_cons, Place.getLast?_cons_path]
    exact ih

end Attribute

end ClassAtlas
