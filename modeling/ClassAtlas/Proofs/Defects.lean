import ClassAtlas.Proofs.Declarations

/-! # Where descriptors go wrong

A parser that fails names a position. What stands before it is the start of a descriptor, so that the
fault lies there or later. Reading can also run into the end of the bytes: then all of them are the
start of a descriptor, and otherwise no bytes that follow can mend them.

* `IsField`, `IsMethod`: the byte strings that are descriptors.
* `Viable P bs`: the bytes are the start of something that `P` describes.
* `Faulty`, `fieldType_eq_error`: why there is no type at the front of some bytes.
* `Flaw.isOpen`: reading ran into the end.
* `Points P s d`: what a defect says about the bytes in which it was found.
* `defects_point`: the defects that the parsers find.
-/

namespace ClassAtlas.Descriptor
set_option autoImplicit false

/-! ## Descriptors and their starts -/

/-- The bytes are a field descriptor. -/
def IsField (bs : List UInt8) : Prop :=
  ∃ t text, FieldSyntax bs t text

/-- The bytes are field descriptors in a row. -/
def IsParameters (bs : List UInt8) : Prop :=
  ∃ ts texts, ParameterSyntax bs ts texts

/-- The bytes are a method descriptor. -/
def IsMethod (bs : List UInt8) : Prop :=
  ∃ m text texts, MethodSyntax bs m text texts

/-- The bytes are the start of something that `P` describes. -/
def Viable (P : List UInt8 → Prop) (bs : List UInt8) : Prop :=
  ∃ more, P (bs ++ more)

theorem Viable.of {P : List UInt8 → Prop} {bs : List UInt8} (h : P bs) : Viable P bs :=
  ⟨[], by rwa [List.append_nil]⟩

theorem isField_iff {bs : List UInt8} : IsField bs ↔ ∃ t, parseField bs = .ok t := by
  constructor
  · rintro ⟨t, text, h⟩
    exact ⟨t, parseField_eq_ok.2 ⟨h.spelled.1, h.spelled.2.1⟩⟩
  · rintro ⟨t, h⟩
    exact ⟨t, _, parseField_iff.1 h⟩

theorem isMethod_iff {bs : List UInt8} : IsMethod bs ↔ ∃ m, parseMethod bs = .ok m := by
  constructor
  · rintro ⟨m, text, texts, h⟩
    exact ⟨m, parseMethod_eq_ok.2 (MethodSyntax.iff_spelled.1 h).1⟩
  · rintro ⟨m, h⟩
    exact ⟨m, _, _, parseMethod_iff.1 h⟩

theorem isField_int : IsField [0x49] :=
  ⟨_, _, .primitive (show (0x49, Base.int, "int") ∈ primitives by simp [primitives])⟩

theorem isField_brackets {bs : List UInt8} (h : IsField bs) (dims : Nat) :
    IsField (List.replicate dims 0x5b ++ bs) := by
  induction dims with
  | zero => exact h
  | succ dims ih =>
    obtain ⟨t, text, ht⟩ := ih
    rw [List.replicate_succ, List.cons_append]
    exact ⟨_, _, ht.array⟩

theorem isParameters_append {bs cs : List UInt8} (h : IsField bs) (h' : IsParameters cs) :
    IsParameters (bs ++ cs) := by
  obtain ⟨t, text, ht⟩ := h
  obtain ⟨ts, texts, hts⟩ := h'
  exact ⟨_, _, .cons ht hts⟩

theorem isMethod_void {bs : List UInt8} (h : IsParameters bs) :
    IsMethod (0x28 :: bs ++ [0x29, 0x56]) := by
  obtain ⟨ts, texts, hts⟩ := h
  exact ⟨_, _, _, .method hts .void⟩

theorem isMethod_value {ps bs : List UInt8} (hps : IsParameters ps) (h : IsField bs) :
    IsMethod (0x28 :: ps ++ 0x29 :: bs) := by
  obtain ⟨ts, texts, hts⟩ := hps
  obtain ⟨t, text, ht⟩ := h
  exact ⟨_, _, _, .method hts (.value ht)⟩

/-! ## Flaws -/

/-- Reading ran into the end of the descriptor. -/
def Flaw.isOpen : Flaw → Bool
  | ended | unterminatedClass | unterminatedParameters => true
  | _ => false

theorem Flaw.text_unknownCode_ne (b : UInt8) :
    (unknownCode b).text ≠ "unexpected end of descriptor"
      ∧ (unknownCode b).text ≠ "unterminated class name"
      ∧ (unknownCode b).text ≠ "unterminated parameter list" := by
  have hcode : ∃ code, (unknownCode b).text = "unknown type code " ++ code := ⟨_, rfl⟩
  obtain ⟨code, hcode⟩ := hcode
  rw [hcode]
  simp only [ne_eq, ← String.toList_inj, String.toList_append]
  simp

theorem Flaw.isOpen_iff {flaw : Flaw} : flaw.isOpen = true ↔
    flaw.text = "unexpected end of descriptor" ∨ flaw.text = "unterminated class name"
      ∨ flaw.text = "unterminated parameter list" := by
  cases flaw with
  | unknownCode b =>
    obtain ⟨hended, hclass, hparams⟩ := text_unknownCode_ne b
    refine ⟨fun h => Bool.noConfusion h, fun h => ?_⟩
    rcases h with h | h | h
    · exact absurd h hended
    · exact absurd h hclass
    · exact absurd h hparams
  | _ => decide +kernel

/-- Why there is no element type at the front of the bytes, under so many dimensions. -/
inductive Faulty (allowVoid : Bool) (dims : Nat) : List UInt8 → Flaw → Prop
  | ended : Faulty allowVoid dims [] .ended
  | unterminatedClass {bs : List UInt8} (h : 0x3b ∉ bs) :
      Faulty allowVoid dims (0x4c :: bs) .unterminatedClass
  | emptyClass (bs : List UInt8) : Faulty allowVoid dims (0x4c :: 0x3b :: bs) .emptyClass
  | misplacedVoid (bs : List UInt8) (h : (!allowVoid) = true ∨ 0 < dims) :
      Faulty allowVoid dims (0x56 :: bs) .misplacedVoid
  | unknownCode {b : UInt8} (bs : List UInt8) (hb : b ≠ 0x4c) (h : Base.ofCode? b = none) :
      Faulty allowVoid dims (b :: bs) (.unknownCode b)

section

variable {allowVoid : Bool} {dims : Nat} {bs : List UInt8} {flaw : Flaw}

theorem takeWhile_length_eq_iff :
    (bs.takeWhile (· ≠ 0x3b)).length = bs.length ↔ 0x3b ∉ bs := by
  constructor
  · intro h hmem
    have hwhole : bs.takeWhile (· ≠ 0x3b) = bs := (List.takeWhile_prefix _).eq_of_length h
    exact not_mem_takeWhile bs (by rwa [hwhole])
  · intro h
    have hall : ∀ b ∈ bs, decide (b ≠ 0x3b) = true := by
      intro b hb
      simpa using fun he : b = 0x3b => h (he ▸ hb)
    have hwhole : (bs ++ []).takeWhile (· ≠ 0x3b) = bs ++ [].takeWhile (· ≠ 0x3b) :=
      List.takeWhile_append_of_pos hall
    rw [List.append_nil, List.takeWhile_nil, List.append_nil] at hwhole
    rw [hwhole]

theorem faulty_of_baseType {s : Suffix} {d : Defect} (h : baseType allowVoid dims s = .error d) :
    d.position = s.position ∧ Faulty allowVoid dims s.bytes d.flaw := by
  obtain ⟨position, bytes⟩ := s
  unfold baseType at h
  cases bytes with
  | nil =>
    cases h
    exact ⟨rfl, .ended⟩
  | cons b bs =>
    simp only [Suffix.fail] at h
    split at h
    · rename_i hb
      subst hb
      split at h
      · rename_i hlen
        cases h
        exact ⟨rfl, .unterminatedClass (takeWhile_length_eq_iff.1 hlen)⟩
      · rename_i hlen
        split at h
        · rename_i hempty
          cases h
          obtain ⟨rest, hrest⟩ := exists_semicolon hlen
          rw [List.isEmpty_iff.1 hempty] at hrest
          subst hrest
          exact ⟨rfl, .emptyClass rest⟩
        · cases h
    · rename_i hb
      split at h
      · rename_i hcode
        cases h
        exact ⟨rfl, .unknownCode bs hb hcode⟩
      · rename_i base hcode
        split at h
        · rename_i hvoid
          cases h
          obtain ⟨rfl, hbad⟩ := hvoid
          obtain ⟨-, rfl⟩ := ofCode?_eq_some.1 hcode
          exact ⟨rfl, .misplacedVoid bs hbad⟩
        · cases h

namespace Faulty

theorem baseType_eq (h : Faulty allowVoid dims bs flaw) (position : Nat) :
    baseType allowVoid dims ⟨position, bs⟩ = .error ⟨position, flaw⟩ := by
  cases h with
  | ended => rfl
  | unterminatedClass h =>
    simp only [baseType, if_true, if_pos (takeWhile_length_eq_iff.2 h), Suffix.fail]
  | emptyClass bs => simp [baseType, Suffix.fail]
  | misplacedVoid bs h =>
    have hcode : Base.ofCode? 0x56 = some .void := by decide
    have hclass : (0x56 : UInt8) ≠ 0x4c := by decide
    simp only [baseType, if_neg hclass, hcode, true_and, if_pos h, Suffix.fail]
  | unknownCode bs hb h => simp only [baseType, if_neg hb, h, Suffix.fail]

/-- What is wrong stays wrong whatever follows, unless reading ran into the end. -/
theorem append (h : Faulty allowVoid dims bs flaw) (hopen : flaw.isOpen = false)
    (more : List UInt8) : Faulty allowVoid dims (bs ++ more) flaw := by
  cases h with
  | ended | unterminatedClass => cases hopen
  | emptyClass bs => exact .emptyClass (bs ++ more)
  | misplacedVoid bs h => exact .misplacedVoid (bs ++ more) h
  | unknownCode bs hb h => exact .unknownCode (bs ++ more) hb h

theorem viable (h : Faulty allowVoid dims bs flaw) (hopen : flaw.isOpen = true) :
    Viable IsField bs := by
  cases h with
  | ended => exact ⟨[0x49], isField_int⟩
  | @unterminatedClass bs h =>
    have hobject : IsField (0x4c :: (bs ++ [0x41]) ++ [0x3b]) :=
      ⟨_, _, .object (by simp) (by simp [h])⟩
    rw [List.cons_append, List.append_assoc] at hobject
    exact ⟨[0x41, 0x3b], hobject⟩
  | emptyClass | misplacedVoid | unknownCode => cases hopen

end Faulty

end

/-! ## Field types -/

/-- The brackets at the front of some bytes, and what follows them. -/
theorem exists_brackets (l : List UInt8) : ∃ rest, rest.head? ≠ some 0x5b
    ∧ l = List.replicate (l.takeWhile (· = 0x5b)).length 0x5b ++ rest := by
  refine ⟨l.dropWhile (· = 0x5b), ?_, ?_⟩
  · have hhead := List.head?_dropWhile_not (fun b : UInt8 => decide (b = 0x5b)) l
    intro h
    simp [h] at hhead
  · rw [← takeWhile_brackets]
    exact List.takeWhile_append_dropWhile.symm

theorem takeWhile_replicate_brackets {dims : Nat} {rest : List UInt8}
    (h : rest.head? ≠ some 0x5b) :
    (List.replicate dims 0x5b ++ rest).takeWhile (· = 0x5b) = List.replicate dims 0x5b := by
  have hall : ∀ b ∈ List.replicate dims (0x5b : UInt8), decide (b = 0x5b) = true := by
    intro b hb
    simpa using List.eq_of_mem_replicate hb
  cases rest with
  | nil =>
    rw [List.takeWhile_append_of_pos hall, List.takeWhile_nil, List.append_nil]
  | cons b rest => exact takeWhile_stop hall (by simpa using h)

/-- There is no type at the front of the bytes exactly if there is no element type after the
brackets. -/
theorem fieldType_eq_error {allowVoid : Bool} {position : Nat} {l : List UInt8} {d : Defect} :
    fieldType allowVoid ⟨position, l⟩ = .error d ↔
      ∃ dims rest, l = List.replicate dims 0x5b ++ rest ∧ rest.head? ≠ some 0x5b
        ∧ d.position = position + dims ∧ Faulty allowVoid dims rest d.flaw := by
  have hdrop : ∀ dims rest, (List.replicate dims (0x5b : UInt8) ++ rest).drop dims = rest :=
    fun dims rest => List.drop_left' List.length_replicate
  unfold fieldType
  constructor
  · intro h
    obtain ⟨hposition, hfaulty⟩ := faulty_of_baseType h
    obtain ⟨rest, hhead, hl⟩ := exists_brackets l
    refine ⟨_, rest, hl, hhead, hposition, ?_⟩
    have hrest := hdrop (l.takeWhile (· = 0x5b)).length rest
    rw [← hl] at hrest
    rwa [← hrest]
  · rintro ⟨dims, rest, rfl, hhead, hposition, hfaulty⟩
    obtain ⟨position', flaw⟩ := d
    obtain rfl : position' = position + dims := hposition
    simp only [takeWhile_replicate_brackets hhead, List.length_replicate, Suffix.drop, hdrop]
    exact hfaulty.baseType_eq (position + dims)

/-! ## Points -/

/-- The defect lies in the bytes, or just past them. What stands before it is the start of something
that `P` describes, and if reading ran into the end, so are all of them. -/
def Points (P : List UInt8 → Prop) (s : Suffix) (d : Defect) : Prop :=
  ∃ k ≤ s.bytes.length, d.position = s.position + k ∧ Viable P (s.bytes.take k)
    ∧ (d.flaw.isOpen = true → Viable P s.bytes)

/-- A defect in the rest of some bytes, after which they can be completed. -/
theorem Points.after {P Q : List UInt8 → Prop} {position : Nat} {front rest : List UInt8}
    {d : Defect} (h : Points Q ⟨position + front.length, rest⟩ d)
    (hQ : ∀ bs, Q bs → Viable P (front ++ bs)) : Points P ⟨position, front ++ rest⟩ d := by
  have hviable : ∀ bs, Viable Q bs → Viable P (front ++ bs) := by
    rintro bs ⟨more, hbs⟩
    obtain ⟨more', h⟩ := hQ _ hbs
    rw [← List.append_assoc, List.append_assoc] at h
    exact ⟨more ++ more', h⟩
  obtain ⟨k, hk, hposition, hbefore, hall⟩ := h
  refine ⟨front.length + k, ?_, ?_, ?_, fun hopen => hviable rest (hall hopen)⟩
  · rw [List.length_append]
    exact Nat.add_le_add_left hk _
  · rw [hposition, Nat.add_assoc]
  · rw [List.take_length_add_append]
    exact hviable _ hbefore

/-- Something that `P` describes, with more bytes behind it. -/
theorem Points.trailing {P : List UInt8 → Prop} {front : List UInt8} (h : P front) (position : Nat)
    (rest : List UInt8) :
    Points P ⟨position, front ++ rest⟩ ⟨position + front.length, .trailing⟩ := by
  refine ⟨front.length, ?_, rfl, ?_, nofun⟩
  · rw [List.length_append]
    exact Nat.le_add_right _ _
  · rw [List.take_left]
    exact .of h

theorem fieldType_points {allowVoid : Bool} {s : Suffix} {d : Defect}
    (h : fieldType allowVoid s = .error d) : Points IsField s d := by
  obtain ⟨position, l⟩ := s
  obtain ⟨dims, rest, rfl, -, hposition, hfaulty⟩ := fieldType_eq_error.1 h
  have hrest : Points IsField ⟨position + (List.replicate dims (0x5b : UInt8)).length, rest⟩ d := by
    refine ⟨0, Nat.zero_le _, ?_, ⟨[0x49], isField_int⟩, hfaulty.viable⟩
    rw [hposition, List.length_replicate, Nat.add_zero]
  exact hrest.after fun bs hbs => .of (isField_brackets hbs dims)

theorem parameters_points {s : Suffix} {d : Defect} (h : parameters s = .error d) :
    Points IsParameters s d := by
  fun_induction parameters s with
  | case1 s hs =>
    cases h
    refine ⟨0, Nat.zero_le _, rfl, .of ⟨[], [], .nil⟩, fun _ => ?_⟩
    rw [hs]
    exact .of ⟨[], [], .nil⟩
  | case2 => cases h
  | case3 s b bs hs hb d' hd =>
    cases h
    have hfield : Points IsField ⟨s.position + ([] : List UInt8).length, s.bytes⟩ d :=
      fieldType_points hd
    exact hfield.after fun bs hbs => ⟨[], isParameters_append hbs ⟨[], [], .nil⟩⟩
  | case4 s b bs hs hb t r ht hlt d' hd ih =>
    cases h
    obtain ⟨position, l⟩ := s
    obtain ⟨cs, rest, hcs, rfl, rfl⟩ := fieldType_eq_ok.1 ht
    have hfield : IsField cs := ⟨_, _, .of_spelled hcs.1 hcs.2⟩
    exact (ih hd).after fun bs hbs => .of (isParameters_append hfield hbs)
  | case5 => cases h

/-! ## What follows makes no difference -/

/-- The suffix with more bytes behind it. -/
def Suffix.followed (s : Suffix) (more : List UInt8) : Suffix :=
  ⟨s.position, s.bytes ++ more⟩

section

variable {s r : Suffix} {d : Defect} (more : List UInt8)

theorem fieldType_followed {allowVoid : Bool} {t : FieldType}
    (h : fieldType allowVoid s = .ok (t, r)) :
    fieldType allowVoid (s.followed more) = .ok (t, r.followed more) := by
  obtain ⟨bs, rest, ht, hs, rfl⟩ := fieldType_eq_ok.1 h
  refine fieldType_eq_ok.2 ⟨bs, rest ++ more, ht, ?_, rfl⟩
  rw [hs, List.append_assoc]

theorem fieldType_error_followed {allowVoid : Bool} (h : fieldType allowVoid s = .error d)
    (hopen : d.flaw.isOpen = false) : fieldType allowVoid (s.followed more) = .error d := by
  obtain ⟨dims, rest, hs, hhead, hposition, hfaulty⟩ := fieldType_eq_error.1 h
  refine fieldType_eq_error.2 ⟨dims, rest ++ more, ?_, ?_, hposition, hfaulty.append hopen more⟩
  · rw [hs, List.append_assoc]
  · cases rest with
    | nil =>
      obtain ⟨position, flaw⟩ := d
      cases hfaulty
      cases hopen
    | cons b rest => exact hhead

theorem parameters_followed {ts : List FieldType} (h : parameters s = .ok (ts, r)) :
    parameters (s.followed more) = .ok (ts, r.followed more) := by
  obtain ⟨bs, rest, hts, hs, rfl⟩ := parameters_eq_ok.1 h
  refine parameters_eq_ok.2 ⟨bs, rest ++ more, hts, ?_, rfl⟩
  rw [Suffix.followed, hs, List.append_assoc, List.cons_append]

theorem parameters_of_error {b : UInt8} {bs : List UInt8} (hs : s.bytes = b :: bs) (hb : b ≠ 0x29)
    (h : fieldType false s = .error d) : parameters s = .error d := by
  rw [parameters]
  split
  · rename_i hnil
    cases hnil.symm.trans hs
  · rename_i b' bs' hcons
    obtain ⟨rfl, rfl⟩ := List.cons.inj (hcons.symm.trans hs)
    rw [if_neg hb]
    split
    · rename_i d' hd
      exact congrArg Except.error (Except.error.inj (hd.symm.trans h))
    · rename_i t r ht
      cases ht.symm.trans h

theorem parameters_error_followed (h : parameters s = .error d) (hopen : d.flaw.isOpen = false) :
    parameters (s.followed more) = .error d := by
  fun_induction parameters s with
  | case1 s hs =>
    cases h
    cases hopen
  | case2 => cases h
  | case3 s b bs hs hb d' hd =>
    cases h
    have hbytes : (s.followed more).bytes = b :: (bs ++ more) := by
      rw [Suffix.followed, hs, List.cons_append]
    exact parameters_of_error hbytes hb (fieldType_error_followed more hd hopen)
  | case4 s b bs hs hb t r ht hlt d' hd ih =>
    cases h
    have hbytes : (s.followed more).bytes = b :: (bs ++ more) := by
      rw [Suffix.followed, hs, List.cons_append]
    rw [parameters_cons hbytes hb (fieldType_followed more ht), ih hd]
    rfl
  | case5 => cases h

end

/-! ## The parsers -/

theorem bind_eq_error {α β : Type} {x : Except Defect α} {f : α → Except Defect β} {d : Defect} :
    (x >>= f) = .error d ↔ x = .error d ∨ ∃ a, x = .ok a ∧ f a = .error d := by
  cases x <;> simp [bind, Except.bind]

theorem finished_eq_error {α : Type} {a : α} {s : Suffix} {d : Defect} :
    finished a s = .error d ↔ s.bytes ≠ [] ∧ d = ⟨s.position, .trailing⟩ := by
  unfold finished Suffix.fail
  cases s.bytes <;> simp [eq_comm]

theorem parseField_eq_error {l : List UInt8} {d : Defect} :
    parseField l = .error d ↔ fieldType false ⟨0, l⟩ = .error d
      ∨ ∃ t r, fieldType false ⟨0, l⟩ = .ok (t, r) ∧ r.bytes ≠ [] ∧ d = ⟨r.position, .trailing⟩ := by
  simp only [parseField, bind_eq_error, finished_eq_error, Prod.exists]

theorem parseMethod_eq_error {l : List UInt8} {d : Defect} :
    parseMethod l = .error d ↔ (l.head? ≠ some 0x28 ∧ d = ⟨0, .notMethod⟩)
      ∨ ∃ bs, l = 0x28 :: bs ∧ (parameters ⟨1, bs⟩ = .error d
        ∨ ∃ ts s, parameters ⟨1, bs⟩ = .ok (ts, s) ∧ (fieldType true s = .error d
          ∨ ∃ t r, fieldType true s = .ok (t, r) ∧ r.bytes ≠ [] ∧ d = ⟨r.position, .trailing⟩)) := by
  unfold parseMethod
  by_cases hhead : l.head? = some 0x28
  · obtain ⟨bs, rfl⟩ := List.head?_eq_some_iff.1 hhead
    simp only [List.head?_cons, if_true, List.drop_one, List.tail_cons, bind_eq_error,
      finished_eq_error, Prod.exists, ne_eq, not_true_eq_false, false_and, false_or,
      List.cons.injEq, true_and, exists_eq_left']
  · have hnot : ∀ bs, l ≠ 0x28 :: bs := by
      rintro bs rfl
      exact hhead rfl
    simp [hhead, hnot, eq_comm]

theorem parseField_points {l : List UInt8} {d : Defect} (h : parseField l = .error d) :
    Points IsField ⟨0, l⟩ d := by
  rcases parseField_eq_error.1 h with hfield | ⟨t, r, hfield, -, rfl⟩
  · exact fieldType_points hfield
  · obtain ⟨bs, rest, ht, rfl, rfl⟩ := fieldType_eq_ok.1 hfield
    exact .trailing ⟨_, _, .of_spelled ht.1 ht.2⟩ 0 rest

theorem parseMethod_points {l : List UInt8} {d : Defect} (h : parseMethod l = .error d) :
    Points IsMethod ⟨0, l⟩ d := by
  rcases parseMethod_eq_error.1 h with
    ⟨-, rfl⟩ | ⟨bs, rfl, hparams | ⟨ts, s, hts, hresult | ⟨t, r, ht, -, rfl⟩⟩⟩
  · exact ⟨0, Nat.zero_le _, rfl, ⟨_, isMethod_void ⟨[], [], .nil⟩⟩, nofun⟩
  · have hafter : Points IsParameters ⟨0 + [(0x28 : UInt8)].length, bs⟩ d :=
      parameters_points hparams
    exact hafter.after fun ps hps => ⟨_, isMethod_void hps⟩
  · obtain ⟨ps, rest, hps, hbs, rfl⟩ := parameters_eq_ok.1 hts
    obtain rfl : bs = ps ++ 0x29 :: rest := hbs
    have hfront : 1 + ps.length + 1 = 0 + (0x28 :: ps ++ [0x29]).length := by
      simp only [List.cons_append, List.length_cons, List.length_append, List.length_nil]
      omega
    have hafter := fieldType_points hresult
    simp only [hfront] at hafter
    have hall : Points IsMethod ⟨0, 0x28 :: ps ++ [0x29] ++ rest⟩ d := by
      refine hafter.after fun rs hrs => .of ?_
      rw [List.append_assoc]
      exact isMethod_value ⟨_, _, ParameterSyntax.iff_spelled.2 ⟨hps, rfl⟩⟩ hrs
    rwa [List.append_assoc] at hall
  · obtain ⟨ps, rest, hps, hbs, rfl⟩ := parameters_eq_ok.1 hts
    obtain rfl : bs = ps ++ 0x29 :: rest := hbs
    obtain ⟨rs, rest', ⟨hallowed, hrs⟩, rfl, rfl⟩ := fieldType_eq_ok.1 ht
    have hmethod : IsMethod (0x28 :: ps ++ 0x29 :: rs) :=
      ⟨⟨ts, t⟩, _, _, MethodSyntax.iff_spelled.2 ⟨⟨ps, rs, hps, hallowed, hrs, rfl⟩, rfl, rfl⟩⟩
    have hfront : 1 + ps.length + 1 + rs.length = 0 + (0x28 :: ps ++ 0x29 :: rs).length := by
      simp only [List.cons_append, List.length_cons, List.length_append]
      omega
    have hall := Points.trailing hmethod 0 rest'
    rw [← hfront, List.append_assoc] at hall
    exact hall

theorem followed_ne_nil {r : Suffix} (h : r.bytes ≠ []) (more : List UInt8) :
    (r.followed more).bytes ≠ [] :=
  List.append_ne_nil_of_left_ne_nil h more

theorem parseField_error_append {l : List UInt8} {d : Defect} (h : parseField l = .error d)
    (hopen : d.flaw.isOpen = false) (more : List UInt8) : parseField (l ++ more) = .error d := by
  rw [parseField_eq_error] at h ⊢
  rcases h with h | ⟨t, r, h, hrest, rfl⟩
  · exact .inl (fieldType_error_followed more h hopen)
  · exact .inr ⟨t, _, fieldType_followed more h, followed_ne_nil hrest more, rfl⟩

theorem parseMethod_error_append {l : List UInt8} {d : Defect} (h : parseMethod l = .error d)
    (hopen : d.flaw.isOpen = false) (hl : l ≠ []) (more : List UInt8) :
    parseMethod (l ++ more) = .error d := by
  rw [parseMethod_eq_error] at h ⊢
  rcases h with ⟨hhead, rfl⟩ | ⟨bs, rfl, h | ⟨ts, s, hts, h | ⟨t, r, ht, hrest, rfl⟩⟩⟩
  · cases l with
    | nil => exact absurd rfl hl
    | cons b l => exact .inl ⟨hhead, rfl⟩
  · exact .inr ⟨_, rfl, .inl (parameters_error_followed more h hopen)⟩
  · exact .inr ⟨_, rfl, .inr ⟨ts, _, parameters_followed more hts,
      .inl (fieldType_error_followed more h hopen)⟩⟩
  · exact .inr ⟨_, rfl, .inr ⟨ts, _, parameters_followed more hts,
      .inr ⟨t, _, fieldType_followed more ht, followed_ne_nil hrest more, rfl⟩⟩⟩

theorem parseField_of_more {bs more : List UInt8} (h : IsField bs) (hmore : more ≠ []) :
    parseField (bs ++ more) = .error ⟨bs.length, .trailing⟩ := by
  obtain ⟨t, text, ht⟩ := h
  refine parseField_eq_error.2 (.inr ⟨t, ⟨0 + bs.length, more⟩, ?_, hmore, ?_⟩)
  · exact fieldType_eq_ok.2 ⟨bs, more, ⟨ht.spelled.1, ht.spelled.2.1⟩, rfl, rfl⟩
  · rw [Nat.zero_add]

theorem parseMethod_of_more {bs more : List UInt8} (h : IsMethod bs) (hmore : more ≠ []) :
    ∃ d, parseMethod (bs ++ more) = .error d := by
  obtain ⟨m, text, texts, hm⟩ := h
  obtain ⟨⟨ps, rs, hps, hallowed, hrs, rfl⟩, -, -⟩ := MethodSyntax.iff_spelled.1 hm
  have hparams : parameters ⟨1, ps ++ 0x29 :: (rs ++ more)⟩ =
      .ok (m.params, ⟨1 + ps.length + 1, rs ++ more⟩) :=
    parameters_eq_ok.2 ⟨ps, rs ++ more, hps, rfl, rfl⟩
  have hresult : fieldType true ⟨1 + ps.length + 1, rs ++ more⟩ =
      .ok (m.result, ⟨1 + ps.length + 1 + rs.length, more⟩) :=
    fieldType_eq_ok.2 ⟨rs, more, ⟨hallowed, hrs⟩, rfl, rfl⟩
  refine ⟨_, parseMethod_eq_error.2 (.inr ⟨ps ++ 0x29 :: (rs ++ more), ?_, .inr
    ⟨_, _, hparams, .inr ⟨_, _, hresult, hmore, rfl⟩⟩⟩)⟩
  simp only [List.cons_append, List.append_assoc]

/-! ## Defects -/

/-- Bytes that can still become a field descriptor have ended too early. -/
theorem parseField_isOpen {bs : List UInt8} {d : Defect} (h : parseField bs = .error d)
    (hviable : Viable IsField bs) : d.flaw.isOpen = true := by
  obtain ⟨more, hmore⟩ := hviable
  obtain ⟨t, ht⟩ := isField_iff.1 hmore
  cases hopen : d.flaw.isOpen with
  | true => rfl
  | false => cases (parseField_error_append h hopen more).symm.trans ht

theorem parseMethod_isOpen {bs : List UInt8} {d : Defect} (h : parseMethod bs = .error d)
    (hviable : Viable IsMethod bs) (hbs : bs ≠ []) : d.flaw.isOpen = true := by
  obtain ⟨more, hmore⟩ := hviable
  obtain ⟨m, hm⟩ := isMethod_iff.1 hmore
  cases hopen : d.flaw.isOpen with
  | true => rfl
  | false => cases (parseMethod_error_append h hopen hbs more).symm.trans hm

/-- **Defects point at the fault.** The position of a defect that a parser finds lies in the descriptor
or at its end, and what stands before it is the start of a descriptor of that sort. All of the bytes
are the start of one exactly if reading ran into their end, as the words for the defect say, or if
there are none where a method is asked for; otherwise nothing that follows can mend them. No
descriptor is the start of another one of its sort. -/
theorem defects_point (bs : List UInt8) :
    (∀ d, parseField bs = .error d → d.position ≤ bs.length
        ∧ Viable IsField (bs.take d.position)
        ∧ (Viable IsField bs ↔ d.flaw.text = "unexpected end of descriptor"
          ∨ d.flaw.text = "unterminated class name" ∨ d.flaw.text = "unterminated parameter list"))
      ∧ (∀ d, parseMethod bs = .error d → d.position ≤ bs.length
        ∧ Viable IsMethod (bs.take d.position)
        ∧ (Viable IsMethod bs ↔ (d.flaw.text = "unexpected end of descriptor"
          ∨ d.flaw.text = "unterminated class name" ∨ d.flaw.text = "unterminated parameter list")
          ∨ bs = []))
      ∧ (∀ more, IsField bs → IsField (bs ++ more) → more = [])
      ∧ ∀ more, IsMethod bs → IsMethod (bs ++ more) → more = [] := by
  refine ⟨fun d h => ?_, fun d h => ?_, fun more h hmore => ?_, fun more h hmore => ?_⟩
  · obtain ⟨k, hk, hposition, hbefore, hall⟩ := parseField_points h
    obtain rfl : k = d.position := by rw [hposition, Nat.zero_add]
    refine ⟨hk, hbefore, ?_⟩
    rw [← Flaw.isOpen_iff]
    exact ⟨parseField_isOpen h, hall⟩
  · obtain ⟨k, hk, hposition, hbefore, hall⟩ := parseMethod_points h
    obtain rfl : k = d.position := by rw [hposition, Nat.zero_add]
    refine ⟨hk, hbefore, ?_⟩
    rw [← Flaw.isOpen_iff]
    refine ⟨fun hviable => ?_, ?_⟩
    · by_cases hnil : bs = []
      · exact .inr hnil
      · exact .inl (parseMethod_isOpen h hviable hnil)
    · rintro (hopen | rfl)
      · exact hall hopen
      · exact ⟨_, isMethod_void ⟨[], [], .nil⟩⟩
  · obtain ⟨t, ht⟩ := isField_iff.1 hmore
    refine Decidable.byContradiction fun hne => ?_
    cases (parseField_of_more h hne).symm.trans ht
  · obtain ⟨m, hm⟩ := isMethod_iff.1 hmore
    refine Decidable.byContradiction fun hne => ?_
    obtain ⟨d, hd⟩ := parseMethod_of_more h hne
    cases hd.symm.trans hm

/-- The class of `([[La` has no end but can be given one, while nothing helps `(I)[V`; and `I` is a
field descriptor, so that `II` is none. -/
theorem defects_point_unterminated :
    let unfinished : List UInt8 := [0x28, 0x5b, 0x5b, 0x4c, 0x61]
    let wrong : List UInt8 := [0x28, 0x49, 0x29, 0x5b, 0x56]
    (parseMethod unfinished = .error ⟨3, .unterminatedClass⟩ ∧ Viable IsMethod unfinished)
      ∧ (parseMethod wrong = .error ⟨4, .misplacedVoid⟩ ∧ Viable IsMethod (wrong.take 4)
        ∧ ¬ Viable IsMethod wrong)
      ∧ IsField [0x49] ∧ ¬ IsField [0x49, 0x49] := by
  intro unfinished wrong
  have hunfinished : parseMethod unfinished = .error ⟨3, .unterminatedClass⟩ := by
    refine parseMethod_eq_error.2 (.inr ⟨_, rfl, .inl (parameters_of_error rfl (by decide) ?_)⟩)
    exact fieldType_eq_error.2 ⟨2, [0x4c, 0x61], rfl, by decide, rfl, .unterminatedClass (by decide)⟩
  have hwrong : parseMethod wrong = .error ⟨4, .misplacedVoid⟩ := by
    have hint : ParametersSpelled [⟨0, .int⟩] ([0x49] ++ []) :=
      .cons nofun ⟨_, .primitive nofun, rfl⟩ .nil
    have hparams : parameters ⟨1, [0x49, 0x29, 0x5b, 0x56]⟩ = .ok (_, ⟨3, [0x5b, 0x56]⟩) :=
      parameters_eq_ok.2 ⟨_, _, hint, rfl, rfl⟩
    refine parseMethod_eq_error.2 (.inr ⟨_, rfl, .inr ⟨_, _, hparams, .inl ?_⟩⟩)
    exact fieldType_eq_error.2
      ⟨1, [0x56], rfl, by decide, rfl, .misplacedVoid [] (.inr (by decide))⟩
  refine ⟨⟨hunfinished, ?_⟩, ⟨hwrong, ?_, ?_⟩, isField_int, fun h => ?_⟩
  · exact ((defects_point unfinished).2.1 _ hunfinished).2.2.2 (.inl (.inr (.inl rfl)))
  · exact ((defects_point wrong).2.1 _ hwrong).2.1
  · rw [((defects_point wrong).2.1 _ hwrong).2.2]
    decide +kernel
  · cases (defects_point [0x49]).2.2.1 [0x49] isField_int h

end ClassAtlas.Descriptor
