import ClassAtlas.Descriptor

/-! # The grammar of descriptors

How the types of fields and methods are written, as relations between a type and its bytes. The
parsers accept exactly what is written this way.

* `Base.Spelled`, `FieldType.Spelled`, `MethodType.Spelled`: a type and the bytes it is written as.
* `FieldType.Allowed`: `void` stands only where a result stands, and in no array.
* `Grammatical`: byte strings that are a field type or a method type.
* `exists_declaration_iff`: a declaration can be shown exactly for grammatical descriptors.
-/

namespace ClassAtlas.Descriptor
set_option autoImplicit false

/-! ## The grammar -/

/-- The element type is written as these bytes. A class is written under its name with slashes. -/
inductive Base.Spelled : Base → List UInt8 → Prop
  | primitive {base : Base} (h : ∀ name, base ≠ .object name) :
      Spelled base [UInt8.ofNat base.code.toNat]
  | object {name : List UInt8} (nonempty : name ≠ []) (closed : 0x3b ∉ name) :
      Spelled (.object (dotted name)) (0x4c :: name ++ [0x3b])

namespace FieldType

/-- One `[` for each dimension, then the element type. -/
def Spelled (t : FieldType) (bs : List UInt8) : Prop :=
  ∃ tail, t.base.Spelled tail ∧ bs = List.replicate t.dims 0x5b ++ tail

/-- `void` stands only where it is allowed, and has no dimensions. -/
def Allowed (allowVoid : Bool) (t : FieldType) : Prop :=
  t.base = .void → allowVoid = true ∧ t.dims = 0

end FieldType

/-- Field types in a row. -/
inductive ParametersSpelled : List FieldType → List UInt8 → Prop
  | nil : ParametersSpelled [] []
  | cons {t : FieldType} {ts : List FieldType} {bs cs : List UInt8} (allowed : t.Allowed false)
      (head : t.Spelled bs) (tail : ParametersSpelled ts cs) : ParametersSpelled (t :: ts) (bs ++ cs)

/-- The parameters in parentheses, then the result. -/
def MethodType.Spelled (m : MethodType) (bs : List UInt8) : Prop :=
  ∃ params result, ParametersSpelled m.params params ∧ m.result.Allowed true ∧ m.result.Spelled result
    ∧ bs = 0x28 :: params ++ 0x29 :: result

/-- The bytes are a field type or a method type. -/
def Grammatical (bs : List UInt8) : Prop :=
  (∃ t : FieldType, t.Allowed false ∧ t.Spelled bs) ∨ ∃ m : MethodType, m.Spelled bs

/-! ## Element types -/

theorem ofCode?_code_of_lt : ∀ n, n < 256 → ∀ base ∈ Base.ofCode? (UInt8.ofNat n),
    base.code.toNat = n ∧ base.code ≠ 'L' := by
  decide +kernel

theorem ofCode?_eq_some {b : UInt8} {base : Base} : Base.ofCode? b = some base ↔
    (∀ name, base ≠ .object name) ∧ b = UInt8.ofNat base.code.toNat := by
  constructor
  · intro h
    have hb := ofCode?_code_of_lt b.toNat b.toNat_lt base (by rw [UInt8.ofNat_toNat]; exact h)
    refine ⟨?_, ?_⟩
    · rintro name rfl
      exact hb.2 rfl
    · rw [hb.1, UInt8.ofNat_toNat]
  · rintro ⟨hbase, rfl⟩
    cases base with
    | object name => exact (hbase name rfl).elim
    | _ => rfl

theorem takeWhile_stop {α : Type} {p : α → Bool} {l : List α} {a : α} {rest : List α}
    (hl : ∀ b ∈ l, p b = true) (ha : p a = false) : (l ++ a :: rest).takeWhile p = l := by
  rw [List.takeWhile_append_of_pos hl, List.takeWhile_cons_of_neg (by simp [ha]), List.append_nil]

theorem exists_semicolon {bs : List UInt8} (h : (bs.takeWhile (· ≠ 0x3b)).length ≠ bs.length) :
    ∃ rest, bs = bs.takeWhile (· ≠ 0x3b) ++ 0x3b :: rest := by
  have hsplit := List.takeWhile_append_dropWhile (p := fun b : UInt8 => decide (b ≠ 0x3b)) (l := bs)
  cases hdrop : bs.dropWhile (· ≠ 0x3b) with
  | nil =>
    rw [hdrop, List.append_nil] at hsplit
    exact (h (congrArg List.length hsplit)).elim
  | cons b rest =>
    have hb := List.head?_dropWhile_not (fun b : UInt8 => decide (b ≠ 0x3b)) bs
    rw [hdrop] at hb hsplit
    obtain rfl : b = 0x3b := by simpa using hb
    exact ⟨rest, hsplit.symm⟩

theorem not_mem_takeWhile (bs : List UInt8) : 0x3b ∉ bs.takeWhile (· ≠ 0x3b) := by
  intro h
  have hall := List.all_eq_true.1 (List.all_takeWhile (p := fun b : UInt8 => decide (b ≠ 0x3b)) (l := bs))
  simpa using hall _ h

theorem spelled_of_baseType {allowVoid : Bool} {dims position : Nat} {l : List UInt8}
    {t : FieldType} {r : Suffix} (h : baseType allowVoid dims ⟨position, l⟩ = .ok (t, r)) :
    ∃ bs rest, (t.dims = dims ∧ t.Allowed allowVoid ∧ t.base.Spelled bs) ∧ l = bs ++ rest
      ∧ r = ⟨position + bs.length, rest⟩ := by
  unfold baseType at h
  cases l with
  | nil => cases h
  | cons b bs =>
    simp only [Suffix.fail, Suffix.drop] at h
    by_cases hb : b = 0x4c
    · rw [if_pos hb] at h
      split at h
      · cases h
      · rename_i hlen
        split at h
        · cases h
        · rename_i hne
          obtain ⟨rest, hrest⟩ := exists_semicolon hlen
          have hclosed := not_mem_takeWhile bs
          generalize bs.takeWhile (· ≠ 0x3b) = name at h hne hrest hclosed
          subst hrest hb
          obtain ⟨rfl, rfl⟩ := Prod.mk.inj (Except.ok.inj h)
          have hname : name ≠ [] := fun hnil => hne (by rw [hnil]; rfl)
          refine ⟨_, rest, ⟨rfl, ?_, .object hname hclosed⟩, ?_, ?_⟩
          · intro hvoid
            cases hvoid
          · simp only [List.cons_append, List.append_assoc, List.nil_append]
          · simp [List.drop_append]
    · rw [if_neg hb] at h
      split at h
      · cases h
      · rename_i base hbase
        split at h
        · cases h
        · rename_i hvoid
          obtain ⟨rfl, rfl⟩ := Prod.mk.inj (Except.ok.inj h)
          obtain ⟨hobject, rfl⟩ := ofCode?_eq_some.1 hbase
          refine ⟨_, bs, ⟨rfl, ?_, .primitive hobject⟩, rfl, rfl⟩
          intro hv
          have hbase : base = .void := hv
          simp only [hbase, true_and, not_or, Nat.not_lt] at hvoid
          exact ⟨by simpa using hvoid.1, Nat.le_zero.1 hvoid.2⟩

theorem baseType_of_spelled {allowVoid : Bool} {position : Nat} {t : FieldType}
    {bs : List UInt8} (rest : List UInt8) (hallowed : t.Allowed allowVoid)
    (hspelled : t.base.Spelled bs) : baseType allowVoid t.dims ⟨position, bs ++ rest⟩
      = .ok (t, ⟨position + bs.length, rest⟩) := by
  obtain ⟨dims, base⟩ := t
  cases hspelled with
  | primitive h =>
    have hcode := ofCode?_eq_some.2 ⟨h, rfl⟩
    have hL : UInt8.ofNat base.code.toNat ≠ 0x4c := by
      intro hL
      have hnone : Base.ofCode? 0x4c = none := by decide
      rw [hL, hnone] at hcode
      cases hcode
    have hvoid : ¬ (base = .void ∧ ((!allowVoid) = true ∨ 0 < dims)) := by
      rintro ⟨hv, hbad⟩
      obtain ⟨ha, hd⟩ := hallowed hv
      have hd' : dims = 0 := hd
      rw [ha, hd'] at hbad
      simp at hbad
    simp only [baseType, List.cons_append, List.nil_append, if_neg hL, hcode, if_neg hvoid,
      Suffix.drop]
    rfl
  | @object name hname hclosed =>
    have htake : (name ++ 0x3b :: rest).takeWhile (· ≠ 0x3b) = name := by
      apply takeWhile_stop
      · intro b hb
        simpa using fun he : b = 0x3b => hclosed (he ▸ hb)
      · rfl
    have hlist : 0x4c :: name ++ [0x3b] ++ rest = 0x4c :: (name ++ 0x3b :: rest) := by simp
    have hlen : name.length ≠ (name ++ 0x3b :: rest).length := by simp
    have hempty : ¬ name.isEmpty = true := by simpa using hname
    rw [hlist]
    simp only [baseType, if_true, htake, if_neg hlen, if_neg hempty, Suffix.drop]
    simp [List.drop_append]

theorem baseType_eq_ok {allowVoid : Bool} {dims position : Nat} {l : List UInt8} {t : FieldType}
    {r : Suffix} : baseType allowVoid dims ⟨position, l⟩ = .ok (t, r) ↔
      ∃ bs rest, (t.dims = dims ∧ t.Allowed allowVoid ∧ t.base.Spelled bs) ∧ l = bs ++ rest
        ∧ r = ⟨position + bs.length, rest⟩ := by
  constructor
  · exact spelled_of_baseType
  · rintro ⟨bs, rest, ⟨rfl, hallowed, hspelled⟩, rfl, rfl⟩
    exact baseType_of_spelled rest hallowed hspelled

/-! ## Field types -/

theorem Base.Spelled.head {base : Base} {bs : List UInt8} (h : base.Spelled bs) :
    ∃ b rest, bs = b :: rest ∧ b ≠ 0x5b := by
  cases h with
  | primitive hbase =>
    refine ⟨_, [], rfl, ?_⟩
    cases base with
    | object name => exact (hbase name rfl).elim
    | _ => decide
  | object => exact ⟨_, _, rfl, by decide⟩

theorem takeWhile_brackets (l : List UInt8) :
    l.takeWhile (· = 0x5b) = List.replicate (l.takeWhile (· = 0x5b)).length 0x5b := by
  refine List.eq_replicate_iff.2 ⟨rfl, ?_⟩
  intro b hb
  have hall := List.all_eq_true.1 (List.all_takeWhile (p := fun b : UInt8 => decide (b = 0x5b)) (l := l))
  simpa using hall b hb

theorem fieldType_eq_ok {allowVoid : Bool} {position : Nat} {l : List UInt8} {t : FieldType}
    {r : Suffix} : fieldType allowVoid ⟨position, l⟩ = .ok (t, r) ↔
      ∃ bs rest, (t.Allowed allowVoid ∧ t.Spelled bs) ∧ l = bs ++ rest
        ∧ r = ⟨position + bs.length, rest⟩ := by
  simp only [fieldType, Suffix.drop, baseType_eq_ok]
  constructor
  · rintro ⟨tail, rest, ⟨hdims, hallowed, hspelled⟩, hl, rfl⟩
    have hbrackets := takeWhile_brackets l
    rw [← hdims] at hl hbrackets
    obtain ⟨after, hafter⟩ := List.takeWhile_prefix (l := l) (fun b : UInt8 => decide (b = 0x5b))
    have hdrop : l.drop t.dims = after := by
      rw [← hafter]
      exact List.drop_left' hdims.symm
    have hl' : l = List.replicate t.dims 0x5b ++ tail ++ rest := by
      rw [List.append_assoc, ← hl, ← hbrackets, hdrop]
      exact hafter.symm
    refine ⟨_, rest, ⟨hallowed, tail, hspelled, rfl⟩, hl', ?_⟩
    simp only [← hdims, List.length_append, List.length_replicate, Nat.add_assoc]
  · rintro ⟨bs, rest, ⟨hallowed, tail, hspelled, rfl⟩, rfl, rfl⟩
    obtain ⟨b, tail', rfl, hb⟩ := hspelled.head
    have htake : (List.replicate t.dims 0x5b ++ b :: tail' ++ rest).takeWhile (· = 0x5b) =
        List.replicate t.dims 0x5b := by
      rw [List.append_assoc]
      apply takeWhile_stop
      · intro c hc
        simpa using List.eq_of_mem_replicate hc
      · simpa using hb
    refine ⟨b :: tail', rest, ⟨?_, hallowed, hspelled⟩, ?_, ?_⟩
    · rw [htake, List.length_replicate]
    · rw [htake, List.length_replicate, List.append_assoc]
      exact List.drop_left' List.length_replicate
    · simp only [htake, List.length_append, List.length_replicate, Nat.add_assoc]

/-! ## Descriptors -/

theorem FieldType.Spelled.head_ne {t : FieldType} {bs : List UInt8} (h : t.Spelled bs) :
    ∃ b rest, bs = b :: rest ∧ b ≠ 0x28 ∧ b ≠ 0x29 := by
  obtain ⟨tail, hspelled, rfl⟩ := h
  obtain ⟨dims, base⟩ := t
  cases dims with
  | zero =>
    cases hspelled with
    | primitive hbase =>
      refine ⟨_, [], rfl, ?_⟩
      cases base with
      | object name => exact (hbase name rfl).elim
      | _ => decide
    | object => exact ⟨_, _, rfl, by decide⟩
  | succ dims => exact ⟨0x5b, _, rfl, by decide⟩

theorem parameters_cons {s r : Suffix} {b : UInt8} {bs : List UInt8} {t : FieldType}
    (hs : s.bytes = b :: bs) (hb : b ≠ 0x29) (ht : fieldType false s = .ok (t, r)) :
    parameters s = (parameters r).map fun p => (t :: p.1, p.2) := by
  rw [parameters]
  split
  · rename_i hnil
    cases hnil.symm.trans hs
  · rename_i b' bs' hcons
    obtain ⟨rfl, rfl⟩ := List.cons.inj (hcons.symm.trans hs)
    rw [if_neg hb]
    split
    · rename_i d hd
      cases hd.symm.trans ht
    · rename_i t' r' ht'
      cases ht'.symm.trans ht
      cases parameters r <;> rfl

theorem parameters_eq_ok {s : Suffix} {ts : List FieldType} {r : Suffix} :
    parameters s = .ok (ts, r) ↔
      ∃ bs rest, ParametersSpelled ts bs ∧ s.bytes = bs ++ 0x29 :: rest
        ∧ r = ⟨s.position + bs.length + 1, rest⟩ := by
  constructor
  · intro h
    fun_induction parameters s generalizing ts r with
    | case1 s hs => cases h
    | case2 s bs hs =>
      obtain ⟨rfl, rfl⟩ := Prod.mk.inj (Except.ok.inj h)
      refine ⟨[], bs, .nil, hs, ?_⟩
      rw [Suffix.drop, hs]
      rfl
    | case3 s b bs hs hb d hd => cases h
    | case4 s b bs hs hb t r' ht hlt d hd ih => cases h
    | case5 s b bs hs hb t r' ht hlt ts' r'' hts ih =>
      obtain ⟨rfl, rfl⟩ := Prod.mk.inj (Except.ok.inj h)
      obtain ⟨cs, rest, ⟨hallowed, hspelled⟩, hcs, rfl⟩ := fieldType_eq_ok.1 ht
      obtain ⟨ds, rest', hds, hrest, rfl⟩ := ih hts
      have hrest' : rest = ds ++ 0x29 :: rest' := hrest
      refine ⟨cs ++ ds, rest', .cons hallowed hspelled hds, ?_, ?_⟩
      · rw [hcs, hrest', List.append_assoc]
      · simp only [List.length_append, Nat.add_assoc]
  · rintro ⟨bs, rest, hspelled, hs, rfl⟩
    induction hspelled generalizing s with
    | nil =>
      unfold parameters
      split
      · rename_i hnil
        cases hnil.symm.trans hs
      · rename_i b bs hcons
        obtain ⟨rfl, rfl⟩ := List.cons.inj (hcons.symm.trans hs)
        rw [if_pos rfl, Suffix.drop, hcons]
        rfl
    | @cons t ts bs cs hallowed hhead htail ih =>
      obtain ⟨position, l⟩ := s
      obtain rfl : l = bs ++ cs ++ 0x29 :: rest := hs
      have hfield : fieldType false ⟨position, bs ++ cs ++ 0x29 :: rest⟩ =
          .ok (t, ⟨position + bs.length, cs ++ 0x29 :: rest⟩) :=
        fieldType_eq_ok.2 ⟨bs, _, ⟨hallowed, hhead⟩, List.append_assoc _ _ _, rfl⟩
      have htail' := ih (s := ⟨position + bs.length, cs ++ 0x29 :: rest⟩) rfl
      obtain ⟨b, bs', rfl, -, hb⟩ := hhead.head_ne
      rw [parameters_cons rfl hb hfield, htail']
      simp only [Except.map, List.length_append, Nat.add_assoc]

theorem finished_eq_ok {α : Type} {a b : α} {s : Suffix} :
    finished a s = .ok b ↔ a = b ∧ s.bytes = [] := by
  unfold finished Suffix.fail
  cases s.bytes <;> simp

theorem parseField_eq_ok {bs : List UInt8} {t : FieldType} :
    parseField bs = .ok t ↔ t.Allowed false ∧ t.Spelled bs := by
  unfold parseField
  constructor
  · intro h
    cases hfield : fieldType false ⟨0, bs⟩ with
    | error d => simp [hfield, bind, Except.bind] at h
    | ok p =>
      obtain ⟨t', r⟩ := p
      simp only [hfield, bind, Except.bind, finished_eq_ok] at h
      obtain ⟨rfl, hend⟩ := h
      obtain ⟨cs, rest, ht, hbs, rfl⟩ := fieldType_eq_ok.1 hfield
      obtain rfl : rest = [] := hend
      rwa [hbs, List.append_nil]
  · intro h
    have hfield : fieldType false ⟨0, bs⟩ = .ok (t, ⟨0 + bs.length, []⟩) :=
      fieldType_eq_ok.2 ⟨bs, [], h, (List.append_nil _).symm, rfl⟩
    simp only [hfield, bind, Except.bind]
    exact finished_eq_ok.2 ⟨rfl, rfl⟩

theorem parseMethod_eq_ok {bs : List UInt8} {m : MethodType} :
    parseMethod bs = .ok m ↔ m.Spelled bs := by
  unfold parseMethod
  constructor
  · intro h
    split at h
    · rename_i hhead
      obtain ⟨bs, rfl⟩ := List.head?_eq_some_iff.1 hhead
      rw [List.drop_one, List.tail_cons] at h
      cases hparams : parameters ⟨1, bs⟩ with
      | error d => simp [hparams, bind, Except.bind] at h
      | ok p =>
        obtain ⟨params, s⟩ := p
        cases hresult : fieldType true s with
        | error d => simp [hparams, hresult, bind, Except.bind] at h
        | ok q =>
          obtain ⟨result, r⟩ := q
          simp only [hparams, hresult, bind, Except.bind, finished_eq_ok] at h
          obtain ⟨rfl, hend⟩ := h
          obtain ⟨cs, rest, hcs, hbs, rfl⟩ := parameters_eq_ok.1 hparams
          obtain ⟨ds, rest', ⟨hallowed, hspelled⟩, hrest, rfl⟩ := fieldType_eq_ok.1 hresult
          obtain rfl : rest' = [] := hend
          refine ⟨cs, ds, hcs, hallowed, hspelled, ?_⟩
          have hbs' : bs = cs ++ 0x29 :: rest := hbs
          rw [hbs', hrest, List.append_nil]
          rfl
    · cases h
  · rintro ⟨params, result, hparams, hallowed, hspelled, rfl⟩
    have hparams' : parameters ⟨1, params ++ 0x29 :: result⟩ =
        .ok (m.params, ⟨1 + params.length + 1, result⟩) :=
      parameters_eq_ok.2 ⟨params, result, hparams, rfl, rfl⟩
    have hresult : fieldType true ⟨1 + params.length + 1, result⟩ =
        .ok (m.result, ⟨1 + params.length + 1 + result.length, []⟩) :=
      fieldType_eq_ok.2 ⟨result, [], ⟨hallowed, hspelled⟩, (List.append_nil _).symm, rfl⟩
    rw [List.cons_append, List.head?_cons, if_pos rfl, List.drop_one, List.tail_cons]
    simp only [hparams', hresult, bind, Except.bind]
    exact finished_eq_ok.2 ⟨rfl, rfl⟩

/-- A name can be declared with a type exactly when the type is grammatical. -/
theorem exists_declaration_iff (desc name : String) :
    (∃ s, declaration desc name = .ok s) ↔ Grammatical (Text.encode desc) := by
  have hmap : (∃ s, declaration desc name = .ok s) ↔
      ∃ bs, format (Text.encode desc) (Text.encode name) = .ok bs := by
    simp only [declaration]
    cases format (Text.encode desc) (Text.encode name) with
    | error d => constructor <;> (rintro ⟨_, h⟩; cases h)
    | ok bs => exact ⟨fun _ => ⟨bs, rfl⟩, fun _ => ⟨_, rfl⟩⟩
  rw [hmap, format]
  generalize Text.encode desc = bs
  constructor
  · rintro ⟨cs, h⟩
    split at h
    · cases hm : parseMethod bs with
      | error d => simp [hm, Except.map] at h
      | ok m => exact .inr ⟨m, parseMethod_eq_ok.1 hm⟩
    · cases ht : parseField bs with
      | error d => simp [ht, Except.map] at h
      | ok t => exact .inl ⟨t, parseField_eq_ok.1 ht⟩
  · rintro (⟨t, ht⟩ | ⟨m, hm⟩)
    · obtain ⟨b, rest, rfl, hb, -⟩ := ht.2.head_ne
      rw [if_neg (by simpa using hb), parseField_eq_ok.2 ht]
      exact ⟨_, rfl⟩
    · have hhead : bs.head? = some 0x28 := by
        obtain ⟨_, _, _, _, _, rfl⟩ := hm
        rfl
      rw [if_pos hhead, parseMethod_eq_ok.2 hm]
      exact ⟨_, rfl⟩

end ClassAtlas.Descriptor
