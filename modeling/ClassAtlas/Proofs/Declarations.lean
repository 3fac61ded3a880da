import ClassAtlas.Proofs.DescriptorGrammar

/-! # Descriptors and declarations

The grammar of descriptors as it is usually given, with two attributes: the type that a byte string
means, and the text that source code has for this type.

    FieldType = BaseType | "L" ClassName ";" | "[" FieldType
    BaseType  = "B" | "C" | "D" | "F" | "I" | "J" | "S" | "Z"
    Method    = "(" { FieldType } ")" ( FieldType | "V" )

A class name is any non-empty byte string without a semicolon.

* `FieldSyntax`, `ParameterSyntax`, `ResultSyntax`, `MethodSyntax`: the grammar.
* `FieldSyntax.iff_spelled`, `MethodSyntax.iff_spelled`: it describes the bytes that types are written
  as.
* `parse_iff_grammar`: the parsers accept this grammar, and declarations show its texts.
-/

namespace ClassAtlas.Descriptor
set_option autoImplicit false

/-! ## The grammar -/

/-- The codes of the primitive types, and their names in source code. -/
def primitives : List (UInt8 × Base × String) :=
  [(0x42, .byte, "byte"), (0x43, .char, "char"), (0x44, .double, "double"), (0x46, .float, "float"),
    (0x49, .int, "int"), (0x4a, .long, "long"), (0x53, .short, "short"), (0x5a, .bool, "boolean")]

/-- The bytes are a field type, with this meaning and this text. -/
inductive FieldSyntax : List UInt8 → FieldType → List UInt8 → Prop
  | primitive {code : UInt8} {base : Base} {text : String} (h : (code, base, text) ∈ primitives) :
      FieldSyntax [code] ⟨0, base⟩ (Text.encode text)
  | object {name : List UInt8} (nonempty : name ≠ []) (closed : 0x3b ∉ name) :
      FieldSyntax (0x4c :: name ++ [0x3b]) ⟨0, .object (dotted name)⟩ (dotted name)
  | array {bs : List UInt8} {t : FieldType} {text : List UInt8} (element : FieldSyntax bs t text) :
      FieldSyntax (0x5b :: bs) ⟨t.dims + 1, t.base⟩ (text ++ Text.encode "[]")

inductive ParameterSyntax : List UInt8 → List FieldType → List (List UInt8) → Prop
  | nil : ParameterSyntax [] [] []
  | cons {bs cs : List UInt8} {t : FieldType} {ts : List FieldType} {text : List UInt8}
      {texts : List (List UInt8)} (head : FieldSyntax bs t text)
      (tail : ParameterSyntax cs ts texts) : ParameterSyntax (bs ++ cs) (t :: ts) (text :: texts)

inductive ResultSyntax : List UInt8 → FieldType → List UInt8 → Prop
  | void : ResultSyntax [0x56] ⟨0, .void⟩ (Text.encode "void")
  | value {bs : List UInt8} {t : FieldType} {text : List UInt8} (h : FieldSyntax bs t text) :
      ResultSyntax bs t text

/-- The bytes are a method type; its texts are that of the result and those of the parameters. -/
inductive MethodSyntax : List UInt8 → MethodType → List UInt8 → List (List UInt8) → Prop
  | method {ps rs : List UInt8} {ts : List FieldType} {r : FieldType} {text : List UInt8}
      {texts : List (List UInt8)} (params : ParameterSyntax ps ts texts)
      (result : ResultSyntax rs r text) :
      MethodSyntax (0x28 :: ps ++ 0x29 :: rs) ⟨ts, r⟩ text texts

/-! ## Texts -/

theorem FieldType.text_array (t : FieldType) :
    (FieldType.mk (t.dims + 1) t.base).text = t.text ++ Text.encode "[]" := by
  simp only [FieldType.text, List.replicate_succ', List.flatten_append, List.flatten_singleton,
    List.append_assoc]

theorem FieldType.text_of_base (base : Base) : (FieldType.mk 0 base).text = base.text := by
  simp only [FieldType.text, List.replicate_zero, List.flatten_nil, List.append_nil]

theorem text_of_primitive {code : UInt8} {base : Base} {text : String}
    (h : (code, base, text) ∈ primitives) : base.text = Text.encode text := by
  simp only [primitives, List.mem_cons, Prod.mk.injEq, List.not_mem_nil, or_false] at h
  rcases h with ⟨-, rfl, rfl⟩ | ⟨-, rfl, rfl⟩ | ⟨-, rfl, rfl⟩ | ⟨-, rfl, rfl⟩ | ⟨-, rfl, rfl⟩
    | ⟨-, rfl, rfl⟩ | ⟨-, rfl, rfl⟩ | ⟨-, rfl, rfl⟩ <;> rfl

theorem primitive_iff {base : Base} {code : UInt8} : (∃ text, (code, base, text) ∈ primitives) ↔
    base ≠ .void ∧ (∀ name, base ≠ .object name) ∧ code = UInt8.ofNat base.code.toNat := by
  cases base <;> simp [primitives, Base.code]

/-! ## The grammar and the bytes of types -/

namespace FieldSyntax

variable {bs : List UInt8} {t : FieldType} {text : List UInt8}

theorem spelled (h : FieldSyntax bs t text) :
    t.Allowed false ∧ t.Spelled bs ∧ text = t.text := by
  induction h with
  | primitive hcode =>
    have hbase := primitive_iff.1 ⟨_, hcode⟩
    obtain ⟨hvoid, hobject, rfl⟩ := hbase
    refine ⟨fun hv => absurd hv hvoid, ⟨_, .primitive hobject, rfl⟩, ?_⟩
    rw [FieldType.text_of_base, text_of_primitive hcode]
  | object nonempty closed =>
    refine ⟨nofun, ⟨_, .object nonempty closed, rfl⟩, ?_⟩
    rw [FieldType.text_of_base]
    rfl
  | @array bs t text element ih =>
    obtain ⟨hallowed, ⟨tail, htail, hbs⟩, htext⟩ := ih
    refine ⟨?_, ⟨tail, htail, ?_⟩, ?_⟩
    · intro hvoid
      have hfalse := (hallowed hvoid).1
      cases hfalse
    · rw [hbs, List.replicate_succ, List.cons_append]
    · rw [FieldType.text_array, htext]

theorem of_base {base : Base} {tail : List UInt8} (hvoid : base ≠ .void) (h : base.Spelled tail) :
    FieldSyntax tail ⟨0, base⟩ base.text := by
  cases h with
  | primitive hobject =>
    have hcode := primitive_iff.2 ⟨hvoid, hobject, rfl⟩
    obtain ⟨text, hmem⟩ := hcode
    rw [text_of_primitive hmem]
    exact .primitive hmem
  | object nonempty closed => exact .object nonempty closed

theorem of_spelled (hallowed : t.Allowed false) (h : t.Spelled bs) : FieldSyntax bs t t.text := by
  obtain ⟨dims, base⟩ := t
  obtain ⟨tail, htail, rfl⟩ := h
  have hvoid : base ≠ .void := by
    intro hv
    have hfalse := (hallowed hv).1
    cases hfalse
  induction dims with
  | zero =>
    have hbase := of_base hvoid htail
    rwa [← FieldType.text_of_base] at hbase
  | succ dims ih =>
    have helement := ih (fun hv => absurd hv hvoid) htail
    have harray := helement.array
    rwa [← FieldType.text_array] at harray

theorem iff_spelled : FieldSyntax bs t text ↔ t.Allowed false ∧ t.Spelled bs ∧ text = t.text := by
  constructor
  · exact spelled
  · rintro ⟨hallowed, hspelled, rfl⟩
    exact of_spelled hallowed hspelled

/-- The code of the element type stands after the dimensions. -/
theorem code_at (h : FieldSyntax bs t text) :
    bs[t.dims]? = some (UInt8.ofNat t.base.code.toNat) := by
  obtain ⟨-, ⟨tail, htail, rfl⟩, -⟩ := h.spelled
  have hskip : (List.replicate t.dims (0x5b : UInt8) ++ tail)[t.dims]? = tail[0]? := by
    rw [List.getElem?_append_right (by simp), List.length_replicate, Nat.sub_self]
  rw [hskip]
  generalize t.base = base at htail
  cases htail with
  | primitive => rfl
  | object => rfl

end FieldSyntax

namespace ParameterSyntax

variable {bs : List UInt8} {ts : List FieldType} {texts : List (List UInt8)}

theorem iff_spelled : ParameterSyntax bs ts texts ↔
    ParametersSpelled ts bs ∧ texts = ts.map FieldType.text := by
  constructor
  · intro h
    induction h with
    | nil => exact ⟨.nil, rfl⟩
    | cons head tail ih =>
      obtain ⟨hallowed, hspelled, rfl⟩ := head.spelled
      exact ⟨.cons hallowed hspelled ih.1, by rw [ih.2, List.map_cons]⟩
  · rintro ⟨h, rfl⟩
    induction h with
    | nil => exact .nil
    | cons hallowed hhead htail ih => exact .cons (.of_spelled hallowed hhead) ih

end ParameterSyntax

theorem ResultSyntax.iff_spelled {bs : List UInt8} {t : FieldType} {text : List UInt8} :
    ResultSyntax bs t text ↔ t.Allowed true ∧ t.Spelled bs ∧ text = t.text := by
  constructor
  · intro h
    cases h with
    | void => exact ⟨fun _ => ⟨rfl, rfl⟩, ⟨_, .primitive nofun, rfl⟩, rfl⟩
    | value h =>
      obtain ⟨hallowed, hspelled, htext⟩ := h.spelled
      exact ⟨fun hvoid => absurd (hallowed hvoid).1 Bool.false_ne_true, hspelled, htext⟩
  · rintro ⟨hallowed, hspelled, rfl⟩
    by_cases hvoid : t.base = .void
    · obtain ⟨dims, base⟩ := t
      obtain rfl : base = .void := hvoid
      obtain rfl : dims = 0 := (hallowed rfl).2
      obtain ⟨tail, htail, rfl⟩ := hspelled
      cases htail with
      | primitive => exact .void
    · exact .value (.of_spelled (fun hv => absurd hv hvoid) hspelled)

theorem MethodSyntax.iff_spelled {bs : List UInt8} {m : MethodType} {text : List UInt8}
    {texts : List (List UInt8)} : MethodSyntax bs m text texts ↔
      m.Spelled bs ∧ text = m.result.text ∧ texts = m.params.map FieldType.text := by
  constructor
  · rintro ⟨hparams, hresult⟩
    obtain ⟨hps, rfl⟩ := ParameterSyntax.iff_spelled.1 hparams
    obtain ⟨hallowed, hspelled, rfl⟩ := ResultSyntax.iff_spelled.1 hresult
    exact ⟨⟨_, _, hps, hallowed, hspelled, rfl⟩, rfl, rfl⟩
  · rintro ⟨⟨ps, rs, hps, hallowed, hspelled, rfl⟩, rfl, rfl⟩
    exact .method (ParameterSyntax.iff_spelled.2 ⟨hps, rfl⟩)
      (ResultSyntax.iff_spelled.2 ⟨hallowed, hspelled, rfl⟩)

/-! ## The parsers -/

theorem parseField_iff {d : List UInt8} {t : FieldType} :
    parseField d = .ok t ↔ FieldSyntax d t t.text := by
  rw [parseField_eq_ok, FieldSyntax.iff_spelled]
  simp only [and_true]

theorem parseMethod_iff {d : List UInt8} {m : MethodType} :
    parseMethod d = .ok m ↔ MethodSyntax d m m.result.text (m.params.map FieldType.text) := by
  rw [parseMethod_eq_ok, MethodSyntax.iff_spelled]
  simp only [and_true]

/-- The first byte of a descriptor tells fields and methods apart. -/
theorem FieldSyntax.head_ne {d : List UInt8} {t : FieldType} {text : List UInt8}
    (h : FieldSyntax d t text) : d.head? ≠ some 0x28 := by
  obtain ⟨b, rest, rfl, hb, -⟩ := h.spelled.2.1.head_ne
  simpa using hb

theorem MethodSyntax.head_eq {d : List UInt8} {m : MethodType} {text : List UInt8}
    {texts : List (List UInt8)} (h : MethodSyntax d m text texts) : d.head? = some 0x28 := by
  cases h
  rfl

theorem format_of_field {d : List UInt8} {t : FieldType} {text : List UInt8}
    (h : FieldSyntax d t text) (name : List UInt8) :
    format d name =
      .ok (if name = [] then text else text ++ Text.encode " " ++ name) := by
  obtain ⟨hallowed, hspelled, rfl⟩ := h.spelled
  have hparse := parseField_eq_ok.2 ⟨hallowed, hspelled⟩
  rw [format, if_neg h.head_ne, hparse]
  simp only [Except.map, FieldType.declare, List.isEmpty_iff]

theorem format_of_method {d : List UInt8} {m : MethodType} {text : List UInt8}
    {texts : List (List UInt8)} (h : MethodSyntax d m text texts) (name : List UInt8) :
    format d name = .ok (text ++ Text.encode " " ++ name ++ Text.encode "("
      ++ (Text.encode ", ").intercalate texts ++ Text.encode ")") := by
  obtain ⟨hspelled, rfl, rfl⟩ := MethodSyntax.iff_spelled.1 h
  have hparse := parseMethod_eq_ok.2 hspelled
  rw [format, if_pos h.head_eq, hparse]
  rfl

theorem grammar_of_format {d name out : List UInt8} (h : format d name = .ok out) :
    (∃ t text, FieldSyntax d t text) ∨ ∃ m text texts, MethodSyntax d m text texts := by
  rw [format] at h
  split at h
  · cases hm : parseMethod d with
    | error defect => simp [hm, Except.map] at h
    | ok m => exact .inr ⟨m, _, _, parseMethod_iff.1 hm⟩
  · cases ht : parseField d with
    | error defect => simp [ht, Except.map] at h
    | ok t => exact .inl ⟨t, _, parseField_iff.1 ht⟩

/-- **Descriptors.** The parsers accept exactly the grammar, over all byte strings, and what they give
is the one type that the grammar gives. No byte string is both a field type and a method type. A name
can be declared with a descriptor exactly when the descriptor is one of the two, and the declaration
is `type name`, or the type alone for an empty name, and `result name(parameter, …)`. -/
theorem parse_iff_grammar (d : List UInt8) :
    (∀ t, parseField d = .ok t ↔ ∃ text, FieldSyntax d t text)
      ∧ (∀ m, parseMethod d = .ok m ↔ ∃ text texts, MethodSyntax d m text texts)
      ∧ (∀ t text, FieldSyntax d t text → d[t.dims]? = some (UInt8.ofNat t.base.code.toNat)
        ∧ ∀ t' text', FieldSyntax d t' text' → t' = t ∧ text' = text)
      ∧ (∀ m text texts, MethodSyntax d m text texts →
        ∀ m' text' texts', MethodSyntax d m' text' texts' →
          m' = m ∧ text' = text ∧ texts' = texts)
      ∧ ¬ ((∃ t, parseField d = .ok t) ∧ ∃ m, parseMethod d = .ok m)
      ∧ ∀ name out, format d name = .ok out ↔
        (∃ t text, FieldSyntax d t text
          ∧ out = if name = [] then text else text ++ Text.encode " " ++ name)
        ∨ ∃ m text texts, MethodSyntax d m text texts
          ∧ out = text ++ Text.encode " " ++ name ++ Text.encode "("
            ++ (Text.encode ", ").intercalate texts ++ Text.encode ")" := by
  have hfield : ∀ t text, FieldSyntax d t text → parseField d = .ok t ∧ text = t.text := by
    intro t text h
    obtain ⟨hallowed, hspelled, htext⟩ := h.spelled
    exact ⟨parseField_eq_ok.2 ⟨hallowed, hspelled⟩, htext⟩
  have hmethod : ∀ m text texts, MethodSyntax d m text texts →
      parseMethod d = .ok m ∧ text = m.result.text ∧ texts = m.params.map FieldType.text := by
    intro m text texts h
    obtain ⟨hspelled, htexts⟩ := MethodSyntax.iff_spelled.1 h
    exact ⟨parseMethod_eq_ok.2 hspelled, htexts⟩
  refine ⟨fun t => ?_, fun m => ?_, fun t text h => ⟨h.code_at, fun t' text' h' => ?_⟩,
    fun m text texts h m' text' texts' h' => ?_, ?_, fun name out => ?_⟩
  · exact ⟨fun h => ⟨_, parseField_iff.1 h⟩, fun ⟨text, h⟩ => (hfield t text h).1⟩
  · exact ⟨fun h => ⟨_, _, parseMethod_iff.1 h⟩,
      fun ⟨text, texts, h⟩ => (hmethod m text texts h).1⟩
  · obtain ⟨hparse, htext⟩ := hfield t text h
    obtain ⟨hparse', htext'⟩ := hfield t' text' h'
    obtain rfl : t' = t := Except.ok.inj (hparse'.symm.trans hparse)
    exact ⟨rfl, htext'.trans htext.symm⟩
  · obtain ⟨hparse, htext, htexts⟩ := hmethod m text texts h
    obtain ⟨hparse', htext', htexts'⟩ := hmethod m' text' texts' h'
    obtain rfl : m' = m := Except.ok.inj (hparse'.symm.trans hparse)
    exact ⟨rfl, htext'.trans htext.symm, htexts'.trans htexts.symm⟩
  · rintro ⟨⟨t, ht⟩, m, hm⟩
    exact (parseField_iff.1 ht).head_ne (parseMethod_iff.1 hm).head_eq
  · constructor
    · intro h
      rcases grammar_of_format h with ⟨t, text, hgrammar⟩ | ⟨m, text, texts, hgrammar⟩
      · have hformat := format_of_field hgrammar name
        exact .inl ⟨t, text, hgrammar, Except.ok.inj (h.symm.trans hformat)⟩
      · have hformat := format_of_method hgrammar name
        exact .inr ⟨m, text, texts, hgrammar, Except.ok.inj (h.symm.trans hformat)⟩
    · rintro (⟨t, text, hgrammar, rfl⟩ | ⟨m, text, texts, hgrammar, rfl⟩)
      · exact format_of_field hgrammar name
      · exact format_of_method hgrammar name

end ClassAtlas.Descriptor
