import ClassAtlas.Attribute.Reading
import ClassAtlas.Proofs.Declarations
import ClassAtlas.Proofs.ModifiedText
import ClassAtlas.Release

/-! # Control characters

A control character stands in a text that is made from other texts only if it stands in one of those.
The words, numerals and marks that are added on the way have none: whether a name can move the cursor
or break a line depends on the texts of the file alone. The same is said of bytes, since declarations
are made from bytes.

* `Control`, `Lacks k s`: a control character, and a text without it.
* `lacks_nat`, `lacks_int`, `Text.lacks_hex`, `Decimal.Format.lacks_literal`: numerals.
* `Text.byte_mem_encode`, `Text.char_mem_decode`: UTF-8 keeps control characters as they are.
* `Descriptor.lacks_declaration`: the declaration of a name.
-/

namespace ClassAtlas
set_option autoImplicit false

/-- A character below the first printable one. -/
structure Control where
  char : Char
  low : char < ' '

namespace Control

def escape : Control := ⟨'\x1b', by decide⟩

def carriageReturn : Control := ⟨'\r', by decide⟩

def lineFeed : Control := ⟨'\n', by decide⟩

/-- The one byte that the character has in UTF-8. -/
def byte (k : Control) : UInt8 :=
  UInt8.ofNat k.char.toNat

end Control

/-- The control character does not stand in the text. -/
def Lacks (k : Control) (s : String) : Prop :=
  k.char ∉ s.toList

variable {k : Control}

theorem Control.toNat_lt (k : Control) : k.char.toNat < 0x20 := by
  have hlow : k.char.val < ' '.val := k.low
  exact UInt32.lt_iff_toNat_lt.1 hlow

theorem Control.toNat_byte (k : Control) : k.byte.toNat = k.char.toNat := by
  have hlow := k.toNat_lt
  rw [byte, UInt8.toNat_ofNat', Nat.mod_eq_of_lt (by omega)]

/-- A printable character is no control character. -/
theorem Control.ne_of_le (k : Control) {c : Char} (h : ' ' ≤ c) : k.char ≠ c := by
  rintro rfl
  exact absurd k.low (Char.not_lt.2 h)

/-! ## Texts from texts -/

/-- The text has no control characters at all, like the words of a listing. -/
def Printed (s : String) : Prop :=
  s.toList.all (' ' ≤ ·) = true

instance (s : String) : Decidable (Printed s) :=
  inferInstanceAs (Decidable (_ = true))

theorem Lacks.printed {s : String} (h : Printed s) : Lacks k s :=
  fun hmem => k.ne_of_le (of_decide_eq_true (List.all_eq_true.1 h _ hmem)) rfl

@[simp] theorem lacks_empty : Lacks k "" :=
  .printed (by decide)

@[simp] theorem lacks_append {s t : String} : Lacks k (s ++ t) ↔ Lacks k s ∧ Lacks k t := by
  simp only [Lacks, String.toList_append, List.mem_append, not_or]

theorem lacks_ofList {cs : List Char} : Lacks k (String.ofList cs) ↔ k.char ∉ cs := by
  rw [Lacks, String.toList_ofList]

theorem Lacks.replicate (n : Nat) {c : Char} (h : ' ' ≤ c) : k.char ∉ List.replicate n c :=
  fun hmem => k.ne_of_le h (List.eq_of_mem_replicate hmem)

theorem Lacks.join {ss : List String} (h : ∀ s ∈ ss, Lacks k s) : Lacks k (String.join ss) := by
  rw [Lacks, String.toList_join, List.mem_flatMap]
  rintro ⟨s, hs, hmem⟩
  exact h s hs hmem

theorem Lacks.intercalate {separator : String} {ss : List String} (hsep : Lacks k separator)
    (h : ∀ s ∈ ss, Lacks k s) : Lacks k (separator.intercalate ss) := by
  induction ss with
  | nil => exact lacks_empty
  | cons s ss ih =>
    have hall := List.forall_mem_cons.1 h
    cases ss with
    | nil => simpa using hall.1
    | cons t ss =>
      rw [String.intercalate_cons_cons, lacks_append, lacks_append]
      exact ⟨⟨hall.1, hsep⟩, ih hall.2⟩

theorem Lacks.map {f : Char → Char} {s : String} (hf : ∀ c, f c = c ∨ ' ' ≤ f c) (h : Lacks k s) :
    Lacks k (s.map f) := by
  rw [Lacks, String.toList_map, List.mem_map]
  rintro ⟨c, hc, hk⟩
  rcases hf c with heq | hle
  · rw [heq] at hk
    exact h (hk ▸ hc)
  · exact k.ne_of_le hle hk.symm

/-! ## Numerals and columns -/

theorem Control.not_mem_toDigits (k : Control) {base : Nat} (hbase : 1 < base) (hle : base ≤ 16)
    (n : Nat) : k.char ∉ Nat.toDigits base n := by
  have hdigit : ∀ m < 16, ' ' ≤ Nat.digitChar m := by decide
  induction n using Nat.strongRecOn with
  | ind n ih =>
    rw [Nat.toDigits_eq_if hbase]
    split
    · exact fun hmem => k.ne_of_le (hdigit n (by omega)) (List.mem_singleton.1 hmem)
    · have hlast := Nat.mod_lt n (Nat.zero_lt_of_lt hbase)
      rw [List.mem_append, List.mem_singleton]
      rintro (hmem | hmem)
      · exact ih _ (Nat.div_lt_self (by omega) hbase) hmem
      · exact k.ne_of_le (hdigit _ (by omega)) hmem

@[simp] theorem lacks_nat (n : Nat) : Lacks k (toString n) := by
  rw [Nat.toString_eq_repr, Nat.repr, lacks_ofList]
  exact k.not_mem_toDigits (by decide) (by decide) n

@[simp] theorem lacks_int (n : Int) : Lacks k (toString n) := by
  cases n with
  | ofNat n => exact lacks_nat n
  | negSucc n =>
    rw [Int.toString_eq_repr, Int.repr, lacks_append]
    exact ⟨.printed (by decide), lacks_nat (n + 1)⟩

namespace Text

@[simp] theorem lacks_hex (width n : Nat) : Lacks k (hex width n) := by
  rw [hex, lacks_ofList, List.mem_append]
  rintro (hmem | hmem)
  · exact Lacks.replicate _ (by decide) hmem
  · exact k.not_mem_toDigits (by decide) (by decide) n hmem

@[simp] theorem lacks_hexUpper (width n : Nat) : Lacks k (hexUpper width n) := by
  refine Lacks.map (fun c => ?_) (lacks_hex width n)
  unfold Char.toUpper
  split
  · rename_i h
    refine .inr ?_
    have hlo : 97 ≤ c.val.toNat := UInt32.le_iff_toNat_le.1 h.1
    have hhi : c.val.toNat ≤ 122 := UInt32.le_iff_toNat_le.1 h.2
    have hdown : ('A'.val - 'a'.val).toNat = 2 ^ 32 - 32 := by decide
    have hspace : ' '.val.toNat = 32 := by decide
    show ' '.val ≤ c.val + ('A'.val - 'a'.val)
    rw [UInt32.le_iff_toNat_le, UInt32.toNat_add, hdown, hspace]
    omega
  · exact .inl rfl

@[simp] theorem lacks_hexBytes (bs : List UInt8) : Lacks k (hexBytes bs) := by
  refine Lacks.join fun s hs => ?_
  obtain ⟨b, -, rfl⟩ := List.mem_map.1 hs
  exact lacks_hex 2 _

@[simp] theorem lacks_justifyLeft {width : Nat} {s : String} :
    Lacks k (justifyLeft width s) ↔ Lacks k s := by
  rw [justifyLeft, lacks_append, lacks_ofList, and_iff_left (Lacks.replicate _ (by decide))]

@[simp] theorem lacks_justifyRight {width : Nat} {s : String} :
    Lacks k (justifyRight width s) ↔ Lacks k s := by
  rw [justifyRight, lacks_append, lacks_ofList, and_iff_right (Lacks.replicate _ (by decide))]

end Text

namespace Decimal

theorem lacks_positional {ds : List Char} (hds : k.char ∉ ds) (e : Int) :
    Lacks k (positional ds e) := by
  have hzeros : ∀ n, k.char ∉ List.replicate n '0' := fun n => Lacks.replicate n (by decide)
  have hpadded : ∀ n, k.char ∉ List.replicate n '0' ++ ds := fun n hmem =>
    (List.mem_append.1 hmem).elim (hzeros n) hds
  unfold positional
  split
  · rw [lacks_ofList, List.mem_append]
    exact fun hmem => hmem.elim hds (hzeros _)
  · rw [lacks_ofList, List.mem_append, List.mem_cons]
    rintro (hmem | hpoint | hmem)
    · exact hpadded _ (List.mem_of_mem_take hmem)
    · exact k.ne_of_le (by decide) hpoint
    · exact hpadded _ (List.mem_of_mem_drop hmem)

theorem lacks_scientific {ds : List Char} (hds : k.char ∉ ds) (e : Int) :
    Lacks k (scientific ds e) := by
  have hsize : ∀ n m, k.char ∉ List.replicate n '0' ++ digits m := fun n m hmem =>
    (List.mem_append.1 hmem).elim (Lacks.replicate n (by decide))
      (k.not_mem_toDigits (by decide) (by decide) m)
  have hfraction : Lacks k (if (ds.drop 1).isEmpty then "" else "." ++ String.ofList (ds.drop 1)) := by
    split
    · exact lacks_empty
    · exact lacks_append.2
        ⟨.printed (by decide), lacks_ofList.2 fun hmem => hds (List.mem_of_mem_drop hmem)⟩
  have hsign : ∀ p : Prop, ∀ [Decidable p], Lacks k (if p then "-" else "+") := by
    intro p _
    split <;> exact .printed (by decide)
  simp only [scientific, lacks_append, lacks_ofList]
  exact ⟨⟨⟨⟨fun hmem => hds (List.mem_of_mem_take hmem), hfraction⟩, .printed (by decide)⟩,
    hsign _⟩, hsize _ _⟩

theorem lacks_decimalText (n : Nat) (e : Int) : Lacks k (decimalText n e) := by
  have hdigits : k.char ∉ digits n := k.not_mem_toDigits (by decide) (by decide) n
  unfold decimalText
  dsimp only
  split
  · exact lacks_scientific hdigits e
  · exact lacks_positional hdigits e

theorem Format.lacks_magnitude (f : Format) (raw : Nat) : Lacks k (f.magnitude raw) := by
  unfold magnitude
  dsimp only
  split
  · split
    · exact .printed (by decide)
    · exact lacks_decimalText _ _
  · exact lacks_decimalText _ _

theorem Format.lacks_literal (f : Format) (raw : Nat) : Lacks k (f.literal raw) := by
  unfold literal
  dsimp only
  split
  · repeat' split
    all_goals exact .printed (by decide)
  · refine lacks_append.2 ⟨?_, f.lacks_magnitude raw⟩
    split <;> exact .printed (by decide)

end Decimal

/-! ## Bytes -/

namespace Text

theorem scalar?_eq_some {least n : Nat} {c : Char} (h : scalar? least n = some c) :
    least ≤ n ∧ c.toNat = n := by
  unfold scalar? at h
  by_cases hleast : least ≤ n
  · rw [if_pos hleast] at h
    by_cases hvalid : n.isValidChar
    · rw [dif_pos hvalid] at h
      cases h
      exact ⟨hleast, rfl⟩
    · rw [dif_neg hvalid] at h
      cases h
  · rw [if_neg hleast] at h
    cases h

/-- A character below U+0080 is read from the one byte that it is. -/
theorem leading?_low {b : UInt8} {bs : List UInt8} {c : Char} {n : Nat}
    (h : leading? b bs = some (c, n)) (hc : c.toNat < 0x80) : c.toNat = b.toNat := by
  unfold leading? at h
  repeat' split at h
  all_goals
    first
      | cases h
      | obtain ⟨d, hd, hpair⟩ := Option.map_eq_some_iff.1 h
        obtain ⟨hleast, hnat⟩ := scalar?_eq_some hd
        cases hpair
        omega

theorem char_mem_decode {bs : List UInt8} (h : k.char ∈ (decode bs).toList) : k.byte ∈ bs := by
  rw [decode, String.toList_ofList, List.mem_map] at h
  obtain ⟨piece, hpiece, hk⟩ := h
  fun_induction pieces bs with
  | case1 => cases hpiece
  | case2 b bs c n hlead ih =>
    rcases List.mem_cons.1 hpiece with rfl | htail
    · have hlow := k.toNat_lt
      obtain rfl : c = k.char := hk
      have hb := leading?_low hlead (by omega)
      refine List.mem_cons.2 (.inl (UInt8.toNat_inj.1 ?_))
      rw [k.toNat_byte, hb]
    · exact .tail _ (List.mem_of_mem_drop (ih htail))
  | case3 b bs hlead ih =>
    rcases List.mem_cons.1 hpiece with rfl | htail
    · have hprintable : ' ' ≤ replacement := by decide
      exact absurd hk.symm (k.ne_of_le hprintable)
    · exact .tail _ (ih htail)

theorem byte_mem_utf8EncodeChar {c : Char} (h : k.byte ∈ String.utf8EncodeChar c) : k.char = c := by
  have hbyte := k.toNat_byte
  have hlow := k.toNat_lt
  have hval : c.val.toNat = c.toNat := rfl
  have hhigh : ∀ n, 0x80 ≤ n % 256 → k.byte ≠ UInt8.ofNat n := by
    intro n hn heq
    have hnat := congrArg UInt8.toNat heq
    rw [hbyte, UInt8.toNat_ofNat'] at hnat
    omega
  simp only [String.utf8EncodeChar, hval] at h
  split at h
  · have hnat := congrArg UInt8.toNat (List.mem_singleton.1 h)
    rw [hbyte, UInt8.toNat_ofNat'] at hnat
    exact Char.toNat_inj.1 (by omega)
  split at h
  · simp only [List.mem_cons, List.not_mem_nil, or_false] at h
    rcases h with h | h <;> exact absurd h (hhigh _ (by omega))
  split at h
  · simp only [List.mem_cons, List.not_mem_nil, or_false] at h
    rcases h with h | h | h <;> exact absurd h (hhigh _ (by omega))
  · simp only [List.mem_cons, List.not_mem_nil, or_false] at h
    rcases h with h | h | h | h <;> exact absurd h (hhigh _ (by omega))

theorem byte_mem_encode {s : String} (h : k.byte ∈ encode s) : k.char ∈ s.toList := by
  have hbytes := encode_ofList s.toList
  rw [String.ofList_toList] at hbytes
  rw [hbytes, List.mem_flatMap] at h
  obtain ⟨c, hc, hmem⟩ := h
  exact byte_mem_utf8EncodeChar hmem ▸ hc

end Text

/-! ## Declarations -/

namespace Descriptor

theorem byte_not_mem_dotted {name : List UInt8} (h : k.byte ∉ name) : k.byte ∉ dotted name := by
  rw [dotted, List.mem_map]
  rintro ⟨b, hb, hk⟩
  split at hk
  · have hnat := congrArg UInt8.toNat hk
    have hlow := k.toNat_lt
    rw [k.toNat_byte] at hnat
    simp at hnat
    omega
  · exact h (hk ▸ hb)

theorem lacks_dottedName {s : String} (h : Lacks k s) : Lacks k (dottedName s) := by
  refine h.map fun c => ?_
  split
  · exact .inr (by decide)
  · exact .inl rfl

theorem byte_not_mem_word {s : String} (h : Printed s) : k.byte ∉ Text.encode s :=
  fun hmem => Lacks.printed h (Text.byte_mem_encode hmem)

theorem FieldSyntax.byte_not_mem {bs text : List UInt8} {t : FieldType} (h : FieldSyntax bs t text)
    (hbs : k.byte ∉ bs) : k.byte ∉ text := by
  induction h with
  | @primitive code base text hprim =>
    refine byte_not_mem_word ?_
    have hall : ∀ p ∈ primitives, Printed p.2.2 := by decide
    exact hall _ hprim
  | object nonempty closed =>
    refine byte_not_mem_dotted fun hmem => hbs ?_
    exact .tail _ (List.mem_append_left _ hmem)
  | array element ih =>
    rw [List.mem_append]
    rintro (hmem | hmem)
    · exact ih (fun hb => hbs (.tail _ hb)) hmem
    · exact byte_not_mem_word (by decide) hmem

theorem ParameterSyntax.byte_not_mem {bs : List UInt8} {ts : List FieldType}
    {texts : List (List UInt8)} (h : ParameterSyntax bs ts texts) (hbs : k.byte ∉ bs) :
    ∀ text ∈ texts, k.byte ∉ text := by
  induction h with
  | nil => exact fun text htext => nomatch htext
  | cons head tail ih =>
    rw [List.mem_append, not_or] at hbs
    exact List.forall_mem_cons.2 ⟨head.byte_not_mem hbs.1, ih hbs.2⟩

theorem ResultSyntax.byte_not_mem {bs text : List UInt8} {t : FieldType} (h : ResultSyntax bs t text)
    (hbs : k.byte ∉ bs) : k.byte ∉ text := by
  cases h with
  | void => exact byte_not_mem_word (by decide)
  | value h => exact h.byte_not_mem hbs

theorem byte_not_mem_intercalate {separator : List UInt8} {texts : List (List UInt8)}
    (hsep : k.byte ∉ separator) (h : ∀ text ∈ texts, k.byte ∉ text) :
    k.byte ∉ separator.intercalate texts := by
  induction texts with
  | nil => simp
  | cons text texts ih =>
    have hall := List.forall_mem_cons.1 h
    cases texts with
    | nil => simpa using hall.1
    | cons text' texts =>
      rw [List.intercalate_cons_cons, List.mem_append, List.mem_append]
      rintro ((hmem | hmem) | hmem)
      · exact hall.1 hmem
      · exact hsep hmem
      · exact ih hall.2 hmem

theorem byte_not_mem_format {d name out : List UInt8} (h : format d name = .ok out)
    (hd : k.byte ∉ d) (hname : k.byte ∉ name) : k.byte ∉ out := by
  rcases grammar_of_format h with ⟨t, text, hgrammar⟩ | ⟨m, text, texts, hgrammar⟩
  · obtain rfl := Except.ok.inj (h.symm.trans (format_of_field hgrammar name))
    have htext := hgrammar.byte_not_mem hd
    split
    · exact htext
    · rw [List.mem_append, List.mem_append]
      rintro ((hmem | hmem) | hmem)
      · exact htext hmem
      · exact byte_not_mem_word (by decide) hmem
      · exact hname hmem
  · obtain rfl := Except.ok.inj (h.symm.trans (format_of_method hgrammar name))
    cases hgrammar with
    | @method ps rs ts r text texts params result =>
      have hps : k.byte ∉ ps := fun hmem => hd (by simp [hmem])
      have hrs : k.byte ∉ rs := fun hmem => hd (by simp [hmem])
      have hcomma := byte_not_mem_intercalate (byte_not_mem_word (s := ", ") (by decide))
        (params.byte_not_mem hps)
      simp only [List.mem_append]
      rintro (((((hmem | hmem) | hmem) | hmem) | hmem) | hmem)
      · exact result.byte_not_mem hrs hmem
      · exact byte_not_mem_word (by decide) hmem
      · exact hname hmem
      · exact byte_not_mem_word (by decide) hmem
      · exact hcomma hmem
      · exact byte_not_mem_word (by decide) hmem

/-- The declaration of a name is made from the name and the descriptor. -/
theorem lacks_declaration {desc name s : String} (h : declaration desc name = .ok s)
    (hdesc : Lacks k desc) (hname : Lacks k name) : Lacks k s := by
  simp only [declaration] at h
  cases hformat : format (Text.encode desc) (Text.encode name) with
  | error defect =>
    rw [hformat] at h
    cases h
  | ok out =>
    rw [hformat] at h
    cases h
    intro hmem
    exact byte_not_mem_format hformat (fun hb => hdesc (Text.byte_mem_encode hb))
      (fun hb => hname (Text.byte_mem_encode hb)) (Text.char_mem_decode hmem)

end Descriptor

/-! ## Words -/

/-- No word of the table has a control character. -/
abbrev AllPrinted (words : List String) : Prop :=
  ∀ s ∈ words, Printed s

@[simp] theorem Tag.lacks_name (t : Tag) : Lacks k t.name := by
  cases t <;> exact .printed (by decide)

theorem ReferenceKind.lacks_describe (code : UInt8) : Lacks k (ReferenceKind.describe code) := by
  unfold ReferenceKind.describe
  split
  case h_10 => exact lacks_append.2 ⟨.printed (by decide), lacks_nat _⟩
  all_goals exact .printed (by decide)

theorem FlagTable.lacks_describe {table : FlagTable} (h : AllPrinted (table.map (·.name)))
    (mask : Nat) : Lacks k (table.describe mask) := by
  refine Lacks.intercalate (.printed (by decide)) fun s hs => ?_
  obtain ⟨flag, hflag, rfl⟩ := List.mem_map.1 hs
  exact .printed (h _ (List.mem_map.2 ⟨flag, (List.mem_filter.1 hflag).1, rfl⟩))

namespace Opcode

theorem lacks_mnemonic {code : UInt8} {name : String} (h : mnemonic? code = some name) :
    Lacks k name := by
  have hall : AllPrinted mnemonics.toList := by decide +kernel
  unfold mnemonic? at h
  split at h
  · cases h
    exact .printed (by decide)
  split at h
  · cases h
    exact .printed (by decide)
  · obtain ⟨hlt, rfl⟩ := Array.getElem?_eq_some_iff.1 h
    exact .printed (hall _ (Array.getElem_mem_toList hlt))

theorem lacks_elementType {code : Nat} {name : String} (h : elementType? code = some name) :
    Lacks k name := by
  unfold elementType? at h
  split at h
  all_goals cases h
  all_goals exact .printed (by decide)

end Opcode

theorem lacks_release {major : Nat} {s : String} (h : releaseOf? major = some s) : Lacks k s := by
  unfold releaseOf? at h
  split at h
  · cases h
    exact lacks_append.2 ⟨.printed (by decide), lacks_nat _⟩
  split at h
  · cases h
    exact lacks_append.2 ⟨.printed (by decide), lacks_nat _⟩
  · cases h

end ClassAtlas
