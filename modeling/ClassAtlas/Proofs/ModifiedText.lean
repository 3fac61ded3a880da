import ClassAtlas.Proofs.Format
import ClassAtlas.Text.ModifiedUtf8

/-! # Text in modified UTF-8

The encoding that class files store text in, and what decoding makes of it. A text below U+10000 comes
back as it was, whatever bytes follow it; each other character comes back as two U+FFFD, one for each
of its surrogates. Of bytes that are no text at all, decoding still makes a text, with no more
characters than there are bytes.

* `Continues`, `HeadOfTwo`, `HeadOfThree`, `HeadOfFour`: the parts that a byte plays in a sequence.
* `decode?_encode`: the UTF-8 bytes of a text are well formed.
* `Modified.encode s`: the bytes that a class file stores for a text.
* `Modified.shown c`: what a decoded text shows for a character.
* `Modified.chars_encode`: decoding passes over the bytes of a text and resumes after them.
* `Modified.decode_resumes`: what decoding makes of a text, and of any bytes.
-/

namespace ClassAtlas.Text
set_option autoImplicit false

/-! ## The bytes of a sequence -/

/-- The byte continues a sequence with the six bits of `k`. -/
structure Continues (b : UInt8) (k : Nat) : Prop where
  mark : isContinuation b = true
  bits : payload b = k

/-- The byte starts a sequence of two bytes with the five bits of `k`. -/
structure HeadOfTwo (b : UInt8) (k : Nat) : Prop where
  high : 0x80 ≤ b
  mark : b &&& 0xe0 = 0xc0
  bits : (b &&& 0x1f).toNat = k

/-- The byte starts a sequence of three bytes with the four bits of `k`. -/
structure HeadOfThree (b : UInt8) (k : Nat) : Prop where
  high : 0x80 ≤ b
  not_two : b &&& 0xe0 ≠ 0xc0
  mark : b &&& 0xf0 = 0xe0
  bits : (b &&& 0x0f).toNat = k

/-- The byte starts a sequence of four bytes with the three bits of `k`. -/
structure HeadOfFour (b : UInt8) (k : Nat) : Prop where
  high : 0x80 ≤ b
  not_two : b &&& 0xe0 ≠ 0xc0
  not_three : b &&& 0xf0 ≠ 0xe0
  mark : b &&& 0xf8 = 0xf0
  bits : (b &&& 0x07).toNat = k

section

variable {k : Nat}

theorem continues_ofNat (h : k < 64) : Continues (UInt8.ofNat (k + 0x80)) k := by
  have hall : ∀ k : Fin 64, isContinuation (UInt8.ofNat (k + 0x80)) = true
      ∧ payload (UInt8.ofNat (k + 0x80)) = k := by
    decide
  obtain ⟨hmark, hbits⟩ := hall ⟨k, h⟩
  exact ⟨hmark, hbits⟩

theorem headOfTwo_ofNat (h : k < 32) : HeadOfTwo (UInt8.ofNat (k + 0xc0)) k := by
  have hall : ∀ k : Fin 32, 0x80 ≤ UInt8.ofNat (k + 0xc0) ∧ UInt8.ofNat (k + 0xc0) &&& 0xe0 = 0xc0
      ∧ (UInt8.ofNat (k + 0xc0) &&& 0x1f).toNat = k := by
    decide
  obtain ⟨hhigh, hmark, hbits⟩ := hall ⟨k, h⟩
  exact ⟨hhigh, hmark, hbits⟩

theorem headOfThree_ofNat (h : k < 16) : HeadOfThree (UInt8.ofNat (k + 0xe0)) k := by
  have hall : ∀ k : Fin 16, 0x80 ≤ UInt8.ofNat (k + 0xe0) ∧ UInt8.ofNat (k + 0xe0) &&& 0xe0 ≠ 0xc0
      ∧ UInt8.ofNat (k + 0xe0) &&& 0xf0 = 0xe0 ∧ (UInt8.ofNat (k + 0xe0) &&& 0x0f).toNat = k := by
    decide
  obtain ⟨hhigh, htwo, hmark, hbits⟩ := hall ⟨k, h⟩
  exact ⟨hhigh, htwo, hmark, hbits⟩

theorem headOfFour_ofNat (h : k < 8) : HeadOfFour (UInt8.ofNat (k + 0xf0)) k := by
  have hall : ∀ k : Fin 8, 0x80 ≤ UInt8.ofNat (k + 0xf0) ∧ UInt8.ofNat (k + 0xf0) &&& 0xe0 ≠ 0xc0
      ∧ UInt8.ofNat (k + 0xf0) &&& 0xf0 ≠ 0xe0 ∧ UInt8.ofNat (k + 0xf0) &&& 0xf8 = 0xf0
      ∧ (UInt8.ofNat (k + 0xf0) &&& 0x07).toNat = k := by
    decide
  obtain ⟨hhigh, htwo, hthree, hmark, hbits⟩ := hall ⟨k, h⟩
  exact ⟨hhigh, htwo, hthree, hmark, hbits⟩

end

/-! ## UTF-8 -/

theorem scalar?_toNat {least n : Nat} {c : Char} (h : c.toNat = n) (hn : least ≤ n) :
    scalar? least n = some c := by
  subst h
  have hvalid : c.toNat.isValidChar := c.valid
  rw [scalar?, if_pos hn, dif_pos hvalid]
  rfl

section

variable {b x y z : UInt8} {k₁ k₂ k₃ k₄ : Nat} {c : Char}

theorem pieces_of_leading? {bs : List UInt8} {n : Nat} (h : leading? b bs = some (c, n)) :
    pieces (b :: bs) = .char c :: pieces (bs.drop n) := by
  rw [pieces, h]

theorem pieces_one (hb : b < 0x80) (hc : c.toNat = b.toNat) (t : List UInt8) :
    pieces (b :: t) = .char c :: pieces t := by
  have hlead : leading? b t = some (c, 0) := by
    rw [leading?.eq_def, if_pos hb, scalar?_toNat hc (Nat.zero_le _), Option.map_some]
  exact pieces_of_leading? hlead

theorem pieces_two (hb : HeadOfTwo b k₁) (hx : Continues x k₂) (hc : c.toNat = k₁ * 64 + k₂)
    (hleast : 0x80 ≤ c.toNat) (t : List UInt8) :
    pieces (b :: x :: t) = .char c :: pieces t := by
  have hlead : leading? b (x :: t) = some (c, 1) := by
    simp only [leading?, UInt8.not_lt.2 hb.high, hb.mark, hb.bits, hx.mark, hx.bits, if_true,
      if_false, beq_self_eq_true, scalar?_toNat hc (hc ▸ hleast), Option.map_some]
  exact pieces_of_leading? hlead

theorem pieces_three (hb : HeadOfThree b k₁) (hx : Continues x k₂) (hy : Continues y k₃)
    (hc : c.toNat = (k₁ * 64 + k₂) * 64 + k₃) (hleast : 0x800 ≤ c.toNat) (t : List UInt8) :
    pieces (b :: x :: y :: t) = .char c :: pieces t := by
  have hlead : leading? b (x :: y :: t) = some (c, 2) := by
    simp only [leading?, UInt8.not_lt.2 hb.high, beq_iff_eq, hb.not_two, hb.mark, hb.bits, hx.mark,
      hx.bits, hy.mark, hy.bits, Bool.and_self, if_true, if_false, beq_self_eq_true,
      scalar?_toNat hc (hc ▸ hleast), Option.map_some]
  exact pieces_of_leading? hlead

theorem pieces_four (hb : HeadOfFour b k₁) (hx : Continues x k₂) (hy : Continues y k₃)
    (hz : Continues z k₄) (hc : c.toNat = ((k₁ * 64 + k₂) * 64 + k₃) * 64 + k₄)
    (hleast : 0x10000 ≤ c.toNat) (t : List UInt8) :
    pieces (b :: x :: y :: z :: t) = .char c :: pieces t := by
  have hlead : leading? b (x :: y :: z :: t) = some (c, 3) := by
    simp only [leading?, UInt8.not_lt.2 hb.high, beq_iff_eq, hb.not_two, hb.not_three, hb.mark,
      hb.bits, hx.mark, hx.bits, hy.mark, hy.bits, hz.mark, hz.bits, Bool.and_self, if_true,
      if_false, beq_self_eq_true, scalar?_toNat hc (hc ▸ hleast), Option.map_some]
  exact pieces_of_leading? hlead

end

theorem pieces_utf8EncodeChar (c : Char) (t : List UInt8) :
    pieces (String.utf8EncodeChar c ++ t) = .char c :: pieces t := by
  have hlt : c.toNat < 0x110000 := by
    have hvalid : c.toNat.isValidChar := c.valid
    omega
  have hval : c.val.toNat = c.toNat := rfl
  have hbits : ∀ n, n % 64 < 64 := fun n => Nat.mod_lt n (by decide)
  simp only [String.utf8EncodeChar, hval]
  split
  · have hnat : (UInt8.ofNat c.toNat).toNat = c.toNat := by
      rw [UInt8.toNat_ofNat']
      omega
    refine pieces_one ?_ hnat.symm t
    rw [UInt8.lt_iff_toNat_lt, hnat]
    exact Nat.lt_succ_of_le ‹_›
  split
  · exact pieces_two (headOfTwo_ofNat (Nat.mod_lt _ (by decide))) (continues_ofNat (hbits _))
      (by omega) (by omega) t
  split
  · exact pieces_three (headOfThree_ofNat (Nat.mod_lt _ (by decide))) (continues_ofNat (hbits _))
      (continues_ofNat (hbits _)) (by omega) (by omega) t
  · exact pieces_four (headOfFour_ofNat (Nat.mod_lt _ (by decide))) (continues_ofNat (hbits _))
      (continues_ofNat (hbits _)) (continues_ofNat (hbits _)) (by omega) (by omega) t

theorem encode_ofList (s : List Char) :
    encode (String.ofList s) = s.flatMap String.utf8EncodeChar := by
  simp [encode, String.ofList, List.utf8Encode]

theorem pieces_flatMap (s : List Char) :
    pieces (s.flatMap String.utf8EncodeChar) = s.map .char := by
  induction s with
  | nil => rw [List.flatMap_nil, pieces, List.map_nil]
  | cons c s ih => rw [List.flatMap_cons, pieces_utf8EncodeChar, ih, List.map_cons]

/-- The UTF-8 bytes of a text are well formed, and they are the bytes of that text. -/
theorem decode?_encode (s : String) : decode? (encode s) = some s := by
  have hchars : ∀ cs : List Char, (cs.map Piece.char).mapM Piece.char? = some cs := by
    intro cs
    induction cs with
    | nil => rfl
    | cons c cs ih => simp [ih, Piece.char?]
  have hbytes := encode_ofList s.toList
  rw [String.ofList_toList] at hbytes
  rw [decode?, hbytes, pieces_flatMap, hchars, Option.map_some, String.ofList_toList]

/-! ## The encoding -/

namespace Modified

/-- The UTF-16 units of a character: itself, or from U+10000 on two surrogates. -/
def units (c : Char) : List Nat :=
  if c.toNat < 0x10000 then [c.toNat]
  else [0xd800 + (c.toNat - 0x10000) / 0x400, 0xdc00 + (c.toNat - 0x10000) % 0x400]

/-- The bytes of a unit; zero has two, so that no byte of a text is zero. -/
def encodeUnit (n : Nat) : List UInt8 :=
  if 0 < n ∧ n ≤ 0x7f then [UInt8.ofNat n]
  else if n ≤ 0x7ff then [UInt8.ofNat (n / 64 + 0xc0), UInt8.ofNat (n % 64 + 0x80)]
  else [UInt8.ofNat (n / 4096 + 0xe0), UInt8.ofNat (n / 64 % 64 + 0x80), UInt8.ofNat (n % 64 + 0x80)]

def encodeChar (c : Char) : List UInt8 :=
  (units c).flatMap encodeUnit

/-- The bytes that stand for a text in a class file. -/
def encode (s : List Char) : List UInt8 :=
  s.flatMap encodeChar

/-- What a decoded text shows in place of a character. -/
def shown (c : Char) : List Char :=
  if c.toNat < 0x10000 then [c] else [replacement, replacement]

/-! ## Decoding -/

section

variable {b x y : UInt8} {k₁ k₂ k₃ : Nat}

theorem chars_of_leading {bs : List UInt8} {c : Char} {n : Nat} (h : leading b bs = (c, n)) :
    chars (b :: bs) = c :: chars (bs.drop n) := by
  rw [chars, h]

theorem not_low (h : 0x80 ≤ b) : ¬ (0x01 ≤ b ∧ b ≤ 0x7f) := by
  rw [UInt8.le_iff_toNat_le] at h
  simp only [UInt8.le_iff_toNat_le, UInt8.reduceToNat] at h ⊢
  omega

theorem chars_one (hb : 0x01 ≤ b ∧ b ≤ 0x7f) (t : List UInt8) :
    chars (b :: t) = charOf b.toNat :: chars t := by
  have hlead : leading b t = (charOf b.toNat, 0) := by
    rw [leading.eq_def, if_pos hb]
  exact chars_of_leading hlead

theorem chars_two (hb : HeadOfTwo b k₁) (hx : Continues x k₂) (t : List UInt8) :
    chars (b :: x :: t) = charOf (k₁ * 64 + k₂) :: chars t := by
  have hlead : leading b (x :: t) = (charOf (k₁ * 64 + k₂), 1) := by
    simp only [leading, not_low hb.high, hb.mark, hb.bits, hx.mark, hx.bits, if_true, if_false]
  exact chars_of_leading hlead

theorem chars_three (hb : HeadOfThree b k₁) (hx : Continues x k₂) (hy : Continues y k₃)
    (t : List UInt8) :
    chars (b :: x :: y :: t) = charOf ((k₁ * 64 + k₂) * 64 + k₃) :: chars t := by
  have hlead : leading b (x :: y :: t) = (charOf ((k₁ * 64 + k₂) * 64 + k₃), 2) := by
    simp only [leading, not_low hb.high, hb.not_two, hb.mark, hb.bits, hx.mark, hx.bits, hy.mark,
      hy.bits, Bool.and_self, if_true, if_false]
  exact chars_of_leading hlead

end

theorem chars_encodeUnit {n : Nat} (h : n < 0x10000) (t : List UInt8) :
    chars (encodeUnit n ++ t) = charOf n :: chars t := by
  have hbits : ∀ m, m % 64 < 64 := fun m => Nat.mod_lt m (by decide)
  unfold encodeUnit
  split
  · have hnat : (UInt8.ofNat n).toNat = n := by
      rw [UInt8.toNat_ofNat']
      omega
    have hone := chars_one (b := UInt8.ofNat n)
      (by simp only [UInt8.le_iff_toNat_le, hnat, UInt8.reduceToNat]; omega) t
    rw [hnat] at hone
    exact hone
  split
  · have htwo := chars_two (headOfTwo_ofNat (k := n / 64) (by omega)) (continues_ofNat (hbits n)) t
    have hn : n / 64 * 64 + n % 64 = n := by omega
    rw [hn] at htwo
    exact htwo
  · have hthree := chars_three (headOfThree_ofNat (k := n / 4096) (by omega))
      (continues_ofNat (hbits (n / 64))) (continues_ofNat (hbits n)) t
    have hn : (n / 4096 * 64 + n / 64 % 64) * 64 + n % 64 = n := by omega
    rw [hn] at hthree
    exact hthree

theorem charOf_toNat (c : Char) : charOf c.toNat = c := by
  have hvalid : c.toNat.isValidChar := c.valid
  rw [charOf, dif_pos hvalid]
  rfl

theorem charOf_surrogate {n : Nat} (h : 0xd800 ≤ n ∧ n ≤ 0xdfff) : charOf n = replacement := by
  have hinvalid : ¬ n.isValidChar := by
    unfold Nat.isValidChar
    omega
  rw [charOf, dif_neg hinvalid]

theorem chars_encodeChar (c : Char) (t : List UInt8) :
    chars (encodeChar c ++ t) = shown c ++ chars t := by
  have hvalid : c.toNat.isValidChar := c.valid
  unfold encodeChar units shown
  split
  · rw [List.flatMap_singleton, chars_encodeUnit ‹_›, charOf_toNat, List.singleton_append]
  · have hhigh : 0xd800 ≤ 0xd800 + (c.toNat - 0x10000) / 0x400
        ∧ 0xd800 + (c.toNat - 0x10000) / 0x400 ≤ 0xdfff := by
      omega
    have hlow : 0xd800 ≤ 0xdc00 + (c.toNat - 0x10000) % 0x400
        ∧ 0xdc00 + (c.toNat - 0x10000) % 0x400 ≤ 0xdfff := by
      omega
    rw [List.flatMap_cons, List.flatMap_singleton, List.append_assoc, chars_encodeUnit (by omega),
      chars_encodeUnit (by omega), charOf_surrogate hhigh, charOf_surrogate hlow]
    rfl

theorem chars_encode (s : List Char) (t : List UInt8) :
    chars (encode s ++ t) = s.flatMap shown ++ chars t := by
  induction s with
  | nil => rfl
  | cons c s ih =>
    have hcons : encode (c :: s) = encodeChar c ++ encode s := List.flatMap_cons
    rw [hcons, List.append_assoc, chars_encodeChar, ih, List.flatMap_cons, List.append_assoc]

theorem length_chars_le (bs : List UInt8) : (chars bs).length ≤ bs.length := by
  fun_induction chars bs with
  | case1 => exact Nat.le_refl 0
  | case2 b bs c n hlead ih =>
    rw [List.length_drop] at ih
    rw [List.length_cons, List.length_cons]
    omega

theorem length_le_length_shown (s : List Char) : s.length ≤ (s.flatMap shown).length := by
  induction s with
  | nil => exact Nat.le_refl 0
  | cons c s ih =>
    have hone : 1 ≤ (shown c).length := by
      unfold shown
      split <;> simp
    rw [List.flatMap_cons, List.length_append, List.length_cons]
    omega

/-- Only characters below U+10000 are shown as themselves: no character is shown as less than itself, so
that the rest does not make up for a pair of surrogates. -/
theorem flatMap_shown_eq_self {s : List Char} :
    s.flatMap shown = s ↔ ∀ c ∈ s, c.toNat < 0x10000 := by
  induction s with
  | nil => simp
  | cons c s ih =>
    rw [List.flatMap_cons, List.forall_mem_cons, ← ih]
    by_cases h : c.toNat < 0x10000
    · simp [shown, h]
    · have hle := length_le_length_shown s
      constructor
      · intro heq
        have hlength := congrArg List.length heq
        simp only [shown, h, if_false, List.length_append, List.length_cons, List.length_nil] at hlength
        omega
      · intro hall
        exact absurd hall.1 h

theorem decode_append_eq_iff (s : List Char) (t : List UInt8) :
    decode (encode s ++ t) = String.ofList s ++ decode t ↔ ∀ c ∈ s, c.toNat < 0x10000 := by
  rw [decode, decode, chars_encode, ← String.ofList_append, String.ofList_inj,
    List.append_left_inj, flatMap_shown_eq_self]

theorem text_eq_ok (bs rest : List UInt8) (phase : Phase) (pos : Nat) :
    Window.text bs.length ⟨phase, pos, bs ++ rest⟩ =
      .ok (decode bs, ⟨phase, pos + bs.length, rest⟩) := by
  refine Reading.bind_eq_ok.2 ⟨bs, _, Window.take_eq_ok.2 ⟨rfl, ?_⟩, rfl⟩
  exact ⟨rfl, rfl, rfl⟩

/-- **Modified UTF-8.** Decoding the bytes of a text, with any bytes after them, gives the text with
two U+FFFD for each character from U+10000 on, and then what the bytes after it give. So exactly the
texts below U+10000 come back as they were. Any bytes at all give a text whose UTF-8 is well formed and
that has at most as many characters as there are bytes, and reading them as text passes over exactly
these bytes. -/
theorem decode_resumes (s : List Char) (t rest : List UInt8) (phase : Phase) (pos : Nat) :
    decode (encode s ++ t) = String.ofList (s.flatMap shown) ++ decode t
      ∧ (decode (encode s ++ t) = String.ofList s ++ decode t ↔ ∀ c ∈ s, c.toNat < 0x10000)
      ∧ (decode (encode s) = String.ofList s ↔ ∀ c ∈ s, c.toNat < 0x10000)
      ∧ decode? (Text.encode (decode t)) = some (decode t)
      ∧ (decode t).length ≤ t.length
      ∧ Window.text t.length ⟨phase, pos, t ++ rest⟩ =
        .ok (decode t, ⟨phase, pos + t.length, rest⟩) := by
  have halone := decode_append_eq_iff s []
  have hempty : decode [] = "" := by
    rw [decode, chars, String.ofList_nil]
  rw [List.append_nil, hempty, String.append_empty] at halone
  refine ⟨?_, decode_append_eq_iff s t, halone, decode?_encode _, ?_, text_eq_ok t rest phase pos⟩
  · rw [decode, chars_encode, String.ofList_append, decode]
  · rw [decode, String.length_ofList]
    exact length_chars_le t

example : encode ['\x00', 'A', 'é', '中', '😀'] =
    [0xc0, 0x80, 0x41, 0xc3, 0xa9, 0xe4, 0xb8, 0xad, 0xed, 0xa0, 0xbd, 0xed, 0xb8, 0x80] := by
  decide

end Modified

end ClassAtlas.Text
