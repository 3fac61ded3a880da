import ClassAtlas.Text.Utf8

/-! # Modified UTF-8

The text form of class files: one to three bytes for each character below U+10000, U+0000 in two
bytes, and no longer sequences, so that a character from U+10000 on is stored as two surrogates of
three bytes each. Decoding never fails: a surrogate is one U+FFFD, and so is each byte that cannot
start a sequence or whose continuation bytes are missing; decoding then resumes at the next byte.
Overlong sequences are read like any other.

* `Modified.decode bs`: the characters of the bytes.
-/

namespace ClassAtlas.Text.Modified
set_option autoImplicit false

/-- The character with code point `n`; a surrogate shows as U+FFFD. -/
def charOf (n : Nat) : Char :=
  if h : n.isValidChar then Char.ofNatAux n h else replacement

/-- The character whose sequence starts with `b` and goes on in `bs`, with the number of bytes it
takes from `bs`. -/
def leading (b : UInt8) (bs : List UInt8) : Char × Nat :=
  if 0x01 ≤ b ∧ b ≤ 0x7f then (charOf b.toNat, 0)
  else if b &&& 0xe0 = 0xc0 then
    match bs with
    | x :: _ =>
      if isContinuation x then (charOf ((b &&& 0x1f).toNat * 64 + payload x), 1)
      else (replacement, 0)
    | _ => (replacement, 0)
  else if b &&& 0xf0 = 0xe0 then
    match bs with
    | x :: y :: _ =>
      if isContinuation x && isContinuation y then
        (charOf (((b &&& 0x0f).toNat * 64 + payload x) * 64 + payload y), 2)
      else (replacement, 0)
    | _ => (replacement, 0)
  else (replacement, 0)

def chars : List UInt8 → List Char
  | [] => []
  | b :: bs =>
    let (c, n) := leading b bs
    c :: chars (bs.drop n)
termination_by bs => bs.length
decreasing_by
  simp only [List.length_cons, List.length_drop]; omega

def decode (bs : List UInt8) : String :=
  String.ofList (chars bs)

end ClassAtlas.Text.Modified
