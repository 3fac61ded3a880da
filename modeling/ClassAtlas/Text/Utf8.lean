/-! # UTF-8 text in arbitrary bytes

A byte string splits into pieces: well-formed UTF-8 sequences, and stray bytes that belong to none.
Only the shortest form of a scalar value is well formed; surrogates and values above U+10FFFF are
not. A stray byte stands alone, and the splitting resumes at the byte after it.

* `Piece`, `pieces`: the splitting.
* `encode s`: the UTF-8 bytes of a text.
* `decode? bs`: the text, when every piece is a character.
* `decode bs`: the text with U+FFFD for each stray byte.
-/

namespace ClassAtlas.Text
set_option autoImplicit false

/-- U+FFFD, which stands for bytes that are no character. -/
def replacement : Char := '\uFFFD'

/-- `10xxxxxx`: the byte continues a sequence. -/
def isContinuation (b : UInt8) : Bool :=
  b &&& 0xc0 == 0x80

def payload (b : UInt8) : Nat :=
  (b &&& 0x3f).toNat

/-- One character, or a byte that belongs to no character. -/
inductive Piece where
  | char (c : Char)
  | stray (b : UInt8)
  deriving DecidableEq

/-- The character of a piece; a stray byte shows as U+FFFD. -/
def Piece.toChar : Piece → Char
  | .char c => c
  | .stray _ => replacement

/-- The character with code point `n`, if `n` is a scalar value of at least `least`. -/
def scalar? (least n : Nat) : Option Char :=
  if least ≤ n then
    if h : n.isValidChar then some (Char.ofNatAux n h) else none
  else none

/-- The character whose sequence starts with `b` and goes on in `bs`, with the number of bytes it
takes from `bs`. -/
def leading? (b : UInt8) (bs : List UInt8) : Option (Char × Nat) :=
  if b < 0x80 then
    (scalar? 0 b.toNat).map (·, 0)
  else if b &&& 0xe0 == 0xc0 then
    match bs with
    | x :: _ =>
      if isContinuation x then
        (scalar? 0x80 ((b &&& 0x1f).toNat * 64 + payload x)).map (·, 1)
      else none
    | _ => none
  else if b &&& 0xf0 == 0xe0 then
    match bs with
    | x :: y :: _ =>
      if isContinuation x && isContinuation y then
        (scalar? 0x800 (((b &&& 0x0f).toNat * 64 + payload x) * 64 + payload y)).map (·, 2)
      else none
    | _ => none
  else if b &&& 0xf8 == 0xf0 then
    match bs with
    | x :: y :: z :: _ =>
      if isContinuation x && isContinuation y && isContinuation z then
        (scalar? 0x10000
          ((((b &&& 0x07).toNat * 64 + payload x) * 64 + payload y) * 64 + payload z)).map (·, 3)
      else none
    | _ => none
  else none

/-- The bytes split into characters and stray bytes, from the left. -/
def pieces : List UInt8 → List Piece
  | [] => []
  | b :: bs =>
    match leading? b bs with
    | some (c, n) => .char c :: pieces (bs.drop n)
    | none => .stray b :: pieces bs
termination_by bs => bs.length
decreasing_by
  · simp only [List.length_cons, List.length_drop]; omega
  · simp only [List.length_cons]; omega

def encode (s : String) : List UInt8 :=
  s.toUTF8.data.toList

def Piece.char? : Piece → Option Char
  | .char c => some c
  | .stray _ => none

def decode? (bs : List UInt8) : Option String :=
  ((pieces bs).mapM Piece.char?).map String.ofList

/-- The text, with U+FFFD for each stray byte. -/
def decode (bs : List UInt8) : String :=
  String.ofList ((pieces bs).map Piece.toChar)

end ClassAtlas.Text
