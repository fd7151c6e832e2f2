/-!
# UTF-8

Texts as bytes, and bytes as texts. Reading splits the bytes into characters and maximal
ill-formed parts: an ill-formed part is the longest run of bytes that starts some character and
cannot be completed to it, or else a single byte.

* `Utf8.encode`: the bytes of a text.
* `Utf8.pieces`: the characters of a byte string, `none` for each maximal ill-formed part.
* `Utf8.decode?`: the text, if all of the bytes are well-formed.
* `Utf8.decodeLossy`: the text with U+FFFD for each ill-formed part.
-/

namespace Telemetry.Utf8

/-- The bytes of a text. -/
def encode (s : String) : List UInt8 := s.toList.flatMap String.utf8EncodeChar

/-- Whether `b` lies between `low` and `high`. -/
def within (low high b : UInt8) : Bool := low ≤ b && b ≤ high

/-- A byte that can only continue a character: `10xxxxxx`. -/
def isTail (b : UInt8) : Bool := within 0x80 0xBF b

/-- Whether `b` may follow the lead byte `a` of a character of three or four bytes. The bounds
exclude overlong forms, surrogates and what lies above U+10FFFF. -/
def isSecond (a b : UInt8) : Bool :=
  within (if a = 0xE0 then 0xA0 else if a = 0xF0 then 0x90 else 0x80)
    (if a = 0xED then 0x9F else if a = 0xF4 then 0x8F else 0xBF) b

/-- The six payload bits of a continuation byte put behind `n`. -/
def extend (n : Nat) (b : UInt8) : Nat := n * 64 + b.toNat % 64

/-- What starts with byte `a`: the character or `none` for an ill-formed part, and how many bytes
of `rest` belong to it. -/
def next (a : UInt8) (rest : List UInt8) : Option Char × Nat :=
  if a < 0x80 then (some (Char.ofNat a.toNat), 0)
  else if within 0xC2 0xDF a then
    match rest with
    | b :: _ => if isTail b then (some (Char.ofNat (extend (a.toNat % 32) b)), 1) else (none, 0)
    | [] => (none, 0)
  else if within 0xE0 0xEF a then
    match rest with
    | b :: c :: _ =>
      if isSecond a b then
        if isTail c then (some (Char.ofNat (extend (extend (a.toNat % 16) b) c)), 2)
        else (none, 1)
      else (none, 0)
    | [b] => (none, if isSecond a b then 1 else 0)
    | [] => (none, 0)
  else if within 0xF0 0xF4 a then
    match rest with
    | b :: c :: d :: _ =>
      if isSecond a b then
        if isTail c then
          if isTail d then
            (some (Char.ofNat (extend (extend (extend (a.toNat % 8) b) c) d)), 3)
          else (none, 2)
        else (none, 1)
      else (none, 0)
    | [b, c] => (none, if isSecond a b then if isTail c then 2 else 1 else 0)
    | [b] => (none, if isSecond a b then 1 else 0)
    | [] => (none, 0)
  else (none, 0)

/-- The characters of a byte string in order, with `none` for each maximal ill-formed part. -/
def pieces : List UInt8 → List (Option Char)
  | [] => []
  | a :: rest => (next a rest).1 :: pieces (rest.drop (next a rest).2)
termination_by bytes => bytes.length
decreasing_by simp only [List.length_drop, List.length_cons]; omega

/-- The text of well-formed bytes. -/
def decode? (bytes : List UInt8) : Option String :=
  ((pieces bytes).mapM id).map String.ofList

/-- The text of any bytes, with U+FFFD in place of each ill-formed part. -/
def decodeLossy (bytes : List UInt8) : String :=
  String.ofList ((pieces bytes).map (·.getD (Char.ofNat 0xFFFD)))

end Telemetry.Utf8
