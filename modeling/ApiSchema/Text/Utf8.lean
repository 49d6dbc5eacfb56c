/-!
# UTF-8

Bytes are numbers below 256. Decoding never fails: each longest beginning of a character that is
not completed reads as the replacement character.
-/

namespace ApiSchema.Utf8

def encodeChar (c : Char) : List Nat :=
  let n := c.toNat
  if n < 0x80 then [n]
  else if n < 0x800 then [0xC0 + n / 0x40, 0x80 + n % 0x40]
  else if n < 0x10000 then [0xE0 + n / 0x1000, 0x80 + n / 0x40 % 0x40, 0x80 + n % 0x40]
  else [0xF0 + n / 0x40000, 0x80 + n / 0x1000 % 0x40, 0x80 + n / 0x40 % 0x40, 0x80 + n % 0x40]

def encode (cs : List Char) : List Nat :=
  cs.flatMap encodeChar

/-- What stands for bytes that are no character. -/
def replacement : Char := Char.ofNat 0xFFFD

/-- Whether a byte may follow the first byte of a character. -/
def isTail (b : Nat) : Bool :=
  0x80 ≤ b && b < 0xC0

/-- Whether `b` may follow the first byte `a`: some second bytes would make a code point that is
too small, a surrogate, or too large. -/
def isSecond (a b : Nat) : Bool :=
  if a = 0xE0 then 0xA0 ≤ b && b < 0xC0
  else if a = 0xED then 0x80 ≤ b && b < 0xA0
  else if a = 0xF0 then 0x90 ≤ b && b < 0xC0
  else if a = 0xF4 then 0x80 ≤ b && b < 0x90
  else isTail b

/-- The character at the head of bytes that begin with `a`, and how many of the others belong to
it. -/
def decodeHead (a : Nat) (rest : List Nat) : Char × Nat :=
  if a < 0x80 then (Char.ofNat a, 0)
  else if a < 0xC2 ∨ 0xF4 < a then (replacement, 0)
  else match rest with
    | [] => (replacement, 0)
    | b :: rest =>
      if !isSecond a b then (replacement, 0)
      else if a < 0xE0 then (Char.ofNat ((a - 0xC0) * 0x40 + (b - 0x80)), 1)
      else match rest with
        | [] => (replacement, 1)
        | c :: rest =>
          if !isTail c then (replacement, 1)
          else if a < 0xF0 then
            (Char.ofNat (((a - 0xE0) * 0x40 + (b - 0x80)) * 0x40 + (c - 0x80)), 2)
          else match rest with
            | [] => (replacement, 2)
            | d :: _ =>
              if !isTail d then (replacement, 2)
              else
                (Char.ofNat ((((a - 0xF0) * 0x40 + (b - 0x80)) * 0x40 + (c - 0x80)) * 0x40 +
                  (d - 0x80)), 3)

/-- Decode, leaving out the given number of bytes first. -/
def decodeAfter : Nat → List Nat → List Char
  | _, [] => []
  | skip + 1, _ :: rest => decodeAfter skip rest
  | 0, a :: rest =>
    let (c, used) := decodeHead a rest
    c :: decodeAfter used rest

def decode (bytes : List Nat) : List Char :=
  decodeAfter 0 bytes

end ApiSchema.Utf8
