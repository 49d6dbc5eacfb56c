import ApiSchema.Text.Basic
import ApiSchema.Text.Utf8

/-!
# Percent encoding

A percent sign and two hexadecimal digits stand for a byte. Each run of ASCII characters is decoded
on its own, so that bytes do not combine across other characters.
-/

namespace ApiSchema.Percent

/-- The bytes of an ASCII text; a percent sign without two digits stands for itself. -/
def toBytes : List Char → List Nat
  | [] => []
  | '%' :: a :: b :: rest =>
    match Text.hexValue? a, Text.hexValue? b with
    | some x, some y => (16 * x + y) :: toBytes rest
    | _, _ => 37 :: toBytes (a :: b :: rest)
  | c :: rest => c.toNat :: toBytes rest

/-- Decode a text; `run` is the ASCII run read so far, in reverse. -/
def decodeRun (run : List Char) : List Char → List Char
  | [] => Utf8.decode (toBytes run.reverse)
  | c :: rest =>
    if c.toNat < 128 then decodeRun (c :: run) rest
    else Utf8.decode (toBytes run.reverse) ++ c :: decodeRun [] rest

def decode (cs : List Char) : List Char :=
  decodeRun [] cs

/-- Characters of a path that stand for themselves. -/
def isPlain (b : Nat) : Bool :=
  let c := Char.ofNat b
  b < 128 && (c.isAlphanum || c == '_' || c == '.' || c == '-' || c == '~' || c == '/')

def encodeByte (b : Nat) : List Char :=
  if isPlain b then [Char.ofNat b] else '%' :: (Text.hex 2 b).map Char.toUpper

def encode (cs : List Char) : List Char :=
  (Utf8.encode cs).flatMap encodeByte

end ApiSchema.Percent
