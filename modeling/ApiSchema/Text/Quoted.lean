import ApiSchema.Text.Basic
import ApiSchema.Unicode.Printable

/-!
# Quoted text

How a text is written as a string literal of generated source: in single quotes, or in double
quotes when it holds a single quote and no double one. Backslash, quote, line end and tab are
escaped by a backslash, and what cannot be printed by its code point.
-/

namespace ApiSchema.Text

/-- The quote that encloses a text. -/
def quoteFor (cs : List Char) : Char :=
  if cs.contains '\'' && !cs.contains '"' then '"' else '\''

def quoteChar (quote c : Char) : List Char :=
  if c = quote ∨ c = '\\' then ['\\', c]
  else if c = '\n' then ['\\', 'n']
  else if c = '\r' then ['\\', 'r']
  else if c = '\t' then ['\\', 't']
  else if Unicode.isPrintable c then [c]
  else if c.toNat < 0x100 then '\\' :: 'x' :: hex 2 c.toNat
  else if c.toNat < 0x10000 then '\\' :: 'u' :: hex 4 c.toNat
  else '\\' :: 'U' :: hex 8 c.toNat

def quoteChars (cs : List Char) : List Char :=
  let quote := quoteFor cs
  quote :: cs.flatMap (quoteChar quote) ++ [quote]

/-- The string literal of a text. -/
def quote (s : String) : String :=
  String.ofList (quoteChars s.toList)

end ApiSchema.Text
