import SteppedConvolution.Text.Printable

/-! # Quoted texts

A message shows a text between quotes with its special characters escaped. The
quote is single unless the text holds single quotes and no double ones.
-/

namespace SteppedConvolution.Text

/-- The quote that a text is put in. -/
def quoteFor (cs : List Char) : Char :=
  if cs.contains '\x27' && !cs.contains '"' then '"' else '\x27'

/-- The last `n` hexadecimal digits of a number. -/
def hexDigits (n code : Nat) : List Char :=
  let digits := Nat.toDigits 16 code
  List.replicate (n - digits.length) '0' ++ digits

/-- A character inside the given quotes. -/
def escape (quote c : Char) : List Char :=
  if c = '\\' ∨ c = quote then ['\\', c]
  else if c = '\n' then ['\\', 'n']
  else if c = '\r' then ['\\', 'r']
  else if c = '\t' then ['\\', 't']
  else if isPrintable c then [c]
  else if c.toNat < 0x100 then '\\' :: 'x' :: hexDigits 2 c.toNat
  else if c.toNat < 0x10000 then '\\' :: 'u' :: hexDigits 4 c.toNat
  else '\\' :: 'U' :: hexDigits 8 c.toNat

/-- The quoted form of a text. -/
def quoted (cs : List Char) : List Char :=
  quoteFor cs :: cs.flatMap (escape (quoteFor cs)) ++ [quoteFor cs]

/-- The quoted form of a string. -/
def quote (s : String) : String := String.ofList (quoted s.toList)

/-- The quoted form of a text that may be absent. -/
def quote? (s : Option String) : String := (s.map quote).getD "None"

end SteppedConvolution.Text
