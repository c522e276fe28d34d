import SteppedConvolution.Text.Digit
import SteppedConvolution.Text.Word

/-! # Line formats

A line format is a text with conversions such as `%(message)s` or `%(levelno)-4d`: the name
of a field in brackets, flags, a width, a precision and a letter. It is taken when there is a
conversion in it somewhere, and an empty one stands for the message alone.

Three fields are known here, without flags or amounts. Any other conversion is a piece of its
own, for what the record has there.
-/

namespace SteppedConvolution

/-- A width or a precision. -/
inductive Amount where
  | asterisk
  | digits (ds : List Char)
  deriving DecidableEq, Repr

/-- The characters of an amount. -/
def Amount.text : Amount → List Char
  | asterisk => ['*']
  | digits ds => ds

/-- The place of a field in a line format. -/
structure Conversion where
  field : List Char
  flags : List Char
  width : Option Amount
  precision : Option Amount
  kind : Char
  deriving DecidableEq, Repr

namespace Conversion

/-- The characters of a conversion. -/
def text (v : Conversion) : List Char :=
  '%' :: '(' :: (v.field ++ ')' :: (v.flags ++ (v.width.elim [] Amount.text ++
    (v.precision.elim [] (fun p => '.' :: p.text) ++ [v.kind]))))

/-- A flag. -/
def isFlag (c : Char) : Bool := "#0+ -".toList.contains c

/-- The letters at the end of conversions, in either case. The last three are letters beyond
ASCII that differ from `i` and `s` by their case alone. -/
def kinds : List Char :=
  ['d', 'i', 'o', 'u', 'x', 'e', 'f', 'g', 'c', 'r', 's', 'a', '%', 'D', 'I', 'O', 'U', 'X', 'E',
   'F', 'G', 'C', 'R', 'S', 'A', Char.ofNat 0x130, Char.ofNat 0x131, Char.ofNat 0x17f]

/-- An amount at the front of a text, if there is one, and what follows. -/
def amountAt (cs : List Char) : Option Amount × List Char :=
  match cs with
  | '*' :: rest => (some .asterisk, rest)
  | _ =>
    match cs.takeWhile Text.isDigit with
    | [] => (none, cs)
    | d :: ds => (some (.digits (d :: ds)), cs.dropWhile Text.isDigit)

/-- A precision at the front of a text, if there is one, and what follows. -/
def precisionAt (cs : List Char) : Option Amount × List Char :=
  match cs with
  | '.' :: rest =>
    match amountAt rest with
    | (some p, rest) => (some p, rest)
    | (none, _) => (none, cs)
  | _ => (none, cs)

/-- A conversion of a field from its flags on, and what follows. -/
def afterField? (field cs : List Char) : Option (Conversion × List Char) :=
  let (width, rest) := amountAt (cs.dropWhile isFlag)
  let (precision, rest) := precisionAt rest
  match rest with
  | kind :: rest =>
    if kind ∈ kinds then some (⟨field, cs.takeWhile isFlag, width, precision, kind⟩, rest) else none
  | [] => none

/-- A conversion at the front of a text, and what follows. -/
def atFront? (cs : List Char) : Option (Conversion × List Char) :=
  match cs with
  | '%' :: '(' :: rest =>
    match rest.takeWhile Text.isWord, rest.dropWhile Text.isWord with
    | d :: ds, ')' :: rest => afterField? (d :: ds) rest
    | _, _ => none
  | _ => none

/-- The conversion of a field without flags or amounts. -/
def plain (field : String) : Conversion := ⟨field.toList, [], none, none, 's'⟩

end Conversion

/-- A part of a line format. -/
inductive FormatPiece where
  | literal (c : Char)
  | severity
  | name
  | message
  | other (v : Conversion)
  | stray
  deriving DecidableEq, Repr

namespace FormatPiece

/-- The piece of a conversion. -/
def ofConversion (v : Conversion) : FormatPiece :=
  if v = .plain "levelname" then severity
  else if v = .plain "name" then name
  else if v = .plain "message" then message
  else other v

/-- The piece at the front of a text, and what follows. Two percent signs stand for one, and one
that is neither doubled nor the start of a conversion is a piece that cannot be shown. -/
def front (c : Char) (cs : List Char) : FormatPiece × List Char :=
  if c ≠ '%' then (literal c, cs)
  else
    match cs with
    | '%' :: rest => (literal '%', rest)
    | _ =>
      match Conversion.atFront? (c :: cs) with
      | some (v, rest) => (ofConversion v, rest)
      | none => (stray, cs)

/-- The pieces of a format, behind some characters that belong to the last piece. -/
def ofChars : Nat → List Char → List FormatPiece
  | _, [] => []
  | passed + 1, _ :: cs => ofChars passed cs
  | 0, c :: cs => (front c cs).1 :: ofChars (cs.length - (front c cs).2.length) cs

/-- A conversion begins here or further on. -/
def hasConversion : List Char → Bool
  | [] => false
  | c :: cs => (Conversion.atFront? (c :: cs)).isSome || hasConversion cs

/-- The pieces of a line format, if it is one. -/
def ofText? (text : String) : Option (List FormatPiece) :=
  if text = "" then some [message]
  else if hasConversion text.toList then some (ofChars 0 text.toList)
  else none

/-- The format of loggers that were not configured otherwise. -/
def standard : List FormatPiece :=
  [literal '[', severity, literal ']', literal ' ', name, literal ':', literal ' ', message]

end FormatPiece

end SteppedConvolution
