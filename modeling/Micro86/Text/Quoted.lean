import Micro86.Text.Numeral
import Micro86.Text.Printable

/-!
Quoted text for messages. Single quotes, or double ones for a text that has single quotes
only; the quote, the backslash and what cannot be printed are escaped.
-/
namespace Micro86.Text

def singleQuote : Char := Char.ofNat 0x27
def doubleQuote : Char := Char.ofNat 0x22
def backslash : Char := Char.ofNat 0x5C

/-- The quote that a text is put in. -/
def quoteFor (text : List Char) : Char :=
  if text.contains singleQuote && !text.contains doubleQuote then doubleQuote else singleQuote

/-- The escape of a code point, with two, four or eight small hexadecimal digits. -/
def codeEscape (code : Nat) : List Char :=
  let digits := Nat.toDigits 16 code
  if code < 0x100 then backslash :: 'x' :: zeroPadded 2 digits
  else if code < 0x10000 then backslash :: 'u' :: zeroPadded 4 digits
  else backslash :: 'U' :: zeroPadded 8 digits

def escape (quote c : Char) : List Char :=
  if c = quote ∨ c = backslash then [backslash,c]
  else if c = '\n' then [backslash,'n']
  else if c = '\r' then [backslash,'r']
  else if c = '\t' then [backslash,'t']
  else if isPrintable c then [c]
  else codeEscape c.toNat

def quoted (text : List Char) : List Char :=
  let quote := quoteFor text
  quote :: text.flatMap (escape quote) ++ [quote]

def quote (text : String) : String := String.ofList (quoted text.toList)

end Micro86.Text
