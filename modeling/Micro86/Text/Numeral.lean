import Micro86.Text.Blank
import Micro86.Text.DecimalDigit

/-!
Numbers in text. Literals of a program are strict: a sign and decimal digits. Numbers typed
by a user are loose: blanks around them, digits of any script, single underscores between
digits, and for base sixteen a `0x` in front.
-/
namespace Micro86.Text

/-- Digits from the most significant on, as a number. -/
def ofDigits (base : Nat) (digits : List Nat) : Nat := digits.foldl (fun n d => n*base+d) 0

def hexDigit? (c : Char) : Option Nat :=
  if '0' ≤ c ∧ c ≤ '9' then some (c.toNat - 48)
  else if 'A' ≤ c ∧ c ≤ 'F' then some (c.toNat - 55)
  else if 'a' ≤ c ∧ c ≤ 'f' then some (c.toNat - 87)
  else none

def isHexDigit (c : Char) : Bool := (hexDigit? c).isSome

/-- The value of a text of hexadecimal digits; other characters are passed over. -/
def hexValue (text : List Char) : Nat := ofDigits 16 (text.filterMap hexDigit?)

def isDecimalDigit (c : Char) : Bool := '0' ≤ c && c ≤ '9'

/-- The value of a text of decimal digits. -/
def decimalValue (text : List Char) : Nat := ofDigits 10 (text.map fun c => c.toNat - 48)

/-- The longest decimal numeral that is read or written; leading zeros count. -/
def maxDecimalDigits : Nat := 4300

/-- A decimal numeral of more digits than can be read. -/
structure TooManyDigits where
  count : Nat
  deriving DecidableEq, Repr

def TooManyDigits.message (e : TooManyDigits) : String :=
  s!"Exceeds the limit ({maxDecimalDigits} digits) for integer string conversion: value has " ++
    s!"{e.count} digits; use sys.set_int_max_str_digits() to increase the limit"

/-- The value of decimal digits, unless there are too many. -/
def readDecimal (digits : List Char) : Except TooManyDigits Nat :=
  if maxDecimalDigits < digits.length then .error ⟨digits.length⟩ else .ok (decimalValue digits)

/-- Splits a sign off; `true` is minus. -/
def splitSign : List Char → Bool × List Char
  | '+' :: rest => (false,rest)
  | '-' :: rest => (true,rest)
  | text => (false,text)

def withSign (negative : Bool) (n : Nat) : Int := if negative then -(n : Int) else n

/-- Reads a literal: an optional sign, then one or more decimal digits. A line feed at the
end is passed over. Any other text is no literal. -/
def readLiteral (text : List Char) : Except TooManyDigits (Option Int) :=
  let (negative,digits) := splitSign (dropFinalBreak text)
  if digits.isEmpty || !digits.all isDecimalDigit then .ok none
  else (readDecimal digits).map fun n => some (withSign negative n)

/-- Blanks that a loose number may stand between: all but the four separators of ASCII. -/
def isPadding (c : Char) : Bool := isBlank c && !(0x1C ≤ c.toNat && c.toNat ≤ 0x1F)

/-- Digits of any script, read as digits of the base. -/
def looseDigit? (base : Nat) (c : Char) : Option Nat :=
  ((decimalDigit? c).or (hexDigit? c)).filter (· < base)

/-- One or more digits, with at most one underscore between two of them. -/
def groupedDigits? (base : Nat) : List Char → Option (List Nat)
  | [] => none
  | [c] => (looseDigit? base c).map ([·])
  | c :: '_' :: rest => do return (← looseDigit? base c) :: (← groupedDigits? base rest)
  | c :: rest => do return (← looseDigit? base c) :: (← groupedDigits? base rest)

/-- Passes over the mark of base sixteen, and one underscore behind it. -/
def dropBaseMark (base : Nat) : List Char → List Char
  | zero :: x :: rest =>
    if base = 16 ∧ decimalDigit? zero = some 0 ∧ (x = 'x' ∨ x = 'X') then
      match rest with
      | '_' :: digits => digits
      | _ => rest
    else zero :: x :: rest
  | text => text

/-- The sign and the digits of a loose number. -/
def looseNumber? (base : Nat) (text : List Char) : Option (Bool × List Nat) :=
  let core := ((text.dropWhile isPadding).reverse.dropWhile isPadding).reverse
  let (negative,body) := splitSign core
  (groupedDigits? base (dropBaseMark base body)).map fun digits => (negative,digits)

/-- A loose hexadecimal number of any length. -/
def looseHex? (text : List Char) : Option Int :=
  (looseNumber? 16 text).map fun (negative,digits) => withSign negative (ofDigits 16 digits)

/-- A loose decimal number, unless it has too many digits. -/
def looseDecimal? (text : List Char) : Option Int := do
  let (negative,digits) ← looseNumber? 10 text
  if maxDecimalDigits < digits.length then none
  else some (withSign negative (ofDigits 10 digits))

/-- Digits with zeros in front up to a width. -/
def zeroPadded (width : Nat) (digits : List Char) : List Char :=
  List.replicate (width - digits.length) '0' ++ digits

def decimal (n : Int) : String :=
  String.ofList ((if n < 0 then ['-'] else []) ++ Nat.toDigits 10 n.natAbs)

/-- How many digits a number is written with; its sign is none of them. -/
def decimalLength (n : Int) : Nat := (Nat.toDigits 10 n.natAbs).length

/-- A number of few enough digits to be written. -/
structure Writable where
  value : Int
  short : decimalLength value ≤ maxDecimalDigits
  deriving DecidableEq, Repr

def Writable.text (n : Writable) : String := decimal n.value

/-- A number of more digits than can be written. -/
structure Unwritable where
  value : Int
  deriving DecidableEq, Repr

def Unwritable.message (_ : Unwritable) : String :=
  s!"Exceeds the limit ({maxDecimalDigits} digits) for integer string conversion; use " ++
    "sys.set_int_max_str_digits() to increase the limit"

/-- A number that may be any, made ready for writing. -/
def writable (n : Int) : Except Unwritable Writable :=
  if h : decimalLength n ≤ maxDecimalDigits then .ok ⟨n,h⟩ else .error ⟨n⟩

/-- Decimal digits of at least the given width; a minus sign counts for one. -/
def decimalPadded (width : Nat) (n : Int) : String :=
  String.ofList <|
    if n < 0 then '-' :: zeroPadded (width - 1) (Nat.toDigits 10 n.natAbs)
    else zeroPadded width (Nat.toDigits 10 n.natAbs)

/-- Capital hexadecimal digits of a number. -/
def hexDigits (n : Nat) : List Char := (Nat.toDigits 16 n).map Char.toUpper

/-- Hexadecimal digits of at least the given width; a minus sign counts for one. -/
def hexPadded (width : Nat) (n : Int) : String :=
  String.ofList <|
    if n < 0 then '-' :: zeroPadded (width - 1) (hexDigits n.natAbs)
    else zeroPadded width (hexDigits n.natAbs)

end Micro86.Text
