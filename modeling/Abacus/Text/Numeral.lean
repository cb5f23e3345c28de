import Abacus.Text.Blank

namespace Abacus.Text

/-! Decimal numerals: how they are read, and how long they may be.

A number of more than `maxDigits` digits may well be computed with, but not written out. -/

def maxDigits : Nat := 4300

def magnitudeBound : Nat := Nat.pow 10 maxDigits

def isWritable (value : Int) : Bool :=
  decide (value.natAbs < magnitudeBound)

def unwritable : String :=
  "Exceeds the limit (" ++ toString maxDigits ++ " digits) for integer string conversion; " ++
    "use sys.set_int_max_str_digits() to increase the limit"

/-- The zero of each script that has decimal digits; the other nine follow it. -/
def digitZeros : List Nat :=
  [0x30, 0x660, 0x6F0, 0x7C0, 0x966, 0x9E6, 0xA66, 0xAE6, 0xB66, 0xBE6, 0xC66, 0xCE6, 0xD66,
    0xDE6, 0xE50, 0xED0, 0xF20, 0x1040, 0x1090, 0x17E0, 0x1810, 0x1946, 0x19D0, 0x1A80, 0x1A90,
    0x1B50, 0x1BB0, 0x1C40, 0x1C50, 0xA620, 0xA8D0, 0xA900, 0xA9D0, 0xA9F0, 0xAA50, 0xABF0,
    0xFF10, 0x104A0, 0x10D30, 0x11066, 0x110F0, 0x11136, 0x111D0, 0x112F0, 0x11450, 0x114D0,
    0x11650, 0x116C0, 0x11730, 0x118E0, 0x11950, 0x11C50, 0x11D50, 0x11DA0, 0x16A60, 0x16AC0,
    0x16B50, 0x1D7CE, 0x1D7D8, 0x1D7E2, 0x1D7EC, 0x1D7F6, 0x1E140, 0x1E2F0, 0x1E950, 0x1FBF0]

def digitValue? (c : Char) : Option Nat :=
  (digitZeros.find? fun first => first ≤ c.toNat && c.toNat < first + 10).map (c.toNat - ·)

/-- Reads on after a digit; one underscore may stand between two digits. -/
def readDigits (value : Nat) : List Char → Option Nat
  | [] => some value
  | '_' :: c :: rest => digitValue? c >>= fun digit => readDigits (10 * value + digit) rest
  | c :: rest => digitValue? c >>= fun digit => readDigits (10 * value + digit) rest

def readMagnitude? : List Char → Option Nat
  | [] => none
  | c :: rest => digitValue? c >>= fun digit => readDigits digit rest

/-- Blanks at the ends of a numeral do not count; the information separators are no blanks there. -/
def isNumeralBlank (c : Char) : Bool :=
  isBlank c && !(0x1C ≤ c.toNat && c.toNat ≤ 0x1F)

def readInt? (text : List Char) : Option Int :=
  match trimBy isNumeralBlank text with
  | '-' :: digits => (readMagnitude? digits).map fun n => -(n : Int)
  | '+' :: digits => (readMagnitude? digits).map Int.ofNat
  | digits => (readMagnitude? digits).map Int.ofNat

end Abacus.Text
