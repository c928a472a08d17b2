/-!
# Reading numbers from text

Numbers on the command line are read the way the standard integer readers of systems languages
read them: an optional sign (`+`, and `-` for signed types only), then decimal digits, nothing
else. Digits are taken from the left; the first fault found decides the failure, so a value that
overflows before a bad character reports the overflow.

Whitespace trimming takes off the characters Unicode calls white space at both ends.
-/

namespace EventStore

/-- Why a text is not a number of the wanted type. -/
inductive IntError where
  | empty
  | invalidDigit
  | posOverflow
  | negOverflow
  deriving DecidableEq, Repr, Inhabited

namespace IntError

/-- The text of the failure. -/
def message : IntError → String
  | empty => "cannot parse integer from empty string"
  | invalidDigit => "invalid digit found in string"
  | posOverflow => "number too large to fit in target type"
  | negOverflow => "number too small to fit in target type"

end IntError

namespace NumberText

/-- Accumulates decimal digits onto `acc`, failing at the first non-digit or once the value
leaves `[lo, hi]`; `negative` subtracts each digit instead of adding it. -/
def digits (lo hi : Int) (negative : Bool) : List Char → Int → Except IntError Int
  | [], acc => .ok acc
  | c :: cs, acc =>
    if c.isDigit then
      let d : Int := c.toNat - 48
      let next := if negative then acc * 10 - d else acc * 10 + d
      if next < lo then .error .negOverflow
      else if hi < next then .error .posOverflow
      else digits lo hi negative cs next
    else .error .invalidDigit

/-- Reads a whole text as an integer in `[lo, hi]`; `signed` allows a leading `-`. -/
def parseInt (lo hi : Int) (signed : Bool) (s : String) : Except IntError Int :=
  match s.toList with
  | [] => .error .empty
  | ['+'] | ['-'] => .error .invalidDigit
  | '+' :: rest => digits lo hi false rest 0
  | '-' :: rest => if signed then digits lo hi true rest 0 else .error .invalidDigit
  | cs => digits lo hi false cs 0

/-- Reads an unsigned number of `bits` bits. -/
def parseUnsigned (bits : Nat) (s : String) : Except IntError Nat :=
  (parseInt 0 (Int.pow 2 bits - 1) false s).map Int.toNat

/-- Reads a signed number of `bits` bits. -/
def parseSigned (bits : Nat) (s : String) : Except IntError Int :=
  parseInt (-Int.pow 2 (bits - 1)) (Int.pow 2 (bits - 1) - 1) true s

/-- Whether a character is white space in Unicode's sense. -/
def isWhite (c : Char) : Bool :=
  let n := c.toNat
  (9 ≤ n ∧ n ≤ 13) ∨ n = 32 ∨ n = 0x85 ∨ n = 0xA0 ∨ n = 0x1680 ∨ (0x2000 ≤ n ∧ n ≤ 0x200A) ∨
    n = 0x2028 ∨ n = 0x2029 ∨ n = 0x202F ∨ n = 0x205F ∨ n = 0x3000

/-- The text without white space at either end. -/
def trim (s : String) : String :=
  String.ofList (((s.toList.dropWhile isWhite).reverse.dropWhile isWhite).reverse)

/-- The lowercase form of a character for unit suffixes: ASCII letters and the Kelvin sign,
which is an uppercase `k`. -/
def lowerChar (c : Char) : Char :=
  if c.toNat = 0x212A then 'k' else c.toLower

/-- The text in lowercase, as far as unit suffixes go. -/
def lower (s : String) : String := String.ofList (s.toList.map lowerChar)

end NumberText

end EventStore
