import TypedRecords.Floating.Rounding

/-! Numerals as they are read: integers are a sign and digits; numbers may also have a point,
a power of ten, or be a word for infinity or for what is no number. -/
namespace TypedRecords

inductive Numeral
  | finite (negative : Bool) (coefficient : Nat) (exponent : Int)
  | infinity (negative : Bool)
  | nan
deriving DecidableEq

namespace Numeral

def splitSign : List Char → Bool × List Char
  | '-' :: rest => (true, rest)
  | '+' :: rest => (false, rest)
  | text => (false, text)

def natural? (text : List Char) : Option Nat :=
  if !text.isEmpty && text.all Char.isDigit then some (Nat.ofDigitChars 10 text 0) else none

def integer? (text : List Char) : Option Int :=
  let (negative, rest) := splitSign text
  (natural? rest).map fun n => if negative then -n else n

/-- Once a power of ten has reached 65536 its further digits do not count. -/
def power (digits : List Char) : Nat :=
  digits.foldl (fun n c => if n < 65536 then Nat.ofDigitChars 10 [c] n else n) 0

/-- What follows the digits of a number: nothing, or a power of ten. -/
def exponent? : List Char → Option Int
  | [] => some 0
  | mark :: rest =>
    if mark = 'e' ∨ mark = 'E' then
      let (negative, digits) := splitSign rest
      (natural? digits).map fun _ => if negative then -power digits else power digits
    else none

/-- Digits with a point anywhere among them or none; at least one digit. -/
def unsigned? (negative : Bool) (text : List Char) : Option Numeral :=
  let whole := text.takeWhile Char.isDigit
  let (fraction, rest) := match text.dropWhile Char.isDigit with
    | '.' :: rest => (rest.takeWhile Char.isDigit, rest.dropWhile Char.isDigit)
    | rest => ([], rest)
  if whole.isEmpty && fraction.isEmpty then none
  else (exponent? rest).map fun e =>
    finite negative (Nat.ofDigitChars 10 (whole ++ fraction) 0) (e - fraction.length)

def word? (negative : Bool) (text : List Char) : Option Numeral :=
  match String.ofList (text.map Char.toLower) with
  | "inf" | "infinity" => some (infinity negative)
  | "nan" => some nan
  | _ => none

def number? (text : List Char) : Option Numeral :=
  let (negative, rest) := splitSign text
  (unsigned? negative rest).or (word? negative rest)

def toFloating {format : FloatFormat} : Numeral → Floating format
  | finite negative coefficient exponent => .ofDecimal negative coefficient exponent
  | infinity negative => .infinity negative
  | nan => .nan

end Numeral

end TypedRecords
