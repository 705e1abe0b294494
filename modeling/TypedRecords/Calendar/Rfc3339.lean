import TypedRecords.Calendar.Instant

/-! Instants in the form of RFC 3339. They are written in universal time with three places of
the second; they are read with any offset and any number of places. -/
namespace TypedRecords.Rfc3339

def padded (width n : Nat) : List Char :=
  let digits := Nat.toDigits 10 n
  List.replicate (width - digits.length) '0' ++ digits

/-- Years of four digits have no sign. -/
def yearText (year : Int) : List Char :=
  if 0 ≤ year ∧ year ≤ 9999 then padded 4 year.toNat
  else (if year < 0 then '-' else '+') :: padded 4 year.natAbs

def dateText (date : Date) : List Char :=
  yearText date.year ++ '-' :: padded 2 date.month ++ '-' :: padded 2 date.day

/-- A leap second is the sixtieth. -/
def timeText (second nanos : Nat) : List Char :=
  padded 2 (second / 3600) ++ ':' :: padded 2 (second / 60 % 60) ++
    ':' :: padded 2 (second % 60 + nanos / 1000000000) ++
    '.' :: padded 3 (nanos / 1000000 % 1000)

def render (t : Instant) : String :=
  String.ofList (dateText (Date.ofDays (t.secs / 86400)) ++
    'T' :: timeText (t.secs % 86400).toNat t.nanos ++ ['Z'])

/-- A number of exactly so many digits, and the text after it. -/
def digits? (width : Nat) (text : List Char) : Option (Nat × List Char) :=
  let digits := text.take width
  if digits.length = width ∧ digits.all Char.isDigit then
    some (Nat.ofDigitChars 10 digits 0, text.drop width)
  else none

def char? (c : Char) : List Char → Option (List Char)
  | [] => none
  | first :: rest => if first = c then some rest else none

def date? (text : List Char) : Option (Date × List Char) := do
  let (year, text) ← digits? 4 text
  let (month, text) ← digits? 2 (← char? '-' text)
  let (day, text) ← digits? 2 (← char? '-' text)
  let date : Date := ⟨year, month, day⟩
  if date.Valid then some (date, text) else none

def separator? : List Char → Option (List Char)
  | [] => none
  | c :: rest => if c = 'T' ∨ c = 't' ∨ c = ' ' then some rest else none

/-- Nanoseconds after the point. Places past the ninth are read and do not count. -/
def fraction? : List Char → Option (Nat × List Char)
  | '.' :: text =>
    let places := text.takeWhile Char.isDigit
    if places.isEmpty then none
    else
      let kept := (places ++ List.replicate 9 '0').take 9
      some (Nat.ofDigitChars 10 kept 0, text.dropWhile Char.isDigit)
  | text => some (0, text)

/-- Second of the day and nanoseconds. Second sixty is the leap second after second 59. -/
def time? (text : List Char) : Option (Nat × Nat × List Char) := do
  let (hour, text) ← digits? 2 text
  let (minute, text) ← digits? 2 (← char? ':' text)
  let (second, text) ← digits? 2 (← char? ':' text)
  let (nanos, text) ← fraction? text
  if hour ≤ 23 ∧ minute ≤ 59 ∧ second ≤ 60 then
    let time := hour * 3600 + minute * 60
    if second = 60 then some (time + 59, nanos + 1000000000, text)
    else some (time + second, nanos, text)
  else none

/-- Seconds east of universal time. The minus sign U+2212 is a minus too. -/
def offset? : List Char → Option (Int × List Char)
  | [] => none
  | sign :: text =>
    if sign = 'Z' ∨ sign = 'z' then some (0, text)
    else if sign = '+' ∨ sign = '-' ∨ sign = '\u2212' then do
      let (hours, text) ← digits? 2 text
      let (minutes, text) ← digits? 2 (← char? ':' text)
      if hours ≤ 23 ∧ minutes ≤ 59 then
        let east : Int := hours * 3600 + minutes * 60
        some (if sign = '+' then east else -east, text)
      else none
    else none

def read? (text : List Char) : Option Zoned := do
  let (date, text) ← date? text
  let (second, nanos, text) ← time? (← separator? text)
  let (offset, text) ← offset? text
  guard text.isEmpty
  let instant ← Instant.ofParts? (date.toDays * 86400 + second - offset) nanos
  some ⟨instant, offset⟩

end TypedRecords.Rfc3339
