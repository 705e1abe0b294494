import TypedRecords.Decimal.Layout

/-! JSON trees and their text, in one line or indented by two spaces. -/
namespace TypedRecords

inductive Json where
  | null
  | boolean (b : Bool)
  | integer (n : Int)
  | floating (x : Double)
  | string (text : String)
  | array (items : List Json)
  | object (members : List (String × Json))

namespace Json

/-- A number that is whole ends in `.0`. Beyond the powers of ten from -5 to 15 a number is written
with an exponent, and of two equally near decimals the even one is taken. -/
def layout : DecimalLayout := ⟨.even, fun order => -5 ≤ order ∧ order ≤ 15, true⟩

def hexDigits (n : Nat) : List Char :=
  [(n / 16).digitChar, (n % 16).digitChar]

/-- Quotation marks, backslashes and control characters are escaped, and nothing else. -/
def escape (c : Char) : List Char :=
  if c = '"' then ['\\', '"']
  else if c = '\\' then ['\\', '\\']
  else if c = '\x08' then ['\\', 'b']
  else if c = '\x0c' then ['\\', 'f']
  else if c = '\n' then ['\\', 'n']
  else if c = '\r' then ['\\', 'r']
  else if c = '\t' then ['\\', 't']
  else if c.toNat < 32 then ['\\', 'u', '0', '0'] ++ hexDigits c.toNat
  else [c]

def quoted (text : String) : String :=
  String.ofList ('"' :: text.toList.flatMap escape ++ ['"'])

def newline (indented : Bool) (depth : Nat) : String :=
  if indented then "\n".pushn ' ' (2 * depth) else ""

def enclose (indented : Bool) (depth : Nat) (first last : String) (parts : List String) : String :=
  if parts.isEmpty then first ++ last
  else
    first ++ newline indented (depth + 1) ++
      ("," ++ newline indented (depth + 1)).intercalate parts ++ newline indented depth ++ last

mutual

def render (indented : Bool) (depth : Nat) : Json → String
  | null => "null"
  | boolean b => if b then "true" else "false"
  | integer n => intText n
  | floating x => if x.isFinite then layout.text x else "null"
  | string text => quoted text
  | array items => enclose indented depth "[" "]" (renderItems indented (depth + 1) items)
  | object members =>
    enclose indented depth "\x7b" "\x7d" (renderMembers indented (depth + 1) members)

def renderItems (indented : Bool) (depth : Nat) : List Json → List String
  | [] => []
  | item :: items => item.render indented depth :: renderItems indented depth items

def renderMembers (indented : Bool) (depth : Nat) : List (String × Json) → List String
  | [] => []
  | (name, value) :: members =>
    (quoted name ++ (if indented then ": " else ":") ++ value.render indented depth) ::
      renderMembers indented depth members

end

mutual

/-- Numbers with a point are compared as numbers, and none of them is an integer. -/
def same : Json → Json → Bool
  | null, null => true
  | boolean a, boolean b => a == b
  | integer a, integer b => a == b
  | floating x, floating y => x.equal y
  | string a, string b => a == b
  | array a, array b => sameItems a b
  | object a, object b => sameMembers a b
  | _, _ => false

def sameItems : List Json → List Json → Bool
  | [], [] => true
  | a :: as, b :: bs => a.same b && sameItems as bs
  | _, _ => false

def sameMembers : List (String × Json) → List (String × Json) → Bool
  | [], [] => true
  | (name, a) :: as, (other, b) :: bs => name == other && a.same b && sameMembers as bs
  | _, _ => false

end

instance : BEq Json := ⟨same⟩

def compact (json : Json) : String := json.render false 0

def pretty (json : Json) : String := json.render true 0

end Json

end TypedRecords
