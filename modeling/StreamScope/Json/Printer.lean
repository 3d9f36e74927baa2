import StreamScope.Json.Basic

/-!
The compact text of a JSON value: no blanks, characters written as they are
except the quote, the backslash and the controls below the space.
-/

namespace StreamScope.Json

def hexDigit4 (n : Nat) : List Char :=
  let digits := Nat.toDigits 16 n
  List.replicate (4 - digits.length) '0' ++ digits

def escape (c : Char) : List Char :=
  if c = '"' then ['\\', '"']
  else if c = '\\' then ['\\', '\\']
  else if c = '\x08' then ['\\', 'b']
  else if c = '\x0c' then ['\\', 'f']
  else if c = '\n' then ['\\', 'n']
  else if c = '\r' then ['\\', 'r']
  else if c = '\t' then ['\\', 't']
  else if c.toNat < 0x20 then ['\\', 'u'] ++ hexDigit4 c.toNat
  else [c]

def printString (s : String) : String :=
  String.ofList (['"'] ++ s.toList.flatMap escape ++ ['"'])

/-- The digits of a coefficient without its trailing zeros, and how many of them there were. -/
def significant (coefficient : Nat) : List Char × Nat :=
  let digits := Nat.toDigits 10 coefficient
  let kept := (digits.reverse.dropWhile (· = '0')).reverse
  (kept, digits.length - kept.length)

namespace Number

/-- A decimal is written positionally, with at least one digit after the point, while its leading
digit stands between `10 ^ (-5)` and `10 ^ 15`; beyond that it is written with an exponent and
the exponent's sign. -/
def printDecimal (coefficient : Nat) (exponent : Int) : List Char :=
  let (digits, zeros) := significant coefficient
  if digits.isEmpty then ['0', '.', '0'] else
  let shift := exponent + zeros
  let point := shift + digits.length
  if 0 ≤ shift ∧ point ≤ 16 then
    digits ++ List.replicate shift.toNat '0' ++ ['.', '0']
  else if 0 < point ∧ point ≤ 16 then
    digits.take point.toNat ++ ['.'] ++ digits.drop point.toNat
  else if -5 < point ∧ point ≤ 0 then
    ['0', '.'] ++ List.replicate (-point).toNat '0' ++ digits
  else
    let sign := if 0 < point then '+' else '-'
    let power := 'e' :: sign :: (toString (point - 1).natAbs).toList
    match digits with
    | [single] => single :: power
    | lead :: rest => lead :: '.' :: rest ++ power
    | [] => power

def print : Number → String
  | .integer value => toString value
  | .decimal negative coefficient exponent =>
      String.ofList ((if negative then ['-'] else []) ++ printDecimal coefficient exponent)

end Number

mutual
def print : Json → String
  | .null => "null"
  | .bool true => "true"
  | .bool false => "false"
  | .number value => value.print
  | .string value => printString value
  | .array [] => "[]"
  | .array (item :: items) => "[" ++ print item ++ printItems items
  | .object [] => "\x7b\x7d"
  | .object ((key, value) :: fields) =>
      "\x7b" ++ printString key ++ ":" ++ print value ++ printFields fields

def printItems : List Json → String
  | [] => "]"
  | item :: items => "," ++ print item ++ printItems items

def printFields : List (String × Json) → String
  | [] => "\x7d"
  | (key, value) :: fields => "," ++ printString key ++ ":" ++ print value ++ printFields fields
end

end StreamScope.Json
