import StreamScope.Double
import StreamScope.Json.Basic
import StreamScope.Text.Reader

/-!
Strict JSON text. Only the space, the tab and the two line-end characters are
blank, nothing may follow the value, an escaped surrogate must come as a pair,
and arrays and objects nest at most `maxDepth` deep. Decimals are evaluated in
64-bit arithmetic, first their digits and then their power of ten.
-/

namespace StreamScope.Json.Parser

open Text Text.Reader

def maxDepth : Nat := 127

def isBlank (c : Char) : Bool := c = ' ' || c = '\t' || c = '\n' || c = '\r'

def blanks : Reader Unit := do
  let _ ← run isBlank

/-- A mark of punctuation and the blanks after it. -/
def mark (c : Char) : Reader Unit := do
  char c
  blanks

/-- The four digits after a backslash and a `u`, and the second unit of a pair. -/
def unicodeEscape : Reader Char := do
  let unit ← hexDigits 4
  if 0xD800 ≤ unit ∧ unit < 0xDC00 then
    text "\\u"
    let second ← hexDigits 4
    if 0xDC00 ≤ second ∧ second < 0xE000 then
      liftM (scalar? (0x10000 + (unit - 0xD800) * 0x400 + (second - 0xDC00)))
    else failure
  else liftM (scalar? unit)

def simpleEscape? : Char → Option Char
  | '"' => some '"'
  | '\\' => some '\\'
  | '/' => some '/'
  | 'b' => some '\x08'
  | 'f' => some '\x0c'
  | 'n' => some '\n'
  | 'r' => some '\r'
  | 't' => some '\t'
  | _ => none

/-- A run of characters that stand for themselves, or one that is escaped. -/
def stringPiece : Reader (List Char) :=
  run1 (fun c => c ≠ '"' && c ≠ '\\' && 0x20 ≤ c.toNat) <|> do
    char '\\'
    let kind ← charOf fun _ => true
    let c ← if kind = 'u' then unicodeEscape else liftM (simpleEscape? kind)
    pure [c]

def string : Reader String := do
  char '"'
  let pieces ← many stringPiece
  char '"'
  pure (String.ofList pieces.flatten)

/-- The value of a run of decimal digits. -/
def digitsValue (digits : List Char) : Nat :=
  digits.foldl (fun n d => 10 * n + (d.toNat - '0'.toNat)) 0

def isDigit (c : Char) : Bool := '0' ≤ c && c ≤ '9'

def exponentPart : Reader Int := do
  let _ ← charOf fun c => c = 'e' || c = 'E'
  let sign ← option (charOf fun c => c = '+' || c = '-')
  let digits ← run1 isDigit
  let n : Int := digitsValue digits
  pure (if sign = some '-' then -n else n)

/-- Digits read as one integer of 64 bits, and the power of ten that goes with it. -/
structure Significand where
  value : Nat := 0
  power : Int := 0

namespace Significand

/-- Adds the next digit, if there is room for it. -/
def push? (s : Significand) (digit : Char) : Option Nat :=
  let value := digitsValue [digit] + 10 * s.value
  if value < Nat.pow 2 64 then some value else none

/-- Adds digits before the point. The first one without room and all behind it only count. -/
def addWhole (s : Significand) : List Char → Significand
  | [] => s
  | digit :: digits =>
      match s.push? digit with
      | some value => addWhole { s with value } digits
      | none => { s with power := s.power + (digits.length + 1) }

/-- Adds digits behind the point. The first one without room and all behind it are dropped. -/
def addFraction (s : Significand) : List Char → Significand
  | [] => s
  | digit :: digits =>
      match s.push? digit with
      | some value => addFraction { value, power := s.power - 1 } digits
      | none => s

end Significand

/-- A decimal as the shortest one that stands for the same number. -/
def decimal (negative : Bool) (x : Double) : Number :=
  let (digits, power) := x.shortest
  .decimal negative digits power

/-- An integer that fits in 64 bits, signed or unsigned, stays one; all else is a decimal, which
must not be too large. Minus zero has no integer. -/
def numberOfParts (negative : Bool) (whole : List Char) (fraction : Option (List Char))
    (exponent : Option Int) : Option Number :=
  let value := digitsValue whole
  if fraction.isNone && exponent.isNone && !negative && value < Nat.pow 2 64 then
    some (.integer value)
  else if fraction.isNone && exponent.isNone && negative && 0 < value && value ≤ Nat.pow 2 63 then
    some (.integer (-value))
  else
    let s := (Significand.addWhole {} whole).addFraction (fraction.getD [])
    ((Double.ofDecimal? s.value 0).bind fun x => x.scale? (s.power + exponent.getD 0)).map
      (decimal negative)

def wholePart : Reader (List Char) :=
  (do char '0'; pure ['0']) <|> do
    let lead ← charOf fun c => '1' ≤ c && c ≤ '9'
    let rest ← run isDigit
    pure (lead :: rest)

def number : Reader Number := do
  let sign ← option (char '-')
  let whole ← wholePart
  let fraction ← option (do char '.'; run1 isDigit)
  let exponent ← option exponentPart
  liftM (numberOfParts sign.isSome whole fraction exponent)

def scalar : Reader Json :=
  (do text "null"; pure .null) <|>
  (do text "true"; pure (.bool true)) <|>
  (do text "false"; pure (.bool false)) <|>
  (do let s ← string; pure (.string s)) <|>
  (do let n ← number; pure (.number n))

def list (item : Reader Json) : Reader Json := do
  mark '['
  let items ← separated (do let v ← item; blanks; pure v) (mark ',')
  char ']'
  pure (.array items)

def member (value : Reader Json) : Reader (String × Json) := do
  let key ← string
  blanks
  mark ':'
  let v ← value
  blanks
  pure (key, v)

def map (value : Reader Json) : Reader Json := do
  mark '\x7b'
  let fields ← separated (member value) (mark ',')
  char '\x7d'
  pure (ofFields fields)

/-- A value whose arrays and objects nest at most `depth` deep. -/
def value : Nat → Reader Json
  | 0 => scalar
  | depth + 1 => scalar <|> list (value depth) <|> map (value depth)

end Parser

open Parser Text.Reader

/-- Reads text whose arrays and objects nest at most `depth` deep. -/
def ofTextWithin? (depth : Nat) (text : String) : Option Json :=
  readAll? (do blanks; let v ← value depth; blanks; pure v) text

def ofText? (text : String) : Option Json := ofTextWithin? maxDepth text

end StreamScope.Json
