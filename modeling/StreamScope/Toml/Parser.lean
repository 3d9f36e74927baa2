import StreamScope.Json.Parser
import StreamScope.Toml.Document

/-!
TOML text: a statement or nothing on each line, with a comment after it. Values
are strings in their four forms, integers of 64 bits, decimals, booleans, arrays
and inline tables. Values nest at most `maxDepth` deep, and the path of a key has
at most so many parts.
-/

namespace StreamScope.Toml.Parser

open Text Text.Reader

def maxDepth : Nat := 79

def blanks : Reader Unit := do
  let _ ← run fun c => c = ' ' || c = '\t'

def newline : Reader Unit := text "\n" <|> text "\r\n"

/-- Characters that comments and strings hold as they are. -/
def isPlain (c : Char) : Bool := c = '\t' || 0x20 ≤ c.toNat && c.toNat ≠ 0x7F

def comment : Reader Unit := do
  char '#'
  let _ ← run isPlain

/-- The rest of a line on which nothing but a comment may stand. -/
def lineEnd : Reader Unit := do
  blanks
  let _ ← option comment
  newline <|> atEnd

/-- Blanks, comments and line ends between the items of an array. -/
def spacing : Reader Unit := do
  let _ ← many (charOf (fun c => c = ' ' || c = '\t') *> pure () <|> comment *> newline <|> newline)

def escape : Reader Char := do
  char '\\'
  match ← charOf fun _ => true with
  | 'b' => pure '\x08'
  | 't' => pure '\t'
  | 'n' => pure '\n'
  | 'f' => pure '\x0c'
  | 'r' => pure '\r'
  | '"' => pure '"'
  | '\\' => pure '\\'
  | 'u' => do liftM (scalar? (← hexDigits 4))
  | 'U' => do liftM (scalar? (← hexDigits 8))
  | _ => failure

/-- A run of characters that stand for themselves, or one that is escaped. -/
def basicPiece : Reader (List Char) :=
  run1 (fun c => isPlain c && c ≠ '"' && c ≠ '\\') <|> List.singleton <$> escape

def basicString : Reader String := do
  char '"'
  let pieces ← many basicPiece
  char '"'
  pure (String.ofList pieces.flatten)

def literalString : Reader String := do
  char '\''
  let cs ← run fun c => isPlain c && c ≠ '\''
  char '\''
  pure (String.ofList cs)

/-- A quote that does not end a string of several lines. -/
def innerQuote (quote : Char) : Reader Char := fun s =>
  if [quote, quote, quote].isPrefixOf s then none else charOf (· = quote) s

/-- The end of a string of several lines, before which up to two quotes may stand. -/
def closingQuotes (quote : Char) : Reader (List Char) := do
  text (String.ofList [quote, quote, quote])
  let first ← option (charOf (· = quote))
  let second ← option (charOf (· = quote))
  pure (first.toList ++ second.toList)

/-- A backslash at the end of a line joins it to the next text. -/
def lineJoin : Reader Unit := do
  char '\\'
  blanks
  newline
  let _ ← many (charOf (fun c => c = ' ' || c = '\t') *> pure () <|> newline)

def severalLines (quote : Char) (piece : Reader (List Char)) : Reader String := do
  text (String.ofList [quote, quote, quote])
  let _ ← option newline
  let pieces ← many (piece <|> newline *> pure ['\n'] <|> List.singleton <$> innerQuote quote)
  let last ← closingQuotes quote
  pure (String.ofList (pieces.flatten ++ last))

def basicLines : Reader String :=
  severalLines '"' (basicPiece <|> lineJoin *> pure [])

def literalLines : Reader String :=
  severalLines '\'' (run1 fun c => isPlain c && c ≠ '\'')

/-- Digits, between which single underscores may stand. -/
def digits (p : Char → Bool) : Reader (List Char) := do
  let first ← charOf p
  let rest ← many (do let _ ← option (char '_'); charOf p)
  pure (first :: rest)

def isDigit : Char → Bool := Json.Parser.isDigit

def wholePart : Reader (List Char) :=
  (do char '0'; pure ['0']) <|> do
    let lead ← charOf fun c => '1' ≤ c && c ≤ '9'
    let rest ← many (do let _ ← option (char '_'); charOf isDigit)
    pure (lead :: rest)

/-- An integer in another base; its digits are read as hexadecimal ones. -/
def basedInteger (opening : String) (base : Nat) : Reader Json.Number := do
  text opening
  let ds ← digits fun c => ((hexValue? c).map fun d => decide (d < base)).getD false
  let value := (ds.filterMap hexValue?).foldl (base * · + ·) 0
  if value < Nat.pow 2 63 then pure (.integer value) else failure

def decimalNumber : Reader Json.Number := do
  let sign ← option (charOf fun c => c = '+' || c = '-')
  let negative := sign = some '-'
  let whole ← wholePart
  let fraction ← option (do char '.'; digits isDigit)
  let exponent ← option (do
    let _ ← charOf fun c => c = 'e' || c = 'E'
    let sign ← option (charOf fun c => c = '+' || c = '-')
    let n : Int := Json.Parser.digitsValue (← digits isDigit)
    pure (if sign = some '-' then -n else n))
  if fraction.isNone && exponent.isNone then
    let value : Int := Json.Parser.digitsValue whole
    let signed := if negative then -value else value
    if -Int.pow 2 63 ≤ signed ∧ signed < Int.pow 2 63 then pure (.integer signed) else failure
  else
    let places := fraction.getD []
    let coefficient := Json.Parser.digitsValue (whole ++ places)
    let x ← liftM (Double.ofDecimal? coefficient (exponent.getD 0 - places.length))
    pure (Json.Parser.decimal negative x)

def number : Reader Json.Number :=
  basedInteger "0x" 16 <|> basedInteger "0o" 8 <|> basedInteger "0b" 2 <|> decimalNumber

def isBareKey (c : Char) : Bool := c.isAlphanum || c = '_' || c = '-'

def key : Reader String := String.ofList <$> run1 isBareKey <|> basicString <|> literalString

def path : Reader (List String) := do
  let keys ← separated1 (do let k ← key; blanks; pure k) (do char '.'; blanks)
  if keys.length ≤ maxDepth then pure keys else failure

def assignment (value : Reader Json) : Reader (List String × Json) := do
  let keys ← path
  char '='
  blanks
  let v ← value
  pure (keys, v)

def scalar : Reader Json :=
  Json.string <$> (basicLines <|> literalLines <|> basicString <|> literalString) <|>
  text "true" *> pure (.bool true) <|> text "false" *> pure (.bool false) <|>
  Json.number <$> number

/-- The items of an array; a comma may follow the last one. -/
def items (value : Reader Json) : Reader (List Json) := do
  let vs ← separated1 (do let v ← value; spacing; pure v) (do char ','; spacing)
  let _ ← option (do char ','; spacing)
  pure vs

def array (value : Reader Json) : Reader Json := do
  char '['
  spacing
  let vs ← option (items value)
  char ']'
  pure (.array (vs.getD []))

def inlineTable (value : Reader Json) : Reader Json := do
  char '\x7b'
  blanks
  let fields ← separated (do let field ← assignment value; blanks; pure field)
    (do char ','; blanks)
  char '\x7d'
  let entries ← liftM (fields.foldlM (fun entries (keys, v) => Entries.assign? v keys entries) [])
  pure (.ofFields (Entries.toFields entries))

/-- A value whose arrays and tables nest at most `depth` deep. -/
def value : Nat → Reader Json
  | 0 => scalar
  | depth + 1 => scalar <|> array (value depth) <|> inlineTable (value depth)

def header (opening closing : String) : Reader (List String) := do
  text opening
  blanks
  let keys ← path
  text closing
  pure keys

def statement : Reader Statement :=
  Statement.element <$> header "[[" "]]" <|>
  Statement.table <$> header "[" "]" <|>
  (fun (keys, v) => Statement.assign keys v) <$> assignment (value maxDepth)

def line : Reader (Option Statement) := do
  blanks
  let found ← option statement
  lineEnd
  pure found

/-- The lines of a text, which may start with a byte order mark. -/
def lines : Reader (List (Option Statement)) := do
  let _ ← option (char '\ufeff')
  many line

end Parser

open Parser Text.Reader

/-- The statements of a text, line by line. -/
def statements? (s : String) : Option (List Statement) :=
  (readAll? lines s).map fun found => found.filterMap fun statement => statement

/-- The document that a text describes, as a JSON object. -/
def ofText? (s : String) : Option Json :=
  (statements? s).bind fun statements => (Document.ofStatements? statements).map Document.toJson

end StreamScope.Toml
