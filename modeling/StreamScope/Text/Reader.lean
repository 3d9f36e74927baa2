/-!
Readers of text. A reader takes a beginning of the characters that remain, or
refuses them; refusal carries no reason. Alternatives start over from the same
place. Repetition ends when a step refuses or takes nothing, so it is total.
-/

namespace StreamScope.Text

abbrev Reader := StateT (List Char) Option

namespace Reader

/-- One character of a class. -/
def charOf (p : Char → Bool) : Reader Char
  | [] => none
  | c :: rest => if p c then some (c, rest) else none

def char (c : Char) : Reader Unit := do
  let _ ← charOf (· = c)

/-- The longest run of characters of a class, which may be empty. -/
def run (p : Char → Bool) : Reader (List Char) := fun s => some (s.takeWhile p, s.dropWhile p)

def run1 (p : Char → Bool) : Reader (List Char) := do
  let c ← charOf p
  let rest ← run p
  pure (c :: rest)

/-- Exactly the given text. -/
def text (expected : String) : Reader Unit := fun s =>
  let cs := expected.toList
  if cs.isPrefixOf s then some ((), s.drop cs.length) else none

def atEnd : Reader Unit
  | [] => some ((), [])
  | _ :: _ => none

def option (p : Reader α) : Reader (Option α) := fun s =>
  match p s with
  | some (a, rest) => some (some a, rest)
  | none => some (none, s)

/-- As many of `p` as follow one another, and what remains. -/
def repeated (p : Reader α) (s : List Char) : List α × List Char :=
  match p s with
  | none => ([], s)
  | some (a, rest) =>
      if rest.length < s.length then
        let (more, last) := repeated p rest
        (a :: more, last)
      else ([], s)
termination_by s.length

def many (p : Reader α) : Reader (List α) := fun s => some (repeated p s)

/-- One or more of `p`, with `separator` between. -/
def separated1 (p : Reader α) (separator : Reader Unit) : Reader (List α) := do
  let first ← p
  let more ← many (do separator; p)
  pure (first :: more)

def separated (p : Reader α) (separator : Reader Unit) : Reader (List α) := do
  let items ← option (separated1 p separator)
  pure (items.getD [])

def hexValue? (c : Char) : Option Nat :=
  if '0' ≤ c ∧ c ≤ '9' then some (c.toNat - '0'.toNat)
  else if 'a' ≤ c ∧ c ≤ 'f' then some (c.toNat - 'a'.toNat + 10)
  else if 'A' ≤ c ∧ c ≤ 'F' then some (c.toNat - 'A'.toNat + 10)
  else none

/-- A number of exactly `count` hexadecimal digits. -/
def hexDigits (count : Nat) : Reader Nat := fun s =>
  let digits := s.take count
  if digits.length = count then
    (digits.mapM hexValue?).map fun values => (values.foldl (16 * · + ·) 0, s.drop count)
  else none

/-- The character of a code point that is no surrogate. -/
def scalar? (n : Nat) : Option Char :=
  if h : n.isValidChar then some (Char.ofNatAux n h) else none

/-- Reads the whole of a text. -/
def readAll? (p : Reader α) (s : String) : Option α :=
  (p s.toList).bind fun (a, rest) => if rest.isEmpty then some a else none

end Reader
end StreamScope.Text
