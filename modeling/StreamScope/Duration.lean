import StreamScope.Json.Typed

/-!
Lengths of time in whole nanoseconds. Their text uses the largest unit that
gives a value of at least one, without trailing zeros.
-/

namespace StreamScope

structure Duration where
  nanoseconds : Nat
deriving DecidableEq, Repr

namespace Duration

def nanosPerSecond : Nat := 1000000000

def seconds (n : Nat) : Duration := ⟨n * nanosPerSecond⟩

/-- The value of `n` parts, `10 ^ places` of which make a unit. -/
def inUnit (n places : Nat) : String :=
  let whole := n / Nat.pow 10 places
  let digits := Nat.toDigits 10 (n % Nat.pow 10 places)
  let padded := List.replicate (places - digits.length) '0' ++ digits
  let fraction := (padded.reverse.dropWhile (· = '0')).reverse
  if fraction.isEmpty then toString whole
  else toString whole ++ "." ++ String.ofList fraction

def text (d : Duration) : String :=
  let n := d.nanoseconds
  if nanosPerSecond ≤ n then inUnit n 9 ++ "s"
  else if 1000000 ≤ n then inUnit n 6 ++ "ms"
  else if 1000 ≤ n then inUnit n 3 ++ "µs"
  else toString n ++ "ns"

/-- Seconds in 64 bits and nanoseconds in 32. Whole seconds among the nanoseconds carry over,
but not past 64 bits. -/
def ofParts? (secs nanos : Nat) : Option Duration :=
  if secs < Nat.pow 2 64 ∧ nanos < Nat.pow 2 32 ∧
      secs + nanos / nanosPerSecond < Nat.pow 2 64 then
    some ⟨secs * nanosPerSecond + nanos⟩
  else none

/-- A record of seconds and nanoseconds, and of nothing else. -/
def ofJson? (source : Json.Source) (j : Json) : Option Duration := do
  let names := ["secs", "nanos"]
  guard (j.hasOnly names)
  match ← j.record? source names with
  | [secs, nanos] => ofParts? (← Json.required Json.asNat? secs) (← Json.required Json.asNat? nanos)
  | _ => none

end Duration
end StreamScope
