import SnapStore.Time.Calendar

/-!
# Timestamps

A `SnapStore.Timestamp` is a moment, in nanoseconds since the start of 1970. It is written
to the millisecond, in the manner of RFC 3339 and in universal time
(`SnapStore.Timestamp.text`): `2018-01-26T18:30:09.453Z`. The millisecond is the one that
has begun, before 1970 as well as after. A year outside 0 to 9999 is written with its sign
and at least four digits.

`SnapStore.Timestamp.Representable` is the range of moments that have a date of this
kind at all.
-/

namespace SnapStore

/-- A moment. -/
structure Timestamp where
  /-- Nanoseconds since the start of 1970. -/
  nanos : Int
  deriving DecidableEq

namespace Timestamp

/-- The moment this many nanoseconds after the given second. -/
def ofSeconds (seconds : Int) (nanos : Nat) : Timestamp := ⟨seconds * 1000000000 + nanos⟩

/-- The start of 1970. -/
def epoch : Timestamp := ⟨0⟩

/-- The millisecond that the moment lies in, rounded towards the past. -/
def millis (t : Timestamp) : Int := t.nanos / 1000000

/-- The number of milliseconds in a day. -/
def millisPerDay : Int := 86400000

/-- A number in decimal, with zeros in front up to the given width. -/
def padded (width n : Nat) : String :=
  let digits := Nat.toDigits 10 n
  String.ofList (List.replicate (width - digits.length) '0' ++ digits)

/-- A year: four digits, and outside 0 to 9999 a sign in front of at least four. -/
def yearText (year : Int) : String :=
  if year < 0 then "-" ++ padded 4 year.natAbs
  else if 9999 < year then "+" ++ padded 4 year.natAbs
  else padded 4 year.natAbs

/-- A date, as year, month and day. -/
def dateText (d : Date) : String :=
  yearText d.year ++ "-" ++ padded 2 d.month ++ "-" ++ padded 2 d.day

/-- A time of day, given in milliseconds. -/
def clockText (millis : Nat) : String :=
  padded 2 (millis / 3600000) ++ ":" ++ padded 2 (millis / 60000 % 60) ++ ":"
    ++ padded 2 (millis / 1000 % 60) ++ "." ++ padded 3 (millis % 1000)

/-- The moment to the millisecond. -/
def text (t : Timestamp) : String :=
  dateText (Date.ofDay (t.millis / millisPerDay)) ++ "T"
    ++ clockText (t.millis % millisPerDay).toNat ++ "Z"

/-- The moments of the years -262143 to 262142. -/
def Representable (t : Timestamp) : Prop :=
  -8334601228800 * 1000000000 ≤ t.nanos ∧ t.nanos < 8210266876800 * 1000000000

instance (t : Timestamp) : Decidable t.Representable := by
  unfold Representable; infer_instance

/-- The moment to the millisecond, if it has a date. -/
def text? (t : Timestamp) : Option String := if t.Representable then some t.text else none

/-- A millisecond that has not begun is not written. -/
example : (ofSeconds (-1) 999999).text = "1969-12-31T23:59:59.000Z" := by decide

/-- Years of five digits carry a sign. -/
example : (ofSeconds 253402300800 0).text = "+10000-01-01T00:00:00.000Z" := by decide

end Timestamp

end SnapStore
