import HashedAssets.Document.Yaml.Fault

/-!
# Points in time in YAML

A date, or a date with a time of day and an offset from universal time.

* `Timestamp`: a point in time as written;
* `Timestamp.value`: what it stands for, if there is such a day and time.
-/

namespace HashedAssets.Yaml

/-- A time of day as written: hour, minute and second, the digits of the fraction, and the offset from
universal time in minutes. -/
structure TimeOfDay where
  hour : Nat
  minute : Nat
  second : Nat
  fraction : List Char
  offset : Option Int

/-- A point in time as written, and whether month and day have two digits each. -/
structure Timestamp where
  year : Nat
  month : Nat
  day : Nat
  isPadded : Bool
  time : Option TimeOfDay

namespace Timestamp

/-- As many digits as a text begins with, if they are between `least` and `most`, and the rest. -/
def takeDigits? (least most : Nat) (cs : List Char) : Option (List Char × List Char) :=
  let digits := (cs.take most).takeWhile Char.isDigit
  if least ≤ digits.length then some (digits, cs.drop digits.length) else none

/-- What is behind a character, if a text begins with it. -/
def behind? (c : Char) : List Char → Option (List Char)
  | x :: rest => if x = c then some rest else none
  | [] => none

/-- Digits behind a character. -/
def digitsBehind? (c : Char) (least most : Nat) (cs : List Char) : Option (List Char × List Char) :=
  (behind? c cs).bind (takeDigits? least most)

/-- The number that digits stand for. -/
def numberOf (digits : List Char) : Nat := digits.foldl (fun n c => 10 * n + (c.toNat - '0'.toNat)) 0

/-- A space or a tab. -/
def isGap (c : Char) : Bool := c == ' ' || c == '\t'

/-- An offset from universal time, to the end of a text: nothing, a `Z`, or hours and minutes. -/
def offset? (cs : List Char) : Option (Option Int) :=
  match cs, cs.dropWhile isGap with
  | [], _ => some none
  | _, ['Z'] => some (some 0)
  | _, sign :: rest =>
      if sign = '+' ∨ sign = '-' then do
        let (hours, rest) ← takeDigits? 1 2 rest
        let (minutes, rest) ← if rest.isEmpty then some ([], rest) else digitsBehind? ':' 2 2 rest
        if rest.isEmpty then
          let amount : Int := 60 * numberOf hours + numberOf minutes
          some (some (if sign = '-' then -amount else amount))
        else none
      else none
  | _, [] => none

/-- A time of day, to the end of a text. -/
def timeOfDay? (cs : List Char) : Option TimeOfDay := do
  let cs ← match cs with
    | c :: rest =>
        if c = 'T' ∨ c = 't' then some rest
        else if isGap c then some (rest.dropWhile isGap) else none
    | [] => none
  let (hour, cs) ← takeDigits? 1 2 cs
  let (minute, cs) ← digitsBehind? ':' 2 2 cs
  let (second, cs) ← digitsBehind? ':' 2 2 cs
  let (fraction, cs) := match cs with
    | '.' :: rest => (rest.takeWhile Char.isDigit, rest.dropWhile Char.isDigit)
    | cs => ([], cs)
  let offset ← offset? cs
  pure ⟨numberOf hour, numberOf minute, numberOf second, fraction, offset⟩

/-- The point in time that a text is, if it is one. -/
def ofChars? (cs : List Char) : Option Timestamp := do
  let (year, cs) ← takeDigits? 4 4 cs
  let (month, cs) ← digitsBehind? '-' 1 2 cs
  let (day, cs) ← digitsBehind? '-' 1 2 cs
  let isPadded := month.length == 2 && day.length == 2
  let time ← if cs.isEmpty then some none else (timeOfDay? cs).map some
  pure ⟨numberOf year, numberOf month, numberOf day, isPadded, time⟩

/-- Whether a text that is this point in time is one without being called so: a date alone has to have
two digits for the month and for the day. -/
def isPlain (t : Timestamp) : Bool := t.time.isSome || t.isPadded

/-- Whether there is such a day. -/
def checkDay (t : Timestamp) : Except ScalarFault Unit :=
  if t.year = 0 then .error (.year t.year)
  else if t.month = 0 ∨ 12 < t.month then .error .month
  else if t.day = 0 ∨ daysOfMonth t.year t.month < t.day then .error .day
  else .ok ()

/-- Whether there is such a time of day. -/
def checkTime (t : TimeOfDay) : Except ScalarFault Unit :=
  if 23 < t.hour then .error .hour
  else if 59 < t.minute then .error .minute
  else if 59 < t.second then .error .second
  else .ok ()

/-- Millionths of a second, from the digits of the fraction. -/
def microseconds (fraction : List Char) : Nat :=
  numberOf ((fraction ++ List.replicate 6 '0').take 6)

/-- What a point in time stands for, if there is such a day and time. The offset has to be less than a
day. -/
def value (t : Timestamp) : Except ScalarFault Value :=
  match t.time with
  | none => t.checkDay.map fun _ => .date t.year t.month t.day
  | some time => do
      if let some minutes := time.offset then
        if 24 * 60 ≤ minutes.natAbs then throw (.offset minutes)
      t.checkDay
      checkTime time
      pure (.moment
        { year := t.year, month := t.month, day := t.day
          hour := time.hour, minute := time.minute, second := time.second
          microsecond := microseconds time.fraction, offset := time.offset })

end Timestamp

end HashedAssets.Yaml
