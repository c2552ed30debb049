import HashedAssets.Decimal.Shortest

/-!
# Points in time

A day of the calendar with a time of day, and the offset from universal time if one is given.

* `isLeapYear`, `daysOfMonth`, `dayNumber`: the calendar;
* `Moment`, `Moment.instant`: moments, and how they follow one another;
* `Moment.atMost?`: their order; moments with an offset and moments without are not compared;
* `Moment.text`, `Moment.shown`: a moment as text.
-/

namespace HashedAssets

/-! ### The calendar -/

/-- Whether a year has a day more. -/
def isLeapYear (year : Nat) : Bool := year % 4 == 0 && (year % 100 != 0 || year % 400 == 0)

/-- How many days a month has. -/
def daysOfMonth (year month : Nat) : Nat :=
  if month = 2 then (if isLeapYear year then 29 else 28)
  else if [4, 6, 9, 11].contains month then 30 else 31

/-- The days of the months from January on, `count` of them. -/
def daysOfMonths (year count : Nat) : Nat :=
  (List.range count).foldl (fun days m => days + daysOfMonth year (m + 1)) 0

/-- The number of a day, counted from the first day of the year one. -/
def dayNumber (year month day : Nat) : Nat :=
  let years := year - 1
  365 * years + years / 4 - years / 100 + years / 400 + daysOfMonths year (month - 1) + day

/-- A number in at least `n` digits. -/
def padded (n x : Nat) : String := String.ofList (Decimal.padLeft n (Nat.toDigits 10 x))

/-- A date as year, month and day. -/
def dateText (y m d : Nat) : String := padded 4 y ++ "-" ++ padded 2 m ++ "-" ++ padded 2 d

/-! ### Moments -/

/-- A date with a time of day; the offset from universal time is in minutes. -/
structure Moment where
  year : Nat
  month : Nat
  day : Nat
  hour : Nat
  minute : Nat
  second : Nat
  microsecond : Nat
  offset : Option Int
  deriving DecidableEq, Repr

namespace Moment

/-- Millionths of a second from the beginning of the calendar, in universal time if there is an
offset. -/
def instant (m : Moment) : Int :=
  let minutes : Int := ((24 * dayNumber m.year m.month m.day + m.hour) * 60 + m.minute : Nat)
    - m.offset.getD 0
  (minutes * 60 + m.second) * 1000000 + m.microsecond

/-- Whether two moments are one: both have an offset or neither has, and the instant is the same. -/
def same (m n : Moment) : Bool := m.offset.isSome == n.offset.isSome && m.instant == n.instant

/-- Whether a moment does not come behind another one, if the two can be compared. -/
def atMost? (m n : Moment) : Option Bool :=
  if m.offset.isSome = n.offset.isSome then some (decide (m.instant ≤ n.instant)) else none

theorem same_self (m : Moment) : m.same m = true := by simp [same]

/-- Two moments are one exactly if each is at most the other one. -/
theorem same_iff {m n : Moment} :
    m.same n = true ↔ m.atMost? n = some true ∧ n.atMost? m = some true := by
  unfold same atMost?
  by_cases h : m.offset.isSome = n.offset.isSome
  · simp [h]
    omega
  · simp [h]

/-! ### Text -/

/-- An offset from universal time as a sign, hours and minutes. -/
def offsetText (minutes : Int) : String :=
  (if minutes < 0 then "-" else "+") ++ padded 2 (minutes.natAbs / 60) ++ ":"
    ++ padded 2 (minutes.natAbs % 60)

/-- A moment as date and time of day. -/
def text (m : Moment) : String :=
  dateText m.year m.month m.day ++ " " ++ padded 2 m.hour ++ ":" ++ padded 2 m.minute ++ ":"
    ++ padded 2 m.second
    ++ (if m.microsecond = 0 then "" else "." ++ padded 6 m.microsecond)
    ++ (m.offset.map offsetText).getD ""

/-- A span of time as it is shown inside messages: whole days, rounded down, and seconds. -/
def spanShown (minutes : Int) : String :=
  let seconds := 60 * minutes
  let days := Int.fdiv seconds 86400
  let rest := Int.fmod seconds 86400
  let inside :=
    if days = 0 ∧ rest = 0 then "0"
    else if days = 0 then "seconds=" ++ toString rest
    else if rest = 0 then "days=" ++ toString days
    else "days=" ++ toString days ++ ", seconds=" ++ toString rest
  "datetime.timedelta(" ++ inside ++ ")"

/-- An offset as it is shown inside messages. -/
def offsetShown (minutes : Int) : String :=
  if minutes = 0 then "datetime.timezone.utc" else "datetime.timezone(" ++ spanShown minutes ++ ")"

/-- A moment as it is shown inside messages; zero seconds and fractions are left out. -/
def shown (m : Moment) : String :=
  let fine :=
    if m.microsecond ≠ 0 then [m.second, m.microsecond]
    else if m.second ≠ 0 then [m.second] else []
  let parts := ([m.year, m.month, m.day, m.hour, m.minute] ++ fine).map toString
  let zone := (m.offset.map fun o => ["tzinfo=" ++ offsetShown o]).getD []
  "datetime.datetime(" ++ ", ".intercalate (parts ++ zone) ++ ")"

end Moment

end HashedAssets
