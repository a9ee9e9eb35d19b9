/-!
# Calendar — days of the Gregorian calendar and times of day

The Gregorian rules are applied to all years, back to -262143 and on to 262142. A time of day is
exact to the nanosecond; the nanoseconds of a leap second go on counting past its fifty-ninth
second.
-/

namespace PathQuery

/-- Every fourth year is a leap year, except the centuries that four hundred does not divide. -/
def isLeapYear (year : Int) : Bool :=
  year % 4 == 0 && (year % 100 != 0 || year % 400 == 0)

def daysInMonth (year : Int) : Nat → Nat
  | 2 => if isLeapYear year then 29 else 28
  | 4 | 6 | 9 | 11 => 30
  | _ => 31

/-- The year, month and day of a day that the calendar holds. -/
abbrev IsDate (year : Int) (month day : Nat) : Prop :=
  (-262143 ≤ year ∧ year ≤ 262142) ∧ (1 ≤ month ∧ month ≤ 12) ∧
    (1 ≤ day ∧ day ≤ daysInMonth year month)

/-- A day of the calendar. -/
structure Date where
  year : Int
  month : Nat
  day : Nat
  valid : IsDate year month day
deriving DecidableEq

/-- The fields of a time of day; past `10^9` the nanoseconds belong to a leap second. -/
abbrev IsTime (hour minute second nano : Nat) : Prop :=
  hour < 24 ∧ minute < 60 ∧ second < 60 ∧ nano < 2000000000 ∧ (1000000000 ≤ nano → second = 59)

/-- A time of day. -/
structure TimeOfDay where
  hour : Nat
  minute : Nat
  second : Nat
  nano : Nat
  valid : IsTime hour minute second nano
deriving DecidableEq

/-- A day and a time, without a time zone. -/
structure DateTime where
  date : Date
  time : TimeOfDay
deriving DecidableEq

/-! ## Days -/

def Date.of? (year : Int) (month day : Nat) : Option Date :=
  if h : IsDate year month day then some ⟨year, month, day, h⟩ else none

theorem Date.of?_self (d : Date) : Date.of? d.year d.month d.day = some d := by
  simp only [Date.of?, dif_pos d.valid]

/-- The day after, unless the calendar ends. -/
def Date.next? (d : Date) : Option Date :=
  if d.day < daysInMonth d.year d.month then Date.of? d.year d.month (d.day + 1)
  else if d.month < 12 then Date.of? d.year (d.month + 1) 1
  else Date.of? (d.year + 1) 1 1

/-- The day before, unless the calendar begins. -/
def Date.previous? (d : Date) : Option Date :=
  if 1 < d.day then Date.of? d.year d.month (d.day - 1)
  else if 1 < d.month then Date.of? d.year (d.month - 1) (daysInMonth d.year (d.month - 1))
  else Date.of? (d.year - 1) 12 31

/-! ## Times -/

def TimeOfDay.of? (hour minute second nano : Nat) : Option TimeOfDay :=
  if h : IsTime hour minute second nano then some ⟨hour, minute, second, nano, h⟩ else none

theorem TimeOfDay.of?_self (t : TimeOfDay) :
    TimeOfDay.of? t.hour t.minute t.second t.nano = some t := by
  simp only [TimeOfDay.of?, dif_pos t.valid]

/-- The time that a clock shows; a clock shows a leap second as second 60. -/
def TimeOfDay.ofClock? (hour minute second nano : Nat) : Option TimeOfDay :=
  if second = 60 then TimeOfDay.of? hour minute 59 (nano + 1000000000)
  else if nano < 1000000000 then TimeOfDay.of? hour minute second nano
  else none

def TimeOfDay.midnight : TimeOfDay :=
  ⟨0, 0, 0, 0, by decide⟩

def TimeOfDay.minuteOfDay (t : TimeOfDay) : Nat :=
  t.hour * 60 + t.minute

/-- The same second of another minute of the day. -/
def TimeOfDay.atMinute (t : TimeOfDay) (minute : Nat) : TimeOfDay :=
  { hour := minute / 60 % 24
    minute := minute % 60
    second := t.second
    nano := t.nano
    valid := ⟨by omega, by omega, t.valid.2.2⟩ }

/-! ## Days with times -/

def Date.atMidnight (d : Date) : DateTime :=
  ⟨d, .midnight⟩

/-- Moves a time by less than a day, a whole number of minutes forward or back. -/
def DateTime.shift? (dt : DateTime) (minutes : Int) : Option DateTime :=
  let total : Int := dt.time.minuteOfDay + minutes
  let time := dt.time.atMinute (total % 1440).toNat
  if total < 0 then dt.date.previous?.map fun d => ⟨d, time⟩
  else if total < 1440 then some ⟨dt.date, time⟩
  else dt.date.next?.map fun d => ⟨d, time⟩

end PathQuery
