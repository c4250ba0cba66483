/-!
# Timestamps in YAML text

A date is a year of four digits, a month and a day. A time of day may follow it: behind a letter
`T` with a time zone, or behind blanks without one. Months, days, hours, minutes and seconds
have one or two digits.
-/

namespace Flowplan.Yaml

/-- Reads a number of one or two digits. -/
def shortNumber? : List Char → Option (Nat × List Char)
  | a :: b :: rest =>
      if a.isDigit then
        if b.isDigit then some ((a.toNat - '0'.toNat) * 10 + (b.toNat - '0'.toNat), rest)
        else some (a.toNat - '0'.toNat, b :: rest)
      else none
  | [a] => if a.isDigit then some (a.toNat - '0'.toNat, []) else none
  | [] => none

/-- Passes a character that must stand next. -/
def expect? (c : Char) : List Char → Option (List Char)
  | [] => none
  | d :: rest => if c = d then some rest else none

/-- The number of days of a month. -/
def daysIn (year month : Nat) : Nat :=
  if month = 2 then
    if year % 4 = 0 && (year % 100 ≠ 0 || year % 400 = 0) then 29 else 28
  else if [4, 6, 9, 11].contains month then 30
  else 31

/-- Reads a date. -/
def date? : List Char → Option (List Char)
  | a :: b :: c :: d :: '-' :: rest => do
      if [a, b, c, d].all Char.isDigit then
        let year := [a, b, c, d].foldl (fun n c => n * 10 + (c.toNat - '0'.toNat)) 0
        let (month, behindMonth) ← shortNumber? rest
        let behindMark ← expect? '-' behindMonth
        let (day, behindDay) ← shortNumber? behindMark
        if 1 ≤ month && month ≤ 12 && 1 ≤ day && day ≤ daysIn year month then
          return behindDay
        else none
      else none
  | _ => none

/-- Passes a fraction of a second, if one stands next. -/
def passFraction : List Char → List Char
  | mark :: digit :: rest =>
      if (mark = '.' || mark = ',') && digit.isDigit then rest.dropWhile Char.isDigit
      else mark :: digit :: rest
  | rest => rest

/-- Reads a time of day. -/
def timeOfDay? (text : List Char) : Option (List Char) := do
  let (hour, behindHour) ← shortNumber? text
  let (minute, behindMinute) ← shortNumber? (← expect? ':' behindHour)
  let (second, behindSecond) ← shortNumber? (← expect? ':' behindMinute)
  if hour < 24 && minute < 60 && second < 60 then return passFraction behindSecond else none

/-- Whether a text is a time zone. -/
def isZone : List Char → Bool
  | ['Z'] => true
  | [sign, a, b, ':', c, d] =>
      (sign = '+' || sign = '-') && [a, b, c, d].all Char.isDigit &&
        (a.toNat - '0'.toNat) * 10 + (b.toNat - '0'.toNat) ≤ 24 &&
        (c.toNat - '0'.toNat) * 10 + (d.toNat - '0'.toNat) ≤ 60
  | _ => false

/-- Whether a text is a timestamp. -/
def isTimestamp (text : List Char) : Bool :=
  match date? text with
  | none => false
  | some [] => true
  | some (mark :: rest) =>
      if mark = 'T' || mark = 't' then (timeOfDay? rest).any isZone
      else if mark = ' ' then (timeOfDay? (rest.dropWhile (· = ' '))).any List.isEmpty
      else false

end Flowplan.Yaml
