import RequestAudit.Text.Blank

/-!
# Timestamps

Points in time as civil dates and times in UTC, to the nanosecond. They are read leniently with
any offset, and written with a `Z` and with as many digits of a second, in threes, as they need.
A leap second keeps its number sixty.
-/

namespace RequestAudit

/-- A point in time. -/
structure Timestamp where
  year : Int
  month : Nat
  day : Nat
  hour : Nat
  minute : Nat
  second : Nat
  nano : Nat
  deriving DecidableEq, Repr

namespace Timestamp

/-- The beginning of the year 1970. -/
def epoch : Timestamp := ⟨1970, 1, 1, 0, 0, 0, 0⟩

/-- Whether the year has a leap day. -/
def isLeap (year : Int) : Bool :=
  year % 4 == 0 && (year % 100 != 0 || year % 400 == 0)

/-- The number of days of a month. -/
def monthLength (year : Int) (month : Nat) : Nat :=
  if month = 2 then (if isLeap year then 29 else 28)
  else if month = 4 || month = 6 || month = 9 || month = 11 then 30
  else 31

/-- The years that can be represented. -/
def hasYear (year : Int) : Bool := -262143 ≤ year && year ≤ 262142

/-- The same time on the next day. -/
def nextDay (t : Timestamp) : Timestamp :=
  if t.day < monthLength t.year t.month then { t with day := t.day + 1 }
  else if t.month < 12 then { t with month := t.month + 1, day := 1 }
  else { t with year := t.year + 1, month := 1, day := 1 }

/-- The same time on the day before. -/
def previousDay (t : Timestamp) : Timestamp :=
  if 1 < t.day then { t with day := t.day - 1 }
  else if 1 < t.month then
    { t with month := t.month - 1, day := monthLength t.year (t.month - 1) }
  else { t with year := t.year - 1, month := 12, day := 31 }

/-- The point in time so many seconds and nanoseconds after the beginning of the year 1970. -/
def ofSeconds (seconds nano : Nat) : Timestamp :=
  { Nat.repeat nextDay (seconds / 86400) epoch with
    hour := seconds % 86400 / 3600
    minute := seconds % 3600 / 60
    second := seconds % 60
    nano }

/-- The time that is the given number of minutes earlier, by less than a day. -/
def earlier (t : Timestamp) (minutes : Int) : Timestamp :=
  let m : Int := 60 * t.hour + t.minute - minutes
  let moved (t : Timestamp) (m : Int) : Timestamp :=
    { t with hour := (m / 60).toNat, minute := (m % 60).toNat }
  if m < 0 then moved t.previousDay (m + 1440)
  else if 1440 ≤ m then moved t.nextDay (m - 1440)
  else moved t m

/-! ## Reading -/

/-- The text after its blanks. -/
def skipBlanks (cs : List Char) : List Char := cs.dropWhile Text.isBlank

/-- A number of one digit up to the given number of digits. -/
def number? (most : Nat) (cs : List Char) : Option (Nat × List Char) :=
  let ds := (cs.take most).takeWhile Char.isDigit
  if ds.isEmpty then none
  else some (ds.foldl (fun n c => 10 * n + (c.toNat - '0'.toNat)) 0, cs.drop ds.length)

/-- A part of a date or a time, after blanks and within bounds. -/
def part? (low high : Nat) (cs : List Char) : Option (Nat × List Char) := do
  let (n, rest) ← number? 2 (skipBlanks cs)
  if low ≤ n && n ≤ high then some (n, rest) else none

/-- The text after a mark and the blanks before it. -/
def mark? (c : Char) (cs : List Char) : Option (List Char) :=
  match skipBlanks cs with
  | [] => none
  | d :: rest => if d = c then some rest else none

/-- A year, which has four digits at most unless it has a sign. -/
def year? (cs : List Char) : Option (Int × List Char) :=
  match skipBlanks cs with
  | '-' :: rest => (number? rest.length rest).map fun r => (-(r.1 : Int), r.2)
  | '+' :: rest => (number? rest.length rest).map fun r => ((r.1 : Int), r.2)
  | rest => (number? 4 rest).map fun r => ((r.1 : Int), r.2)

/-- The nanoseconds of a fraction of a second, of which nine digits count. -/
def fraction? : List Char → Option (Nat × List Char)
  | '.' :: cs =>
    let ds := cs.takeWhile Char.isDigit
    if ds.isEmpty then none
    else
      let kept := ds.take 9
      let n := kept.foldl (fun n c => 10 * n + (c.toNat - '0'.toNat)) 0
      some (n * Nat.pow 10 (9 - kept.length), cs.drop ds.length)
  | cs => some (0, cs)

/-- The minutes of an offset after its sign. -/
def offsetSize? (cs : List Char) : Option (Nat × List Char) := do
  let (h, cs) ← match cs with
    | a :: b :: rest => if a.isDigit && b.isDigit then number? 2 (a :: b :: rest) else none
    | _ => none
  let cs := cs.dropWhile fun c => c == ':' || Text.isBlank c
  let (m, cs) ← match cs with
    | a :: b :: rest => if a.isDigit && b.isDigit then number? 2 (a :: b :: rest) else none
    | _ => none
  if h < 24 && m < 60 then some (60 * h + m, cs) else none

/-- The offset from UTC in minutes. -/
def offset? (cs : List Char) : Option (Int × List Char) :=
  match cs with
  | '+' :: rest => (offsetSize? rest).map fun r => ((r.1 : Int), r.2)
  | '-' :: rest => (offsetSize? rest).map fun r => (-(r.1 : Int), r.2)
  | '\u2212' :: rest => (offsetSize? rest).map fun r => (-(r.1 : Int), r.2)
  | 'Z' :: rest => some (0, rest)
  | 'z' :: rest => some (0, rest)
  | cs =>
    if (cs.take 3).map Char.toUpper = ['U', 'T', 'C'] then some (0, cs.drop 3) else none

/-- The mark between date and time. -/
def isJoint (c : Char) : Bool := c == 'T' || c == 't' || c == ' '

/-- Reads a timestamp. -/
def ofText? (s : String) : Option Timestamp := do
  let (year, cs) ← year? s.toList
  let (month, cs) ← part? 1 12 (← mark? '-' cs)
  let (day, cs) ← part? 1 31 (← mark? '-' cs)
  let cs ← match cs with
    | c :: rest => if isJoint c then some rest else none
    | [] => none
  let (hour, cs) ← part? 0 23 cs
  let (minute, cs) ← part? 0 59 (← mark? ':' cs)
  let (second, cs) ← part? 0 60 (← mark? ':' cs)
  let (nano, cs) ← fraction? cs
  let (offset, cs) ← offset? (skipBlanks cs)
  if !(skipBlanks cs).isEmpty || monthLength year month < day || !hasYear year then none
  else
    let t := earlier ⟨year, month, day, hour, minute, second, nano⟩ offset
    if hasYear t.year then some t else none

/-! ## Writing -/

/-- The digits of a number, at least `width` of them. -/
def digits (width n : Nat) : List Char :=
  let ds := Nat.toDigits 10 n
  List.replicate (width - ds.length) '0' ++ ds

/-- The digits of a year; outside four digits it has a sign. -/
def yearDigits (year : Int) : List Char :=
  if 0 ≤ year && year ≤ 9999 then digits 4 year.toNat
  else (if year < 0 then '-' else '+') :: digits 4 year.natAbs

/-- The digits of a fraction of a second: none, three, six or nine. -/
def fractionDigits (nano : Nat) : List Char :=
  if nano = 0 then []
  else if nano % 1000000 = 0 then '.' :: digits 3 (nano / 1000000)
  else if nano % 1000 = 0 then '.' :: digits 6 (nano / 1000)
  else '.' :: digits 9 nano

/-- The written form. -/
def text (t : Timestamp) : String :=
  String.ofList (yearDigits t.year ++ '-' :: digits 2 t.month ++ '-' :: digits 2 t.day
    ++ 'T' :: digits 2 t.hour ++ ':' :: digits 2 t.minute ++ ':' :: digits 2 t.second
    ++ fractionDigits t.nano ++ ['Z'])

end Timestamp

end RequestAudit
