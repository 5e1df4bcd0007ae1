import NestedSelection.Toml.Token

/-! # TOML dates and times

Dates, times and moments, with or without an offset from universal time. The written form is
always the same: a capital `T`, nine digits of a second at most, and no zero at its end.
-/

namespace NestedSelection

namespace Toml

structure Date where
  year : Nat
  month : Nat
  day : Nat
deriving DecidableEq, Repr

structure Time where
  hour : Nat
  minute : Nat
  second : Nat
  /-- The digits of the fraction of a second. -/
  fraction : List Char
deriving DecidableEq, Repr

inductive Offset where
  | universal
  | minutes (n : Int)
deriving DecidableEq, Repr

inductive Moment where
  | date (d : Date)
  | time (t : Time)
  | dateTime (d : Date) (t : Time) (offset : Option Offset)
deriving DecidableEq, Repr

def padded (width n : Nat) : List Char :=
  let digits := Nat.toDigits 10 n
  List.replicate (width - digits.length) '0' ++ digits

def Date.chars (d : Date) : List Char :=
  padded 4 d.year ++ '-' :: padded 2 d.month ++ '-' :: padded 2 d.day

/-- The digits of a fraction, cut after the ninth, with no zero at the end. -/
def fractionDigits (digits : List Char) : List Char :=
  ((digits.take 9).reverse.dropWhile (· = '0')).reverse

def Time.chars (t : Time) : List Char :=
  let fraction := fractionDigits t.fraction
  padded 2 t.hour ++ ':' :: padded 2 t.minute ++ ':' :: padded 2 t.second ++
    if fraction.isEmpty then [] else '.' :: fraction

def Offset.chars : Offset → List Char
  | .universal => ['Z']
  | .minutes n =>
    (if n < 0 then '-' else '+') ::
      padded 2 (n.natAbs / 60) ++ ':' :: padded 2 (n.natAbs % 60)

def Moment.chars : Moment → List Char
  | .date d => d.chars
  | .time t => t.chars
  | .dateTime d t offset => d.chars ++ 'T' :: t.chars ++ offset.elim [] Offset.chars

def Moment.render (m : Moment) : String := String.ofList m.chars

def isLeapYear (year : Nat) : Bool := year % 4 = 0 && (year % 100 ≠ 0 || year % 400 = 0)

def daysInMonth (year month : Nat) : Nat :=
  if month = 2 then if isLeapYear year then 29 else 28
  else if month = 4 ∨ month = 6 ∨ month = 9 ∨ month = 11 then 30
  else 31

def digitValue (c : Char) : Nat := c.toNat - '0'.toNat

def twoDigits (low high : Nat) : Reader Nat := fun s =>
  match s with
  | a :: b :: rest =>
    if a.isDigit && b.isDigit then
      let n := digitValue a * 10 + digitValue b
      if low ≤ n ∧ n ≤ high then some (((Tail.whole rest).behind n b).behind a) else none
    else none
  | _ => none

def fourDigits : Reader Nat := fun s => do
  let p ← twoDigits 0 99 s
  let q ← twoDigits 0 99 p.rest
  return p.followedBy (q.map fun n => p.value * 100 + n)

def marked {α : Type} (c : Char) (value : Reader α) : Reader α := fun s => do
  let p ← mark c s
  return p.followedBy (← value p.rest)

def date : Reader Date := fun s => do
  let year ← fourDigits s
  let month ← marked '-' (twoDigits 1 12) year.rest
  let day ← marked '-' (twoDigits 1 (daysInMonth year.value month.value)) month.rest
  return year.followedBy (month.followedBy (day.map fun d => ⟨year.value, month.value, d⟩))

/-- The fraction of a second, if there is one. A point with no digit after it is none. -/
def secondFraction (s : List Char) : List Char × Tail s :=
  match s with
  | '.' :: d :: rest =>
    if d.isDigit then
      (d :: rest.takeWhile Char.isDigit,
        (((Tail.skip Char.isDigit rest).behind () d).behind '.').tail)
    else ([], .whole ('.' :: d :: rest))
  | t => ([], .whole t)

def time : Reader Time := fun s => do
  let hour ← twoDigits 0 23 s
  let minute ← marked ':' (twoDigits 0 59) hour.rest
  let second ← marked ':' (twoDigits 0 60) minute.rest
  let (fraction, t) := secondFraction second.rest
  return (hour.followedBy (minute.followedBy (second.map fun n =>
    ⟨hour.value, minute.value, n, fraction⟩))).shorten t

def offsetOf (negative : Bool) (hour minute : Nat) : Offset :=
  let n : Int := hour * 60 + minute
  .minutes (if negative then -n else n)

def offset : Reader Offset := fun s =>
  match s with
  | [] => none
  | c :: rest =>
    if c = 'Z' || c = 'z' then some ((Tail.whole rest).behind .universal c)
    else if c = '+' || c = '-' then do
      let hour ← twoDigits 0 23 rest
      let minute ← marked ':' (twoDigits 0 59) hour.rest
      return (hour.followedBy (minute.map (offsetOf (c = '-') hour.value))).behind c
    else none

/-- The time after a date, with the offset after it. -/
def timeAfterDate : Reader (Time × Option Offset) := fun s =>
  match s with
  | [] => none
  | c :: rest =>
    if c = 'T' || c = 't' || c = ' ' then do
      let t ← time rest
      match offset t.rest with
      | some o => return (t.followedBy (o.map fun o => (t.value, some o))).behind c
      | none => return (t.map fun t => (t, none)).behind c
    else none

def moment : Reader Moment := fun s =>
  match date s with
  | some d =>
    match timeAfterDate d.rest with
    | some t => some (d.followedBy (t.map fun (t, offset) => .dateTime d.value t offset))
    | none => some (d.map .date)
  | none => (time s).map fun t => t.map .time

end Toml

end NestedSelection
