import FlowPack.Text.Numeral

namespace FlowPack.Journal

structure Date where
  year : Nat
  month : Nat
  day : Nat
  deriving DecidableEq, Repr

/-- The date of a day, counted from the beginning of 1970. Years are taken to begin in March, so
that the leap day is the last of its year, and are grouped by four centuries. -/
def Date.ofDay (n : Nat) : Date :=
  let shifted := n + 719468
  let group := shifted / 146097
  let dayOfGroup := shifted % 146097
  let yearOfGroup :=
    (dayOfGroup - dayOfGroup / 1460 + dayOfGroup / 36524 - dayOfGroup / 146096) / 365
  let dayOfYear := dayOfGroup - (365 * yearOfGroup + yearOfGroup / 4 - yearOfGroup / 100)
  let month := (5 * dayOfYear + 2) / 153
  { year := yearOfGroup + group * 400 + if month < 10 then 0 else 1
    month := if month < 10 then month + 3 else month - 9
    day := dayOfYear - (153 * month + 2) / 5 + 1 }

def decimal (width n : Nat) : String :=
  String.ofList (Numeral.zeroFill width (Numeral.digits 10 false n))

def stamp (milliseconds : Nat) : String :=
  let date := Date.ofDay (milliseconds / 86400000)
  let rest := milliseconds % 86400000
  let day := s!"{decimal 4 date.year}-{decimal 2 date.month}-{decimal 2 date.day}"
  let hour := decimal 2 (rest / 3600000)
  let minute := decimal 2 (rest / 60000 % 60)
  let second := decimal 2 (rest / 1000 % 60)
  s!"{day} {hour}:{minute}:{second}.{decimal 3 (rest % 1000)}"

end FlowPack.Journal
