import Retouch.Fault
import Retouch.Number.Places
import Retouch.Number.Sum
import Retouch.Number.Word

/-!
# Retouch — Timing

A timesheet records how long the phases of a run took, in the order in which they ended.  A phase
can be recorded more than once; asked by name, the times of all its entries are added up.  Times
are whole nanoseconds whose seconds fit a 64-bit word.

The summary (`summary?`) has a heading, one line for each distinct phase in the order of its first
entry, and a last line for everything together.
-/

namespace Retouch

/-- Recorded phases and their times in nanoseconds, in order. -/
structure Timesheet where
  entries : List (String × Nat) := []

/-- One line of a summary: a phase, how often it ran, and for how long in all. -/
structure SummaryRow where
  name : String
  runs : Nat
  time : Nat
  deriving DecidableEq

/-- One entry as it is logged. -/
structure LogLine where
  message : String
  step : String
  milliseconds : Float

namespace Timesheet

/-- Nanoseconds per second. -/
def second : Nat := 1000000000

/-- The times whose seconds fit their word lie below this one. -/
def timeSpan : Nat := Word.span64 * second

/-- A time given as seconds and nanoseconds, of which there may be more than a second's worth. -/
def time? (seconds nanoseconds : Nat) : Except Fault Nat := do
  let time := seconds * second + nanoseconds
  Fault.overflow.unless (time < timeSpan)
  return time

/-- A time in milliseconds. -/
def milliseconds (time : Nat) : Float :=
  ((time / second).toUInt64.toFloat + (time % second).toUInt64.toFloat / 1000000000.0) * 1000.0

/-- The times recorded under a name, in order. -/
def timesOf (sheet : Timesheet) (name : String) : List Nat :=
  (sheet.entries.filter (·.1 = name)).map (·.2)

/-- The time of a phase, if it was recorded. -/
def time (sheet : Timesheet) (name : String) : Option Nat :=
  match sheet.timesOf name with
  | [] => none
  | times => some (Sum.ofList times)

/-- Records a phase. -/
def record (sheet : Timesheet) (name : String) (time : Nat) : Timesheet :=
  ⟨sheet.entries ++ [(name, time)]⟩

/-- `record`, provided that the time of the phase still fits. -/
def record? (sheet : Timesheet) (name : String) (time : Nat) : Except Fault Timesheet := do
  Fault.overflow.unless (Sum.ofList (sheet.timesOf name) + time < timeSpan)
  return sheet.record name time

/-- The time of all entries. -/
def total (sheet : Timesheet) : Nat :=
  Sum.ofList (sheet.entries.map (·.2))

/-- `total`, provided that it fits. -/
def total? (sheet : Timesheet) : Except Fault Nat := do
  Fault.overflow.unless (sheet.total < timeSpan)
  return sheet.total

/-- Every entry as it is logged. -/
def logLines (sheet : Timesheet) : List LogLine :=
  sheet.entries.map fun (name, time) => ⟨"Inpaint phase", name, milliseconds time⟩

/-! ### The summary -/

/-- The distinct names, in the order of their first entry. -/
def names (sheet : Timesheet) : List String :=
  (sheet.entries.map (·.1)).eraseDups

/-- One row for each distinct phase. -/
def rows (sheet : Timesheet) : List SummaryRow :=
  sheet.names.map fun name =>
    ⟨name, (sheet.timesOf name).length, Sum.ofList (sheet.timesOf name)⟩

/-- `s` with blanks after it up to `width` characters. -/
def padRight (width : Nat) (s : String) : String :=
  s ++ String.ofList (List.replicate (width - s.length) ' ')

/-- `s` with blanks before it up to `width` characters. -/
def padLeft (width : Nat) (s : String) : String :=
  String.ofList (List.replicate (width - s.length) ' ') ++ s

/-- A line of the summary, from its first three columns. -/
def line (name runs time : String) : String :=
  padRight 24 name ++ " " ++ padLeft 6 runs ++ " " ++ padLeft 12 time

/-- The share of a time in the total, in percent; 0 of no time at all. -/
def share (time total : Nat) : Float :=
  let whole := milliseconds total
  if whole > 0.0 then milliseconds time / whole * 100.0 else 0.0

/-- The line of a phase. -/
def rowText (row : SummaryRow) (total : Nat) : String :=
  line row.name (toString row.runs) (Places.text 3 (milliseconds row.time)) ++ " " ++
    padLeft 6 (Places.text 1 (share row.time total)) ++ "%\n"

/-- The summary, provided that the total fits. -/
def summary? (sheet : Timesheet) : Except Fault String := do
  let total ← sheet.total?
  let heading := "\n" ++ line "phase" "runs" "ms" ++ " " ++ padLeft 7 "share" ++ "\n"
  let rows := sheet.rows.map fun row => rowText row total
  let foot := line "total" (toString sheet.entries.length)
    (Places.text 3 (milliseconds total)) ++ "\n"
  return heading ++ String.join rows ++ foot

end Timesheet

end Retouch
