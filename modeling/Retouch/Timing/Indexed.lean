import Retouch.Timing.Timesheet

/-!
# Retouch — Timing — Index

A timesheet as it is kept while phases are recorded: beside the entries it has an index, in which
the time of every phase is added up as it comes in.  Asked by name, the time is looked up there;
the total is added up from the entries.

The summary goes through the entries and makes a row at the first entry of each phase, for which it
remembers the names that it has seen (`firstNames`): the runs of a row are counted in the entries,
its time is looked up in the index.
-/

namespace Retouch

/-- A timesheet with the time of every phase added up. -/
structure IndexedTimesheet extends Timesheet where
  index : List (String × Nat) := []

/-- What a summary shows: a row for each phase, and in the last line all runs and all time. -/
structure Summary where
  rows : List SummaryRow
  runs : Nat
  time : Nat

/-- The text of a summary. -/
def Summary.text (summary : Summary) : String :=
  let heading := "\n" ++ Timesheet.line "phase" "runs" "ms" ++ " " ++
    Timesheet.padLeft 7 "share" ++ "\n"
  let rows := summary.rows.map fun row => Timesheet.rowText row summary.time
  let foot := Timesheet.line "total" (toString summary.runs)
    (Places.text 3 (Timesheet.milliseconds summary.time)) ++ "\n"
  heading ++ String.join rows ++ foot

namespace IndexedTimesheet

/-- The index with the time of a phase replaced; a phase that it does not have comes last. -/
def put (name : String) (time : Nat) : List (String × Nat) → List (String × Nat)
  | [] => [(name, time)]
  | entry :: index =>
    if entry.1 = name then (name, time) :: index else entry :: put name time index

/-- The time of a phase, if it was recorded. -/
def time (sheet : IndexedTimesheet) (name : String) : Option Nat :=
  sheet.index.lookup name

/-- Records a phase, provided that its time still fits: first in the index, then as an entry. -/
def record? (sheet : IndexedTimesheet) (name : String) (time : Nat) :
    Except Fault IndexedTimesheet := do
  let sum := (sheet.time name).getD 0 + time
  Fault.overflow.unless (sum < Timesheet.timeSpan)
  return { entries := sheet.entries ++ [(name, time)], index := put name sum sheet.index }

/-- Records phases one after the other. -/
def recordAll? (sheet : IndexedTimesheet) (steps : List (String × Nat)) :
    Except Fault IndexedTimesheet :=
  steps.foldlM (fun sheet step => sheet.record? step.1 step.2) sheet

/-- The names that have not been seen, each where it first comes up. -/
def firstNames (seen : List String) : List (String × Nat) → List String
  | [] => []
  | (name, _) :: entries =>
    if seen.contains name then firstNames seen entries
    else name :: firstNames (seen ++ [name]) entries

/-- The row of a phase. -/
def row (sheet : IndexedTimesheet) (name : String) : SummaryRow where
  name
  runs := (sheet.entries.filter (·.1 = name)).length
  time := (sheet.time name).getD 0

/-- The contents of the summary, provided that the total fits. -/
def overview? (sheet : IndexedTimesheet) : Except Fault Summary := do
  let total ← sheet.total?
  return ⟨(firstNames [] sheet.entries).map sheet.row, sheet.entries.length, total⟩

/-- The summary, provided that the total fits. -/
def summary? (sheet : IndexedTimesheet) : Except Fault String := do
  return (← sheet.overview?).text

end IndexedTimesheet

end Retouch
