import Retouch.CommandLine
import Retouch.Filling.Run
import Retouch.Raster.Netpbm
import Retouch.Timing.Timesheet

/-!
# Retouch — Main

The program: reads an image and a mask, fills the masked region, and writes the result.
-/

namespace Retouch.Main

/-- Ends the program with a message. -/
def fail {α : Type} (message : String) : IO α :=
  throw (IO.userError message)

/-- The wording of a fault. -/
def describe : Fault → String
  | .outOfRange => "position out of range"
  | .overflow => "number too large"
  | .divisionByZero => "division by zero"
  | .emptyRange => "empty range"
  | .sizeMismatch => "sizes do not match"
  | .notANumber => "sample is not a number"

/-- The result of a computation, or the end of the program. -/
def orFail {α : Type} : Except Failure α → IO α
  | .ok a => return a
  | .error (.fault f) => fail (describe f)
  | .error (.refusal r) => fail r.message

/-- Reads an image file. -/
def readRaster (path : String) : IO Raster := do
  let bytes ← IO.FS.readBinFile path
  match Netpbm.decode? bytes.toList with
  | .ok picture => return (← orFail (Failure.ofFault picture.load?)).raster
  | .error defect => fail (path ++ ": " ++ defect.message)

/-- Runs an action and records how long it took. -/
def timed {α : Type} (name : String) (sheet : Timesheet) (action : IO α) :
    IO (α × Timesheet) := do
  let before ← IO.monoNanosNow
  let a ← action
  let after ← IO.monoNanosNow
  return (a, sheet.record name (after - before))

/-- A number drawn from the operating system. -/
def entropy : IO UInt64 := do
  let bytes ← IO.getRandomBytes 8
  return bytes.toList.foldl (fun n b => n * 256 + b.toUInt64) 0

/-- An event as it is reported. -/
def report : Event → String
  | .level i c => s!"level {i}: {c.width}x{c.height}, {c.countHoles} holes"
  | .repaint l i c => s!"repaint {i} of level {l}: {c.width}x{c.height}"

/-- Carries out what the command line asks for. -/
def fill (args : CommandLine) : IO Unit := do
  let ((image, mask), sheet) ← timed "read" {} do
    return (← readRaster args.image, Netpbm.grayOf (← readRaster args.mask))
  let settings : Settings :=
    { radius := args.radius, seed := args.seed, threshold := args.threshold,
      keepsKnown := !args.keepsRaw }
  let start := settings.keystream (← entropy)
  let (outcome, sheet) ← timed "fill" sheet do
    orFail (← IO.lazyPure fun _ => Filling.fill? .triangle settings start image mask)
  if args.isVerbose then
    outcome.events.forM fun event => IO.eprintln (report event)
  let (_, sheet) ← timed "write" sheet do
    let bytes ← orFail (Failure.ofRefusal (Netpbm.encode? outcome.canvas.image))
    IO.FS.writeBinFile args.output (ByteArray.mk bytes.toArray)
  if args.showsTimes then
    IO.print (← orFail (Failure.ofFault sheet.summary?))

end Retouch.Main

def main (args : List String) : IO UInt32 := do
  if args.contains "-h" ∨ args.contains "--help" then
    IO.print Retouch.CommandLine.usage
    return 0
  match Retouch.CommandLine.parse args with
  | .error problem =>
    IO.eprint ("error: " ++ problem.message ++ "\n" ++ Retouch.CommandLine.usage)
    return 2
  | .ok args =>
    try
      Retouch.Main.fill args
      return 0
    catch e =>
      IO.eprintln ("error: " ++ toString e)
      return 1
