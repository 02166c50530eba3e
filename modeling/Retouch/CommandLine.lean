/-!
# Retouch — Command line

The arguments of the program: three files, and options anywhere between them.
-/

namespace Retouch

/-- What the command line asks for. -/
structure CommandLine where
  image : String
  mask : String
  output : String
  radius : Nat := 2
  seed : Option UInt64 := none
  threshold : UInt8 := 127
  keepsRaw : Bool := false
  showsTimes : Bool := false
  isVerbose : Bool := false

namespace CommandLine

/-- How the program is called. -/
def usage : String :=
  "usage: retouch IMAGE MASK OUTPUT [options]\n" ++
  "  Fills the masked region of an image with content synthesized from the rest of it.\n" ++
  "  Images are binary Netpbm files.\n" ++
  "options:\n" ++
  "  -r, --radius N      patch radius; the window is 2 N + 1 pixels wide (default 2)\n" ++
  "  -s, --seed N        seed for reproducible output\n" ++
  "  -t, --threshold N   mask values above N are filled (default 127)\n" ++
  "      --keep-raw      do not restore pixels outside the mask\n" ++
  "      --timings       print a table of times\n" ++
  "  -v, --verbose       report levels and repaints\n"

/-- Why a command line is not understood. -/
inductive Problem where
  /-- An option that needs a number below `limit` has none. -/
  | number (option : String) (limit : Nat)
  /-- An option that needs a value is the last argument. -/
  | missing (option : String)
  /-- There is no such option. -/
  | unknown (option : String)
  /-- There are not exactly three files. -/
  | files (count : Nat)
  deriving DecidableEq

/-- The wording of a problem. -/
def Problem.message : Problem → String
  | number option limit => s!"{option} needs a number below {limit}"
  | missing option => s!"{option} needs a value"
  | unknown option => s!"unknown option {option}"
  | files count => s!"expected three files, got {count}"

/-- Whether an argument is an option. -/
def isOption (arg : String) : Bool :=
  arg.startsWith "-" && arg ≠ "-"

/-- The value of an option: a number below `limit`. -/
def value (option : String) (limit : Nat) (arg : String) : Except Problem Nat :=
  match arg.toNat? with
  | some n => if n < limit then .ok n else .error (.number option limit)
  | none => .error (.number option limit)

/-- Collects options into `acc` and files into `files`, which holds the latest one first. -/
def collect (acc : CommandLine) (files : List String) :
    List String → Except Problem (CommandLine × List String)
  | [] => .ok (acc, files)
  | arg :: rest =>
    match arg, rest with
    | "--keep-raw", rest => collect { acc with keepsRaw := true } files rest
    | "--timings", rest => collect { acc with showsTimes := true } files rest
    | "-v", rest | "--verbose", rest => collect { acc with isVerbose := true } files rest
    | "-r", n :: rest | "--radius", n :: rest => do
      collect { acc with radius := ← value arg 18446744073709551616 n } files rest
    | "-s", n :: rest | "--seed", n :: rest => do
      let seed ← value arg 18446744073709551616 n
      collect { acc with seed := some (UInt64.ofNat seed) } files rest
    | "-t", n :: rest | "--threshold", n :: rest => do
      collect { acc with threshold := UInt8.ofNat (← value arg 256 n) } files rest
    | "-r", [] | "--radius", [] | "-s", [] | "--seed", [] | "-t", [] | "--threshold", [] =>
      .error (.missing arg)
    | _, rest =>
      if isOption arg then .error (.unknown arg) else collect acc (arg :: files) rest

/-- Reads the arguments. -/
def parse (args : List String) : Except Problem CommandLine := do
  let (acc, files) ← collect ⟨"", "", "", 2, none, 127, false, false, false⟩ [] args
  match files with
  | [output, mask, image] => return { acc with image, mask, output }
  | _ => .error (.files files.length)

end CommandLine

end Retouch
