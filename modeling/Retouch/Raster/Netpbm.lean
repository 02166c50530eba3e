import Retouch.Raster.Picture

/-!
# Retouch — Raster — Netpbm

Pictures as plain binary files: gray ones start with `P5`, coloured ones with `P6`.  The header
goes on with the width, the height and the largest sample value, apart by blanks and by comments
that run from a number sign to the end of the line; one blank ends it, and the samples follow.
Samples take one byte when the largest value is 255, and two bytes, the high one first, when it is
65535; no other largest value is read.
-/

namespace Retouch.Netpbm

/-- Why bytes are not a readable file. -/
inductive Defect where
  /-- The file starts with neither mark. -/
  | mark
  /-- A number of the header is missing. -/
  | header
  /-- A side does not fit a 32-bit word. -/
  | sides
  /-- The largest sample value is not one that is read. -/
  | range (maximum : Nat)
  /-- There are fewer samples than the header asks for. -/
  | short
  deriving DecidableEq

/-- The wording of a defect. -/
def Defect.message : Defect → String
  | mark => "not a binary gray (P5) or color (P6) Netpbm file"
  | header => "the header is incomplete"
  | sides => "the picture is too large"
  | range maximum => s!"samples up to {maximum} are not supported"
  | short => "the file ends before its last sample"

/-- Whether a byte is a blank of the header. -/
def isBlank (b : UInt8) : Bool :=
  b = 32 || (9 ≤ b && b ≤ 13)

/-- Whether a byte is a decimal digit. -/
def isDigit (b : UInt8) : Bool :=
  48 ≤ b && b ≤ 57

/-- What follows the blanks and comments at the front; `inComment` says that a comment is under
way. -/
def skipBlanks (inComment : Bool) : List UInt8 → List UInt8
  | [] => []
  | b :: rest =>
    if inComment then skipBlanks (b ≠ 10) rest
    else if isBlank b then skipBlanks false rest
    else if b = 35 then skipBlanks true rest
    else b :: rest

/-- The number written by decimal digits. -/
def numeral (digits : List UInt8) : Nat :=
  digits.foldl (fun n d => 10 * n + (d.toNat - 48)) 0

/-- The next number of the header, and what follows it. -/
def number? (bytes : List UInt8) : Except Defect (Nat × List UInt8) :=
  let bytes := skipBlanks false bytes
  match bytes.takeWhile isDigit with
  | [] => .error .header
  | digits => .ok (numeral digits, bytes.dropWhile isDigit)

/-- Bytes in pairs, the high one first, as words. -/
def words : List UInt8 → List UInt16
  | high :: low :: rest => (high.toUInt16 * 256 + low.toUInt16) :: words rest
  | _ => []

/-- Reads the header and the samples after the mark. -/
def decodeBody? (model : ColorModel) (bytes : List UInt8) : Except Defect Picture := do
  let (width, bytes) ← number? bytes
  let (height, bytes) ← number? bytes
  let (maximum, bytes) ← number? bytes
  if Word.span32 ≤ max width height then
    throw .sides
  let count := width * height * model.channels
  let bytes := bytes.drop 1
  let store ←
    if maximum = 255 then
      pure (SampleStore.bytes (bytes.take count).toArray)
    else if maximum = 65535 then
      pure (SampleStore.words (words (bytes.take (2 * count))).toArray)
    else
      throw (.range maximum)
  match Picture.ofStore? (.ofNat width) (.ofNat height) model false store with
  | .ok picture => return picture
  | .error _ => throw .short

/-- Reads a file. -/
def decode? : List UInt8 → Except Defect Picture
  | 80 :: 53 :: bytes => decodeBody? .gray bytes
  | 80 :: 54 :: bytes => decodeBody? .rgb bytes
  | _ => .error .mark

/-- The header of a file with one byte per sample. -/
def header (mark : String) (width height : Nat) : String :=
  mark ++ "\n" ++ toString width ++ " " ++ toString height ++ "\n255\n"

/-- A raster as a file, if it is gray or coloured without opacity. -/
def encode? (r : Raster) : Except Refusal (List UInt8) :=
  if r.layout = .gray then
    .ok ((header "P5" r.width r.height).toUTF8.toList ++ r.samples.toList)
  else if r.layout = .rgb then
    .ok ((header "P6" r.width r.height).toUTF8.toList ++ r.samples.toList)
  else
    .error (.foreignLayout r.layout)

/-- The brightness of a coloured pixel, in ten-thousandths red, green and blue. -/
def brightness (red green blue : UInt8) : UInt8 :=
  UInt8.ofNat ((2126 * red.toNat + 7152 * green.toNat + 722 * blue.toNat) / 10000)

/-- The gray raster of the brightness of a raster; of one that is not coloured, its first
channel. -/
def grayOf (r : Raster) : Raster :=
  Raster.generate r.width r.height .gray fun p _ =>
    if 3 ≤ r.depth then brightness (r.sample p 0) (r.sample p 1) (r.sample p 2)
    else r.sample p 0

end Retouch.Netpbm
