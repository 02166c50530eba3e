import Retouch.Raster.Basic

/-!
# Retouch — Raster — Picture

A decoded picture, as image files hold it: gray or coloured, with or without opacity, and with
samples of one of three types.  Sides of a picture are 32-bit words.  Its buffer holds at least
the samples of all pixels, and may go on behind the last pixel.

`Picture.load?` brings any picture to 8 bits.  A picture that is in bytes already, and is gray,
coloured, or coloured with opacity, keeps its samples, the ones behind the last pixel included
(`Loaded.spare`); every other picture becomes coloured and loses them.  `Loaded.toPicture` goes
back and refuses layouts that no picture has.
-/

namespace Retouch

/-- The colour channels of a picture. -/
inductive ColorModel where
  | gray
  | rgb
  deriving DecidableEq

/-- The samples of a picture, pixel by pixel. -/
inductive SampleStore where
  | bytes (data : Array UInt8)
  | words (data : Array UInt16)
  | floats (data : Array Float32)

namespace ColorModel

/-- Number of colour channels. -/
def channels : ColorModel → Nat
  | gray => 1
  | rgb => 3

end ColorModel

namespace SampleStore

/-- Number of samples. -/
def size : SampleStore → Nat
  | bytes data => data.size
  | words data => data.size
  | floats data => data.size

/-- The byte for a 16-bit sample: the nearest 255th. -/
def byteOfWord (v : UInt16) : UInt8 :=
  UInt8.ofNat ((v.toNat + 128) / 257)

/-- The byte for a fraction, clamped; there is none for what is not a number. -/
def byteOfFloat? (v : Float32) : Except Fault UInt8 := do
  Fault.notANumber.unless (v == v)
  return Byte.ofUnit v

/-- The first `count` samples as bytes. -/
def toBytes? (count : Nat) : SampleStore → Except Fault (Array UInt8)
  | bytes data => .ok (data.extract 0 count)
  | words data => .ok ((data.extract 0 count).map byteOfWord)
  | floats data => (data.extract 0 count).mapM byteOfFloat?

end SampleStore

/-- A decoded picture. -/
structure Picture where
  width : UInt32
  height : UInt32
  model : ColorModel
  hasAlpha : Bool
  store : SampleStore
  size_le : width.toNat * height.toNat * (model.channels + hasAlpha.toNat) ≤ store.size

/-- A raster, and the samples that its buffer holds behind the last pixel. -/
structure Loaded where
  raster : Raster
  spare : Array UInt8
  deriving DecidableEq

namespace Picture

/-- The picture over a buffer, which must be long enough. -/
def ofStore? (width height : UInt32) (model : ColorModel) (hasAlpha : Bool)
    (store : SampleStore) : Except Fault Picture :=
  if h : width.toNat * height.toNat * (model.channels + hasAlpha.toNat) ≤ store.size then
    .ok ⟨width, height, model, hasAlpha, store, h⟩
  else
    .error .outOfRange

/-- Samples per pixel. -/
def channels (picture : Picture) : Nat :=
  picture.model.channels + picture.hasAlpha.toNat

/-- Number of samples up to the last pixel. -/
def count (picture : Picture) : Nat :=
  picture.width.toNat * picture.height.toNat * picture.channels

/-- The buffer of a picture whose samples can be kept as they are: it is in bytes and has one of
the layouts of rasters. -/
def plainBytes? (picture : Picture) : Option (Array UInt8) :=
  match picture.model, picture.hasAlpha, picture.store with
  | .gray, true, _ => none
  | _, _, .bytes data => some data
  | _, _, _ => none

/-- The layout of a picture whose samples are kept. -/
def plainLayout (picture : Picture) : Layout :=
  match picture.model, picture.hasAlpha with
  | .gray, _ => .gray
  | .rgb, false => .rgb
  | .rgb, true => .rgba

/-- Where channel `c` of a coloured raster is found among the samples of a pixel: a gray picture
lends its one intensity to all three colours. -/
def sourceChannel (model : ColorModel) (c : Nat) : Nat :=
  match model with
  | .rgb => c
  | .gray => if c < 3 then 0 else 1

/-- The coloured raster whose pixels have the given samples. -/
def colored (picture : Picture) (data : Array UInt8) : Raster :=
  .generate picture.width.toNat picture.height.toNat (if picture.hasAlpha then .rgba else .rgb)
    fun p c => data.getD (p * picture.channels + sourceChannel picture.model c) 0

/-- The raster whose pixels have the samples of the buffer as they are. -/
def plain (picture : Picture) (data : Array UInt8) : Raster :=
  .generate picture.width.toNat picture.height.toNat picture.plainLayout
    fun p c => data.getD (p * picture.channels + c) 0

/-- The picture as a raster of bytes. -/
def load? (picture : Picture) : Except Fault Loaded := do
  match picture.plainBytes? with
  | some data => return ⟨picture.plain data, data.extract picture.count data.size⟩
  | none => return ⟨picture.colored (← picture.store.toBytes? picture.count), #[]⟩

end Picture

namespace Loaded

/-- Which picture a layout stands for: the colours and whether there is opacity. -/
def kind? (layout : Layout) : Option (ColorModel × Bool) :=
  if layout = .gray then some (.gray, false)
  else if layout = .rgb then some (.rgb, false)
  else if layout = .rgba then some (.rgb, true)
  else none

/-- The loaded raster as a picture.  The sides go into 32-bit words, and only what fits of them
is kept. -/
def toPicture (l : Loaded) : Except Refusal Picture :=
  let r := l.raster
  match kind? r.layout with
  | none => .error (.foreignLayout r.layout)
  | some (model, hasAlpha) =>
    match Picture.ofStore? (.ofNat r.width) (.ofNat r.height) model hasAlpha
        (.bytes (r.samples ++ l.spare)) with
    | .ok picture => .ok picture
    | .error _ => .error (.foreignLayout r.layout)

end Loaded

/-- The raster as a picture with nothing behind its last pixel. -/
def Raster.toPicture (r : Raster) : Except Refusal Picture :=
  Loaded.toPicture ⟨r, #[]⟩

end Retouch
