/-!
# Retouch — Channels

A pixel is a short row of samples, one per channel.  A channel carries either colour, which
filling may change, or opacity, which it leaves alone.  The *layout* of a raster lists its
channels in storage order; three layouts are common enough to have names.
-/

namespace Retouch

/-- The role of one sample inside a pixel. -/
inductive Channel where
  /-- Colour or intensity, rebuilt by voting. -/
  | color
  /-- Opacity, carried along as it is. -/
  | alpha
  deriving DecidableEq

namespace Channel

/-- Whether the channel carries colour. -/
def isColor : Channel → Bool
  | color => true
  | alpha => false

/-- The role as it is written in messages. -/
def name : Channel → String
  | color => "Color"
  | alpha => "Alpha"

end Channel

/-- The channels of a pixel, in storage order. -/
abbrev Layout := Array Channel

namespace Layout

/-- One intensity. -/
def gray : Layout := #[.color]

/-- Three colours. -/
def rgb : Layout := #[.color, .color, .color]

/-- Three colours and their opacity. -/
def rgba : Layout := #[.color, .color, .color, .alpha]

/-- A layout as it is written in messages: the roles in brackets, a comma and a blank between. -/
def text (layout : Layout) : String :=
  "[" ++ ", ".intercalate (layout.toList.map Channel.name) ++ "]"

end Layout

end Retouch
