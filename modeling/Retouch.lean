import Retouch.Canvas.Cached
import Retouch.Canvas.Consistent
import Retouch.Canvas.Loaded
import Retouch.Filling.Loaded
import Retouch.Filling.Run
import Retouch.Main
import Retouch.Matching.Operation
import Retouch.Proofs.Canvas.Blocks
import Retouch.Proofs.Canvas.Cached
import Retouch.Proofs.Canvas.Drift
import Retouch.Proofs.Canvas.Fading
import Retouch.Proofs.Canvas.Halving
import Retouch.Proofs.Canvas.Loaded
import Retouch.Proofs.Canvas.Restored
import Retouch.Proofs.Filling.Composite
import Retouch.Proofs.Filling.Covered
import Retouch.Proofs.Filling.Descent
import Retouch.Proofs.Filling.Faint
import Retouch.Proofs.Filling.Hidden
import Retouch.Proofs.Filling.Level
import Retouch.Proofs.Filling.Loaded
import Retouch.Proofs.Filling.Measurable
import Retouch.Proofs.Filling.Observed
import Retouch.Proofs.Filling.Opacity
import Retouch.Proofs.Filling.Packed
import Retouch.Proofs.Filling.Planned
import Retouch.Proofs.Filling.Total
import Retouch.Proofs.Matching.Covering
import Retouch.Proofs.Matching.Exact
import Retouch.Proofs.Matching.Frame
import Retouch.Proofs.Matching.Gain
import Retouch.Proofs.Matching.LockStep
import Retouch.Proofs.Matching.Nearest
import Retouch.Proofs.Matching.Punched
import Retouch.Proofs.Matching.Seeds
import Retouch.Proofs.Matching.Symmetry
import Retouch.Proofs.Matching.Total
import Retouch.Proofs.Matching.Window
import Retouch.Proofs.Number.Arithmetic
import Retouch.Proofs.Number.Means
import Retouch.Proofs.Number.Rounding
import Retouch.Proofs.Raster.Black
import Retouch.Proofs.Raster.Packed
import Retouch.Proofs.Raster.Pictures
import Retouch.Proofs.Raster.Range
import Retouch.Proofs.Timing.Accounts
import Retouch.Proofs.Voting.Ballots
import Retouch.Proofs.Voting.Casting
import Retouch.Proofs.Voting.Clerks
import Retouch.Proofs.Voting.Hidden
import Retouch.Proofs.Voting.Middle
import Retouch.Proofs.Voting.Samples
import Retouch.Proofs.Voting.Spared
import Retouch.Proofs.Voting.Unanimous
import Retouch.Raster.Netpbm
import Retouch.Timing.Indexed
