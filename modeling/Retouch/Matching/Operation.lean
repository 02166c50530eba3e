import Retouch.Matching.Checked

/-!
# Retouch — Matching — Operation

The operations on a match field as data, and runs of them.  A run (`MatchField.Run`) is a sequence
of operations in which every one passes its checks and starts from the field that the one before
has left; a pixel to be refined has to lie in the field.
-/

namespace Retouch

/-- Something that can be done to a match field. -/
inductive Operation where
  /-- Every pixel gets a position at random. -/
  | scatter
  /-- A number of passes. -/
  | improve (passes : Nat)
  /-- One pixel is refined. -/
  | refine (x y : Nat) (dir : Int)
  /-- The target is replaced. -/
  | retarget (target : Canvas)
  /-- The field is carried to a larger target and source. -/
  | finer (target source : Canvas)

namespace MatchField

variable {σ : Type}

/-- Whether the operation stays inside the field. -/
def Admits (f : MatchField σ) : Operation → Prop
  | .refine x y _ => x < f.width ∧ y < f.height
  | _ => True

variable [WordSource σ]

/-- The field after an operation, provided that its checks pass. -/
def perform? (f : MatchField σ) : Operation → Except Fault (MatchField σ)
  | .scatter => f.scatter?
  | .improve passes => f.improve? passes
  | .refine x y dir => f.refine? x y dir
  | .retarget target => f.retarget? target
  | .finer target source => f.finer? target source

/-- The operations, one after the other, lead from the first field to the second. -/
inductive Run : MatchField σ → List Operation → MatchField σ → Prop where
  | done (f : MatchField σ) : Run f [] f
  | more {f g h : MatchField σ} {operation : Operation} {operations : List Operation}
      (admits : f.Admits operation) (step : f.perform? operation = .ok g)
      (rest : Run g operations h) : Run f (operation :: operations) h

end MatchField

end Retouch
