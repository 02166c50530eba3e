import Retouch.Channel

/-!
# Retouch — Faults and refusals

An operation can end without a result in two ways.  A *fault* says that an argument has no
meaning for the operation: a position outside a buffer, a count that fits no machine word, a
draw from an empty range.  A *refusal* is a judgement about images and settings, and its wording
(`Refusal.message`) is what a user reads.  Operations that can do both end in a `Failure`.

Checks stand in front of what they protect (`Fault.unless`).  A sequence of checks and steps ends
with a result exactly when every one of them does (`bind_eq_ok_iff`).
-/

namespace Retouch

/-- Why an operation has no meaning for its arguments. -/
inductive Fault where
  /-- A position or index lies outside the buffer. -/
  | outOfRange
  /-- A number on the way does not fit its word. -/
  | overflow
  /-- A divisor is zero. -/
  | divisionByZero
  /-- A draw or a clamp is asked for on an empty range. -/
  | emptyRange
  /-- Two things that must have equal sizes do not. -/
  | sizeMismatch
  /-- A sample is not a number. -/
  | notANumber
  deriving DecidableEq

/-- Ends with `fault` unless `condition` holds. -/
def Fault.unless (fault : Fault) (condition : Prop) [Decidable condition] : Except Fault Unit :=
  if condition then .ok () else .error fault

/-- A sequence has a result exactly when its first step has one and the rest goes on from it. -/
theorem bind_eq_ok_iff {ε α β : Type} {x : Except ε α} {f : α → Except ε β} {b : β} :
    (x >>= f) = .ok b ↔ ∃ a, x = .ok a ∧ f a = .ok b := by
  cases x <;> simp [bind, Except.bind]

/-- A sequence ends with an error exactly when one of its steps does. -/
theorem bind_eq_error_iff {ε α β : Type} {x : Except ε α} {f : α → Except ε β} {e : ε} :
    (x >>= f) = .error e ↔ x = .error e ∨ ∃ a, x = .ok a ∧ f a = .error e := by
  cases x <;> simp [bind, Except.bind]

/-- A list of which every member has a result has all of them. -/
theorem mapM_eq_ok {ε α β : Type} {f : α → Except ε β} {g : α → β} {l : List α}
    (h : ∀ a ∈ l, f a = .ok (g a)) : l.mapM f = .ok (l.map g) := by
  induction l with
  | nil => rfl
  | cons a l ih =>
    rw [List.mapM_cons, h a List.mem_cons_self, ih fun b hb => h b (List.mem_cons_of_mem a hb)]
    rfl

/-- A loop of which every step leads to the next of a sequence of states. -/
theorem foldlM_range_eq_ok {ε β : Type} {g : β → Nat → Except ε β} (s : Nat → β) {n : Nat}
    (h : ∀ i < n, g (s i) i = .ok (s (i + 1))) : (List.range n).foldlM g (s 0) = .ok (s n) := by
  induction n with
  | zero => rfl
  | succ n ih =>
    rw [List.range_succ, List.foldlM_append, ih fun i hi => h i (Nat.lt_succ_of_lt hi)]
    show (g (s n) n >>= pure) = _
    rw [h n (Nat.lt_succ_self n)]
    rfl

/-- What every step of a loop keeps, the loop keeps. -/
theorem foldlM_preserves {ε α β : Type} {step : β → α → Except ε β} {P : β → Prop}
    (hstep : ∀ {b b' : β} {a : α}, P b → step b a = .ok b' → P b') {l : List α} {b b' : β}
    (h : P b) (hb : l.foldlM step b = .ok b') : P b' := by
  induction l generalizing b with
  | nil =>
    cases hb
    exact h
  | cons a l ih =>
    rw [List.foldlM_cons] at hb
    obtain ⟨next, hnext, hb⟩ := bind_eq_ok_iff.mp hb
    exact ih (hstep h hnext) hb

/-- The check passes exactly when its condition holds. -/
theorem Fault.unless_eq_ok_iff {fault : Fault} {condition : Prop} [Decidable condition] :
    fault.unless condition = .ok () ↔ condition := by
  unfold Fault.unless
  split <;> simp_all

theorem Fault.unless_of {fault : Fault} {condition : Prop} [Decidable condition]
    (h : condition) : fault.unless condition = .ok () :=
  Fault.unless_eq_ok_iff.mpr h

theorem Fault.unless_of_not {fault : Fault} {condition : Prop} [Decidable condition]
    (h : ¬ condition) : fault.unless condition = .error fault :=
  if_neg h

/-- What is behind a check that passes. -/
theorem Fault.unless_bind_of {α : Type} {fault : Fault} {condition : Prop} [Decidable condition]
    (h : condition) (x : Unit → Except Fault α) : (fault.unless condition >>= x) = x () := by
  rw [unless_of h]
  rfl

/-- What is behind a check that fails does not matter. -/
theorem Fault.unless_bind_of_not {α : Type} {fault : Fault} {condition : Prop}
    [Decidable condition] (h : ¬ condition) (x : Unit → Except Fault α) :
    (fault.unless condition >>= x) = .error fault := by
  rw [unless_of_not h]
  rfl

/-- A result behind a check: the check passes. -/
theorem Fault.unless_bind_eq_ok_iff {α : Type} {fault : Fault} {condition : Prop}
    [Decidable condition] {x : Unit → Except Fault α} {a : α} :
    (fault.unless condition >>= x) = .ok a ↔ condition ∧ x () = .ok a := by
  rw [bind_eq_ok_iff]
  exact ⟨fun ⟨_, hcheck, hx⟩ => ⟨unless_eq_ok_iff.mp hcheck, hx⟩,
    fun ⟨h, hx⟩ => ⟨(), unless_of h, hx⟩⟩

/-- Without the fault of a check the check has passed, and what follows has no such fault. -/
theorem Fault.unless_bind_ne_error_iff {α : Type} {fault : Fault} {condition : Prop}
    [Decidable condition] {x : Unit → Except Fault α} :
    (fault.unless condition >>= x) ≠ .error fault ↔ condition ∧ x () ≠ .error fault := by
  by_cases h : condition
  · rw [unless_bind_of h, and_iff_right h]
  · rw [unless_bind_of_not h]
    exact iff_of_false (fun hne => hne rfl) fun hboth => h hboth.1

/-- A result behind an objection: the objection does not apply. -/
theorem ite_error_eq_ok_iff {ε α : Type} {objection : Prop} [Decidable objection] {e : ε}
    {x : Except ε α} {a : α} :
    (if objection then .error e else x) = .ok a ↔ ¬ objection ∧ x = .ok a := by
  by_cases h : objection <;> simp [h]

/-- Two computations of which the same is made end alike. -/
theorem exists_ok_of_map_eq {ε α β γ : Type} {x : Except ε α} {y : Except ε β} {f : α → γ}
    {g : β → γ} (h : x.map f = y.map g) {b : β} (hy : y = .ok b) : ∃ a, x = .ok a ∧ f a = g b := by
  subst hy
  cases x with
  | error => cases h
  | ok a => exact ⟨a, rfl, Except.ok.inj h⟩

theorem eq_error_of_map_eq {ε α β γ : Type} {x : Except ε α} {y : Except ε β} {f : α → γ}
    {g : β → γ} (h : x.map f = y.map g) {e : ε} (hy : y = .error e) : x = .error e := by
  subst hy
  cases x with
  | error => exact congrArg Except.error (Except.error.inj h)
  | ok => cases h

/-- What is wrong with the images or the settings handed in. -/
inductive Refusal where
  /-- A side is zero, or longer than the settings admit. -/
  | sides (width height : Nat)
  /-- The mask does not have the size of the image. -/
  | maskSize (imageWidth imageHeight maskWidth maskHeight : Nat)
  /-- The patch radius is zero or does not fit inside the image. -/
  | radius (radius width height : Nat)
  /-- The mask does not have exactly one channel. -/
  | maskDepth (channels : Nat)
  /-- The sample buffer does not hold what the sides and the layout ask for. -/
  | sampleCount (expected actual : Nat)
  /-- The layout is empty where samples were given. -/
  | noChannel
  /-- The layout has no counterpart among picture formats. -/
  | foreignLayout (layout : Layout)
  /-- The settings allow no repaint or no improvement pass at all. -/
  | idleSchedule
  deriving DecidableEq

/-- The wording of a refusal. -/
def Refusal.message : Refusal → String
  | sides w h => s!"Invalid image dimensions: width={w}, height={h}"
  | maskSize iw ih mw mh => s!"Mask is {mw}x{mh} but image is {iw}x{ih}"
  | radius r w h => s!"Patch radius {r} is invalid for a {w}x{h} image"
  | maskDepth n => s!"Mask must have exactly one channel, got {n}"
  | sampleCount expected actual => s!"Sample buffer holds {actual} bytes, expected {expected}"
  | noChannel => "Unsupported format: raster needs at least one channel"
  | foreignLayout layout => "Unsupported format: channel layout " ++ layout.text
  | idleSchedule => "Invalid configuration: EM iterations and NNF passes must be at least 1"

/-- An end without a result, of either kind. -/
inductive Failure where
  | fault (cause : Fault)
  | refusal (cause : Refusal)
  deriving DecidableEq

/-- A computation that can only fault, among computations that can also refuse. -/
def Failure.ofFault {α : Type} : Except Fault α → Except Failure α
  | .ok a => .ok a
  | .error f => .error (.fault f)

theorem Failure.ofFault_eq_ok_iff {α : Type} {x : Except Fault α} {a : α} :
    Failure.ofFault x = .ok a ↔ x = .ok a := by
  cases x <;> simp [Failure.ofFault]

theorem Failure.ofFault_eq_error_iff {α : Type} {x : Except Fault α} {fault : Fault} :
    Failure.ofFault x = .error (.fault fault) ↔ x = .error fault := by
  cases x <;> simp [Failure.ofFault]

/-- What is made of the result can be made of it on either side. -/
theorem Failure.map_ofFault {α β : Type} (x : Except Fault α) (f : α → β) :
    (Failure.ofFault x).map f = Failure.ofFault (x.map f) := by
  cases x <;> rfl

/-- A computation that can only refuse, among computations that can also fault. -/
def Failure.ofRefusal {α : Type} : Except Refusal α → Except Failure α
  | .ok a => .ok a
  | .error r => .error (.refusal r)

theorem Failure.ofRefusal_eq_ok_iff {α : Type} {x : Except Refusal α} {a : α} :
    Failure.ofRefusal x = .ok a ↔ x = .ok a := by
  cases x <;> simp [Failure.ofRefusal]

end Retouch
