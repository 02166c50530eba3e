import Retouch.Matching.Checked

/-!
# Retouch — Matching — Frame

Seeding, measuring and searching write entries and move the draws on.  They leave alone the two
canvases and the radius, and they neither add nor remove an entry (`SameFrame`).  A new target and
a finer field set the canvases first and then only write entries, too.  The same holds of the
checked operations, whenever they end with a field.
-/

namespace Retouch.MatchField

variable {σ : Type}

/-- `g` compares the same canvases as `f`, at the same radius, and has as many entries. -/
structure SameFrame (f g : MatchField σ) : Prop where
  toPairing_eq : g.toPairing = f.toPairing
  size_eq : g.entries.size = f.entries.size

namespace SameFrame

variable {f g h : MatchField σ}

theorem refl (f : MatchField σ) : SameFrame f f :=
  ⟨rfl, rfl⟩

theorem trans (hfg : SameFrame f g) (hgh : SameFrame g h) : SameFrame f h :=
  ⟨hgh.toPairing_eq.trans hfg.toPairing_eq, hgh.size_eq.trans hfg.size_eq⟩

theorem target_eq (h : SameFrame f g) : g.target = f.target :=
  congrArg Pairing.target h.toPairing_eq

theorem source_eq (h : SameFrame f g) : g.source = f.source :=
  congrArg Pairing.source h.toPairing_eq

theorem width_eq (h : SameFrame f g) : g.width = f.width :=
  congrArg Canvas.width h.target_eq

theorem height_eq (h : SameFrame f g) : g.height = f.height :=
  congrArg Canvas.height h.target_eq

end SameFrame

theorem sameFrame_put (f : MatchField σ) (p : Nat) (m : Match) (draws : σ) :
    SameFrame f (f.put p m draws) :=
  ⟨rfl, size_put f p m draws⟩

/-- Visits that keep the frame keep it together. -/
theorem sameFrame_foldl {step : MatchField σ → Nat → MatchField σ}
    (visit : ∀ f p, SameFrame f (step f p)) (order : List Nat) (f : MatchField σ) :
    SameFrame f (order.foldl step f) := by
  induction order generalizing f with
  | nil => exact .refl f
  | cons p order ih => exact (visit f p).trans (ih (step f p))

theorem sameFrame_retarget (f : MatchField σ) (target : Canvas) :
    SameFrame { f with target } (f.retarget target) :=
  sameFrame_foldl (fun g p => sameFrame_put g p _ _) _ _

theorem source_retarget (f : MatchField σ) (target : Canvas) :
    (f.retarget target).source = f.source :=
  (sameFrame_retarget f target).source_eq

/-! ### Seeding -/

variable [WordSource σ]

theorem sameFrame_settle (f : MatchField σ) : SameFrame f f.settle :=
  sameFrame_foldl (fun g p => sameFrame_put g p _ _) _ _

theorem sameFrame_scatter (f : MatchField σ) : SameFrame f f.scatter :=
  (sameFrame_foldl (fun g p => sameFrame_put g p _ _) _ f).trans (sameFrame_settle _)

theorem sameFrame_finer (coarse : MatchField σ) (target source : Canvas) :
    SameFrame (coarse.seeded target source) (coarse.finer target source) :=
  sameFrame_settle _

/-! ### Searching -/

theorem sameFrame_refine (f : MatchField σ) (x y : Nat) (dir : Int) :
    SameFrame f (f.refine x y dir) :=
  sameFrame_put f _ _ _

theorem sameFrame_forwardAt (f : MatchField σ) (p : Nat) : SameFrame f (f.forwardAt p) := by
  unfold forwardAt
  split
  · exact sameFrame_refine f _ _ _
  · exact .refl f

theorem sameFrame_forward (f : MatchField σ) : SameFrame f f.forward :=
  sameFrame_foldl sameFrame_forwardAt _ f

theorem sameFrame_backward (f : MatchField σ) : SameFrame f f.backward :=
  sameFrame_foldl (fun g p => sameFrame_refine g (g.column p) (g.row p) (-1)) _ f

theorem sameFrame_pass (f : MatchField σ) : SameFrame f f.pass :=
  (sameFrame_forward f).trans (sameFrame_backward _)

theorem sameFrame_improve (f : MatchField σ) (n : Nat) : SameFrame f (f.improve n) := by
  induction n generalizing f with
  | zero => exact .refl f
  | succ n ih => exact (sameFrame_pass f).trans (ih f.pass)

/-! ### Behind the checks -/

/-- There is nothing to visit without an entry. -/
theorem improve_eq_self {f : MatchField σ} {n : Nat} (h : n = 0 ∨ f.entries.size = 0) :
    f.improve n = f := by
  rcases h with rfl | h
  · rfl
  · have hpass : f.pass = f := by
      simp only [pass, forward, backward, h, List.range_zero, List.reverse_nil, List.foldl_nil]
    induction n with
    | zero => rfl
    | succ n ih => rw [improve, hpass, ih]

/-- A checked search ends with the plain one. -/
theorem eq_improve_of_improve? {f g : MatchField σ} {n : Nat} (h : f.improve? n = .ok g) :
    g = f.improve n := by
  unfold improve? at h
  split at h
  · rename_i hnothing
    cases h
    exact (improve_eq_self hnothing).symm
  · obtain ⟨_, _, h⟩ := bind_eq_ok_iff.mp h
    obtain ⟨-, h⟩ := Fault.unless_bind_eq_ok_iff.mp h
    cases h
    rfl

/-- A checked refinement ends with the plain one. -/
theorem eq_refine_of_refine? {f g : MatchField σ} {x y : Nat} {dir : Int}
    (h : f.refine? x y dir = .ok g) : g = f.refine x y dir := by
  unfold refine? at h
  obtain ⟨-, h⟩ := Fault.unless_bind_eq_ok_iff.mp h
  obtain ⟨-, h⟩ := Fault.unless_bind_eq_ok_iff.mp h
  obtain ⟨-, h⟩ := Fault.unless_bind_eq_ok_iff.mp h
  obtain ⟨_, _, h⟩ := bind_eq_ok_iff.mp h
  obtain ⟨-, h⟩ := Fault.unless_bind_eq_ok_iff.mp h
  cases h
  rfl

/-- A checked scattering ends with the plain one. -/
theorem eq_scatter_of_scatter? {f g : MatchField σ} (h : f.scatter? = .ok g) : g = f.scatter := by
  unfold scatter? at h
  split at h
  · rename_i hempty
    cases h
    simp only [scatter, settle, forEach, hempty, List.range_zero, List.foldl_nil]
  · obtain ⟨-, h⟩ := Fault.unless_bind_eq_ok_iff.mp h
    obtain ⟨_, _, h⟩ := bind_eq_ok_iff.mp h
    cases h
    rfl

theorem sameFrame_of_scatter? {f g : MatchField σ} (h : f.scatter? = .ok g) : SameFrame f g :=
  eq_scatter_of_scatter? h ▸ sameFrame_scatter f

theorem sameFrame_of_improve? {f g : MatchField σ} {n : Nat} (h : f.improve? n = .ok g) :
    SameFrame f g :=
  eq_improve_of_improve? h ▸ sameFrame_improve f n

omit [WordSource σ] in
/-- Measuring anew, behind the checks, ends with the plain one. -/
theorem eq_retarget_of_retarget? {f g : MatchField σ} {target : Canvas}
    (h : f.retarget? target = .ok g) : g = f.retarget target := by
  obtain ⟨-, h⟩ := Fault.unless_bind_eq_ok_iff.mp h
  dsimp only at h
  split at h
  · rename_i hnothing
    cases h
    simp only [retarget, forEach, hnothing, List.range_zero, List.foldl_nil]
  · obtain ⟨-, h⟩ := Fault.unless_bind_eq_ok_iff.mp h
    obtain ⟨-, h⟩ := Fault.unless_bind_eq_ok_iff.mp h
    cases h
    rfl

omit [WordSource σ] in
theorem sameFrame_of_retarget? {f g : MatchField σ} {target : Canvas}
    (h : f.retarget? target = .ok g) :
    (target.width = f.width ∧ target.height = f.height) ∧ SameFrame { f with target } g := by
  obtain ⟨hsides, -⟩ := Fault.unless_bind_eq_ok_iff.mp h
  obtain rfl := eq_retarget_of_retarget? h
  exact ⟨hsides, sameFrame_retarget f target⟩

/-- A checked finer field is the plain one. -/
theorem eq_finer_of_finer? {coarse g : MatchField σ} {target source : Canvas}
    (h : coarse.finer? target source = .ok g) : g = coarse.finer target source := by
  unfold finer? at h
  obtain ⟨-, h⟩ := Fault.unless_bind_eq_ok_iff.mp h
  split at h
  · rename_i harea
    cases h
    have hempty : (coarse.seeded target source).entries.size = 0 := Array.size_ofFn.trans harea
    simp only [finer, settle, forEach, hempty, List.range_zero, List.foldl_nil]
  · obtain ⟨-, h⟩ := Fault.unless_bind_eq_ok_iff.mp h
    obtain ⟨_, _, h⟩ := bind_eq_ok_iff.mp h
    cases h
    rfl

theorem sameFrame_of_finer? {coarse g : MatchField σ} {target source : Canvas}
    (h : coarse.finer? target source = .ok g) : SameFrame (coarse.seeded target source) g :=
  eq_finer_of_finer? h ▸ sameFrame_finer coarse target source

end Retouch.MatchField
