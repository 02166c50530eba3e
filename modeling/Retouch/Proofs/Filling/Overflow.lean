import Retouch.Proofs.Filling.Level

/-!
# Retouch — Filling — Overflow

Between canvases of a run that have at least one channel, nothing is looked up out of range, nothing
is divided by zero, and nothing is drawn from an empty range: an operation ends with a result, or
some number on the way does not fit its word.  `OkUnless` states this together with what is known
of the result, and each operation on a ready field has its lemma.
-/

namespace Retouch

/-- `x` ends with a result that satisfies `P`, unless it ends with the error `e`. -/
def OkUnless {ε α : Type} (e : ε) (x : Except ε α) (P : α → Prop) : Prop :=
  (∀ a, x = .ok a → P a) ∧ ∀ e', x = .error e' → e' = e

namespace OkUnless

variable {ε α β : Type} {e : ε} {x : Except ε α} {P Q : α → Prop}

theorem of_eq_ok {a : α} (h : x = .ok a) (ha : P a) : OkUnless e x P := by
  subst h
  constructor
  · intro b hb
    cases hb
    exact ha
  · intro e' he'
    cases he'

theorem ok {a : α} (ha : P a) : OkUnless e (.ok a) P :=
  of_eq_ok rfl ha

theorem mono (h : OkUnless e x P) (hPQ : ∀ a, P a → Q a) : OkUnless e x Q :=
  ⟨fun a ha => hPQ a (h.1 a ha), h.2⟩

/-- What is known of a result anyway. -/
theorem and_post (h : OkUnless e x fun _ => True) (hP : ∀ a, x = .ok a → P a) : OkUnless e x P :=
  ⟨hP, h.2⟩

/-- A sequence ends well when its first step does, and the rest does from there. -/
theorem bind {f : α → Except ε β} {R : β → Prop} (h : OkUnless e x P)
    (hf : ∀ a, P a → OkUnless e (f a) R) : OkUnless e (x >>= f) R := by
  cases x with
  | ok a => exact hf a (h.1 a rfl)
  | error e' =>
    obtain rfl := h.2 e' rfl
    constructor
    · intro b hb
      cases hb
    · intro e'' he''
      cases he''
      rfl

theorem map {f : α → β} {R : β → Prop} (h : OkUnless e x P) (hf : ∀ a, P a → R (f a)) :
    OkUnless e (x.map f) R := by
  cases x with
  | ok a => exact .ok (hf a (h.1 a rfl))
  | error e' =>
    obtain rfl := h.2 e' rfl
    constructor
    · intro b hb
      cases hb
    · intro e'' he''
      cases he''
      rfl

end OkUnless

theorem Fault.okUnless (fault : Fault) (condition : Prop) [Decidable condition] :
    OkUnless fault (fault.unless condition) fun _ => condition := by
  constructor
  · intro _ h
    exact Fault.unless_eq_ok_iff.mp h
  · intro e h
    unfold Fault.unless at h
    split at h <;> cases h
    rfl

/-- A check whose condition holds. -/
theorem Fault.okUnless_of {fault e : Fault} {condition : Prop} [Decidable condition]
    (h : condition) : OkUnless e (fault.unless condition) fun _ => condition :=
  .of_eq_ok (Fault.unless_of h) h

theorem Failure.okUnless_ofFault {α : Type} {fault : Fault} {x : Except Fault α} {P : α → Prop}
    (h : OkUnless fault x P) : OkUnless (.fault fault) (Failure.ofFault x) P := by
  cases x with
  | ok a => exact .ok (h.1 a rfl)
  | error e =>
    obtain rfl := h.2 e rfl
    constructor
    · intro a ha
      cases ha
    · intro e' he'
      cases he'
      rfl

/-! ### Canvases -/

theorem Canvas.okUnless_scaleTo? (c : Canvas) (scaler : Scaler) (width height : Nat) :
    OkUnless .overflow (c.scaleTo? scaler width height) (· = c.scaleTo scaler width height) := by
  unfold scaleTo? Raster.checkSize checkRows
  refine (Fault.okUnless _ _).bind fun _ _ => ?_
  refine (Fault.okUnless _ _).bind fun _ _ => ?_
  refine (Fault.okUnless _ _).bind fun _ _ => ?_
  exact .ok rfl

/-- Where canvases of a run cannot be brought to the sizes of others, a number does not fit its
word. -/
def Resizing.OnlyOverflows (resize : Resizing) (initial : Canvas) : Prop :=
  ∀ {c size : Canvas}, c.Within initial → size.Within initial →
    OkUnless .overflow (resize c size.width size.height) fun _ => True

theorem Resizing.onlyOverflows_planes (scaler : Scaler) (initial : Canvas) :
    (planes scaler).OnlyOverflows initial :=
  fun _ _ => (Canvas.okUnless_scaleTo? _ scaler _ _).mono fun _ _ => trivial

/-- Images and masks of shapes that are accepted are paired, if words hold the length of a row. -/
theorem Canvas.okUnless_pair? {settings : Settings} {image mask image' mask' : Raster}
    (h : settings.Accepted image mask) (himage : image'.SameShape image)
    (hmask : mask'.SameShape mask) :
    OkUnless (.fault .overflow) (pair? image' mask') (· = ofParts image' mask') := by
  rw [Filling.pair?_of_accepted h himage hmask, checkRows]
  exact (Failure.okUnless_ofFault (Fault.okUnless _ _)).bind fun _ _ => .ok rfl

/-! ### Fields -/

namespace MatchField

variable {σ : Type} {f : MatchField σ} {initial : Canvas} {radius : Nat}

theorem okUnless_retarget? (hdepth : 0 < initial.depth) {target : Canvas}
    (ht : target.Within initial) (hw : target.width = f.width) (hh : target.height = f.height) :
    OkUnless .overflow (f.retarget? target) (SameFrame { f with target }) := by
  unfold retarget?
  refine (Fault.okUnless_of ⟨hw, hh⟩).bind fun _ _ => ?_
  dsimp only
  split
  · exact .ok (.refl _)
  · refine (Fault.okUnless_of (ht.depth_eq ▸ hdepth)).bind fun _ _ => ?_
    refine (Fault.okUnless _ _).bind fun _ _ => ?_
    exact .ok (sameFrame_retarget f target)

theorem okUnless_repaint? {zoom : Zoom} {source target : Canvas} (hs : source.Within initial)
    (ht : target.Within initial) (hcovers : f.Covers zoom target) :
    OkUnless .overflow (f.repaint? zoom source target) fun result =>
      ∃ image, image.SameShape target.image ∧ result = target.withImage image := by
  have hdepth : source.depth ≤ target.depth := Nat.le_of_eq (hs.depth_eq.trans ht.depth_eq.symm)
  refine OkUnless.and_post ?_ fun _ h => exists_image_of_repaint? h
  unfold repaint?
  split
  · exact .ok trivial
  · refine (Fault.okUnless _ _).bind fun _ _ => ?_
    split
    · refine (Fault.okUnless_of hcovers).bind fun _ _ => ?_
      refine (Fault.okUnless_of (.inl hdepth)).bind fun _ _ => ?_
      exact .ok trivial
    · exact .ok trivial

theorem okUnless_checkSearch (hf : f.Ready initial radius) (hdepth : 0 < initial.depth) :
    OkUnless .overflow f.checkSearch fun _ => True := by
  unfold checkSearch
  split
  · refine (Fault.okUnless_of hf.source.height_pos).bind fun _ _ => ?_
    exact (Fault.okUnless_of (hf.target.depth_eq ▸ hdepth)).mono fun _ _ => trivial
  · exact .ok trivial

variable [WordSource σ]

theorem okUnless_checkSettle (hf : f.Ready initial radius) (hdepth : 0 < initial.depth) :
    OkUnless .overflow f.checkSettle fun _ => True := by
  unfold checkSettle
  refine (Fault.okUnless_of (hf.target.depth_eq ▸ hdepth)).bind fun _ _ => ?_
  exact (Fault.okUnless _ _).mono fun _ _ => trivial

theorem okUnless_scatter? (hf : f.Ready initial radius) (hdepth : 0 < initial.depth) :
    OkUnless .overflow f.scatter? (SameFrame f) := by
  have hseeds : SameFrame f (f.forEach scatterAt) :=
    sameFrame_foldl (fun g p => sameFrame_put g p _ _) _ f
  unfold scatter?
  split
  · exact .ok (.refl f)
  · refine (Fault.okUnless_of ⟨hf.source.width_pos, hf.source.height_pos⟩).bind fun _ _ => ?_
    refine (okUnless_checkSettle (hf.sameFrame hseeds) hdepth).bind fun _ _ => ?_
    exact .ok (sameFrame_scatter f)

theorem okUnless_improve? (hf : f.Ready initial radius) (hdepth : 0 < initial.depth) (n : Nat) :
    OkUnless .overflow (f.improve? n) (SameFrame f) := by
  unfold improve?
  split
  · exact .ok (.refl f)
  · refine (okUnless_checkSearch hf hdepth).bind fun _ _ => ?_
    refine (Fault.okUnless _ _).bind fun _ _ => ?_
    exact .ok (sameFrame_improve f n)

theorem okUnless_finer? (hf : f.Ready initial radius) (hdepth : 0 < initial.depth)
    {target source : Canvas} (ht : target.Within initial) (hs : source.Within initial) :
    OkUnless .overflow (f.finer? target source) (SameFrame (f.seeded target source)) := by
  unfold finer?
  refine (Fault.okUnless _ _).bind fun _ _ => ?_
  split
  · exact .ok (.refl _)
  · refine (Fault.okUnless _ _).bind fun _ _ => ?_
    refine (okUnless_checkSettle (hf.seeded ht hs) hdepth).bind fun _ _ => ?_
    exact .ok (sameFrame_finer f target source)

end MatchField

end Retouch
