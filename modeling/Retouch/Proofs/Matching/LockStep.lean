import Mathlib.Data.List.Forall2
import Retouch.Matching.Operation
import Retouch.Proofs.Matching.Hidden
import Retouch.Proofs.Matching.Total
import Retouch.Random.Keystream

/-!
# Retouch — Matching — Lock step

Two fields that start with the same entries and the same draws, over canvases that differ at most
in what their holes hide, go through the same operations, with replacements that again differ in
what holes hide only (`Operation.Agree`).  Each operation leaves them with the same entries and the
same draws, or faults on both (`alike_perform?`), and so does any sequence of operations
(`alike_performAll?`).

How often a search draws depends on the distances it has found.  That the draws stay equal is
therefore part of what one operation has to keep, not a consequence at the end.
-/

namespace Retouch

/-- The same thing is done, with canvases that agree. -/
inductive Operation.Agree : Operation → Operation → Prop where
  | scatter : Agree .scatter .scatter
  | improve (passes : Nat) : Agree (.improve passes) (.improve passes)
  | refine (x y : Nat) (dir : Int) : Agree (.refine x y dir) (.refine x y dir)
  | retarget {target target' : Canvas} (ht : target.Agree target') :
      Agree (.retarget target) (.retarget target')
  | finer {target target' source source' : Canvas} (ht : target.Agree target')
      (hs : source.Agree source') : Agree (.finer target source) (.finer target' source')

namespace MatchField

variable {σ : Type} [WordSource σ]

/-- The field after a sequence of operations, provided that the checks of each one pass. -/
def performAll? (f : MatchField σ) (operations : List Operation) : Except Fault (MatchField σ) :=
  operations.foldlM perform? f

/-- **One operation** takes agreeing fields to agreeing fields, or faults on both. -/
theorem alike_perform? {f g : MatchField σ} (h : f.Agree g) {operation operation' : Operation}
    (ho : operation.Agree operation') :
    Alike Agree (f.perform? operation) (g.perform? operation') := by
  cases ho with
  | scatter => exact alike_scatter? h
  | improve passes => exact alike_improve? h passes
  | refine x y dir => exact alike_refine? h x y dir
  | retarget ht => exact alike_retarget? h ht
  | finer ht hs => exact alike_finer? h ht hs

/-- A sequence of operations takes agreeing fields to agreeing fields, or faults on both. -/
theorem agree_performAll? {f g : MatchField σ} (h : f.Agree g)
    {operations operations' : List Operation}
    (ho : List.Forall₂ Operation.Agree operations operations') :
    Alike Agree (f.performAll? operations) (g.performAll? operations') := by
  unfold performAll?
  induction ho generalizing f g with
  | nil => exact .ok h
  | cons hfirst _ ih =>
    rw [List.foldlM_cons, List.foldlM_cons]
    exact (alike_perform? h hfirst).bind fun _ _ hnext => ih hnext

/-- **Matching never looks under a hole.**  Take two pairings of canvases of the same sizes,
channels and holes, with the same radius and the same samples wherever there is no hole, and any
entries and draws to start from.  The same operations, in any number and order, with replacements
that agree in the same way, end with the same entries and the same draws, or with the same
fault. -/
theorem alike_performAll? {p q : Pairing} (h : p.Agree q) (entries : Array Match) (draws : σ)
    {operations operations' : List Operation}
    (ho : List.Forall₂ Operation.Agree operations operations') :
    Alike (fun f g : MatchField σ => f.entries = g.entries ∧ f.draws = g.draws)
      (performAll? ⟨p, entries, draws⟩ operations)
      (performAll? ⟨q, entries, draws⟩ operations') := by
  have hstart : Agree (⟨p, entries, draws⟩ : MatchField σ) ⟨q, entries, draws⟩ := ⟨h, rfl, rfl⟩
  exact (agree_performAll? hstart ho).mono fun _ _ hend => ⟨hend.entries_eq, hend.draws_eq⟩

/-- Two by two black pixels, one of them a hole. -/
def plainCanvas : Canvas :=
  .ofParts (.blank 2 2 .gray) (.ofHoles 2 2 fun x y => x == 1 && y == 0)

/-- The same canvas with something light under its hole. -/
def stainedCanvas : Canvas :=
  .ofParts (.generate 2 2 .gray fun p _ => if p = 1 then 200 else 0) plainCanvas.mask

theorem agree_stainedCanvas : plainCanvas.Agree stainedCanvas where
  shape := ⟨rfl, rfl, rfl⟩
  holes_eq := rfl
  sample_eq := by decide +kernel

/-- An unset field from a canvas to itself. -/
def ownField (canvas : Canvas) : MatchField Keystream :=
  ⟨⟨canvas, canvas, 1⟩, Array.replicate 4 .unset, .ofSeed 7⟩

/-- What the hole hides does not show in a field that is seeded, improved, refined at the hole and
given its target once more. -/
theorem alike_performAll?_stained :
    let operations target := [.scatter, .improve 2, .refine 1 0 1, .retarget target]
    plainCanvas ≠ stainedCanvas ∧ ∃ f g,
      (ownField plainCanvas).performAll? (operations plainCanvas) = .ok f ∧
      (ownField stainedCanvas).performAll? (operations stainedCanvas) = .ok g ∧
      f.entries = g.entries ∧ f.draws = g.draws := by
  intro operations
  have hstart : (ownField plainCanvas).Workable :=
    ⟨by decide, by decide, by decide, by decide, by decide, Array.size_replicate, by decide⟩
  have hscatter := scatter?_eq_ok hstart
  have hsame := sameFrame_scatter (ownField plainCanvas)
  generalize (ownField plainCanvas).scatter = f at hscatter hsame
  have himprove := improve?_eq_ok (hstart.sameFrame hsame) 2
  have hsame₁ := hsame.trans (sameFrame_improve f 2)
  generalize f.improve 2 = f₁ at himprove hsame₁
  have hf₁ := hstart.sameFrame hsame₁
  have hx : 1 < f₁.width := hsame₁.width_eq ▸ by decide
  have hrefine := refine?_eq_ok hf₁ hx hf₁.height_pos (show (1 : Int) - 1 < _ ∧ 0 - 1 < _ by decide)
  have hsame₂ := hsame₁.trans (sameFrame_refine f₁ 1 0 1)
  generalize f₁.refine 1 0 1 = f₂ at hrefine hsame₂
  have hretarget : f₂.retarget? plainCanvas = .ok (f₂.retarget plainCanvas) :=
    retarget?_eq_ok (hstart.sameFrame hsame₂) hsame₂.width_eq.symm hsame₂.height_eq.symm
      (congrArg Canvas.depth hsame₂.target_eq).symm
  have hplain : (ownField plainCanvas).performAll? (operations plainCanvas) =
      .ok (f₂.retarget plainCanvas) := by
    simp only [performAll?, operations, List.foldlM_cons, List.foldlM_nil, bind_eq_ok_iff]
    exact ⟨f, hscatter, f₁, himprove, f₂, hrefine, _, hretarget, rfl⟩
  have hpairing : (Pairing.mk plainCanvas plainCanvas 1).Agree ⟨stainedCanvas, stainedCanvas, 1⟩ :=
    ⟨agree_stainedCanvas, agree_stainedCanvas, rfl⟩
  have hoperations : List.Forall₂ Operation.Agree (operations plainCanvas)
      (operations stainedCanvas) :=
    .cons .scatter <| .cons (.improve 2) <| .cons (.refine 1 0 1) <|
      .cons (.retarget agree_stainedCanvas) .nil
  obtain ⟨g, hstained, hentries, hdraws⟩ := (alike_performAll? hpairing
    (Array.replicate 4 .unset) (Keystream.ofSeed 7) hoperations).exists_ok hplain
  exact ⟨by decide, _, g, hplain, hstained, hentries, hdraws⟩

end MatchField

end Retouch
