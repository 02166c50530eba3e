import Retouch.Matching.Operation
import Retouch.Proofs.Matching.Total
import Retouch.Random.Keystream

/-!
# Retouch — Matching — Exact entries

A match *lands* when its position lies in the source.  It is *exact* when, besides, its distance is
the distance of the two patches, for the canvases that the field holds now (`Pairing.Exact`).

Every operation writes entries by visiting pixels one after the other.  `entry_foldl` says what
such visits leave behind: positions at random land, whatever was there before, and seeds that land
become exact when they are settled or measured.  Searching keeps exact fields exact.

`exact_of_run`: a field that has been scattered once is exact after every run of operations,
whatever was drawn.
-/

namespace Retouch

/-! ### Exact matches -/

namespace Pairing

/-- The position of the match lies in the source. -/
def Lands (p : Pairing) (m : Match) : Prop :=
  m.x < p.source.width ∧ m.y < p.source.height

/-- The match lands, and it has its distance from the patch around `(x, y)`. -/
structure Exact (p : Pairing) (x y : Nat) (m : Match) : Prop where
  lands : p.Lands m
  distance_eq : m.distance = p.distance x y m.x m.y

/-- The match is exact for target pixel `q`. -/
def ExactAt (p : Pairing) (q : Nat) (m : Match) : Prop :=
  p.Exact (q % p.target.width) (q / p.target.width) m

variable {p : Pairing} {x y : Nat} {m : Match}

theorem exactAt_iff (hx : x < p.target.width) :
    p.ExactAt (y * p.target.width + x) m ↔ p.Exact x y m := by
  rw [ExactAt, Raster.index_mod y hx, Raster.index_div y hx]

theorem Exact.offer (h : p.Exact x y m) (x' y' : Int) : p.Exact x y (p.offer x y x' y' m) := by
  unfold Pairing.offer
  split
  · rename_i hc
    simp only [Canvas.contains, Bool.and_eq_true, decide_eq_true_eq] at hc
    obtain ⟨⟨⟨hx₀, hx⟩, hy₀⟩, hy⟩ := hc
    dsimp only
    split
    · refine ⟨⟨(Int.toNat_lt hx₀).mpr hx, (Int.toNat_lt hy₀).mpr hy⟩, ?_⟩
      rw [Int.toNat_of_nonneg hx₀, Int.toNat_of_nonneg hy₀]
    · exact h
  · exact h

theorem Exact.offers (h : p.Exact x y m) (positions : List (Int × Int)) :
    p.Exact x y (p.offers x y m positions) :=
  List.foldlRecOn positions _ h fun _ hm q _ => hm.offer q.1 q.2

end Pairing

namespace MatchField

variable {σ : Type}

/-- The match of every pixel lands. -/
def Landed (f : MatchField σ) : Prop :=
  ∀ p < f.entries.size, f.toPairing.Lands (f.entry p)

/-- There is an exact match for every pixel of the target. -/
structure Exact (f : MatchField σ) : Prop where
  size_eq : f.entries.size = f.target.area
  exactAt : ∀ p < f.entries.size, f.toPairing.ExactAt p (f.entry p)

theorem Exact.size_eq_mul {f : MatchField σ} (h : f.Exact) :
    f.entries.size = f.height * f.width :=
  h.size_eq.trans (Nat.mul_comm _ _)

/-- The entry of the pixel in column `x` and row `y`. -/
theorem Exact.entry_exact {f : MatchField σ} (h : f.Exact) {x y : Nat} (hx : x < f.width)
    (hy : y < f.height) : y * f.width + x < f.entries.size ∧
      f.toPairing.Exact x y (f.entry (y * f.width + x)) := by
  have hp : y * f.width + x < f.entries.size := by
    rw [h.size_eq_mul]
    exact Raster.index_lt hy hx
  exact ⟨hp, (Pairing.exactAt_iff hx).mp (h.exactAt _ hp)⟩

theorem Exact.landed {f : MatchField σ} (h : f.Exact) : f.Landed :=
  fun p hp => (h.exactAt p hp).lands

/-! ### Visits -/

/-- Where the match of the visited pixel satisfies `Q`, `step` puts one that satisfies `P`. -/
def Puts (pairing : Pairing) (Q P : Nat → Match → Prop)
    (step : MatchField σ → Nat → MatchField σ) : Prop :=
  ∀ (f : MatchField σ) (p : Nat), f.toPairing = pairing → Q p (f.entry p) →
    ∃ m draws, step f p = f.put p m draws ∧ P p m

/-- After the visits every visited pixel satisfies `P`, and so does every pixel that satisfied it
before. -/
theorem entry_foldl {pairing : Pairing} {Q P : Nat → Match → Prop}
    {step : MatchField σ → Nat → MatchField σ} (hstep : Puts pairing Q P step)
    (hPQ : ∀ p m, P p m → Q p m) {order : List Nat} {f : MatchField σ}
    (hf : f.toPairing = pairing) (horder : ∀ p ∈ order, p < f.entries.size ∧ Q p (f.entry p))
    {q : Nat} (hq : q ∈ order ∨ P q (f.entry q)) : P q ((order.foldl step f).entry q) := by
  -- On the pixels still to be visited: those visited before satisfy `P` already.
  induction order generalizing f with
  | nil => exact hq.resolve_left List.not_mem_nil
  | cons p order ih =>
    obtain ⟨hp, hQ⟩ := horder p List.mem_cons_self
    obtain ⟨m, draws, hput, hm⟩ := hstep f p hf hQ
    rw [List.foldl_cons, hput]
    refine ih hf (fun r hr => ?_) ?_
    · obtain ⟨hr, hQr⟩ := horder r (List.mem_cons_of_mem p hr)
      rw [size_put, entry_put hp]
      refine ⟨hr, ?_⟩
      split
      · rename_i h
        exact h ▸ hPQ p m hm
      · exact hQr
    · -- Pixel `q` satisfies `P` by now, or it comes later.
      by_cases h : q = p
      · subst h
        rw [entry_put hp, if_pos rfl]
        exact .inr hm
      · rw [entry_put hp, if_neg h]
        exact hq.imp_left fun hq => (List.mem_cons.mp hq).resolve_left h

/-- Visiting every pixel of a field whose matches land makes it exact, when each visit does so at
its pixel. -/
theorem exact_forEach {step : MatchField σ → Nat → MatchField σ} {f : MatchField σ}
    (hstep : Puts f.toPairing (fun _ => f.toPairing.Lands) f.toPairing.ExactAt step)
    (hframe : ∀ f p, SameFrame f (step f p)) (hf : f.Landed)
    (hsize : f.entries.size = f.target.area) : (f.forEach step).Exact := by
  have hsame : SameFrame f (f.forEach step) := sameFrame_foldl hframe _ f
  refine ⟨by rw [hsame.size_eq, hsame.target_eq, hsize], fun q hq => ?_⟩
  rw [hsame.size_eq] at hq
  rw [hsame.toPairing_eq]
  refine entry_foldl hstep (fun _ _ h => h.lands) rfl (fun p hp => ?_)
    (.inl (List.mem_range.mpr hq))
  exact ⟨List.mem_range.mp hp, hf p (List.mem_range.mp hp)⟩

/-- Visits that keep a field exact keep it so together. -/
theorem exact_foldl {step : MatchField σ → Nat → MatchField σ}
    (hframe : ∀ f p, SameFrame f (step f p))
    (hstep : ∀ f p, f.Exact → p < f.entries.size → (step f p).Exact) {order : List Nat}
    {f : MatchField σ} (hf : f.Exact) (horder : ∀ p ∈ order, p < f.entries.size) :
    (order.foldl step f).Exact := by
  induction order generalizing f with
  | nil => exact hf
  | cons p order ih =>
    refine ih (hstep f p hf (horder p List.mem_cons_self)) fun q hq => ?_
    rw [(hframe f p).size_eq]
    exact horder q (List.mem_cons_of_mem p hq)

theorem puts_remeasureAt (pairing : Pairing) :
    @Puts σ pairing (fun _ => pairing.Lands) pairing.ExactAt remeasureAt := by
  rintro f p rfl hm
  exact ⟨_, _, rfl, hm, rfl⟩

theorem exact_retarget {f : MatchField σ} (hf : f.Landed) {target : Canvas}
    (hsize : f.entries.size = target.area) : (f.retarget target).Exact :=
  exact_forEach (puts_remeasureAt _) (fun g p => sameFrame_put g p _ _) hf hsize

theorem exact_of_retarget? {f g : MatchField σ} (hf : f.Exact) {target : Canvas}
    (h : f.retarget? target = .ok g) : g.Exact := by
  obtain ⟨⟨hw, hh⟩, -⟩ := sameFrame_of_retarget? h
  obtain rfl := eq_retarget_of_retarget? h
  have hsize : f.entries.size = target.area :=
    calc
      f.entries.size = f.width * f.height := hf.size_eq
      _ = target.width * target.height := by rw [hw, hh]
  exact exact_retarget hf.landed hsize

/-! ### Seeds -/

/-- The seeds of a finer field land, whatever the coarse one was like. -/
theorem landed_seeded (coarse : MatchField σ) (target : Canvas) {source : Canvas}
    (hw : 0 < source.width) (hh : 0 < source.height) : (coarse.seeded target source).Landed := by
  intro p hp
  have hp' : p < target.area := by simpa [seeded] using hp
  have hentry : (coarse.seeded target source).entry p =
      coarse.seedFrom target source (p % target.width) (p / target.width) := by
    simp [entry, seeded, Array.getD, hp']
  rw [hentry]
  exact ⟨Single.floorBelow_lt _ hw, Single.floorBelow_lt _ hh⟩

variable [WordSource σ]

theorem lands_drawPosition {p : Pairing} (hw : 0 < p.source.width) (hh : 0 < p.source.height)
    (s : σ) (d : Nat) : p.Lands ⟨(drawPosition p s).1.1, (drawPosition p s).1.2, d⟩ :=
  ⟨Draw.below_lt hw s, Draw.below_lt hh _⟩

/-- However often it is drawn again, an exact match stays exact. -/
theorem exact_redraw {p : Pairing} {x y : Nat} {m : Match} (hm : p.Exact x y m) (n : Nat) (s : σ) :
    p.Exact x y (redraw p x y n m s).1 := by
  induction n generalizing m s with
  | zero => exact hm
  | succ n ih =>
    unfold redraw
    split
    · -- A source that something lands in is not empty, so there is a position to draw.
      have hw := Nat.zero_lt_of_lt hm.lands.1
      have hh := Nat.zero_lt_of_lt hm.lands.2
      exact ih ⟨lands_drawPosition hw hh s _, rfl⟩ _
    · exact hm

theorem puts_settleAt (pairing : Pairing) :
    @Puts σ pairing (fun _ => pairing.Lands) pairing.ExactAt settleAt := by
  rintro f p rfl hm
  have hseed : f.toPairing.Exact (f.column p) (f.row p)
      { f.entry p with
        distance := f.distance (f.column p) (f.row p) (f.entry p).x (f.entry p).y } :=
    ⟨hm, rfl⟩
  exact ⟨_, _, rfl, exact_redraw hseed redraws f.draws⟩

theorem exact_settle {f : MatchField σ} (hf : f.Landed) (hsize : f.entries.size = f.target.area) :
    f.settle.Exact :=
  exact_forEach (puts_settleAt _) (fun g p => sameFrame_put g p _ _) hf hsize

theorem puts_scatterAt {pairing : Pairing} (hw : 0 < pairing.source.width)
    (hh : 0 < pairing.source.height) :
    @Puts σ pairing (fun _ _ => True) (fun _ => pairing.Lands) scatterAt := by
  rintro f p rfl -
  exact ⟨_, _, rfl, lands_drawPosition hw hh f.draws _⟩

/-- A scattered field is exact, whatever its entries were before. -/
theorem exact_scatter {f : MatchField σ} (hw : 0 < f.source.width) (hh : 0 < f.source.height)
    (hsize : f.entries.size = f.target.area) : f.scatter.Exact := by
  have hsame : SameFrame f (f.forEach scatterAt) :=
    sameFrame_foldl (fun g p => sameFrame_put g p _ _) _ f
  refine exact_settle (fun q hq => ?_) (by rw [hsame.size_eq, hsame.target_eq, hsize])
  rw [hsame.size_eq] at hq
  rw [hsame.toPairing_eq]
  -- Nothing is asked of the entries before: they are overwritten.
  refine entry_foldl (puts_scatterAt hw hh) (fun _ _ _ => trivial) rfl (fun p hp => ?_)
    (.inl (List.mem_range.mpr hq))
  exact ⟨List.mem_range.mp hp, trivial⟩

theorem exact_finer (coarse : MatchField σ) (target : Canvas) {source : Canvas}
    (hw : 0 < source.width) (hh : 0 < source.height) : (coarse.finer target source).Exact :=
  exact_settle (landed_seeded coarse target hw hh) (by simp [seeded])

/-! ### Searching -/

theorem exact_refine {f : MatchField σ} (hf : f.Exact) {x y : Nat} (hx : x < f.width)
    (hy : y < f.height) (dir : Int) : (f.refine x y dir).Exact := by
  obtain ⟨hp, hm⟩ := hf.entry_exact hx hy
  have hsame := sameFrame_refine f x y dir
  refine ⟨by rw [hsame.size_eq, hsame.target_eq, hf.size_eq], fun q hq => ?_⟩
  rw [hsame.size_eq] at hq
  rw [hsame.toPairing_eq, refine, entry_put hp]
  split
  · rename_i h
    rw [h]
    exact (Pairing.exactAt_iff hx).mpr ((hm.offers _).offers _)
  · exact hf.exactAt q hq

/-- Refining a pixel given by its number. -/
theorem exact_refineAt {f : MatchField σ} (hf : f.Exact) {p : Nat} (hp : p < f.entries.size)
    (dir : Int) : (f.refine (f.column p) (f.row p) dir).Exact := by
  rw [hf.size_eq_mul, Nat.mul_comm] at hp
  exact exact_refine hf (Nat.mod_lt p (Nat.pos_of_lt_mul_right hp)) (Nat.div_lt_of_lt_mul hp) dir

theorem exact_forwardAt {f : MatchField σ} (hf : f.Exact) {p : Nat} (hp : p < f.entries.size) :
    (f.forwardAt p).Exact := by
  unfold forwardAt
  split
  · exact exact_refineAt hf hp 1
  · exact hf

theorem exact_pass {f : MatchField σ} (hf : f.Exact) : f.pass.Exact := by
  have hforward : f.forward.Exact :=
    exact_foldl sameFrame_forwardAt (fun _ _ hg hp => exact_forwardAt hg hp) hf
      fun p hp => List.mem_range.mp hp
  refine exact_foldl (fun g p => sameFrame_refine g _ _ _)
    (fun g p hg hp => exact_refineAt hg hp (-1)) hforward fun p hp => ?_
  exact List.mem_range.mp (List.mem_reverse.mp hp)

theorem exact_improve {f : MatchField σ} (hf : f.Exact) (n : Nat) : (f.improve n).Exact := by
  induction n generalizing f with
  | zero => exact hf
  | succ n ih => exact ih (exact_pass hf)

/-! ### Behind the checks -/

theorem exact_of_scatter? {f g : MatchField σ} (hsize : f.entries.size = f.target.area)
    (h : f.scatter? = .ok g) : g.Exact := by
  unfold scatter? at h
  split at h
  · rename_i h₀
    cases h
    exact ⟨hsize, fun p hp => by omega⟩
  · obtain ⟨_, hpos, h⟩ := bind_eq_ok_iff.mp h
    obtain ⟨hw, hh⟩ := Fault.unless_eq_ok_iff.mp hpos
    obtain ⟨_, _, h⟩ := bind_eq_ok_iff.mp h
    cases h
    exact exact_scatter hw hh hsize

theorem exact_of_improve? {f g : MatchField σ} (hf : f.Exact) {n : Nat}
    (h : f.improve? n = .ok g) : g.Exact :=
  eq_improve_of_improve? h ▸ exact_improve hf n

theorem exact_of_refine? {f g : MatchField σ} (hf : f.Exact) {x y : Nat} (hx : x < f.width)
    (hy : y < f.height) {dir : Int} (h : f.refine? x y dir = .ok g) : g.Exact :=
  eq_refine_of_refine? h ▸ exact_refine hf hx hy dir

theorem exact_of_finer? {coarse g : MatchField σ} {target source : Canvas}
    (h : coarse.finer? target source = .ok g) : g.Exact := by
  obtain ⟨_, _, h⟩ := bind_eq_ok_iff.mp h
  split at h
  · rename_i h₀
    cases h
    exact ⟨by simp [seeded], fun p hp => by simp [seeded, h₀] at hp⟩
  · obtain ⟨_, hpos, h⟩ := bind_eq_ok_iff.mp h
    obtain ⟨-, hw, hh⟩ := Fault.unless_eq_ok_iff.mp hpos
    obtain ⟨_, _, h⟩ := bind_eq_ok_iff.mp h
    cases h
    exact exact_finer coarse target hw hh

/-- **One operation** keeps an exact field exact. -/
theorem exact_of_perform? {f g : MatchField σ} (hf : f.Exact) {operation : Operation}
    (hadmits : f.Admits operation) (h : f.perform? operation = .ok g) : g.Exact := by
  cases operation with
  | scatter => exact exact_of_scatter? hf.size_eq h
  | improve passes => exact exact_of_improve? hf h
  | refine x y dir => exact exact_of_refine? hf hadmits.1 hadmits.2 h
  | retarget target => exact exact_of_retarget? hf h
  | finer target source => exact exact_of_finer? h

/-- **A run** keeps an exact field exact. -/
theorem exact_of_run {f g : MatchField σ} {operations : List Operation} (h : Run f operations g) :
    f.Exact → g.Exact := by
  induction h with
  | done => exact id
  | more hadmits hstep _ ih => exact fun hf => ih (exact_of_perform? hf hadmits hstep)

/-- **Entries are exact at all times.**  A field is started for any two canvases and scattered,
then any operations follow.  Whatever was drawn, every pixel of the target has an entry; its
position lies in the source, and its distance is the distance of the two patches, for the canvases
that the field holds at the end. -/
theorem exists_exact_entry_of_run {pairing : Pairing} {draws : σ} {f g : MatchField σ}
    {operations : List Operation} (hseed : (start pairing draws).scatter? = .ok f)
    (hrun : Run f operations g) {x y : Nat} (hx : x < g.width) (hy : y < g.height) :
    ∃ m, entry? g x y = .ok m ∧ m.x < g.source.width ∧ m.y < g.source.height ∧
      m.distance = g.distance x y m.x m.y := by
  have hf : f.Exact := exact_of_scatter? (by simp [start]) hseed
  have hg : g.Exact := exact_of_run hrun hf
  obtain ⟨hp, hm⟩ := hg.entry_exact hx hy
  have hentry : entry? g x y = .ok (g.entry (y * g.width + x)) := by
    rw [ entry?, Fault.unless_eq_ok_iff.mpr hp]
    rfl
  exact ⟨_, hentry, hm.lands.1, hm.lands.2, hm.distance_eq⟩

/-- The entries of a small field after a run with operations of every kind. -/
theorem exists_exact_entry_of_small_run :
    let small := Canvas.ofParts (.blank 2 2 .gray) (.ofHoles 2 2 fun x y => x == 1 && y == 0)
    let large := Canvas.ofParts (.blank 4 4 .gray) (.blank 4 4 .gray)
    ∃ f g : MatchField Keystream,
      (start ⟨small.clearHoles, small, 1⟩ (Keystream.ofSeed 7)).scatter? = .ok f ∧
      Run f [.improve 2, .refine 1 0 1, .retarget small, .finer large large, .scatter] g ∧
      3 < g.width ∧ 2 < g.height ∧
      ∃ m, entry? g 3 2 = .ok m ∧ m.x < g.source.width ∧ m.y < g.source.height ∧
        m.distance = g.distance 3 2 m.x m.y := by
  intro small large
  have hstart : (start ⟨small.clearHoles, small, 1⟩ (Keystream.ofSeed 7)).Workable :=
    ⟨by decide, by decide, by decide, by decide, by decide, Array.size_replicate, by decide⟩
  have hseed := scatter?_eq_ok hstart
  have hsame := sameFrame_scatter (start ⟨small.clearHoles, small, 1⟩ (Keystream.ofSeed 7))
  generalize (start ⟨small.clearHoles, small, 1⟩ (Keystream.ofSeed 7)).scatter = f at hseed hsame
  have hf := hstart.sameFrame hsame
  -- The first two operations keep the frame.
  have himprove := improve?_eq_ok hf 2
  have hsame₁ := hsame.trans (sameFrame_improve f 2)
  generalize f.improve 2 = f₁ at himprove hsame₁
  have hf₁ := hstart.sameFrame hsame₁
  have hx : 1 < f₁.width := hsame₁.width_eq ▸ by decide
  have hrefine := refine?_eq_ok hf₁ hx hf₁.height_pos (show (1 : Int) - 1 < _ ∧ 0 - 1 < _ by decide)
  have hsame₂ := hsame₁.trans (sameFrame_refine f₁ 1 0 1)
  generalize f₁.refine 1 0 1 = f₂ at hrefine hsame₂
  have hf₂ := hstart.sameFrame hsame₂
  -- The next two replace canvases by others with one channel.
  have hwidth : small.width = f₂.width := hsame₂.width_eq.symm
  have hheight : small.height = f₂.height := hsame₂.height_eq.symm
  have hdepth : small.depth = f₂.target.depth := (congrArg Canvas.depth hsame₂.target_eq).symm
  have hretarget := retarget?_eq_ok hf₂ hwidth hheight hdepth
  have hsame₃ := sameFrame_retarget f₂ small
  have hf₃ := (hf₂.withTarget hwidth hheight hdepth).sameFrame hsame₃
  have hsource₃ := source_retarget f₂ small
  generalize f₂.retarget small = f₃ at hretarget hsame₃ hf₃ hsource₃
  have hlarge : 0 < large.width ∧ 0 < large.height := by decide
  have hone : large.depth = small.depth := by decide
  have htarget : large.depth = f₃.target.depth :=
    hone.trans (congrArg Canvas.depth hsame₃.target_eq).symm
  have hsource : large.depth = f₃.source.depth := by
    rw [hsource₃, hsame₂.source_eq]
    exact hone
  have hfiner := finer?_eq_ok hf₃ hlarge hlarge htarget hsource
  have hsame₄ := sameFrame_finer f₃ large large
  have hf₄ := (hf₃.seeded hlarge hlarge htarget hsource).sameFrame hsame₄
  generalize f₃.finer large large = f₄ at hfiner hsame₄ hf₄
  have hscatter := scatter?_eq_ok hf₄
  have hsame₅ := hsame₄.trans (sameFrame_scatter f₄)
  generalize f₄.scatter = g at hscatter hsame₅
  have hx' : 3 < g.width := by
    rw [hsame₅.width_eq]
    show 3 < large.width
    decide
  have hy' : 2 < g.height := by
    rw [hsame₅.height_eq]
    show 2 < large.height
    decide
  have hrun : Run f [.improve 2, .refine 1 0 1, .retarget small, .finer large large, .scatter] g :=
    .more trivial himprove <| .more ⟨hx, hf₁.height_pos⟩ hrefine <| .more trivial hretarget <|
      .more trivial hfiner <| .more trivial hscatter <| .done g
  exact ⟨f, g, hseed, hrun, hx', hy', exists_exact_entry_of_run hseed hrun hx' hy'⟩

end MatchField

end Retouch
