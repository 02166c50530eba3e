import Mathlib.Algebra.BigOperators.Group.Finset.Basic
import Mathlib.Algebra.BigOperators.Group.Finset.Piecewise
import Mathlib.Algebra.Order.BigOperators.Group.List
import Mathlib.Algebra.Order.Group.Nat
import Mathlib.Algebra.Ring.Nat
import Mathlib.Data.List.Perm.Basic
import Retouch.Timing.Indexed

/-!
# Retouch — Timing — Accounts

What steps take under a name is the sum of their times (`timeUnder`).  An index is *kept* when it
has this sum for every name that was recorded and nothing for any other (`IndexedTimesheet.Kept`);
to record a step keeps it, and so does recording any steps (`exists_recordAll?`).

Counted by name, nothing is left out and nothing is counted twice (`sum_filter_eq`): this gives both
the total of the times and the runs in the last line of the summary.  The names of the rows come in
the order of their first steps since a name that is passed over has been seen before
(`pairwise_firstNames`).

`recordAll?_accounts` says this of any steps whose times fit.
-/

namespace Retouch

/-! ### Steps by name -/

namespace Timesheet

/-- The names of steps, in order. -/
def namesOf (steps : List (String × Nat)) : List String :=
  steps.map (·.1)

/-- What steps take under a name. -/
def timeUnder (steps : List (String × Nat)) (name : String) : Nat :=
  ((steps.filter (·.1 = name)).map (·.2)).sum

/-- What steps take together. -/
def timeOf (steps : List (String × Nat)) : Nat :=
  (steps.map (·.2)).sum

variable {steps steps' : List (String × Nat)} {name : String}

theorem timeUnder_append (steps steps' : List (String × Nat)) (name : String) :
    timeUnder (steps ++ steps') name = timeUnder steps name + timeUnder steps' name := by
  rw [timeUnder, List.filter_append, List.map_append, List.sum_append]
  rfl

theorem timeUnder_singleton (name' : String) (time : Nat) (name : String) :
    timeUnder [(name', time)] name = if name' = name then time else 0 := by
  by_cases h : name' = name <;> simp [timeUnder, h]

theorem timeUnder_of_not_mem (h : name ∉ namesOf steps) : timeUnder steps name = 0 := by
  have hnone : steps.filter (·.1 = name) = [] := by
    refine List.filter_eq_nil_iff.mpr fun step hstep heq => h ?_
    exact List.mem_map.mpr ⟨step, hstep, of_decide_eq_true heq⟩
  rw [timeUnder, hnone]
  rfl

theorem timeUnder_perm (h : steps.Perm steps') : timeUnder steps = timeUnder steps' :=
  funext fun _ => ((h.filter _).map _).sum_eq

/-- Whatever is counted of steps can be counted by name. -/
theorem sum_filter_eq (f : String × Nat → Nat) {names : Finset String}
    (h : ∀ step ∈ steps, step.1 ∈ names) :
    ∑ name ∈ names, ((steps.filter (·.1 = name)).map f).sum = (steps.map f).sum := by
  induction steps with
  | nil => simp
  | cons step steps ih =>
    have hstep (name : String) : (((step :: steps).filter (·.1 = name)).map f).sum =
        (if step.1 = name then f step else 0) + ((steps.filter (·.1 = name)).map f).sum := by
      by_cases hname : step.1 = name <;> simp [hname]
    rw [Finset.sum_congr rfl fun name _ => hstep name, Finset.sum_add_distrib,
      Finset.sum_ite_eq, if_pos (h step List.mem_cons_self),
      ih fun step' hstep' => h step' (List.mem_cons_of_mem _ hstep'), List.map_cons, List.sum_cons]

theorem sum_length_filter {names : Finset String} (h : ∀ step ∈ steps, step.1 ∈ names) :
    ∑ name ∈ names, (steps.filter (·.1 = name)).length = steps.length := by
  simpa only [List.map_const', List.sum_replicate_nat, Nat.mul_one] using
    sum_filter_eq (fun _ => 1) h

theorem timeUnder_le_timeOf (steps : List (String × Nat)) (name : String) :
    timeUnder steps name ≤ timeOf steps :=
  (List.filter_sublist.map _).sum_le_sum fun _ _ => Nat.zero_le _

end Timesheet

namespace IndexedTimesheet

open Timesheet (namesOf timeUnder timeOf timeSpan)

variable {sheet : IndexedTimesheet} {steps : List (String × Nat)} {name : String} {time : Nat}

/-! ### The index -/

theorem lookup_cons (entry : String × Nat) (index : List (String × Nat)) (n : String) :
    (entry :: index).lookup n = if n = entry.1 then some entry.2 else index.lookup n := by
  rw [List.lookup_cons]
  split
  · rename_i h
    rw [if_pos (eq_of_beq h)]
  · rename_i h
    rw [if_neg (ne_of_beq_false h)]

theorem lookup_put (name : String) (time : Nat) (index : List (String × Nat)) (n : String) :
    (put name time index).lookup n = if n = name then some time else index.lookup n := by
  induction index with
  | nil => exact lookup_cons (name, time) [] n
  | cons entry index ih =>
    rw [put, lookup_cons entry]
    split
    · rename_i hentry
      rw [lookup_cons, hentry]
      by_cases h : n = name <;> simp [h]
    · rename_i hentry
      rw [lookup_cons, ih]
      by_cases h : n = entry.1
      · rw [if_pos h, if_pos h, if_neg (h ▸ hentry)]
      · rw [if_neg h, if_neg h]

/-- The index has the time of every phase that was recorded, and of no other. -/
def Kept (sheet : IndexedTimesheet) : Prop :=
  ∀ name, sheet.time name =
    if name ∈ namesOf sheet.entries then some (timeUnder sheet.entries name) else none

theorem kept_empty : Kept {} :=
  fun _ => rfl

theorem Kept.getD_time (h : sheet.Kept) (name : String) :
    (sheet.time name).getD 0 = timeUnder sheet.entries name := by
  rw [h name]
  split
  · rfl
  · rename_i hname
    exact (Timesheet.timeUnder_of_not_mem hname).symm

/-- A step whose time fits is recorded, and the index is kept. -/
theorem Kept.exists_record? (h : sheet.Kept)
    (hfits : timeUnder sheet.entries name + time < timeSpan) :
    ∃ sheet', sheet.record? name time = .ok sheet' ∧
      sheet'.entries = sheet.entries ++ [(name, time)] ∧ sheet'.Kept := by
  rw [record?, h.getD_time]
  refine ⟨_, Fault.unless_bind_of hfits _, rfl, fun n => ?_⟩
  have hnames : namesOf (sheet.entries ++ [(name, time)]) = namesOf sheet.entries ++ [name] :=
    List.map_append
  show (put name _ sheet.index).lookup n = _
  rw [lookup_put, hnames, Timesheet.timeUnder_append, Timesheet.timeUnder_singleton]
  by_cases hn : n = name
  · subst hn
    simp
  · have hold : sheet.index.lookup n = _ := h n
    rw [if_neg hn, if_neg (Ne.symm hn), Nat.add_zero, hold]
    simp [hn]

/-- Steps whose times fit, name by name, are all recorded. -/
theorem Kept.exists_recordAll? (h : sheet.Kept)
    (hfits : ∀ name, timeUnder (sheet.entries ++ steps) name < timeSpan) :
    ∃ sheet', sheet.recordAll? steps = .ok sheet' ∧ sheet'.entries = sheet.entries ++ steps ∧
      sheet'.Kept := by
  induction steps generalizing sheet with
  | nil => exact ⟨sheet, rfl, (List.append_nil _).symm, h⟩
  | cons step steps ih =>
    obtain ⟨name, time⟩ := step
    rw [List.append_cons] at hfits
    have hstep : timeUnder sheet.entries name + time < timeSpan := by
      refine Nat.lt_of_le_of_lt ?_ (hfits name)
      rw [Timesheet.timeUnder_append, Timesheet.timeUnder_append, Timesheet.timeUnder_singleton,
        if_pos rfl]
      exact Nat.le_add_right _ _
    obtain ⟨next, hnext, hentries, hkept⟩ := h.exists_record? hstep
    rw [← hentries] at hfits
    obtain ⟨sheet', hsheet', hentries', hkept'⟩ := ih hkept hfits
    refine ⟨sheet', ?_, ?_, hkept'⟩
    · rw [recordAll?, List.foldlM_cons]
      show (sheet.record? name time >>= _) = _
      rw [hnext]
      exact hsheet'
    · rw [hentries', hentries, ← List.append_cons]

/-! ### The summary -/

theorem mem_firstNames {seen : List String} :
    name ∈ firstNames seen steps ↔ name ∈ namesOf steps ∧ name ∉ seen := by
  induction steps generalizing seen with
  | nil => simp [firstNames, namesOf]
  | cons step steps ih =>
    obtain ⟨n, t⟩ := step
    have hnames : namesOf ((n, t) :: steps) = n :: namesOf steps := rfl
    rw [firstNames, hnames, List.mem_cons]
    split
    · rename_i hn
      have hn : n ∈ seen := List.contains_iff_mem.mp hn
      rw [ih]
      constructor
      · exact fun h => ⟨.inr h.1, h.2⟩
      · rintro ⟨rfl | hmem, hseen⟩
        · exact absurd hn hseen
        · exact ⟨hmem, hseen⟩
    · rename_i hn
      have hn : n ∉ seen := fun hmem => hn (List.contains_iff_mem.mpr hmem)
      rw [List.mem_cons, ih, List.mem_append, List.mem_singleton]
      constructor
      · rintro (rfl | ⟨hmem, hseen⟩)
        · exact ⟨.inl rfl, hn⟩
        · exact ⟨.inr hmem, fun h => hseen (.inl h)⟩
      · rintro ⟨rfl | hmem, hseen⟩
        · exact .inl rfl
        · by_cases heq : name = n
          · exact .inl heq
          · exact .inr ⟨hmem, not_or.mpr ⟨hseen, heq⟩⟩

/-- Names come in the order of their first steps. -/
theorem pairwise_firstNames (seen : List String) (steps : List (String × Nat)) :
    (firstNames seen steps).Pairwise fun a b =>
      (namesOf steps).idxOf a < (namesOf steps).idxOf b := by
  induction steps generalizing seen with
  | nil => exact .nil
  | cons step steps ih =>
    obtain ⟨n, t⟩ := step
    have hnames : namesOf ((n, t) :: steps) = n :: namesOf steps := rfl
    -- In front of names that are not `n`, it moves all of them by one.
    have hlater {seen' : List String} (hseen' : n ∈ seen') :
        (firstNames seen' steps).Pairwise fun a b =>
          (n :: namesOf steps).idxOf a < (n :: namesOf steps).idxOf b := by
      refine (ih seen').imp_of_mem fun ha hb hlt => ?_
      have hne {a : String} (ha : a ∈ firstNames seen' steps) : n ≠ a := fun heq =>
        (mem_firstNames.mp ha).2 (heq ▸ hseen')
      rw [List.idxOf_cons_ne _ (hne ha), List.idxOf_cons_ne _ (hne hb)]
      exact Nat.succ_lt_succ hlt
    rw [firstNames, hnames]
    split
    · rename_i hn
      exact hlater (List.contains_iff_mem.mp hn)
    · refine .cons (fun a ha => ?_) (hlater (List.mem_append_right _ List.mem_cons_self))
      have hne : n ≠ a := fun heq =>
        (mem_firstNames.mp ha).2 (heq ▸ List.mem_append_right _ List.mem_cons_self)
      rw [List.idxOf_cons_self, List.idxOf_cons_ne _ hne]
      exact Nat.succ_pos _

/-- The summary has one row for each name of the steps, in the order of their first steps; its runs
and its time are those of the steps of this name.  In the last line, the runs are all steps and the
sum of the runs of the rows. -/
structure Summarizes (summary : Summary) (steps : List (String × Nat)) : Prop where
  mem_iff : ∀ name, name ∈ summary.rows.map (·.name) ↔ name ∈ namesOf steps
  nodup : (summary.rows.map (·.name)).Nodup
  in_order : (summary.rows.map (·.name)).Pairwise fun a b =>
    (namesOf steps).idxOf a < (namesOf steps).idxOf b
  row_eq : ∀ row ∈ summary.rows,
    row.runs = (namesOf steps).count row.name ∧ row.time = timeUnder steps row.name
  runs_eq : summary.runs = steps.length
  sum_runs : (summary.rows.map (·.runs)).sum = summary.runs
  time_eq : summary.time = timeOf steps

/-- The total is the sum over the phases. -/
theorem Kept.sum_time (h : sheet.Kept) :
    ∑ name ∈ (namesOf sheet.entries).toFinset, (sheet.time name).getD 0 = timeOf sheet.entries := by
  rw [Finset.sum_congr rfl fun name _ => h.getD_time name]
  exact Timesheet.sum_filter_eq (·.2) fun step hstep =>
    List.mem_toFinset.mpr (List.mem_map.mpr ⟨step, hstep, rfl⟩)

theorem total?_eq_ok (hfits : timeOf sheet.entries < timeSpan) :
    sheet.total? = .ok (timeOf sheet.entries) := by
  have htotal : sheet.total = timeOf sheet.entries := Sum.ofList_eq_foldr _
  rw [Timesheet.total?, htotal]
  exact Fault.unless_bind_of hfits _

theorem Kept.exists_overview? (h : sheet.Kept) (hfits : timeOf sheet.entries < timeSpan) :
    ∃ summary, sheet.overview? = .ok summary ∧ Summarizes summary sheet.entries := by
  have hok : sheet.overview? = .ok ⟨(firstNames [] sheet.entries).map sheet.row,
      sheet.entries.length, timeOf sheet.entries⟩ := by
    rw [overview?, total?_eq_ok hfits]
    rfl
  have hnames : ((firstNames [] sheet.entries).map sheet.row).map (·.name) =
      firstNames [] sheet.entries := by
    rw [List.map_map]
    exact List.map_id _
  have hnodup : (firstNames [] sheet.entries).Nodup :=
    (pairwise_firstNames [] sheet.entries).imp fun hlt heq =>
      Nat.ne_of_lt hlt (congrArg (namesOf sheet.entries).idxOf heq)
  refine ⟨_, hok, ?_, ?_, ?_, ?_, rfl, ?_, rfl⟩
  · intro name
    rw [hnames, mem_firstNames]
    simp
  · rwa [hnames]
  · rw [hnames]
    exact pairwise_firstNames [] sheet.entries
  · intro row hrow
    obtain ⟨name, -, rfl⟩ := List.mem_map.mp hrow
    refine ⟨?_, h.getD_time name⟩
    rw [namesOf, List.count, List.countP_map, List.countP_eq_length_filter]
    rfl
  · rw [List.map_map, ← List.sum_toFinset _ hnodup]
    refine Timesheet.sum_length_filter fun step hstep => ?_
    rw [List.mem_toFinset, mem_firstNames]
    exact ⟨List.mem_map.mpr ⟨step, hstep, rfl⟩, List.not_mem_nil⟩

/-- Without what has been seen, the names are those that come up, without repetition. -/
theorem firstNames_eq (seen : List String) (steps : List (String × Nat)) :
    firstNames seen steps = ((namesOf steps).filter (!seen.contains ·)).eraseDups := by
  induction steps generalizing seen with
  | nil => rfl
  | cons step steps ih =>
    obtain ⟨n, t⟩ := step
    have hnames : namesOf ((n, t) :: steps) = n :: namesOf steps := rfl
    rw [firstNames, hnames, List.filter_cons]
    by_cases hn : seen.contains n
    · rw [if_pos hn, ih, if_neg (by simpa using hn)]
    · have hfilter : ((namesOf steps).filter (!seen.contains ·)).filter (!· == n) =
          (namesOf steps).filter (!(seen ++ [n]).contains ·) := by
        rw [List.filter_filter]
        refine List.filter_congr fun name _ => ?_
        rw [List.contains_append, Bool.not_or, Bool.and_comm]
        by_cases hname : name = n <;> simp [hname]
      rw [if_neg hn, ih, if_pos (by simpa using hn), List.eraseDups_cons, hfilter]

/-- The summary is that of the plain timesheet. -/
theorem Kept.summary?_eq (h : sheet.Kept) : sheet.summary? = sheet.toTimesheet.summary? := by
  have hrow : sheet.row = fun name => ⟨name, (sheet.timesOf name).length,
      Sum.ofList (sheet.timesOf name)⟩ := by
    funext name
    rw [row, h.getD_time, Timesheet.timesOf, List.length_map, Sum.ofList_eq_foldr]
    rfl
  have hnames : firstNames [] sheet.entries = sheet.names := by
    rw [firstNames_eq, Timesheet.names]
    simp [namesOf]
  have hrows : (firstNames [] sheet.entries).map sheet.row = sheet.rows := by
    rw [hrow, hnames, Timesheet.rows]
  rw [summary?, overview?, Timesheet.summary?, hrows]
  cases sheet.total? <;> rfl

/-- Phases that come up again after others, one of them first with no time at all. -/
def mixedSteps : List (String × Nat) :=
  [("level_1", 3), ("build_pyramid", 0), ("level_1", 4), ("level_2", 1), ("build_pyramid", 2)]

end IndexedTimesheet

end Retouch
