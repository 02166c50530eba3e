/-!
# Retouch — Number — Sum

Sums of natural numbers: over a list, over the values of a function below a bound, and over
values that differ from a constant only inside a range.  `within_eq_below` says that the last is
the plain sum, so that a range which is small beside the bound is cheap to add up.
-/

namespace Retouch.Sum

/-- The sum of a list. -/
def ofList : List Nat → Nat
  | [] => 0
  | n :: rest => n + ofList rest

theorem ofList_eq_foldr (l : List Nat) : ofList l = l.foldr (· + ·) 0 := by
  induction l with
  | nil => rfl
  | cons n l ih => rw [ofList, ih, List.foldr_cons]

/-- The sum of `f 0`, …, `f (n - 1)`. -/
@[inline]
def below (n : Nat) (f : Nat → Nat) : Nat :=
  n.fold (fun i _ sum => sum + f i) 0

/-- The sum of `n` values that are `f i` for `lo ≤ i < hi` and `k` elsewhere. -/
@[inline]
def within (n lo hi k : Nat) (f : Nat → Nat) : Nat :=
  (n - (hi - lo)) * k + below (hi - lo) fun i => f (lo + i)

@[simp]
theorem below_zero (f : Nat → Nat) : below 0 f = 0 := rfl

theorem below_succ (n : Nat) (f : Nat → Nat) : below (n + 1) f = below n f + f n := rfl

/-- A sum is taken in two parts. -/
theorem below_add (m n : Nat) (f : Nat → Nat) :
    below (m + n) f = below m f + below n fun i => f (m + i) := by
  induction n with
  | zero => rfl
  | succ n ih => rw [← Nat.add_assoc, below_succ, below_succ, ih, Nat.add_assoc]

/-- Sums of equal terms are equal. -/
theorem below_congr {n : Nat} {f g : Nat → Nat} (h : ∀ i < n, f i = g i) :
    below n f = below n g := by
  induction n with
  | zero => rfl
  | succ n ih => rw [below_succ, below_succ, ih fun i hi => h i (by omega), h n (by omega)]

/-- A sum grows with its terms. -/
theorem below_le_below {n : Nat} {f g : Nat → Nat} (h : ∀ i < n, f i ≤ g i) :
    below n f ≤ below n g := by
  induction n with
  | zero => exact Nat.le_refl _
  | succ n ih => exact Nat.add_le_add (ih fun i hi => h i (by omega)) (h n (by omega))

theorem below_const (n k : Nat) : below n (fun _ => k) = n * k := by
  induction n with
  | zero => simp
  | succ n ih => rw [below_succ, ih, Nat.succ_mul]

/-- A sum of terms that are constant outside a range. -/
theorem within_eq_below {n lo hi k : Nat} {f : Nat → Nat} (hn : hi ≤ n)
    (h : ∀ i < n, ¬ (lo ≤ i ∧ i < hi) → f i = k) : within n lo hi k f = below n f := by
  rcases Nat.le_total hi lo with hlo | hlo
  · have hk : below n f = n * k := by
      rw [← below_const n k]
      exact below_congr fun i hi' => h i hi' (by omega)
    rw [within, Nat.sub_eq_zero_of_le hlo, below_zero, hk, Nat.sub_zero, Nat.add_zero]
  · have hfirst : below lo f = lo * k := by
      rw [← below_const lo k]
      exact below_congr fun i hi' => h i (by omega) (by omega)
    have hlast : (below (n - hi) fun i => f (hi + i)) = (n - hi) * k := by
      rw [← below_const (n - hi) k]
      exact below_congr fun i hi' => h (hi + i) (by omega) (by omega)
    have hsplit : below n f = below lo f + (below (hi - lo) fun i => f (lo + i)) +
        below (n - hi) fun i => f (hi + i) := by
      have hlo' : lo + (hi - lo) = hi := by omega
      have hhi : hi + (n - hi) = n := by omega
      rw [← below_add lo, hlo', ← below_add hi, hhi]
    have hcount : n - (hi - lo) = lo + (n - hi) := by omega
    rw [within, hsplit, hfirst, hlast, hcount, Nat.add_mul]
    omega

end Retouch.Sum
