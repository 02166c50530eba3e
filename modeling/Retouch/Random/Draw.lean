import Retouch.Number.Word

/-!
# Retouch — Random — Draw

Draws from a source of random words.  Whatever draws at random here is written for any source
(`WordSource`), so it can be reasoned about for every stream of words.

A number below `n` is drawn by scaling: the word, read as a fraction of its range, is multiplied
by `n` and the whole part is taken.  When the remaining fraction is so large that more bits could
carry over, one more word is drawn for them.  Numbers below 2³² take 32-bit draws; signed
distances take 64-bit draws, made of two words with the low half first.

What is drawn stays in its range, whatever the source yields (`Draw.below_lt`, `Draw.within_mem`),
and there is nothing in the range that no words lead to (`Draw.exists_within_eq`).
-/

namespace Retouch

/-- A source of random 32-bit words. -/
class WordSource (σ : Type) where
  /-- The next word, and the source after it. -/
  next : σ → UInt32 × σ

namespace Draw

variable {σ : Type} [WordSource σ]

/-- One 32-bit draw. -/
def word32 (s : σ) : Nat × σ :=
  let (w, s) := WordSource.next s
  (w.toNat, s)

/-- One 64-bit draw: two words, the low half first. -/
def word64 (s : σ) : Nat × σ :=
  let (low, s) := WordSource.next s
  let (high, s) := WordSource.next s
  (low.toNat + Word.span32 * high.toNat, s)

/-- A number below `n`, scaled from draws with `span` values each. -/
def scaled (span : Nat) (draw : σ → Nat × σ) (n : Nat) (s : σ) : Nat × σ :=
  let (w, s) := draw s
  let whole := w * n / span
  let rest := w * n % span
  if rest + n ≤ span then
    (whole, s)
  else
    let (w, s) := draw s
    (whole + (rest + w * n / span) / span, s)

/-- A number below `n`. -/
def below (n : Nat) (s : σ) : Nat × σ :=
  if n < Word.span32 then scaled Word.span32 word32 n s else scaled Word.span64 word64 n s

/-- A whole number from `-reach` to `reach`. -/
def within (reach : Nat) (s : σ) : Int × σ :=
  let (k, s) := scaled Word.span64 word64 (2 * reach + 1) s
  ((k : Int) - reach, s)

/-! ### The range of a draw -/

/-- A scaled draw of a value below its span stays below `n`. -/
theorem whole_lt {span w n : Nat} (hw : w < span) (hn : 0 < n) : w * n / span < n :=
  Nat.div_lt_of_lt_mul ((Nat.mul_lt_mul_right hn).mpr hw)

/-- The carry of a second draw stays below `n` too. -/
theorem carried_lt {span v w n : Nat} (hv : v < span) (hw : w < span) (hn : 0 < n) :
    w * n / span + (w * n % span + v * n / span) / span < n := by
  have hspan : 0 < span := Nat.zero_lt_of_lt hw
  have hsplit := Nat.div_add_mod (w * n) span
  have hv' : v * n / span < n := whole_lt hv hn
  have hmul : (w + 1) * n ≤ span * n := Nat.mul_le_mul_right n hw
  have hsum : span * (w * n / span) + (w * n % span + v * n / span) < span * n := by
    rw [Nat.succ_mul] at hmul; omega
  calc
    w * n / span + (w * n % span + v * n / span) / span
        = (span * (w * n / span) + (w * n % span + v * n / span)) / span := by
          rw [Nat.mul_add_div hspan]
    _ < n := Nat.div_lt_of_lt_mul hsum

theorem word32_lt (s : σ) : (word32 s).1 < Word.span32 :=
  (WordSource.next s).1.toNat_lt

theorem word64_lt (s : σ) : (word64 s).1 < Word.span64 := by
  have hlow := (WordSource.next s).1.toNat_lt
  have hhigh := (WordSource.next (WordSource.next s).2).1.toNat_lt
  simp only [word64, Word.span32, Word.span64]
  omega

omit [WordSource σ] in
theorem scaled_lt {span n : Nat} {draw : σ → Nat × σ} (hdraw : ∀ s, (draw s).1 < span)
    (hn : 0 < n) (s : σ) : (scaled span draw n s).1 < n := by
  simp only [scaled]
  split
  · exact whole_lt (hdraw s) hn
  · exact carried_lt (hdraw _) (hdraw s) hn

/-- A number drawn below `n` is below `n`, whatever the source yields. -/
theorem below_lt {n : Nat} (hn : 0 < n) (s : σ) : (below n s).1 < n := by
  simp only [below]
  split
  · exact scaled_lt word32_lt hn s
  · exact scaled_lt word64_lt hn s

/-- A signed draw stays within its reach. -/
theorem within_mem (reach : Nat) (s : σ) :
    -(reach : Int) ≤ (within reach s).1 ∧ (within reach s).1 ≤ reach := by
  have h := scaled_lt (n := 2 * reach + 1) word64_lt (by omega) s
  simp only [within]
  omega

/-! ### What can be drawn -/

/-- The source yields the words and is `after` then. -/
def Yields (s : σ) : List UInt32 → σ → Prop
  | [], after => after = s
  | w :: words, after => (WordSource.next s).1 = w ∧ Yields (WordSource.next s).2 words after

theorem yields_append {s after : σ} {words words' : List UInt32} :
    Yields s (words ++ words') after ↔ ∃ s', Yields s words s' ∧ Yields s' words' after := by
  induction words generalizing s with
  | nil => simp [Yields]
  | cons w words ih => simp [Yields, ih, and_assoc]

/-- The two words of a 64-bit draw. -/
def wordsOf (w : Nat) : List UInt32 :=
  [UInt32.ofNat (w % Word.span32), UInt32.ofNat (w / Word.span32)]

theorem word64_eq {s after : σ} {w : Nat} (hw : w < Word.span64)
    (h : Yields s (wordsOf w) after) : word64 s = (w, after) := by
  obtain ⟨hlow, hhigh, rfl⟩ := h
  have hlow' : w % Word.span32 < 2 ^ 32 := Nat.mod_lt _ (by decide)
  have hhigh' : w / Word.span32 < 2 ^ 32 := Nat.div_lt_of_lt_mul hw
  simp only [word64, hlow, hhigh, UInt32.toNat_ofNat_of_lt' hlow',
    UInt32.toNat_ofNat_of_lt' hhigh', Nat.mod_add_div]

/-- The word from which scaling starts to give `k`. -/
theorem exists_scales {span n k : Nat} (hn : n ≤ span) (hk : k < n) :
    ∃ w < span, w * n / span = k ∧ w * n % span < n := by
  have hpos : 0 < n := Nat.zero_lt_of_lt hk
  -- The first multiple of `n` that is not below `k * span`.
  obtain ⟨w, hlo, hhi⟩ : ∃ w, k * span ≤ w * n ∧ w * n < k * span + n := by
    have hdiv := Nat.div_add_mod' (k * span + (n - 1)) n
    have hmod := Nat.mod_lt (k * span + (n - 1)) hpos
    exact ⟨(k * span + (n - 1)) / n, by omega, by omega⟩
  have hsplit : w * n = span * k + (w * n - k * span) := by
    rw [Nat.mul_comm span]
    omega
  have hrest : w * n - k * span < span := by omega
  have hw : w < span := by
    refine Nat.lt_of_mul_lt_mul_right (a := n) ?_
    have hle : (k + 1) * span ≤ n * span := Nat.mul_le_mul_right span hk
    rw [Nat.succ_mul] at hle
    rw [Nat.mul_comm span]
    omega
  refine ⟨w, hw, ?_, ?_⟩
  · rw [hsplit, Nat.mul_add_div (by omega), Nat.div_eq_of_lt hrest, Nat.add_zero]
  · rw [hsplit, Nat.mul_add_mod, Nat.mod_eq_of_lt hrest]
    omega

omit [WordSource σ] in
/-- Every number below `n` can be drawn, if a draw has so many values. -/
theorem exists_scaled_eq {n k : Nat} (hn : n ≤ Word.span64) (hk : k < n) :
    ∃ words, ∀ {σ : Type} [WordSource σ] {s after : σ}, Yields s words after →
      scaled Word.span64 word64 n s = (k, after) := by
  obtain ⟨w, hw, hwhole, hrest⟩ := exists_scales hn hk
  by_cases hone : w * n % Word.span64 + n ≤ Word.span64
  · refine ⟨wordsOf w, fun h => ?_⟩
    rw [scaled, word64_eq hw h]
    simp only [hone, if_true, hwhole]
  · -- The bits of the second draw do not carry over.
    refine ⟨wordsOf w ++ wordsOf 0, fun h => ?_⟩
    obtain ⟨_, hfirst, hsecond⟩ := yields_append.mp h
    have hcarry : w * n % Word.span64 / Word.span64 = 0 :=
      Nat.div_eq_of_lt (Nat.lt_of_lt_of_le hrest hn)
    rw [scaled, word64_eq hw hfirst]
    simp only [hone, if_false, hwhole, word64_eq (by decide) hsecond, Nat.zero_mul, Nat.zero_div,
      Nat.add_zero, hcarry]

omit [WordSource σ] in
/-- Every whole number within the reach can be drawn, if a draw has so many values. -/
theorem exists_within_eq {reach : Nat} (hreach : 2 * reach + 1 ≤ Word.span64) {d : Int}
    (hlow : -(reach : Int) ≤ d) (hhigh : d ≤ reach) :
    ∃ words, ∀ {σ : Type} [WordSource σ] {s after : σ}, Yields s words after →
      within reach s = (d, after) := by
  obtain ⟨words, hwords⟩ := exists_scaled_eq hreach (k := (d + reach).toNat) (by omega)
  refine ⟨words, fun h => ?_⟩
  rw [within, hwords h]
  exact Prod.ext (by simp only; omega) rfl

end Draw

end Retouch
