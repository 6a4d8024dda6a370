import Manifest.Decimal.Shortest
import Manifest.Proofs.Decimal.Rounding

/-! The search for the fewest digits goes down the grids of the powers of ten.  Where the grid is
finer than half the way to the next decimal there is a point of it in the rounding interval, and the
search gets that far. -/

namespace Manifest.Decimal

def gridFactor (p : ℤ) : ℕ := if p < 0 then 10 ^ (-p).toNat else 1

def gridUnit (p : ℤ) : ℕ := if p < 0 then 1 else 10 ^ p.toNat

theorem gridFactor_pos (p : ℤ) : 0 < gridFactor p := by
  rw [gridFactor]
  split <;> positivity

theorem gridUnit_pos (p : ℤ) : 0 < gridUnit p := by
  rw [gridUnit]
  split <;> positivity

theorem gridUnit_eq (p : ℤ) : (gridUnit p : ℚ) = 10 ^ p * gridFactor p := by
  rw [gridUnit, gridFactor]
  split
  · obtain ⟨k, rfl⟩ : ∃ k : ℕ, p = -k := ⟨(-p).toNat, by omega⟩
    simp
  · obtain ⟨k, rfl⟩ : ∃ k : ℕ, p = k := ⟨p.toNat, by omega⟩
    simp

variable {i : Interval} {tie : Tie} {p p' : ℤ} {n : ℕ}

def Interval.below (i : Interval) (p : ℤ) : ℕ :=
  i.value * gridFactor p / (i.denominator * gridUnit p)

def Interval.holdsAt (i : Interval) (p : ℤ) (n : ℕ) : Prop :=
  i.holds (gridFactor p) (i.denominator * gridUnit p) n = true

/-- A grid has a point in the interval unless both neighbours of the value are outside. -/
theorem point?_cases (i : Interval) (tie : Tie) (p : ℤ) :
    i.point? tie p = none ∧ ¬ i.holdsAt p (i.below p) ∨
      ∃ n, i.point? tie p = some n ∧ i.holdsAt p n := by
  have hfactor : (if p < 0 then Nat.pow 10 (-p).toNat else 1) = gridFactor p := rfl
  have hunit : (if p < 0 then 1 else Nat.pow 10 p.toNat) = gridUnit p := rfl
  unfold Interval.point?
  simp only [Interval.below, Interval.holdsAt, hfactor, hunit]
  generalize gridFactor p = factor
  generalize i.denominator * gridUnit p = unit
  generalize i.value * factor / unit = n
  cases hbelow : i.holds factor unit n with
  | false =>
    cases habove : i.holds factor unit (n + 1) with
    | false => exact .inl ⟨rfl, nofun⟩
    | true => exact .inr ⟨n + 1, rfl, habove⟩
  | true =>
    cases habove : i.holds factor unit (n + 1) with
    | false => exact .inr ⟨n, rfl, hbelow⟩
    | true =>
      dsimp only
      split
      · exact .inr ⟨n, rfl, hbelow⟩
      · split
        · exact .inr ⟨n + 1, rfl, habove⟩
        · cases tie with
          | up => exact .inr ⟨n + 1, rfl, habove⟩
          | even =>
            obtain heven | hodd := Nat.mod_two_eq_zero_or_one n
            · exact .inr ⟨n, by simp only [heven, Nat.add_zero], hbelow⟩
            · exact .inr ⟨n + 1, by simp only [hodd], habove⟩

theorem holdsAt_of_point? (h : i.point? tie p = some n) : i.holdsAt p n := by
  obtain ⟨hnone, -⟩ | ⟨k, hk, hholds⟩ := point?_cases i tie p
  · cases hnone.symm.trans h
  · exact Option.some.inj (hk.symm.trans h) ▸ hholds

theorem point?_ne_none (hden : 0 < i.denominator) (hhigh : i.value < i.high)
    (hroom : i.low * gridFactor p + i.denominator * gridUnit p ≤ i.value * gridFactor p) :
    i.point? tie p ≠ none := by
  have hbelow : i.holdsAt p (i.below p) := by
    have hhigh' := Nat.mul_lt_mul_of_pos_right hhigh (gridFactor_pos p)
    have hdiv := Nat.div_add_mod' (i.value * gridFactor p) (i.denominator * gridUnit p)
    have hmod := Nat.mod_lt (i.value * gridFactor p) (Nat.mul_pos hden (gridUnit_pos p))
    rw [Interval.holdsAt, Interval.holds, Interval.below]
    split <;> simp only [Bool.and_eq_true, decide_eq_true_eq] <;> omega
  obtain ⟨-, hnot⟩ | ⟨n, hn, -⟩ := point?_cases i tie p
  · exact absurd hbelow hnot
  · exact hn ▸ nofun

theorem point?_search {fuel : ℕ} (hle : p' ≤ p) (hlt : p < p' + fuel)
    (hpoint : i.point? tie p' ≠ none) :
    i.point? tie (i.search tie fuel p).exponent = some (i.search tie fuel p).digits := by
  induction fuel generalizing p with
  | zero => omega
  | succ fuel ih =>
    rw [Interval.search]
    cases h : i.point? tie p with
    | some n => exact h
    | none =>
      have hne : p ≠ p' := fun heq => hpoint (heq ▸ h)
      exact ih (by omega) (by omega)

variable {d : Decimal} {m : ℕ} {q : ℤ}

/-- A quarter of the gap above a decimal, over the denominator of its interval. -/
def quarter (q : ℤ) : ℕ := if 2 ≤ q then 2 ^ (q - 2).toNat else 1

def quarterDenominator (q : ℤ) : ℕ := if 2 ≤ q then 1 else 2 ^ (2 - q).toNat

theorem quarter_eq (q : ℤ) : (quarter q : ℚ) = 2 ^ q / 4 * quarterDenominator q := by
  rw [quarter, quarterDenominator]
  split
  · obtain ⟨k, rfl⟩ : ∃ k : ℕ, q = k + 2 := ⟨(q - 2).toNat, by omega⟩
    rw [zpow_add₀ (by norm_num)]
    simp
    ring
  · obtain ⟨k, rfl⟩ : ∃ k : ℕ, q = 2 - k := ⟨(2 - q).toNat, by omega⟩
    rw [zpow_sub₀ (by norm_num)]
    simp
    field_simp
    norm_num

theorem quarterDenominator_pos (q : ℤ) : 0 < quarterDenominator q := by
  rw [quarterDenominator]
  split <;> positivity

theorem interval_eq (d : Decimal) : d.interval =
    { low := (if d.significand.1 = 2 ^ 52 ∧ -1074 < d.significand.2 then 4 * d.significand.1 - 1
        else 4 * d.significand.1 - 2) * quarter d.significand.2
      value := 4 * d.significand.1 * quarter d.significand.2
      high := (4 * d.significand.1 + 2) * quarter d.significand.2
      denominator := quarterDenominator d.significand.2
      closed := d.significand.1 % 2 = 0 } := rfl

theorem quarter_pos (q : ℤ) : 0 < quarter q := by
  rw [quarter]
  split <;> positivity

theorem cast_gridPoint (n : ℕ) (p q : ℤ) :
    ((n * (quarterDenominator q * gridUnit p) : ℕ) : ℚ) =
      4 * (n * 10 ^ p / 2 ^ q) * (quarter q * gridFactor p : ℕ) := by
  have hq := (zpow_two_pos q).ne'
  push_cast
  rw [quarter_eq, gridUnit_eq]
  field_simp

theorem le_gridPoint_iff (a n : ℕ) (p q : ℤ) :
    a * quarter q * gridFactor p ≤ n * (quarterDenominator q * gridUnit p) ↔
      (a : ℚ) ≤ 4 * (n * 10 ^ p / 2 ^ q) := by
  have hpos : (0 : ℚ) < (quarter q * gridFactor p : ℕ) :=
    Nat.cast_pos.2 (Nat.mul_pos (quarter_pos q) (gridFactor_pos p))
  rw [← @Nat.cast_le ℚ, cast_gridPoint, Nat.mul_assoc a, Nat.cast_mul a,
    mul_le_mul_iff_of_pos_right hpos]

theorem gridPoint_le_iff (a n : ℕ) (p q : ℤ) :
    n * (quarterDenominator q * gridUnit p) ≤ a * quarter q * gridFactor p ↔
      4 * (n * 10 ^ p / 2 ^ q) ≤ (a : ℚ) := by
  have hpos : (0 : ℚ) < (quarter q * gridFactor p : ℕ) :=
    Nat.cast_pos.2 (Nat.mul_pos (quarter_pos q) (gridFactor_pos p))
  rw [← @Nat.cast_le ℚ, cast_gridPoint, Nat.mul_assoc a, Nat.cast_mul a,
    mul_le_mul_iff_of_pos_right hpos]

theorem within_of_holdsAt (hm : 0 < d.significand.1) (h : d.interval.holdsAt p n) :
    Within (n * 10 ^ p) d.significand.1 d.significand.2 := by
  rw [Interval.holdsAt, interval_eq, Interval.holds] at h
  generalize d.significand.1 = m at *
  generalize d.significand.2 = q at *
  dsimp only at h
  have hlow : ((4 * m - 1 : ℕ) : ℚ) = 4 * m - 1 := by
    rw [Nat.cast_sub (by omega)]
    norm_num
  have hlow' : ((4 * m - 2 : ℕ) : ℚ) = 4 * m - 2 := by
    rw [Nat.cast_sub (by omega)]
    norm_num
  by_cases heven : m % 2 = 0
  · rw [if_pos (decide_eq_true heven), Bool.and_eq_true, decide_eq_true_eq, decide_eq_true_eq,
      le_gridPoint_iff, gridPoint_le_iff] at h
    obtain ⟨hlower, hupper⟩ := h
    push_cast at hupper
    refine ⟨?_, by linarith, fun hodd => by omega⟩
    split
    · rw [if_pos ‹_›, hlow] at hlower
      linarith
    · rw [if_neg ‹_›, hlow'] at hlower
      linarith
  · have hlong : ¬ (m = 2 ^ 52 ∧ -1074 < q) := fun hm => by omega
    rw [if_neg fun hclosed => heven (of_decide_eq_true hclosed), if_neg hlong, Bool.and_eq_true,
      decide_eq_true_eq, decide_eq_true_eq, ← not_le, ← not_le, gridPoint_le_iff,
      le_gridPoint_iff, hlow', not_le, not_le] at h
    obtain ⟨hlower, hupper⟩ := h
    push_cast at hupper
    refine ⟨?_, by linarith, fun _ => ⟨by linarith, by linarith⟩⟩
    rw [if_neg hlong]
    linarith

theorem ten_pow_le_two_pow (k : ℕ) : 10 ^ (3 * (k / 10)) ≤ 2 ^ k :=
  calc 10 ^ (3 * (k / 10)) = (10 ^ 3) ^ (k / 10) := pow_mul _ _ _
    _ ≤ (2 ^ 10) ^ (k / 10) := Nat.pow_le_pow_left (by norm_num) _
    _ = 2 ^ (10 * (k / 10)) := (pow_mul _ _ _).symm
    _ ≤ 2 ^ k := Nat.pow_le_pow_right (by norm_num) (Nat.mul_div_le k 10)

theorem two_pow_le_ten_pow (k : ℕ) : 2 ^ k ≤ 10 ^ (4 * (k / 13 + 1)) :=
  calc 2 ^ k ≤ 2 ^ (13 * (k / 13 + 1)) := Nat.pow_le_pow_right (by norm_num) (by omega)
    _ = (2 ^ 13) ^ (k / 13 + 1) := pow_mul _ _ _
    _ ≤ (10 ^ 4) ^ (k / 13 + 1) := Nat.pow_le_pow_left (by norm_num) _
    _ = 10 ^ (4 * (k / 13 + 1)) := (pow_mul _ _ _).symm

def fineGrid (q : ℤ) : ℤ := if 2 ≤ q then 3 * ((q - 2) / 10) else -(4 * ((2 - q) / 13 + 1))

theorem gridUnit_fineGrid_le (q : ℤ) :
    quarterDenominator q * gridUnit (fineGrid q) ≤ quarter q * gridFactor (fineGrid q) := by
  by_cases hq : 2 ≤ q
  · have hgrid : fineGrid q = (3 * ((q - 2).toNat / 10) : ℕ) := by
      rw [fineGrid, if_pos hq]
      omega
    rw [hgrid, quarterDenominator, quarter, gridUnit, gridFactor, if_pos hq, if_pos hq,
      if_neg (by omega), if_neg (by omega), Int.toNat_natCast, Nat.one_mul, Nat.mul_one]
    exact ten_pow_le_two_pow _
  · have hgrid : fineGrid q = -(4 * ((2 - q).toNat / 13 + 1) : ℕ) := by
      rw [fineGrid, if_neg hq]
      omega
    rw [hgrid, quarterDenominator, quarter, gridUnit, gridFactor, if_neg hq, if_neg hq,
      if_pos (by omega), if_pos (by omega), neg_neg, Int.toNat_natCast, Nat.one_mul, Nat.mul_one]
    exact two_pow_le_ten_pow _

theorem point?_fineGrid_ne_none (tie : Tie) (hm : 0 < d.significand.1) :
    d.interval.point? tie (fineGrid d.significand.2) ≠ none := by
  have hfine := gridUnit_fineGrid_le d.significand.2
  have hquarter := quarter_pos d.significand.2
  rw [interval_eq]
  generalize d.significand.1 = m at *
  generalize d.significand.2 = q at *
  refine point?_ne_none (quarterDenominator_pos q) ?_ ?_
  · exact Nat.mul_lt_mul_of_pos_right (by omega) hquarter
  · dsimp only
    have hlow : (if m = 2 ^ 52 ∧ -1074 < q then 4 * m - 1 else 4 * m - 2) + 1 ≤ 4 * m := by
      split <;> omega
    calc _ ≤ (if m = 2 ^ 52 ∧ -1074 < q then 4 * m - 1 else 4 * m - 2) * quarter q *
          gridFactor (fineGrid q) + quarter q * gridFactor (fineGrid q) :=
          Nat.add_le_add_left hfine _
      _ = ((if m = 2 ^ 52 ∧ -1074 < q then 4 * m - 1 else 4 * m - 2) + 1) * quarter q *
          gridFactor (fineGrid q) := by ring
      _ ≤ 4 * m * quarter q * gridFactor (fineGrid q) :=
          Nat.mul_le_mul_right _ (Nat.mul_le_mul_right _ hlow)

theorem log2_interval (hm : 0 < m) (hlt : m < 2 ^ 53) (q : ℤ) :
    q ≤ ((4 * m * quarter q).log2 : ℤ) - (quarterDenominator q).log2 ∧
      ((4 * m * quarter q).log2 : ℤ) - (quarterDenominator q).log2 ≤ q + 52 := by
  have hbounds : ∀ k : ℕ, k + 2 ≤ (4 * m * 2 ^ k).log2 ∧ (4 * m * 2 ^ k).log2 < k + 55 := by
    intro k
    have hpos : 4 * m * 2 ^ k ≠ 0 := by positivity
    rw [Nat.le_log2 hpos, Nat.log2_lt hpos, Nat.pow_add, Nat.pow_add, Nat.mul_comm (2 ^ k),
      Nat.mul_comm (2 ^ k)]
    exact ⟨Nat.mul_le_mul_right _ (by omega),
      Nat.mul_lt_mul_of_pos_right (by omega) (by positivity)⟩
  rw [quarter, quarterDenominator]
  split
  · have hlog := hbounds (q - 2).toNat
    have hone : Nat.log2 1 = 0 := @Nat.log2_two_pow 0
    omega
  · have hlog := hbounds 0
    rw [Nat.pow_zero] at hlog
    rw [Nat.log2_two_pow]
    omega

theorem within_shortest (tie : Tie) (hfinite : d.isFinite = true) (hm : 0 < d.significand.1) :
    Within ((d.shortest tie).digits * 10 ^ (d.shortest tie).exponent)
      d.significand.1 d.significand.2 := by
  obtain ⟨normal, hmagnitude⟩ := normal_significand hfinite
  have hzero : ¬ d.isZero = true := fun hzero => by
    have := of_decide_eq_true hzero
    omega
  obtain ⟨hlog, hlog'⟩ := log2_interval hm normal.lt d.significand.2
  have hlow := normal.low
  have hhigh := normal.high
  have hvalue : d.interval.value = 4 * d.significand.1 * quarter d.significand.2 := rfl
  have hden : d.interval.denominator = quarterDenominator d.significand.2 := rfl
  rw [shortest, if_neg hzero]
  refine within_of_holdsAt hm (holdsAt_of_point? (point?_search ?_ ?_
    (point?_fineGrid_ne_none tie hm)))
  · rw [hvalue, hden, fineGrid]
    omega
  · rw [hvalue, hden, fineGrid]
    omega

end Manifest.Decimal
