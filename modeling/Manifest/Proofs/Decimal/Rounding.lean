import Manifest.Decimal.Basic
import Mathlib.Algebra.Order.Floor.Semifield
import Mathlib.Algebra.Order.Field.Power
import Mathlib.Data.Int.Log
import Mathlib.Data.Rat.Floor
import Mathlib.Tactic.FieldSimp
import Mathlib.Tactic.Linarith
import Mathlib.Tactic.NormNum
import Mathlib.Tactic.Positivity
import Mathlib.Tactic.Ring

/-! A quotient is rounded to the decimal whose rounding interval it lies in.  The significand is
found by rounding at an exponent where the quotient has 53 bits, or at the lowest exponent. -/

namespace Manifest.Decimal

def RoundsTo (x : ℚ) (n : ℕ) : Prop := |x - n| < 1 / 2 ∨ |x - n| = 1 / 2 ∧ n % 2 = 0

def scaled (num den : ℕ) (q : ℤ) : ℕ × ℕ :=
  (if 0 ≤ q then num else num * 2 ^ (-q).toNat, if 0 ≤ q then den * 2 ^ q.toNat else den)

variable {num den n m : ℕ} {q e : ℤ} {x : ℚ}

theorem scaled_div (num den : ℕ) (q : ℤ) :
    ((scaled num den q).1 : ℚ) / (scaled num den q).2 = num / den / 2 ^ q := by
  rw [scaled]
  split
  · rename_i hq
    lift q to ℕ using hq
    simp [div_div]
  · obtain ⟨k, rfl⟩ : ∃ k : ℕ, q = -k := ⟨(-q).toNat, by omega⟩
    simp [div_eq_mul_inv, mul_right_comm]

theorem scaled_pos (h : 0 < den) (q : ℤ) : 0 < (scaled num den q).2 := by
  rw [scaled]
  split
  · exact Nat.mul_pos h (Nat.two_pow_pos _)
  · exact h

theorem roundsTo_div_iff {a b : ℕ} (hb : 0 < b) : RoundsTo ((a : ℚ) / b) n ↔
    2 * (n * b) < 2 * a + b ∧ 2 * a < 2 * (n * b) + b ∨
      (2 * (n * b) = 2 * a + b ∨ 2 * a = 2 * (n * b) + b) ∧ n % 2 = 0 := by
  have hb' : (0 : ℚ) < b := by exact_mod_cast hb
  have hsub : (a : ℚ) / b - n = (a - n * b) / b := by field_simp
  rw [RoundsTo, hsub, abs_lt, abs_eq (by norm_num), lt_div_iff₀ hb', div_lt_iff₀ hb',
    div_eq_iff hb'.ne', div_eq_iff hb'.ne']
  have hlow : -(1 / 2) * (b : ℚ) < a - n * b ↔ 2 * (n * b) < 2 * a + b := by
    rw [← @Nat.cast_lt ℚ]
    push_cast
    constructor <;> intro h <;> linarith
  have hhigh : (a : ℚ) - n * b < 1 / 2 * b ↔ 2 * a < 2 * (n * b) + b := by
    rw [← @Nat.cast_lt ℚ]
    push_cast
    constructor <;> intro h <;> linarith
  have hlow' : (a : ℚ) - n * b = -(1 / 2) * b ↔ 2 * (n * b) = 2 * a + b := by
    rw [← @Nat.cast_inj ℚ]
    push_cast
    constructor <;> intro h <;> linarith
  have hhigh' : (a : ℚ) - n * b = 1 / 2 * b ↔ 2 * a = 2 * (n * b) + b := by
    rw [← @Nat.cast_inj ℚ]
    push_cast
    constructor <;> intro h <;> linarith
  rw [hlow, hhigh, hlow', hhigh', or_comm (a := 2 * a = _)]

def nearest (a b : ℕ) : ℕ :=
  if 2 * (a % b) < b then a / b else if b < 2 * (a % b) then a / b + 1 else a / b + a / b % 2

theorem roundAt_eq_nearest (num den : ℕ) (q : ℤ) :
    roundAt num den q = nearest (scaled num den q).1 (scaled num den q).2 := rfl

theorem nearest_eq {a b : ℕ} (hb : 0 < b) (h : RoundsTo ((a : ℚ) / b) n) : nearest a b = n := by
  rw [roundsTo_div_iff hb] at h
  have hdiv := Nat.div_add_mod' a b
  have hmod := Nat.mod_lt a hb
  rw [nearest]
  generalize a / b = k at *
  generalize a % b = r at *
  have hle : k ≤ n := by
    by_contra hlt
    have hmul := Nat.mul_le_mul_right b (Nat.succ_le_of_lt (Nat.lt_of_not_le hlt))
    rw [Nat.succ_mul] at hmul
    omega
  have hle' : n ≤ k + 1 := by
    by_contra hlt
    have hmul := Nat.mul_le_mul_right b (Nat.succ_le_of_lt (Nat.lt_of_not_le hlt))
    rw [Nat.succ_mul, Nat.succ_mul] at hmul
    omega
  obtain rfl | rfl : n = k ∨ n = k + 1 := by omega
  · split
    · rfl
    · split <;> omega
  · have hmul : (k + 1) * b = k * b + b := Nat.succ_mul k b
    split
    · omega
    · split <;> omega

theorem roundAt_eq (hden : 0 < den) (h : RoundsTo (num / den / 2 ^ q) n) :
    roundAt num den q = n :=
  (roundAt_eq_nearest num den q).trans
    (nearest_eq (scaled_pos hden q) ((scaled_div num den q).symm ▸ h))

def roundingExponent (x : ℚ) : ℤ := max (Int.log 2 x - 52) (-1074)

theorem zpow_two_pos (q : ℤ) : (0 : ℚ) < 2 ^ q := zpow_pos (by norm_num) q

theorem log_div (hnum : 0 < num) (hden : 0 < den) :
    (num.log2 : ℤ) - den.log2 - 1 ≤ Int.log 2 (num / den : ℚ) ∧
      Int.log 2 (num / den : ℚ) ≤ num.log2 - den.log2 := by
  have hden' : (0 : ℚ) < den := by exact_mod_cast hden
  have hx : (0 : ℚ) < num / den := by positivity
  have hnum₁ : (2 : ℚ) ^ (num.log2 : ℤ) ≤ num := by
    exact_mod_cast Nat.log2_self_le hnum.ne'
  have hnum₂ : (num : ℚ) < 2 ^ ((num.log2 : ℤ) + 1) := by
    exact_mod_cast Nat.lt_log2_self
  have hden₁ : (2 : ℚ) ^ (den.log2 : ℤ) ≤ den := by
    exact_mod_cast Nat.log2_self_le hden.ne'
  have hden₂ : (den : ℚ) < 2 ^ ((den.log2 : ℤ) + 1) := by
    exact_mod_cast Nat.lt_log2_self
  constructor
  · refine (Int.zpow_le_iff_le_log (by norm_num) hx).1 ?_
    push_cast
    rw [le_div_iff₀ hden']
    calc (2 : ℚ) ^ ((num.log2 : ℤ) - den.log2 - 1) * den
        ≤ 2 ^ ((num.log2 : ℤ) - den.log2 - 1) * 2 ^ ((den.log2 : ℤ) + 1) :=
          mul_le_mul_of_nonneg_left hden₂.le (zpow_two_pos _).le
      _ = 2 ^ (num.log2 : ℤ) := by rw [← zpow_add₀ (by norm_num)]; congr 1; ring
      _ ≤ num := hnum₁
  · refine Int.lt_add_one_iff.1 ((Int.lt_zpow_iff_log_lt (by norm_num) hx).1 ?_)
    push_cast
    rw [div_lt_iff₀ hden']
    calc (num : ℚ) < 2 ^ ((num.log2 : ℤ) + 1) := hnum₂
      _ = 2 ^ ((num.log2 : ℤ) - den.log2 + 1) * 2 ^ (den.log2 : ℤ) := by
          rw [← zpow_add₀ (by norm_num)]; congr 1; ring
      _ ≤ 2 ^ ((num.log2 : ℤ) - den.log2 + 1) * den :=
          mul_le_mul_of_nonneg_left hden₁ (zpow_two_pos _).le

theorem two_pow_le_div_iff (hx : 0 < x) (q : ℤ) (k : ℕ) :
    2 ^ k ≤ x / 2 ^ q ↔ q + k ≤ Int.log 2 x := by
  rw [le_div_iff₀ (zpow_two_pos q), ← Int.zpow_le_iff_le_log (by norm_num) hx, Nat.cast_ofNat,
    add_comm q, zpow_add₀ (by norm_num), zpow_natCast]

theorem two_pow_le_whole_iff (hnum : 0 < num) (hden : 0 < den) (q : ℤ) :
    2 ^ 53 ≤ (scaled num den q).1 / (scaled num den q).2 ↔
      q + 53 ≤ Int.log 2 (num / den : ℚ) := by
  have hx : (0 : ℚ) < num / den := by positivity
  rw [← Nat.floor_div_eq_div (K := ℚ), Nat.le_floor_iff (by positivity), scaled_div]
  exact_mod_cast two_pow_le_div_iff hx q 53

theorem nearestMagnitude_eq (hnum : 0 < num) (hden : 0 < den) :
    nearestMagnitude num den =
      min ((roundingExponent (num / den) + 1074).toNat * 2 ^ 52 +
        roundAt num den (roundingExponent (num / den))) infiniteMagnitude := by
  have hdivided : ∀ q : ℤ, (if 0 ≤ q then num / (den * Nat.pow 2 q.toNat)
      else num * Nat.pow 2 (-q).toNat / den) = (scaled num den q).1 / (scaled num den q).2 := by
    intro q
    rw [scaled]
    split <;> rfl
  obtain ⟨hlow, hhigh⟩ := log_div hnum hden
  rw [nearestMagnitude, if_neg (by omega)]
  dsimp only
  rw [hdivided, roundingExponent]
  generalize hq : max ((num.log2 : ℤ) - den.log2 - 53) (-1074) = q
  have hexponent : (if Nat.pow 2 53 ≤ (scaled num den q).1 / (scaled num den q).2 then q + 1
      else q) = max (Int.log 2 (num / den : ℚ) - 52) (-1074) := by
    have hwhole := two_pow_le_whole_iff hnum hden q
    split
    · have hle := hwhole.1 ‹_›
      omega
    · have hlt := mt hwhole.2 ‹_›
      omega
  rw [hexponent]
  rfl

structure Normal (m : ℕ) (q : ℤ) : Prop where
  low : -1074 ≤ q
  high : q ≤ 971
  lt : m < 2 ^ 53
  long : q = -1074 ∨ 2 ^ 52 ≤ m

/-- `x` lies in the rounding interval of `m * 2 ^ q`.  The gap below a power of two is half as wide
as the gap above it, and the ends belong to the interval of an even significand. -/
structure Within (x : ℚ) (m : ℕ) (q : ℤ) : Prop where
  lower : if m = 2 ^ 52 ∧ -1074 < q then (m - 1 / 4 : ℚ) ≤ x / 2 ^ q
    else (m - 1 / 2 : ℚ) ≤ x / 2 ^ q
  upper : x / 2 ^ q ≤ m + 1 / 2
  strict : m % 2 = 1 → (m - 1 / 2 : ℚ) < x / 2 ^ q ∧ x / 2 ^ q < m + 1 / 2

theorem Within.roundsTo (h : Within x m q) : RoundsTo (x / 2 ^ q) m := by
  have hupper := h.upper
  have hlower : (m - 1 / 2 : ℚ) ≤ x / 2 ^ q := by
    have hlower := h.lower
    split at hlower
    · linarith
    · exact hlower
  by_cases heven : m % 2 = 0
  · have hle : |x / 2 ^ q - m| ≤ 1 / 2 := abs_le.2 ⟨by linarith, by linarith⟩
    obtain hlt | heq := lt_or_eq_of_le hle
    · exact .inl hlt
    · exact .inr ⟨heq, heven⟩
  · obtain ⟨hstrict, hstrict'⟩ := h.strict (by omega)
    exact .inl (abs_lt.2 ⟨by linarith, by linarith⟩)

/-- A number in the interval is rounded at the same exponent, unless it lies below a power of two:
then it is rounded up to that power, one exponent lower. -/
theorem Within.roundingExponent_eq (h : Within x m q) (normal : Normal m q) (hx : 0 < x) :
    roundingExponent x = q ∨ roundingExponent x = q - 1 ∧ m = 2 ^ 52 ∧ x / 2 ^ q < 2 ^ 52 := by
  have hlow := normal.low
  have hupper : ¬ (2 : ℚ) ^ 53 ≤ x / 2 ^ q := by
    have hm : (m : ℚ) + 1 ≤ 2 ^ 53 := by exact_mod_cast normal.lt
    linarith [h.upper]
  rw [two_pow_le_div_iff hx] at hupper
  rw [roundingExponent]
  by_cases hlong : (2 : ℚ) ^ 52 ≤ x / 2 ^ q
  · rw [two_pow_le_div_iff hx] at hlong
    omega
  · have hlower := h.lower
    have hlog := mt (two_pow_le_div_iff hx q 52).2 hlong
    obtain hq | hm := normal.long
    · omega
    · have hm' : m = 2 ^ 52 := by
        by_contra hne
        have hlt : (2 : ℚ) ^ 52 + 1 ≤ m := by exact_mod_cast Nat.lt_of_le_of_ne hm (Ne.symm hne)
        rw [if_neg fun h => hne h.1] at hlower
        linarith
      subst hm'
      have hhalf : (2 : ℚ) ^ 51 ≤ x / 2 ^ q := by
        split at hlower
        · push_cast at hlower
          linarith
        · push_cast at hlower
          linarith
      rw [two_pow_le_div_iff hx] at hhalf
      by_cases hq : q = -1074
      · omega
      · exact .inr ⟨by omega, rfl, not_le.1 hlong⟩

theorem nearestMagnitude_of_within (h : Within (num / den) m q) (normal : Normal m q)
    (hnum : 0 < num) (hden : 0 < den) :
    nearestMagnitude num den = (q + 1074).toNat * 2 ^ 52 + m := by
  have hx : (0 : ℚ) < num / den := by positivity
  have hlow := normal.low
  have hhigh := normal.high
  have hlt := normal.lt
  have hmagnitude : (q + 1074).toNat * 2 ^ 52 + m ≤ infiniteMagnitude := by
    change _ ≤ 2047 * 2 ^ 52
    omega
  rw [nearestMagnitude_eq hnum hden]
  obtain hexponent | ⟨hexponent, rfl, hbelow⟩ := h.roundingExponent_eq normal hx
  · rw [hexponent, roundAt_eq hden h.roundsTo, Nat.min_eq_left hmagnitude]
  · have hq : -1074 ≤ q - 1 := hexponent ▸ le_max_right _ _
    have hlower := h.lower
    rw [if_pos ⟨rfl, by omega⟩] at hlower
    have hdouble : (num / den / 2 ^ (q - 1) : ℚ) = 2 * (num / den / 2 ^ q) := by
      rw [zpow_sub_one₀ (by norm_num)]
      field_simp
    have hrounds : RoundsTo (num / den / 2 ^ (q - 1)) (2 ^ 53) := by
      rw [hdouble]
      generalize (num / den / 2 ^ q : ℚ) = y at *
      push_cast at hlower ⊢
      obtain hlt | heq := lt_or_eq_of_le
        (abs_le.2 ⟨by linarith, by linarith⟩ : |2 * y - 2 ^ 53| ≤ 1 / 2)
      · exact .inl (by push_cast; exact hlt)
      · exact .inr ⟨by push_cast; exact heq, by norm_num⟩
    have hcarry : (q - 1 + 1074).toNat * 2 ^ 52 + 2 ^ 53 = (q + 1074).toNat * 2 ^ 52 + 2 ^ 52 := by
      omega
    rw [hexponent, roundAt_eq hden hrounds, hcarry, Nat.min_eq_left hmagnitude]

variable {d : Decimal}

theorem ofMagnitude_magnitude (d : Decimal) : ofMagnitude d.isNegative d.magnitude = d := by
  obtain ⟨bits⟩ := d
  have hlt := bits.toNat_lt
  rw [ofMagnitude, mk.injEq, ← UInt64.toNat_inj]
  have hbits : magnitude ⟨bits⟩ + (if isNegative ⟨bits⟩ then Nat.pow 2 63 else 0) = bits.toNat := by
    change bits.toNat % 2 ^ 63 + (if decide (2 ^ 63 ≤ bits.toNat) then 2 ^ 63 else 0) = _
    split
    · have hle := of_decide_eq_true ‹_›
      omega
    · have hnot : ¬ 2 ^ 63 ≤ bits.toNat := fun hle => ‹¬ _› (decide_eq_true hle)
      omega
  rw [hbits]
  exact UInt64.toNat_ofNat_of_lt hlt

theorem normal_significand (h : d.isFinite = true) :
    Normal d.significand.1 d.significand.2 ∧
      d.magnitude = (d.significand.2 + 1074).toNat * 2 ^ 52 + d.significand.1 := by
  have hlt : d.magnitude < 2047 * 2 ^ 52 := of_decide_eq_true h
  have hdiv : d.magnitude / Nat.pow 2 52 = d.magnitude / 2 ^ 52 := rfl
  have hmod : d.magnitude % Nat.pow 2 52 = d.magnitude % 2 ^ 52 := rfl
  rw [significand, hdiv, hmod]
  generalize d.magnitude = n at *
  split
  · exact ⟨⟨le_refl _, by omega, by omega, .inl rfl⟩, by dsimp only; omega⟩
  · have hfield : Int.ofNat (n / 2 ^ 52) = ((n / 2 ^ 52 : ℕ) : ℤ) := rfl
    rw [hfield]
    change Normal (n % 2 ^ 52 + 2 ^ 52) _ ∧ _ = _ + (n % 2 ^ 52 + 2 ^ 52)
    exact ⟨⟨by omega, by omega, by omega, .inr (by omega)⟩, by omega⟩

theorem ofRatio_of_within (h : d.isFinite = true) (hnum : 0 < num) (hden : 0 < den)
    (within : Within (num / den) d.significand.1 d.significand.2) :
    ofRatio d.isNegative num den = d := by
  obtain ⟨normal, hmagnitude⟩ := normal_significand h
  rw [ofRatio, nearestMagnitude_of_within within normal hnum hden, ← hmagnitude,
    ofMagnitude_magnitude]

end Manifest.Decimal
