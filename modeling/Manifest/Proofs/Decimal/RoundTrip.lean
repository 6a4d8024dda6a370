import Manifest.Decimal.Reader
import Manifest.Proofs.Decimal.Shortest
import Manifest.Proofs.Json.NumberText
import Manifest.Tree.Basic

namespace Manifest.Decimal

open Json (NoDigit)

variable {d : Decimal} {n : ℕ} {p : ℤ} {ds es : List Char}

theorem readDigits_eq (h : ∀ c ∈ ds, c.isDigit = true) (value : ℕ) :
    Text.readDigits value ds = some (Nat.ofDigitChars 10 ds value) := by
  induction ds generalizing value with
  | nil => rfl
  | cons c ds ih =>
    obtain ⟨hc, hds⟩ := List.forall_mem_cons.1 h
    rw [Text.readDigits, Json.digit?_eq_some hc, Option.bind_eq_bind, Option.bind_some, ih hds,
      Nat.ofDigitChars_cons, Nat.mul_comm 10]

theorem digitsValue_eq (h : ∀ c ∈ ds, c.isDigit = true) :
    digitsValue ds = Nat.ofDigitChars 10 ds 0 := by
  rw [digitsValue, readDigits_eq h, Option.getD_some]

theorem readMagnitude?_digits (negative : Bool) (h : Json.Digits ds) :
    readMagnitude? negative ds = some (ofDigits negative (Nat.ofDigitChars 10 ds 0) 0) := by
  have hend : NoDigit [] := nofun
  have hspan : spanDigits ds = (ds, []) := by simpa using Json.spanDigits_append h.2 hend
  rw [readMagnitude?, hspan]
  simp [h.1, readExponent?, digitsValue_eq h.2]

theorem readMagnitude?_point (negative : Bool) (h : Json.Digits ds)
    (hes : ∀ c ∈ es, c.isDigit = true) :
    readMagnitude? negative (ds ++ '.' :: es) =
      some (ofDigits negative (Nat.ofDigitChars 10 (ds ++ es) 0) (-es.length)) := by
  have hend : NoDigit [] := nofun
  have hpoint : NoDigit ('.' :: es) := fun c hc => Option.some.inj hc ▸ rfl
  have hspan : spanDigits es = (es, []) := by simpa using Json.spanDigits_append hes hend
  rw [readMagnitude?, Json.spanDigits_append h.2 hpoint]
  simp [hspan, h.1, readExponent?, digitsValue_eq (h.append hes).2]

theorem readMagnitude?_writePositional (negative : Bool) (style : Style)
    (hstyle : style.pointZero = false) (n : ℕ) (p : ℤ) :
    ∃ digits exponent, readMagnitude? negative (style.writePositional (Text.writeNat n) p) =
        some (ofDigits negative digits exponent) ∧
      (digits : ℚ) * 10 ^ exponent = n * 10 ^ p := by
  have hdigits := Json.digits_writeNat n
  have hvalue : Nat.ofDigitChars 10 (Text.writeNat n) 0 = n := Nat.ofDigitChars_ten_toDigits
  have hzeros : ∀ k, ∀ c ∈ List.replicate k '0', c.isDigit = true := fun k c hc =>
    (List.mem_replicate.1 hc).2 ▸ rfl
  rw [Style.writePositional, hstyle]
  dsimp only
  split
  · rename_i hp
    lift p to ℕ using hp
    rw [if_neg Bool.false_ne_true, List.append_nil,
      readMagnitude?_digits negative (hdigits.append (hzeros _)), Nat.ofDigitChars_append, hvalue,
      Nat.ofDigitChars_replicate_zero]
    refine ⟨_, _, rfl, ?_⟩
    push_cast
    rw [Int.toNat_natCast, zpow_natCast]
    ring
  · obtain ⟨k, rfl⟩ : ∃ k : ℕ, p = -k := ⟨(-p).toNat, by omega⟩
    rw [neg_neg, Int.toNat_natCast]
    split
    · rename_i hlt
      have htake : Json.Digits ((Text.writeNat n).take ((Text.writeNat n).length - k)) := by
        refine ⟨?_, fun c hc => hdigits.2 c (List.mem_of_mem_take hc)⟩
        rw [← List.length_pos_iff, List.length_take]
        omega
      rw [readMagnitude?_point negative htake fun c hc => hdigits.2 c (List.mem_of_mem_drop hc),
        List.take_append_drop, hvalue, List.length_drop]
      exact ⟨_, _, rfl, by rw [Nat.sub_sub_self hlt.le]⟩
    · rename_i hle
      have hpart : ∀ c ∈ List.replicate (k - (Text.writeNat n).length) '0' ++ Text.writeNat n,
          c.isDigit = true := fun c hc =>
        (List.mem_append.1 hc).elim (hzeros _ c) (hdigits.2 c)
      have hzero : Json.Digits ['0'] := ⟨List.cons_ne_nil _ _, List.forall_mem_singleton.2 rfl⟩
      have hpoint := readMagnitude?_point negative hzero hpart
      rw [List.singleton_append, List.singleton_append, Nat.ofDigitChars_cons,
        Nat.ofDigitChars_append, Nat.ofDigitChars_replicate_zero] at hpoint
      refine ⟨_, _, hpoint, ?_⟩
      simp only [List.length_append, List.length_replicate]
      rw [Nat.sub_add_cancel (Nat.le_of_not_lt hle)]
      simp [hvalue]

theorem two_zpow_lt_ten_zpow : (2 : ℚ) ^ (1075 : ℤ) < 10 ^ (400 : ℤ) := by
  have h : (2 : ℚ) ^ 43 < 10 ^ 16 := by norm_num
  have hpow := pow_lt_pow_left₀ h (by norm_num) (show 25 ≠ 0 by norm_num)
  rw [← pow_mul, ← pow_mul, ← zpow_natCast, ← zpow_natCast] at hpow
  exact hpow

theorem bounds_of_within {x : ℚ} {m : ℕ} {q : ℤ} (h : Within x m q) (normal : Normal m q)
    (hm : 0 < m) : (10 : ℚ) ^ (-400 : ℤ) < x ∧ x < 10 ^ (400 : ℤ) := by
  have hm₁ : (1 : ℚ) ≤ m := by exact_mod_cast hm
  have hm₂ : (m : ℚ) + 1 ≤ 2 ^ 53 := by exact_mod_cast normal.lt
  have hlower : (2 : ℚ) ^ (-1 : ℤ) ≤ x / 2 ^ q := by
    have hlower := h.lower
    rw [zpow_neg_one]
    split at hlower <;> linarith
  have hupper : x / 2 ^ q < 2 ^ (53 : ℤ) := by
    have hupper := h.upper
    norm_num at hm₂ ⊢
    linarith
  rw [le_div_iff₀ (zpow_two_pos q), ← zpow_add₀ (by norm_num)] at hlower
  rw [div_lt_iff₀ (zpow_two_pos q), ← zpow_add₀ (by norm_num)] at hupper
  have hlow : (-1075 : ℤ) ≤ -1 + q := by
    have := normal.low
    omega
  have hhigh : 53 + q ≤ (1075 : ℤ) := by
    have := normal.high
    omega
  constructor
  · calc (10 : ℚ) ^ (-400 : ℤ) = (10 ^ (400 : ℤ))⁻¹ := zpow_neg _ _
      _ < (2 ^ (1075 : ℤ))⁻¹ := inv_strictAnti₀ (zpow_two_pos _) two_zpow_lt_ten_zpow
      _ = 2 ^ (-1075 : ℤ) := (zpow_neg _ _).symm
      _ ≤ 2 ^ (-1 + q) := zpow_le_zpow_right₀ (by norm_num) hlow
      _ ≤ x := hlower
  · calc x < 2 ^ (53 + q) := hupper
      _ ≤ 2 ^ (1075 : ℤ) := zpow_le_zpow_right₀ (by norm_num) hhigh
      _ < 10 ^ (400 : ℤ) := two_zpow_lt_ten_zpow

theorem bounds_toDigits (hn : 0 < n) (p : ℤ) :
    (10 : ℚ) ^ ((Nat.toDigits 10 n).length + p - 1) ≤ n * 10 ^ p ∧
      (n : ℚ) * 10 ^ p < 10 ^ ((Nat.toDigits 10 n).length + p) := by
  have hpos : 0 < (Nat.toDigits 10 n).length := Nat.length_toDigits_pos
  have hhigh := (Nat.length_toDigits_le_iff (by decide) hpos).1 (le_refl (Nat.toDigits 10 n).length)
  have hlow : 10 ^ ((Nat.toDigits 10 n).length - 1) ≤ n := by
    by_cases hone : (Nat.toDigits 10 n).length = 1
    · rw [hone]
      exact hn
    · refine Nat.le_of_not_lt fun hlt => ?_
      have hle := (Nat.length_toDigits_le_iff (by decide) (by omega)).2 hlt
      omega
  generalize (Nat.toDigits 10 n).length = k at *
  obtain ⟨k, rfl⟩ : ∃ j, k = j + 1 := ⟨k - 1, by omega⟩
  have hlow' : (10 : ℚ) ^ k ≤ n := by exact_mod_cast hlow
  have hhigh' : (n : ℚ) < 10 ^ (k + 1) := by exact_mod_cast hhigh
  have hten : (0 : ℚ) < 10 ^ p := zpow_pos (by norm_num) p
  constructor
  · calc (10 : ℚ) ^ (((k + 1 : ℕ) : ℤ) + p - 1) = 10 ^ k * 10 ^ p := by
          rw [← zpow_natCast, ← zpow_add₀ (by norm_num)]
          congr 1
          omega
      _ ≤ n * 10 ^ p := mul_le_mul_of_nonneg_right hlow' hten.le
  · calc (n : ℚ) * 10 ^ p < 10 ^ (k + 1) * 10 ^ p := mul_lt_mul_of_pos_right hhigh' hten
      _ = 10 ^ (((k + 1 : ℕ) : ℤ) + p) := by rw [← zpow_natCast, ← zpow_add₀ (by norm_num)]

theorem ofDigits_of_within (hfinite : d.isFinite = true) (hm : 0 < d.significand.1)
    (within : Within (n * 10 ^ p) d.significand.1 d.significand.2) :
    ofDigits d.isNegative n p = d := by
  obtain ⟨hlow, hhigh⟩ := bounds_of_within within (normal_significand hfinite).1 hm
  have hn : 0 < n := by
    by_contra hzero
    obtain rfl : n = 0 := by omega
    rw [Nat.cast_zero, zero_mul] at hlow
    exact absurd (zpow_pos (by norm_num) _ : (0 : ℚ) < 10 ^ (-400 : ℤ)) hlow.le.not_gt
  obtain ⟨hfirst, hlast⟩ := bounds_toDigits hn p
  have hsize := (zpow_lt_zpow_iff_right₀ (by norm_num : (1 : ℚ) < 10)).1 (hlow.trans hlast)
  have hsize' := (zpow_lt_zpow_iff_right₀ (by norm_num : (1 : ℚ) < 10)).1 (hfirst.trans_lt hhigh)
  rw [ofDigits, if_neg (by omega), if_neg (by omega)]
  split
  · rename_i hp
    lift p to ℕ using hp
    refine ofRatio_of_within hfinite (Nat.mul_pos hn (Nat.pow_pos (by decide))) Nat.one_pos ?_
    rw [zpow_natCast] at within
    simpa using within
  · obtain ⟨k, rfl⟩ : ∃ k : ℕ, p = -k := ⟨(-p).toNat, by omega⟩
    rw [neg_neg, Int.toNat_natCast]
    refine ofRatio_of_within hfinite hn (Nat.pow_pos (by decide)) ?_
    rw [zpow_neg, zpow_natCast, ← div_eq_mul_inv] at within
    simpa using within

theorem magnitude_eq_zero (hfinite : d.isFinite = true) (hm : d.significand.1 = 0) :
    d.magnitude = 0 := by
  obtain ⟨normal, hmagnitude⟩ := normal_significand hfinite
  have hlong := normal.long
  omega

theorem readMagnitude?_cons_of_sign {sign : Char} (hsign : sign = '-' ∨ sign = '+')
    (negative : Bool) (cs : List Char) : readMagnitude? negative (sign :: cs) = none := by
  have hend : NoDigit (sign :: cs) := fun c hc => by
    rw [← Option.some.inj hc]
    rcases hsign with rfl | rfl <;> rfl
  have hnone : ∀ c ∈ ([] : List Char), c.isDigit = true := nofun
  have hspan : spanDigits (sign :: cs) = ([], sign :: cs) := Json.spanDigits_append hnone hend
  rw [readMagnitude?, hspan]
  rcases hsign with rfl | rfl <;> rfl

theorem read?_signed {negative : Bool} {body : List Char} {e : Decimal}
    (h : readMagnitude? negative body = some e) :
    read? ((if negative then ['-'] else []) ++ body) = some e := by
  cases negative with
  | true =>
    change (readMagnitude? true body).or (readName? true body) = some e
    rw [h, Option.some_or]
  | false =>
    rw [if_neg Bool.false_ne_true, List.nil_append, read?, h, Option.some_or]
    all_goals
      rintro cs rfl
      rw [readMagnitude?_cons_of_sign (by simp)] at h
      cases h

theorem read?_write_of_finite (hfinite : d.isFinite = true) :
    read? (d.write Tree.textStyle) = some d := by
  have hlt : d.magnitude < infiniteMagnitude := of_decide_eq_true hfinite
  have hnan : ¬ d.isNaN = true := fun hnan => Nat.lt_asymm hlt (of_decide_eq_true hnan)
  have hinfinite : ¬ d.isInfinite = true := fun h => Nat.ne_of_lt hlt (of_decide_eq_true h)
  rw [write, if_neg hnan]
  dsimp only
  rw [if_neg hinfinite]
  obtain ⟨n, p, hread, hvalue⟩ := readMagnitude?_writePositional d.isNegative
    Tree.textStyle rfl (d.shortest Tree.textStyle.tie).digits
    (d.shortest Tree.textStyle.tie).exponent
  refine read?_signed (hread.trans (congrArg some ?_))
  by_cases hm : 0 < d.significand.1
  · have within := within_shortest Tree.textStyle.tie hfinite hm
    rw [← hvalue] at within
    exact ofDigits_of_within hfinite hm within
  · have hzero := magnitude_eq_zero hfinite (Nat.eq_zero_of_not_pos hm)
    have hshortest : d.shortest Tree.textStyle.tie = ⟨0, 0⟩ := if_pos (decide_eq_true hzero)
    rw [hshortest, Nat.cast_zero, zero_mul, mul_eq_zero, Nat.cast_eq_zero] at hvalue
    have hn : n = 0 := hvalue.resolve_right (zpow_pos (by norm_num) p).ne'
    rw [ofDigits, if_pos (.inl hn), zero, ← hzero, ofMagnitude_magnitude]

theorem read?_write_of_not_nan (hnan : d.isNaN = false) :
    read? (d.write Tree.textStyle) = some d := by
  have hle : d.magnitude ≤ infiniteMagnitude := Nat.le_of_not_lt (of_decide_eq_false hnan)
  obtain hlt | heq := Nat.lt_or_eq_of_le hle
  · exact read?_write_of_finite (decide_eq_true hlt)
  · have hsign : d = infinity d.isNegative := by rw [infinity, ← heq, ofMagnitude_magnitude]
    have hinfinite : d.isInfinite = true := decide_eq_true heq
    rw [write, if_neg (Bool.not_eq_true _ ▸ hnan)]
    dsimp only
    rw [if_pos hinfinite]
    conv_rhs => rw [hsign]
    cases d.isNegative <;> decide

/-- The text form of what is read from a text form is that text form.  What is no number is read to
one of the decimals that are no numbers. -/
theorem write_read?_write (d : Decimal) :
    (read? (d.write Tree.textStyle)).map (write Tree.textStyle) =
      some (d.write Tree.textStyle) := by
  cases hnan : d.isNaN with
  | false => rw [read?_write_of_not_nan hnan, Option.map_some]
  | true =>
    rw [write, if_pos hnan]
    decide

end Manifest.Decimal
