import Dataflow.Binary.Basic

/-! # Single precision in double precision

    Every number of single precision is one of double precision. A finite
    magnitude is an exponent and a significand, and it is the only one with its
    number of units; rounding a number that has a magnitude gives this magnitude.
    So nothing is rounded when a number of single precision is converted, its
    sign and its infinities stay, and different numbers stay different.

    Main statements:
    - `Format.nearest_eq`: what has a magnitude is not rounded
    - `Format.units_widen`: a finite number of single precision is one of double precision
    - `Binary.convert_inj`: different numbers stay different
    - `Binary.sameNumber_of_convert`: what is the same number afterwards was the same before
-/

namespace Dataflow

-- Powers of natural numbers are those of the core library, whatever else is imported.
attribute [local instance (high)] instPowNat

namespace Format

variable {f : Format}

/-! ## Section 1: Significands -/

/-- A significand stands in its normal form with an exponent: its leading bit is the implied one,
unless the exponent is the lowest. -/
structure Normal (f : Format) (exponent significand : Nat) : Prop where
  /-- The significand has its width. -/
  lt : significand < 2 ^ (f.fractionBits + 1)
  /-- Only the lowest exponent has significands with a leading zero. -/
  le : exponent = 0 ∨ 2 ^ f.fractionBits ≤ significand

/-- The magnitude of an exponent and a significand. -/
def join (f : Format) (exponent significand : Nat) : Nat :=
  exponent * 2 ^ f.fractionBits + significand

/-- Every magnitude has an exponent and a significand. -/
theorem exists_join (f : Format) (magnitude : Nat) :
    ∃ e m, f.Normal e m ∧ magnitude = f.join e m := by
  have hsplit := Nat.div_add_mod' magnitude (2 ^ f.fractionBits)
  have hmod := Nat.mod_lt magnitude (Nat.two_pow_pos f.fractionBits)
  have hpow : 2 ^ (f.fractionBits + 1) = 2 ^ f.fractionBits * 2 := Nat.pow_succ ..
  cases hdiv : magnitude / 2 ^ f.fractionBits with
  | zero =>
    rw [hdiv, Nat.zero_mul, Nat.zero_add] at hsplit
    refine ⟨0, magnitude, ⟨by omega, .inl rfl⟩, ?_⟩
    rw [join, Nat.zero_mul, Nat.zero_add]
  | succ e =>
    refine ⟨e, 2 ^ f.fractionBits + magnitude % 2 ^ f.fractionBits, ⟨by omega, .inr (by omega)⟩, ?_⟩
    rw [hdiv, Nat.succ_mul] at hsplit
    rw [join]
    omega

/-- What a magnitude stands for is its significand at the place that its exponent says. -/
theorem units_join {e m : Nat} (h : f.Normal e m) : f.units (f.join e m) = m * 2 ^ e := by
  have hpos := Nat.two_pow_pos f.fractionBits
  have hlt := h.lt
  rw [Nat.pow_succ] at hlt
  unfold units join
  by_cases hm : m < 2 ^ f.fractionBits
  · have he : e = 0 := h.le.resolve_right (by omega)
    subst he
    simp [hm]
  · -- The implied bit counts as one more in the exponent field.
    have hfields : e * 2 ^ f.fractionBits + m =
        (m - 2 ^ f.fractionBits) + 2 ^ f.fractionBits * (e + 1) := by
      rw [Nat.mul_succ, Nat.mul_comm e]
      omega
    have hrest : m - 2 ^ f.fractionBits < 2 ^ f.fractionBits := by omega
    rw [if_neg (by omega), hfields, Nat.add_mul_mod_self_left, Nat.mod_eq_of_lt hrest,
      Nat.add_mul_div_left _ _ hpos, Nat.div_eq_of_lt hrest, Nat.zero_add, Nat.add_sub_cancel,
      Nat.sub_add_cancel (by omega)]

/-- A number of few bits at any place has a normal form. -/
theorem exists_normal {m : Nat} (k : Nat) (hm : m < 2 ^ (f.fractionBits + 1)) :
    ∃ e m', f.Normal e m' ∧ m * 2 ^ k = m' * 2 ^ e ∧ e ≤ k := by
  induction k generalizing m with
  | zero => exact ⟨0, m, ⟨hm, .inl rfl⟩, rfl, Nat.le_refl 0⟩
  | succ k ih =>
    by_cases hlead : 2 ^ f.fractionBits ≤ m
    · exact ⟨k + 1, m, ⟨hm, .inr hlead⟩, rfl, Nat.le_refl _⟩
    · -- There is room for one more bit in the significand.
      have hdouble : m * 2 < 2 ^ (f.fractionBits + 1) := by
        rw [Nat.pow_succ]
        omega
      obtain ⟨e, m', hnormal, hvalue, he⟩ := ih hdouble
      refine ⟨e, m', hnormal, ?_, by omega⟩
      rw [← hvalue, Nat.pow_succ, Nat.mul_comm (2 ^ k), Nat.mul_assoc]

/-- A normal form whose exponent leaves room in its field is finite. -/
theorem join_lt_infinity {e m : Nat} (h : f.Normal e m) (he : e + 2 < 2 ^ f.exponentBits) :
    f.join e m < f.infinity := by
  have hlt := h.lt
  have hfield : (e + 2) * 2 ^ f.fractionBits ≤ f.infinity :=
    Nat.mul_le_mul_right _ (by omega)
  rw [Nat.pow_succ] at hlt
  rw [Nat.add_mul] at hfield
  unfold join
  omega

/-! ## Section 2: Exact results -/

theorem divToEven_mul {den : Nat} (hden : 0 < den) (n : Nat) : divToEven (n * den) den = n := by
  simp [divToEven, Nat.mul_div_cancel _ hden]
  omega

theorem log2_normal {e m : Nat} (h : f.Normal e m) : (m * 2 ^ e).log2 - f.fractionBits = e := by
  have hlt := h.lt
  rcases h.le with rfl | hlead
  · rw [Nat.pow_zero, Nat.mul_one]
    by_cases hm : m = 0
    · subst hm
      simp
    · have hlog := (Nat.log2_lt hm).mpr hlt
      omega
  · have hlow : 2 ^ (f.fractionBits + e) ≤ m * 2 ^ e := by
      rw [Nat.pow_add]
      exact Nat.mul_le_mul_right _ hlead
    have hhigh : m * 2 ^ e < 2 ^ (f.fractionBits + e + 1) := by
      rw [Nat.add_right_comm, Nat.pow_add]
      exact Nat.mul_lt_mul_of_pos_right hlt (Nat.two_pow_pos e)
    have hpos := Nat.two_pow_pos (f.fractionBits + e)
    have hlog := (Nat.log2_eq_iff (by omega)).mpr ⟨hlow, hhigh⟩
    omega

/-- What has a magnitude is not rounded, except to infinity. -/
theorem nearest_eq {num den e m : Nat} (hden : 0 < den) (h : f.Normal e m)
    (hvalue : num * 2 ^ f.scale = m * 2 ^ e * den) :
    f.nearest num den = min f.infinity (f.join e m) := by
  have hexponent : (num * 2 ^ f.scale / den).log2 - f.fractionBits = e := by
    rw [hvalue, Nat.mul_div_cancel _ hden, log2_normal h]
  have hsignificand : divToEven (num * 2 ^ f.scale) (den * 2 ^ e) = m := by
    have hproduct : m * 2 ^ e * den = m * (den * 2 ^ e) := by
      rw [Nat.mul_assoc, Nat.mul_comm (2 ^ e)]
    rw [hvalue, hproduct]
    exact divToEven_mul (Nat.mul_pos hden (Nat.two_pow_pos e)) m
  unfold nearest
  simp only [hexponent, hsignificand, join]

/-- A magnitude is the one nearest to what it stands for. -/
theorem nearest_units {magnitude : Nat} (h : magnitude ≤ f.infinity) :
    f.nearest (f.units magnitude) (2 ^ f.scale) = magnitude := by
  obtain ⟨e, m, hnormal, rfl⟩ := f.exists_join magnitude
  rw [nearest_eq (Nat.two_pow_pos _) hnormal (by rw [units_join hnormal])]
  omega

/-- Different magnitudes stand for different numbers. -/
theorem units_inj {a b : Nat} (ha : a ≤ f.infinity) (hb : b ≤ f.infinity)
    (h : f.units a = f.units b) : a = b := by
  rw [← nearest_units ha, h, nearest_units hb]

/-! ## Section 3: Single and double precision -/

/-- The magnitude of a number of single precision in double precision. -/
def widen (magnitude : Nat) : Nat :=
  if magnitude < single.infinity then double.nearest (single.units magnitude) (2 ^ single.scale)
  else double.infinity

/-- The places by which a unit of single precision stands above one of double precision. -/
def widening : Nat := double.scale - single.scale

/-- A finite number of single precision is one of double precision, which is finite too. -/
theorem units_widen {magnitude : Nat} (h : magnitude < single.infinity) :
    widen magnitude < double.infinity ∧
      double.units (widen magnitude) = single.units magnitude * 2 ^ widening := by
  obtain ⟨e, m, hnormal, rfl⟩ := single.exists_join magnitude
  have hunits := units_join hnormal
  have hexponent : e < 2 ^ single.exponentBits - 1 :=
    Nat.lt_of_mul_lt_mul_right (Nat.lt_of_le_of_lt (Nat.le_add_right _ m) h)
  have hsignificand : m < 2 ^ (double.fractionBits + 1) := Nat.lt_trans hnormal.lt (by decide)
  obtain ⟨e', m', hnormal', hvalue, he⟩ := exists_normal (e + widening) hsignificand
  rw [Nat.pow_add, ← Nat.mul_assoc, ← hunits] at hvalue
  have hexact : single.units (single.join e m) * 2 ^ double.scale =
      m' * 2 ^ e' * 2 ^ single.scale := by
    have hscale : double.scale = widening + single.scale := rfl
    rw [hscale, Nat.pow_add, ← Nat.mul_assoc, hvalue]
  have hfinite : double.join e' m' < double.infinity := by
    apply join_lt_infinity hnormal'
    show e' + 2 < 2048
    have hsingle : e < 255 := hexponent
    have hplaces : e' ≤ e + 925 := he
    omega
  have hwiden : widen (single.join e m) = double.join e' m' := by
    unfold widen
    rw [if_pos h, nearest_eq (Nat.two_pow_pos _) hnormal' hexact,
      Nat.min_eq_right (Nat.le_of_lt hfinite)]
  rw [hwiden, units_join hnormal', hvalue]
  exact ⟨hfinite, rfl⟩

theorem widen_le (magnitude : Nat) : widen magnitude ≤ double.infinity := by
  by_cases h : magnitude < single.infinity
  · exact Nat.le_of_lt (units_widen h).1
  · exact Nat.le_of_eq (if_neg h)

/-- A magnitude is finite in double precision exactly if it is in single precision. -/
theorem widen_lt_iff {magnitude : Nat} :
    widen magnitude < double.infinity ↔ magnitude < single.infinity := by
  constructor
  · intro hlt
    by_cases h : magnitude < single.infinity
    · exact h
    · unfold widen at hlt
      rw [if_neg h] at hlt
      omega
  · intro h
    exact (units_widen h).1

/-- Different magnitudes are different in double precision. -/
theorem widen_inj {a b : Nat} (ha : a ≤ single.infinity) (hb : b ≤ single.infinity)
    (h : widen a = widen b) : a = b := by
  have hfinite : a < single.infinity ↔ b < single.infinity := by
    rw [← widen_lt_iff, h, widen_lt_iff]
  by_cases hlt : a < single.infinity
  · have hunits : single.units a * 2 ^ widening = single.units b * 2 ^ widening := by
      rw [← (units_widen hlt).2, h, (units_widen (hfinite.mp hlt)).2]
    have hplaces : 0 < 2 ^ widening := Nat.two_pow_pos widening
    exact units_inj ha hb (Nat.eq_of_mul_eq_mul_right hplaces hunits)
  · omega

theorem infinity_lt (f : Format) : f.infinity < 2 ^ f.signPlace := by
  have hpos := Nat.two_pow_pos f.exponentBits
  rw [signPlace, Nat.pow_add]
  exact Nat.mul_lt_mul_of_pos_right (by omega) (Nat.two_pow_pos _)

theorem widen_lt (magnitude : Nat) : widen magnitude < 2 ^ double.signPlace :=
  Nat.lt_of_le_of_lt (widen_le magnitude) (infinity_lt double)

end Format

namespace Binary

open Format

variable {f : Format}

/-! ## Section 4: Signs and magnitudes -/

theorem two_pow_width (f : Format) : 2 ^ f.width = 2 ^ f.signPlace + 2 ^ f.signPlace := by
  rw [width, Nat.pow_succ, Nat.mul_two]

/-- A pattern is its sign bit and its magnitude. -/
theorem pattern_eq (x : Binary f) :
    x.pattern.val = x.magnitude + if x.isNegative then 2 ^ f.signPlace else 0 := by
  have hlt := Nat.lt_of_lt_of_eq x.pattern.isLt (two_pow_width f)
  unfold magnitude isNegative
  by_cases h : 2 ^ f.signPlace ≤ x.pattern.val
  · rw [if_pos (by simpa using h), Nat.mod_eq_sub_mod h, Nat.mod_eq_of_lt (by omega)]
    omega
  · rw [if_neg (by simpa using h), Nat.mod_eq_of_lt (by omega)]
    rfl

theorem ext_magnitude {x y : Binary f} (hsign : x.isNegative = y.isNegative)
    (hmagnitude : x.magnitude = y.magnitude) : x = y := by
  have hpattern : x.pattern = y.pattern := by
    apply Fin.ext
    rw [x.pattern_eq, y.pattern_eq, hsign, hmagnitude]
  cases x
  cases y
  exact congrArg mk hpattern

theorem pattern_ofMagnitude {m : Nat} (negative : Bool) (h : m < 2 ^ f.signPlace) :
    (ofMagnitude negative m : Binary f).pattern.val =
      m + if negative then 2 ^ f.signPlace else 0 := by
  apply Nat.mod_eq_of_lt
  rw [two_pow_width]
  split <;> omega

theorem isNegative_ofMagnitude {m : Nat} (negative : Bool) (h : m < 2 ^ f.signPlace) :
    (ofMagnitude negative m : Binary f).isNegative = negative := by
  unfold isNegative
  rw [pattern_ofMagnitude negative h]
  cases negative <;> simp [h]

theorem magnitude_ofMagnitude {m : Nat} (negative : Bool) (h : m < 2 ^ f.signPlace) :
    (ofMagnitude negative m : Binary f).magnitude = m := by
  unfold magnitude
  rw [pattern_ofMagnitude negative h]
  cases negative <;> simp [Nat.mod_eq_of_lt h]

/-! ## Section 5: Conversion -/

/-- A number of single precision is converted to the one with its sign and its widened magnitude. -/
theorem convert_eq {x : Binary32} (h : x.isNaN = false) :
    (x.convert : Binary64) = ofMagnitude x.isNegative (widen x.magnitude) := by
  unfold convert widen isFinite
  rw [if_neg (by simp [h])]
  by_cases hfinite : x.magnitude < single.infinity
  · rw [if_pos (decide_eq_true hfinite), if_pos hfinite]
    rfl
  · rw [if_neg (by simpa using hfinite), if_neg hfinite]

theorem isNegative_convert {x : Binary32} (h : x.isNaN = false) :
    (x.convert : Binary64).isNegative = x.isNegative := by
  rw [convert_eq h]
  exact isNegative_ofMagnitude _ (widen_lt _)

theorem magnitude_convert {x : Binary32} (h : x.isNaN = false) :
    (x.convert : Binary64).magnitude = widen x.magnitude := by
  rw [convert_eq h]
  exact magnitude_ofMagnitude _ (widen_lt _)

theorem magnitude_le {x : Binary f} (h : x.isNaN = false) : x.magnitude ≤ f.infinity :=
  Nat.le_of_not_lt (of_decide_eq_false h)

/-- Different numbers of single precision are different in double precision. -/
theorem convert_inj {x y : Binary32} (hx : x.isNaN = false) (hy : y.isNaN = false)
    (h : (x.convert : Binary64) = y.convert) : x = y := by
  apply ext_magnitude
  · rw [← isNegative_convert hx, h, isNegative_convert hy]
  · apply widen_inj (magnitude_le hx) (magnitude_le hy)
    rw [← magnitude_convert hx, h, magnitude_convert hy]

/-- What is not a number is none in double precision, and nothing else is none there. -/
theorem isNaN_convert (x : Binary32) : (x.convert : Binary64).isNaN = x.isNaN := by
  cases h : x.isNaN with
  | true =>
    unfold convert
    rw [if_pos h]
    decide +kernel
  | false =>
    unfold isNaN
    rw [magnitude_convert h]
    exact decide_eq_false (Nat.not_lt.mpr (widen_le _))

/-- Two numbers are the same exactly if their magnitudes are, and their signs where they matter. -/
theorem sameNumber_iff {x y : Binary f} : x.sameNumber y = true ↔
    x.isNaN = false ∧ y.isNaN = false ∧ x.magnitude = y.magnitude ∧
      (x.magnitude = 0 ∨ x.isNegative = y.isNegative) := by
  simp only [sameNumber, key, Bool.and_eq_true, Bool.not_eq_true', beq_iff_eq, and_assoc]
  apply and_congr_right
  intro _
  apply and_congr_right
  intro _
  cases x.isNegative <;> cases y.isNegative <;> simp <;> omega

/-- Only zero is widened to zero. -/
theorem eq_zero_of_widen {m : Nat} (hm : m ≤ single.infinity) (h : widen m = 0) : m = 0 := by
  have hzero : widen 0 = 0 := by decide +kernel
  exact widen_inj hm (Nat.zero_le _) (h.trans hzero.symm)

/-- Numbers of single precision that are the same in double precision are the same. -/
theorem sameNumber_of_convert {x y : Binary32}
    (h : (x.convert : Binary64).sameNumber y.convert = true) : x.sameNumber y = true := by
  obtain ⟨hx, hy, hmagnitude, hsign⟩ := sameNumber_iff.mp h
  rw [isNaN_convert] at hx hy
  rw [magnitude_convert hx, magnitude_convert hy] at hmagnitude
  rw [magnitude_convert hx, isNegative_convert hx, isNegative_convert hy] at hsign
  apply sameNumber_iff.mpr
  exact ⟨hx, hy, widen_inj (magnitude_le hx) (magnitude_le hy) hmagnitude,
    hsign.imp_left (eq_zero_of_widen (magnitude_le hx))⟩

end Binary

end Dataflow
