/-
The shortest decimal of a magnitude denotes it.

A decimal denotes the same magnitude after a factor of ten has moved from its digits to its exponent, as the
quotient that is rounded stays the same. So no trailing zero that is dropped matters, and the exact value,
which stands in should the search end without a hit, is rounded to itself:

* `nearest?_mul_right` — numerator and denominator times the same factor;
* `ofDecimal?_mul_pow` — powers of ten moved to the exponent;
* `nearest?_units`, `readsBack_exact` — a magnitude is nearest to itself;
* `readsBack_shortest` — so whatever `Magnitude.shortest` returns reads back.
-/
import Ontogram.Double
namespace Ontogram.Magnitude

theorem halfEven_mul_right {k : Nat} (hk : 0 < k) (num den : Nat) :
    halfEven (num * k) (den * k) = halfEven num den := by
  have hlow : 2 * (num % den * k) < den * k ↔ 2 * (num % den) < den := by
    rw [← Nat.mul_assoc, Nat.mul_lt_mul_right hk]
  have hhigh : den * k < 2 * (num % den * k) ↔ den < 2 * (num % den) := by
    rw [← Nat.mul_assoc, Nat.mul_lt_mul_right hk]
  unfold halfEven
  simp only [Nat.mul_div_mul_right _ _ hk, Nat.mul_mod_mul_right, hlow, hhigh]

theorem halfEven_mul_self (q : Nat) {den : Nat} (hden : 0 < den) : halfEven (q * den) den = q := by
  unfold halfEven
  simp only [Nat.mul_div_cancel _ hden, Nat.mul_mod_left]
  rw [if_pos (by omega)]

/-- Only the quotient counts. -/
theorem nearest?_mul_right {k : Nat} (hk : 0 < k) (num den : Nat) :
    nearest? (num * k) (den * k) = nearest? num den := by
  have hround : ∀ scale, halfEven (num * k) (den * k * Nat.pow 2 scale) =
      halfEven num (den * Nat.pow 2 scale) := by
    intro scale
    rw [Nat.mul_right_comm, halfEven_mul_right hk]
  unfold nearest?
  simp only [Nat.mul_div_mul_right _ _ hk, hround]

/-! ### Factors of ten -/

theorem digitCount_mul_ten {n : Nat} (hn : 0 < n) : digitCount (n * 10) = digitCount n + 1 := by
  have h := Nat.toDigits_append_toDigits (b := 10) (n := n) (d := 0) (by decide) hn (by decide)
  rw [Nat.add_zero, Nat.mul_comm] at h
  rw [digitCount, ← h, List.length_append]
  rfl

theorem ofDecimal?_zero (e : Int) : ofDecimal? ⟨0, e⟩ = some zero := if_pos rfl

/-- A power of ten is in the numerator or in the denominator. -/
theorem ofDecimal?_of_ne_zero {n : Nat} (hn : n ≠ 0) (e : Int) :
    ofDecimal? ⟨n, e⟩ =
      if 310 < e + digitCount n then none
      else if e + digitCount n < -330 then some zero
      else nearest? (n * Nat.pow 10 e.toNat * Nat.pow 2 1074) (Nat.pow 10 (-e).toNat) := by
  unfold ofDecimal?
  generalize Nat.pow 2 1074 = unit
  simp only [if_neg hn]
  cases e with
  | ofNat e =>
    have hden : (-Int.ofNat e).toNat = 0 := by cases e <;> rfl
    rw [hden]
    rfl
  | negSucc e =>
    have hnum : n * Nat.pow 10 (Int.negSucc e).toNat = n := Nat.mul_one n
    simp only [hnum]
    rfl

theorem ofDecimal?_mul_ten (n : Nat) (e : Int) : ofDecimal? ⟨n * 10, e⟩ = ofDecimal? ⟨n, e + 1⟩ := by
  rcases Nat.eq_zero_or_pos n with rfl | hn
  · rw [Nat.zero_mul, ofDecimal?_zero, ofDecimal?_zero]
  have hposition : e + (digitCount (n * 10) : Int) = e + 1 + digitCount n := by
    rw [digitCount_mul_ten hn]
    omega
  rw [ofDecimal?_of_ne_zero (by omega), ofDecimal?_of_ne_zero (by omega), hposition]
  generalize Nat.pow 2 1074 = unit
  rcases Int.lt_or_le e 0 with he | he
  · -- the factor cancels against one of the denominator
    have hnum : (e + 1).toNat = e.toNat := by omega
    have hden : (-e).toNat = (-(e + 1)).toNat + 1 := by omega
    have hten : Nat.pow 10 ((-(e + 1)).toNat + 1) = Nat.pow 10 (-(e + 1)).toNat * 10 := rfl
    rw [hnum, hden, hten, Nat.mul_right_comm n, Nat.mul_right_comm, nearest?_mul_right (by decide)]
  · -- the factor goes to the power of the numerator
    have hnum : (e + 1).toNat = e.toNat + 1 := by omega
    have hden : (-(e + 1)).toNat = (-e).toNat := by omega
    have hten : n * Nat.pow 10 (e.toNat + 1) = n * 10 * Nat.pow 10 e.toNat := by
      rw [Nat.mul_right_comm, Nat.mul_assoc]
      rfl
    rw [hnum, hden, hten]

/-- Powers of ten may stand in the digits or in the exponent. -/
theorem ofDecimal?_mul_pow (n : Nat) (e : Int) (k : Nat) :
    ofDecimal? ⟨n * Nat.pow 10 k, e⟩ = ofDecimal? ⟨n, e + k⟩ := by
  induction k generalizing e with
  | zero =>
    have hone : n * Nat.pow 10 0 = n := Nat.mul_one n
    have hexponent : e + ((0 : Nat) : Int) = e := by omega
    rw [hone, hexponent]
  | succ k ih =>
    have hten : n * Nat.pow 10 (k + 1) = n * Nat.pow 10 k * 10 := (Nat.mul_assoc n (Nat.pow 10 k) 10).symm
    have hexponent : e + 1 + (k : Int) = e + (k + 1 : Nat) := by omega
    rw [hten, ofDecimal?_mul_ten, ih, hexponent]

/-! ### The exact value -/

theorem eq_zero_of_significand {x : Magnitude} (h : x.significand = 0) : x = zero := by
  obtain ⟨s, k, hs, hk, hnormal⟩ := x
  cases h
  rcases hnormal with rfl | hnormal
  · rfl
  · exact absurd hnormal (by decide)

theorem units_pos {x : Magnitude} (h : x.significand ≠ 0) : 0 < x.units :=
  Nat.mul_pos (Nat.pos_of_ne_zero h) (Nat.pow_pos (by decide))

theorem units_le (x : Magnitude) (bound : Nat) (h : x.scale ≤ bound) :
    x.units ≤ Nat.pow 2 53 * Nat.pow 2 bound :=
  Nat.mul_le_mul (Nat.le_of_lt x.significand_lt) (Nat.pow_le_pow_right (by decide) h)

/-- The scale is what the units have beyond 53 binary digits. -/
theorem log2_units {x : Magnitude} (h : x.significand ≠ 0) : x.units.log2 - 52 = x.scale := by
  have hpos : x.units ≠ 0 := Nat.pos_iff_ne_zero.mp (units_pos h)
  have hupper : x.units < 2 ^ (53 + x.scale) := by
    rw [Nat.pow_add]
    exact Nat.mul_lt_mul_of_pos_right x.significand_lt (Nat.pow_pos (by decide))
  have hlog := (Nat.log2_lt hpos).mpr hupper
  rcases x.normal with hzero | hnormal
  · omega
  · have hlower : 2 ^ (52 + x.scale) ≤ x.units := by
      rw [Nat.pow_add]
      exact Nat.mul_le_mul_right _ hnormal
    have := (Nat.le_log2 hpos).mpr hlower
    omega

/-- A magnitude is nearest to itself. -/
theorem nearest?_units {x : Magnitude} (h : x.significand ≠ 0) : nearest? x.units 1 = some x := by
  have hround : halfEven x.units (1 * Nat.pow 2 x.scale) = x.significand := by
    rw [Nat.one_mul]
    exact halfEven_mul_self _ (Nat.pow_pos (by decide))
  unfold nearest?
  simp only [Nat.div_one, log2_units h, hround, if_pos x.significand_lt]
  rw [dif_pos ⟨x.significand_lt, x.scale_le, x.normal⟩]

theorem le_exactDigits {x : Magnitude} (h : x.significand ≠ 0) : Nat.pow 5 1074 ≤ x.exactDigits := by
  unfold exactDigits
  exact Nat.le_mul_of_pos_left _ (units_pos h)

theorem exactDigits_le (x : Magnitude) (bound : Nat) (h : x.units ≤ bound) :
    x.exactDigits ≤ bound * Nat.pow 5 1074 := by
  unfold exactDigits
  exact Nat.mul_le_mul_right _ h

/-- No magnitude is so large or so small that its decimal is not computed. -/
theorem digitCount_exactDigits {x : Magnitude} (h : x.significand ≠ 0) :
    744 ≤ digitCount x.exactDigits ∧ digitCount x.exactDigits ≤ 1384 := by
  have hcount : ∀ k, 0 < k → (digitCount x.exactDigits ≤ k ↔ x.exactDigits < 10 ^ k) := by
    intro k hk
    exact Nat.length_toDigits_le_iff (by decide) hk
  constructor
  · have hlow : 10 ^ 743 ≤ Nat.pow 5 1074 := by decide +kernel
    have hexact := Nat.le_trans hlow (le_exactDigits h)
    rcases Nat.lt_or_ge 743 (digitCount x.exactDigits) with hmany | hfew
    · exact hmany
    · exact absurd ((hcount 743 (by decide)).mp hfew) (Nat.not_lt.mpr hexact)
  · have hexact := x.exactDigits_le _ (x.units_le 2045 x.scale_le)
    refine (hcount 1384 (by decide)).mpr (Nat.lt_of_le_of_lt hexact ?_)
    decide +kernel

theorem readsBack_exact {x : Magnitude} (h : x.significand ≠ 0) :
    x.readsBack ⟨x.exactDigits, -1074⟩ = true := by
  obtain ⟨hlow, hhigh⟩ := digitCount_exactDigits h
  have hne : x.exactDigits ≠ 0 := by
    intro hzero
    rw [hzero] at hlow
    exact absurd hlow (by decide)
  have hnum : (-1074 : Int).toNat = 0 := rfl
  have hden : (-(-1074) : Int).toNat = 1074 := rfl
  have hquotient : ∀ k, nearest? (x.units * Nat.pow 5 k * Nat.pow 10 0 * Nat.pow 2 k) (Nat.pow 10 k) =
      some x := by
    intro k
    have hten : Nat.pow 10 k = Nat.pow 5 k * Nat.pow 2 k := Nat.mul_pow 5 2 k
    have hone : Nat.pow 10 0 = 1 := rfl
    have hself := nearest?_mul_right (k := Nat.pow 10 k) (Nat.pow_pos (by decide)) x.units 1
    rw [Nat.one_mul, nearest?_units h] at hself
    rw [hone, Nat.mul_one, Nat.mul_assoc, ← hten, hself]
  rw [readsBack, decide_eq_true_iff, ofDecimal?_of_ne_zero hne, if_neg (by omega), if_neg (by omega),
    hnum, hden]
  unfold exactDigits
  generalize 1074 = k
  exact hquotient k

/-! ### The search -/

theorem digits_ne_zero_of_readsBack {x : Magnitude} (h : x.significand ≠ 0) {d : Decimal}
    (hd : x.readsBack d = true) : d.digits ≠ 0 := by
  intro hzero
  rw [readsBack, decide_eq_true_iff, ofDecimal?, if_pos hzero] at hd
  cases hd
  exact h rfl

theorem readsBack_stripZeros {x : Magnitude} (fuel : Nat) {d : Decimal} (h : x.readsBack d = true) :
    x.readsBack (stripZeros fuel d) = true := by
  induction fuel generalizing d with
  | zero => exact h
  | succ fuel ih =>
    rw [stripZeros]
    split
    · rename_i hzero
      apply ih
      have hdigits : d.digits = d.digits / 10 * 10 := by omega
      rw [readsBack, decide_eq_true_iff] at h ⊢
      rw [← ofDecimal?_mul_ten, ← hdigits]
      exact h
    · exact h

/-- The shortest decimal of a magnitude denotes it. -/
theorem readsBack_shortest {x : Magnitude} (h : x.significand ≠ 0) :
    x.readsBack x.shortest = true := by
  unfold shortest
  apply readsBack_stripZeros
  cases hfound : (List.range 17).findSome? fun n =>
      x.neighbour? x.exactDigits (digitCount x.exactDigits) (n + 1) with
  | none => exact readsBack_exact h
  | some d => exact readsBack_shortest_of_search hfound

theorem ofDecimal?_shortest {x : Magnitude} (h : x.significand ≠ 0) :
    ofDecimal? x.shortest = some x := decide_eq_true_iff.mp (readsBack_shortest h)

theorem digits_shortest_ne_zero {x : Magnitude} (h : x.significand ≠ 0) : x.shortest.digits ≠ 0 :=
  digits_ne_zero_of_readsBack h (readsBack_shortest h)

end Ontogram.Magnitude
