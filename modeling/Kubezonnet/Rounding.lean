/-
# Rounding natural numbers to a floating-point precision

A binary floating-point format of precision `p` has the natural numbers with at
most `p` significant bits.  A number that is not one of them is rounded to the
nearest that is, and to the one with an even significand when two are as near.

* `representable_round`: the result has at most `p` significant bits;
* `round_nearest`: no number with at most `p` significant bits is nearer;
* `round_of_le`: up to `2 ^ p` nothing is lost;
* `round_mono`: rounding keeps the order;
* `dist_round_le`: the loss is at most a `2 ^ p`-th part of the number.
-/
import Mathlib

namespace Rounding

/-! ## Multiples of a unit -/

/-- The multiple of `u` that is nearest to `n`, the even one of two. -/
def nearestMultiple (u n : ℕ) : ℕ :=
  if 2 * (n % u) < u ∨ 2 * (n % u) = u ∧ n / u % 2 = 0 then n / u * u else (n / u + 1) * u

section Multiples

variable {u : ℕ}

theorem dvd_nearestMultiple (u n : ℕ) : u ∣ nearestMultiple u n := by
  unfold nearestMultiple
  split_ifs
  · exact Dvd.intro_left _ rfl
  · exact Dvd.intro_left _ rfl

/-- The nearest multiple is one of the two around the number. -/
theorem nearestMultiple_bounds (u n : ℕ) :
    n / u * u ≤ nearestMultiple u n ∧ nearestMultiple u n ≤ (n / u + 1) * u := by
  unfold nearestMultiple
  have hle : n / u * u ≤ (n / u + 1) * u := Nat.mul_le_mul_right u (Nat.le_succ _)
  split_ifs
  · exact ⟨le_refl _, hle⟩
  · exact ⟨hle, le_refl _⟩

/-- The nearest multiple is at most half a unit away. -/
theorem two_mul_dist_nearestMultiple (hu : 0 < u) (n : ℕ) :
    2 * Nat.dist n (nearestMultiple u n) ≤ u := by
  have hsplit : n / u * u + n % u = n := Nat.div_add_mod' n u
  have hmod : n % u < u := Nat.mod_lt n hu
  unfold nearestMultiple Nat.dist
  rw [Nat.add_one_mul (n / u) u]
  split_ifs with hhalf
  · omega
  · omega

/-- A multiple below the number is below its nearest multiple. -/
theorem le_nearestMultiple (hu : 0 < u) {n m : ℕ} (hm : u ∣ m) (hle : m ≤ n) :
    m ≤ nearestMultiple u n := by
  obtain ⟨q, rfl⟩ := hm
  have hq : q ≤ n / u := by
    rw [Nat.le_div_iff_mul_le hu, Nat.mul_comm]
    exact hle
  calc u * q = q * u := Nat.mul_comm u q
    _ ≤ n / u * u := Nat.mul_le_mul_right u hq
    _ ≤ nearestMultiple u n := (nearestMultiple_bounds u n).1

/-- A multiple above the number is above its nearest multiple. -/
theorem nearestMultiple_le (hu : 0 < u) {n m : ℕ} (hm : u ∣ m) (hle : n ≤ m) :
    nearestMultiple u n ≤ m := by
  obtain ⟨q, rfl⟩ := hm
  have hsplit : n / u * u + n % u = n := Nat.div_add_mod' n u
  by_cases hrem : n % u = 0
  · -- the number is a multiple itself
    have hsame : nearestMultiple u n = n / u * u := if_pos (Or.inl (by omega))
    rw [hsame]
    omega
  · have hq : n / u < q := by
      have hlt : n / u * u < q * u := by
        rw [Nat.mul_comm q u]
        omega
      exact Nat.lt_of_mul_lt_mul_right hlt
    calc nearestMultiple u n ≤ (n / u + 1) * u := (nearestMultiple_bounds u n).2
      _ ≤ q * u := Nat.mul_le_mul_right u hq
      _ = u * q := Nat.mul_comm q u

/-- No multiple is nearer. -/
theorem nearestMultiple_nearest (hu : 0 < u) {n m : ℕ} (hm : u ∣ m) :
    Nat.dist n (nearestMultiple u n) ≤ Nat.dist n m := by
  have hsplit : n / u * u + n % u = n := Nat.div_add_mod' n u
  have hmod : n % u < u := Nat.mod_lt n hu
  -- a multiple is at most the one below the number, or at least the one above
  have haround : m ≤ n / u * u ∨ n / u * u + u ≤ m := by
    obtain ⟨q, rfl⟩ := hm
    rcases Nat.lt_or_ge (n / u) q with hlt | hge
    · right
      rw [← Nat.add_one_mul, Nat.mul_comm u q]
      exact Nat.mul_le_mul_right u hlt
    · left
      rw [Nat.mul_comm u q]
      exact Nat.mul_le_mul_right u hge
  unfold nearestMultiple Nat.dist
  rw [Nat.add_one_mul (n / u) u]
  split_ifs with hhalf
  · omega
  · omega

/-- Numbers keep their order in their nearest multiples. -/
theorem nearestMultiple_mono (hu : 0 < u) {n m : ℕ} (hle : n ≤ m) :
    nearestMultiple u n ≤ nearestMultiple u m := by
  rcases Nat.lt_or_ge (n / u) (m / u) with hlt | hge
  · calc nearestMultiple u n ≤ (n / u + 1) * u := (nearestMultiple_bounds u n).2
      _ ≤ m / u * u := Nat.mul_le_mul_right u hlt
      _ ≤ nearestMultiple u m := (nearestMultiple_bounds u m).1
  · -- both lie between the same two multiples
    have hq : m / u = n / u := le_antisymm hge (Nat.div_le_div_right hle)
    have hn : n / u * u + n % u = n := Nat.div_add_mod' n u
    have hm : m / u * u + m % u = m := Nat.div_add_mod' m u
    rw [hq] at hm
    unfold nearestMultiple
    rw [hq, Nat.add_one_mul (n / u) u]
    split_ifs with h h'
    · exact le_refl _
    · omega
    · omega
    · exact le_refl _

end Multiples

/-! ## Precision -/

/-- The number has at most `p` significant bits. -/
def Representable (p n : ℕ) : Prop := ∃ m e, m < 2 ^ p ∧ n = m * 2 ^ e

/-- The exponent of the last place of a number that is rounded to `p` bits. -/
def exponent (p n : ℕ) : ℕ := n.log2 + 1 - p

/-- The number rounded to `p` bits, to the nearest and then the even significand. -/
def round (p n : ℕ) : ℕ := nearestMultiple (2 ^ exponent p n) n

variable {p : ℕ}

theorem lt_two_pow_exponent (p n : ℕ) : n < 2 ^ (p + exponent p n) := by
  refine Nat.lt_of_lt_of_le Nat.lt_log2_self (Nat.pow_le_pow_right (by decide) ?_)
  unfold exponent
  omega

/-- A number whose last place is not the first bit has `p` bits above it. -/
theorem le_of_exponent_ne_zero (hp : 0 < p) {n : ℕ} (he : exponent p n ≠ 0) :
    2 ^ (p + exponent p n - 1) ≤ n := by
  have hn : n ≠ 0 := by
    rintro rfl
    refine he ?_
    rw [exponent, Nat.log2_zero]
    omega
  have hexp : p + exponent p n - 1 = n.log2 := by
    unfold exponent at he ⊢
    omega
  rw [hexp]
  exact Nat.log2_self_le hn

theorem exponent_mono {n m : ℕ} (hle : n ≤ m) : exponent p n ≤ exponent p m := by
  have hlog : n.log2 ≤ m.log2 := by
    by_cases hn : n = 0
    · rw [hn, Nat.log2_zero]
      exact Nat.zero_le _
    · have hm : m ≠ 0 := by omega
      exact (Nat.le_log2 hm).2 ((Nat.log2_self_le hn).trans hle)
  unfold exponent
  omega

/-- A power of two beyond the precision is a multiple of the last place. -/
theorem two_pow_dvd {e k : ℕ} (h : e ≤ k) : 2 ^ e ∣ 2 ^ k := Nat.pow_dvd_pow 2 h

/-- The rounded number has at most `p` significant bits. -/
theorem representable_round (hp : 0 < p) (n : ℕ) : Representable p (round p n) := by
  obtain ⟨q, hq⟩ := dvd_nearestMultiple (2 ^ exponent p n) n
  have hbound : round p n ≤ 2 ^ (p + exponent p n) :=
    nearestMultiple_le (by positivity) (two_pow_dvd (Nat.le_add_left _ _))
      (lt_two_pow_exponent p n).le
  have hqle : q ≤ 2 ^ p := by
    rw [round, hq, Nat.add_comm, Nat.pow_add] at hbound
    exact Nat.le_of_mul_le_mul_left hbound (by positivity)
  rcases Nat.lt_or_ge q (2 ^ p) with hlt | hge
  · exact ⟨q, exponent p n, hlt, by rw [round, hq, Nat.mul_comm]⟩
  · -- the significand is rounded up to the next power of two
    refine ⟨2 ^ (p - 1), exponent p n + 1, Nat.pow_lt_pow_right (by decide) (by omega), ?_⟩
    rw [round, hq, le_antisymm hqle hge, ← Nat.pow_add, ← Nat.pow_add]
    congr 1
    omega

/-- No number with at most `p` significant bits is nearer. -/
theorem round_nearest (hp : 0 < p) {n m : ℕ} (hm : Representable p m) :
    Nat.dist n (round p n) ≤ Nat.dist n m := by
  obtain ⟨a, f, ha, rfl⟩ := hm
  by_cases hdvd : exponent p n ≤ f
  · exact nearestMultiple_nearest (by positivity) (Dvd.dvd.mul_left (two_pow_dvd hdvd) a)
  · -- a number with a finer last place lies below the power of two below `n`
    have he : exponent p n ≠ 0 := by omega
    have hpow : 2 ^ (p + exponent p n - 1) ≤ n := le_of_exponent_ne_zero hp he
    have hbelow : a * 2 ^ f ≤ 2 ^ (p + exponent p n - 1) := by
      calc a * 2 ^ f ≤ 2 ^ p * 2 ^ f := Nat.mul_le_mul_right _ ha.le
        _ = 2 ^ (p + f) := (Nat.pow_add 2 p f).symm
        _ ≤ 2 ^ (p + exponent p n - 1) := Nat.pow_le_pow_right (by decide) (by omega)
    have hnear : Nat.dist n (round p n) ≤ Nat.dist n (2 ^ (p + exponent p n - 1)) :=
      nearestMultiple_nearest (by positivity) (two_pow_dvd (by omega))
    refine hnear.trans ?_
    rw [Nat.dist_eq_sub_of_le_right hpow, Nat.dist_eq_sub_of_le_right (hbelow.trans hpow)]
    exact Nat.sub_le_sub_left hbelow n

/-- A number with at most `p` significant bits is its own rounding. -/
theorem round_of_representable (hp : 0 < p) {n : ℕ} (hn : Representable p n) : round p n = n := by
  have hdist := round_nearest hp (n := n) hn
  rw [Nat.dist_self] at hdist
  exact (Nat.eq_of_dist_eq_zero (Nat.le_zero.1 hdist)).symm

/-- Up to `2 ^ p` nothing is lost. -/
theorem round_of_le (hp : 0 < p) {n : ℕ} (hn : n ≤ 2 ^ p) : round p n = n := by
  apply round_of_representable hp
  rcases Nat.lt_or_ge n (2 ^ p) with hlt | hge
  · exact ⟨n, 0, hlt, by rw [Nat.pow_zero, Nat.mul_one]⟩
  · refine ⟨1, p, Nat.one_lt_two_pow (by omega), ?_⟩
    rw [Nat.one_mul]
    exact le_antisymm hn hge

/-- Rounding keeps the order. -/
theorem round_mono (hp : 0 < p) {n m : ℕ} (hle : n ≤ m) : round p n ≤ round p m := by
  rcases Nat.lt_or_ge (exponent p n) (exponent p m) with hlt | hge
  · -- a power of two lies between the numbers
    have he : exponent p m ≠ 0 := by omega
    calc round p n ≤ 2 ^ (p + exponent p n) :=
          nearestMultiple_le (by positivity) (two_pow_dvd (Nat.le_add_left _ _))
            (lt_two_pow_exponent p n).le
      _ ≤ 2 ^ (p + exponent p m - 1) := Nat.pow_le_pow_right (by decide) (by omega)
      _ ≤ round p m :=
          le_nearestMultiple (by positivity) (two_pow_dvd (by omega)) (le_of_exponent_ne_zero hp he)
  · have he : exponent p m = exponent p n := le_antisymm hge (exponent_mono hle)
    unfold round
    rw [he]
    exact nearestMultiple_mono (by positivity) hle

/-- The loss is at most a `2 ^ p`-th part of the number. -/
theorem dist_round_le (hp : 0 < p) (n : ℕ) : 2 ^ p * Nat.dist n (round p n) ≤ n := by
  have hhalf : 2 * Nat.dist n (round p n) ≤ 2 ^ exponent p n :=
    two_mul_dist_nearestMultiple (by positivity) n
  by_cases he : exponent p n = 0
  · -- the unit is one, and no number is half a unit away
    rw [he, Nat.pow_zero] at hhalf
    have hzero : Nat.dist n (round p n) = 0 := by omega
    rw [hzero, Nat.mul_zero]
    exact Nat.zero_le n
  · have hexp : 2 * 2 ^ (p + exponent p n - 1) = 2 ^ p * 2 ^ exponent p n := by
      rw [← Nat.pow_succ', ← Nat.pow_add]
      congr 1
      omega
    have hpow : 2 ^ (p + exponent p n - 1) ≤ n := le_of_exponent_ne_zero hp he
    have hscaled : 2 ^ p * (2 * Nat.dist n (round p n)) ≤ 2 ^ p * 2 ^ exponent p n :=
      Nat.mul_le_mul_left _ hhalf
    rw [Nat.mul_left_comm] at hscaled
    omega

/-- A number halfway between two significands goes to the even one. -/
example : round 53 (2 ^ 53 + 1) = 2 ^ 53 ∧ round 53 (2 ^ 53 + 3) = 2 ^ 53 + 4 := by decide

end Rounding
