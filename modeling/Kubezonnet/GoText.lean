/-
# Numbers and lines as Go prints them

`strconv.Itoa` and the verb `%d` print an integer in decimal; `fmt.Println` puts
a space between its operands.  What `Itoa` prints `strconv.Atoi` reads back
(`atoi_itoa`), `strconv.ParseUint` reads back what `%d` prints of an unsigned
integer (`parseUint_utoa`), and words without spaces are got back from a line by
splitting it (`splitOn_println`).
-/
import Kubezonnet.GoNet

namespace GoNet

/-! ## Translation -/

/-- `strconv.Itoa`, and the verb `%d`. -/
def itoa (n : ℤ) : List Char :=
  if n < 0 then '-' :: Nat.toDigits 10 n.natAbs else Nat.toDigits 10 n.natAbs

/-- The verb `%d` of an unsigned integer. -/
def utoa (n : ℕ) : List Char := Nat.toDigits 10 n

/-- `strconv.ParseUint` in base ten for 64 bits. -/
def parseUint (s : List Char) : Option ℕ :=
  if s = [] then none
  else (atoiDigits s 0).bind fun n => if n < 2 ^ 64 then some n else none

/-- The line of `fmt.Println` or `log.Println`, without its end and a time stamp. -/
def println (operands : List (List Char)) : List Char := [' '].intercalate operands

/-! ## Numbers -/

/-- A digit is read back as itself, and is no sign and no space. -/
theorem natDigitChar_spec {n : ℕ} (h : n < 10) :
    isDigit n.digitChar = true ∧ digitVal n.digitChar = n
      ∧ n.digitChar ≠ '-' ∧ n.digitChar ≠ '+' ∧ n.digitChar ≠ ' ' := by
  interval_cases n <;> decide

theorem atoiDigits_append (cs : List Char) (c : Char) (acc : ℕ) :
    atoiDigits (cs ++ [c]) acc
      = (atoiDigits cs acc).bind fun n => if isDigit c then some (n * 10 + digitVal c) else none := by
  induction cs generalizing acc with
  | nil => rfl
  | cons d cs ih =>
      rw [List.cons_append, atoiDigits, atoiDigits]
      by_cases hd : isDigit d
      · rw [if_pos hd, if_pos hd]
        exact ih _
      · rw [if_neg hd, if_neg hd]
        rfl

/-- The digits of a number are read back. -/
theorem atoiDigits_toDigits (n : ℕ) : atoiDigits (Nat.toDigits 10 n) 0 = some n := by
  induction n using Nat.strong_induction_on with
  | _ n ih =>
      by_cases hn : n < 10
      · obtain ⟨hdigit, hval, -⟩ := natDigitChar_spec hn
        rw [Nat.toDigits_of_lt_base hn, atoiDigits, if_pos hdigit, hval, Nat.zero_mul, Nat.zero_add,
          atoiDigits]
      · -- the last digit comes off the end
        obtain ⟨hdigit, hval, -⟩ := natDigitChar_spec (Nat.mod_lt n (by decide : 0 < 10))
        rw [Nat.toDigits_of_base_le (by decide) (Nat.le_of_not_lt hn), atoiDigits_append,
          ih (n / 10) (Nat.div_lt_self (by omega) (by decide)), Option.bind_some, if_pos hdigit, hval]
        congr 1
        omega

/-- The characters of a number are digits. -/
theorem exists_digit_of_mem {n : ℕ} {c : Char} (h : c ∈ Nat.toDigits 10 n) :
    ∃ d < 10, c = Nat.digitChar d := by
  induction n using Nat.strong_induction_on with
  | _ n ih =>
      by_cases hn : n < 10
      · rw [Nat.toDigits_of_lt_base hn, List.mem_singleton] at h
        exact ⟨n, hn, h⟩
      · rw [Nat.toDigits_of_base_le (by decide) (Nat.le_of_not_lt hn)] at h
        rcases List.mem_append.1 h with hinit | hlast
        · exact ih (n / 10) (Nat.div_lt_self (by omega) (by decide)) hinit
        · exact ⟨n % 10, Nat.mod_lt n (by decide), List.mem_singleton.1 hlast⟩

/-- A number starts with a digit. -/
theorem toDigits_eq_cons (n : ℕ) :
    ∃ d < 10, ∃ ds, Nat.toDigits 10 n = Nat.digitChar d :: ds := by
  cases hdigits : Nat.toDigits 10 n with
  | nil => exact absurd hdigits Nat.toDigits_ne_nil
  | cons c ds =>
      have hmem : c ∈ Nat.toDigits 10 n := by
        rw [hdigits]
        exact List.mem_cons_self
      obtain ⟨d, hd, rfl⟩ := exists_digit_of_mem hmem
      exact ⟨d, hd, ds, rfl⟩

/-- `strconv.Atoi` reads back what `strconv.Itoa` prints. -/
theorem atoi_itoa {n : ℤ} (hlow : -2 ^ 63 ≤ n) (hhigh : n < 2 ^ 63) : atoi (itoa n) = some n := by
  obtain ⟨d, hd, ds, hdigits⟩ := toDigits_eq_cons n.natAbs
  obtain ⟨-, -, hminus, hplus, -⟩ := natDigitChar_spec hd
  have hread := atoiDigits_toDigits n.natAbs
  unfold itoa
  split_ifs with hneg
  · have habs : -(n.natAbs : ℤ) = n := by omega
    generalize n.natAbs = a at *
    rw [hdigits] at hread ⊢
    simp [atoi, hread, habs]
    omega
  · have habs : (n.natAbs : ℤ) = n := by omega
    generalize n.natAbs = a at *
    rw [hdigits] at hread ⊢
    simp [atoi, hread, hminus, hplus, habs]
    omega

/-- There is no space in a number. -/
theorem space_notMem_itoa (n : ℤ) : ' ' ∉ itoa n := by
  have hdigits : ' ' ∉ Nat.toDigits 10 n.natAbs := by
    intro h
    obtain ⟨d, hd, heq⟩ := exists_digit_of_mem h
    exact (natDigitChar_spec hd).2.2.2.2 heq.symm
  unfold itoa
  split_ifs
  · exact List.not_mem_cons_of_ne_of_not_mem (by decide) hdigits
  · exact hdigits

/-- `strconv.ParseUint` reads back an unsigned integer. -/
theorem parseUint_utoa {n : ℕ} (h : n < 2 ^ 64) : parseUint (utoa n) = some n := by
  unfold parseUint utoa
  rw [if_neg Nat.toDigits_ne_nil, atoiDigits_toDigits, Option.bind_some, if_pos h]

/-- There is nothing but digits in an unsigned integer. -/
theorem notMem_utoa {c : Char} (hc : ∀ d < 10, c ≠ Nat.digitChar d) (n : ℕ) : c ∉ utoa n := by
  intro h
  obtain ⟨d, hd, heq⟩ := exists_digit_of_mem h
  exact hc d hd heq

/-! ## Lines -/

/-- Words without spaces are got back from a line. -/
theorem splitOn_println {words : List (List Char)} (hne : words ≠ [])
    (hwords : ∀ word ∈ words, ' ' ∉ word) : (println words).splitOn ' ' = words :=
  List.splitOn_intercalate ' ' hwords hne

end GoNet
