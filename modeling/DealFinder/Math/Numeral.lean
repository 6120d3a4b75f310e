/-
# Numerals

Numbers as they are written in a base up to sixteen. Reading a written number gives it back
(`readNumeral_toDigits`), and a decimal text without needless zeros is the one that is written
(`toDigits_of_readNumeral`).
-/

import Mathlib.Data.List.Basic
import Mathlib.Data.List.Induction

namespace DealFinder.Math

/-- The value of a digit. -/
def digitValue? (c : Char) : Option ℕ :=
  if c.isDigit then some (c.toNat - 48)
  else if 'a' ≤ c ∧ c ≤ 'f' then some (c.toNat - 87)
  else if 'A' ≤ c ∧ c ≤ 'F' then some (c.toNat - 55)
  else none

/-- A number with one more digit. -/
def addDigit (base n : ℕ) (c : Char) : Option ℕ :=
  match digitValue? c with
  | some d => if d < base then some (base * n + d) else none
  | none => none

/-- The number that digits spell in a base. -/
def readNumeral (base : ℕ) (s : List Char) : Option ℕ := s.foldlM (addDigit base) 0

section Numeral

variable {base n m : ℕ} {s : List Char} {c : Char}

theorem readNumeral_concat (base : ℕ) (s : List Char) (c : Char) :
    readNumeral base (s ++ [c]) = (readNumeral base s).bind fun n => addDigit base n c := by
  rw [readNumeral, List.foldlM_append]
  cases hs : readNumeral base s with
  | none =>
      rw [readNumeral] at hs
      rw [hs]
      rfl
  | some n =>
      rw [readNumeral] at hs
      rw [hs]
      show (addDigit base n c).bind pure = addDigit base n c
      cases addDigit base n c with
      | none => rfl
      | some m => rfl

theorem addDigit_eq_some_iff : addDigit base n c = some m ↔
    ∃ d, digitValue? c = some d ∧ d < base ∧ m = base * n + d := by
  rw [addDigit]
  cases hc : digitValue? c with
  | none => simp
  | some d =>
      by_cases hd : d < base
      · simp [hd, eq_comm]
      · simp [hd]

theorem readNumeral_concat_eq_some_iff : readNumeral base (s ++ [c]) = some n ↔
    ∃ m d, readNumeral base s = some m ∧ digitValue? c = some d ∧ d < base ∧
      n = base * m + d := by
  rw [readNumeral_concat, Option.bind_eq_some_iff]
  simp only [addDigit_eq_some_iff]
  constructor
  · rintro ⟨m, hm, d, hd, hlt, rfl⟩
    exact ⟨m, d, hm, hd, hlt, rfl⟩
  · rintro ⟨m, d, hm, hd, hlt, rfl⟩
    exact ⟨m, hm, d, hd, hlt, rfl⟩

theorem digitValue?_digitChar : ∀ d < 16, digitValue? (Nat.digitChar d) = some d := by decide

/-- A written number is read back. -/
theorem readNumeral_toDigits (hb : 1 < base) (hb' : base ≤ 16) (n : ℕ) :
    readNumeral base (Nat.toDigits base n) = some n := by
  induction n using Nat.strongRecOn with
  | ind n ih =>
      rw [Nat.toDigits_eq_if hb]
      split_ifs with hn
      · have hread : readNumeral base ([] ++ [Nat.digitChar n]) = some n :=
          readNumeral_concat_eq_some_iff.2
            ⟨0, n, rfl, digitValue?_digitChar n (by omega), hn, by omega⟩
        exact hread
      · have hlt : n / base < n := Nat.div_lt_self (by omega) hb
        have hmod : n % base < base := Nat.mod_lt n (by omega)
        exact readNumeral_concat_eq_some_iff.2 ⟨n / base, n % base, ih _ hlt,
          digitValue?_digitChar _ (by omega), hmod, (Nat.div_add_mod n base).symm⟩

/-- A decimal digit is the one that is written for its value. -/
theorem eq_digitChar {d : ℕ} (h : digitValue? c = some d) (hd : d < 10) : c = Nat.digitChar d := by
  have hchar : ∀ k < 10, Nat.digitChar k = Char.ofNat (48 + k) := by decide
  rw [digitValue?] at h
  split_ifs at h with hdigit hlow hhigh
  · obtain rfl := Option.some_inj.1 h
    obtain ⟨hle, -⟩ := Char.isDigit_iff_toNat.1 hdigit
    have hle' : 48 ≤ c.toNat := hle
    rw [hchar _ hd, Nat.add_sub_cancel' hle', Char.ofNat_toNat]
  · obtain rfl := Option.some_inj.1 h
    have hle : 97 ≤ c.toNat := hlow.1
    omega
  · obtain rfl := Option.some_inj.1 h
    have hle : 65 ≤ c.toNat := hhigh.1
    omega

/-- A decimal text without needless zeros is the one that is written. -/
theorem toDigits_of_readNumeral (h : readNumeral 10 s = some n) (hne : s ≠ [])
    (hzeros : s = ['0'] ∨ s.head? ≠ some '0') : Nat.toDigits 10 n = s := by
  induction s using List.reverseRecOn generalizing n with
  | nil => exact absurd rfl hne
  | append_singleton s c ih =>
      obtain ⟨m, d, hm, hc, hd, rfl⟩ := readNumeral_concat_eq_some_iff.1 h
      rw [eq_digitChar hc hd]
      cases s with
      | nil =>
          obtain rfl : 0 = m := Option.some_inj.1 hm
          rw [Nat.mul_zero, Nat.zero_add, Nat.toDigits_of_lt_base hd]
          rfl
      | cons x s =>
          have hhead : (x :: s).head? ≠ some '0' := by
            rcases hzeros with hone | hhead
            · simp at hone
            · exact hhead
          have hs := ih hm (by simp) (.inr hhead)
          have hpos : 0 < m := by
            by_contra hzero
            have hm0 : m = 0 := by omega
            rw [hm0, Nat.toDigits_zero] at hs
            rw [← hs] at hhead
            exact hhead rfl
          rw [← Nat.toDigits_append_toDigits (by decide) hpos hd, hs, Nat.toDigits_of_lt_base hd]

end Numeral

end DealFinder.Math
