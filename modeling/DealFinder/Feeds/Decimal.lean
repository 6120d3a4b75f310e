/-
# Floats written out

A finite float in full: its digits before the point and behind it. Every float has a finite
decimal expansion, and its text is read back as it (`scanNumber_decimalText`).
-/

import DealFinder.Feeds.JsonText
import DealFinder.Feeds.Nearest
import DealFinder.Math.Numeral
import Mathlib.Data.List.TakeWhile
import Mathlib.Data.Nat.Prime.Basic

namespace DealFinder.Feeds

/-- How many digits a fraction over a power of two has behind the point, at least one. -/
def decimals (x : ℚ) : ℕ := max 1 (Nat.log2 x.den)

/-- The last digits of a number, so many. -/
def padDigits : ℕ → ℕ → List Char
  | 0, _ => []
  | k + 1, n => padDigits k (n / 10) ++ [Nat.digitChar (n % 10)]

/-- A number with its point moved behind its last digit. -/
def shifted (x : ℚ) : ℕ := (|x| * 10 ^ decimals x).num.natAbs

/-- A number written out. -/
def decimalText (x : ℚ) : List Char :=
  (if x < 0 then ['-'] else []) ++
    (Nat.toDigits 10 (shifted x / 10 ^ decimals x) ++
      '.' :: padDigits (decimals x) (shifted x % 10 ^ decimals x))

example : decimalText (-89 / 2) = "-44.5".toList := by decide +kernel

/-! ## Digits -/

theorem isDigit_digitChar : ∀ d < 10, (Nat.digitChar d).isDigit = true := by decide

theorem isDigit_padDigits (k n : ℕ) : ∀ c ∈ padDigits k n, c.isDigit = true := by
  induction k generalizing n with
  | zero => exact fun c hc => absurd hc List.not_mem_nil
  | succ k ih =>
      rw [padDigits, List.forall_mem_append, List.forall_mem_singleton]
      exact ⟨ih (n / 10), isDigit_digitChar _ (Nat.mod_lt n (by decide))⟩

theorem length_padDigits (k n : ℕ) : (padDigits k n).length = k := by
  induction k generalizing n with
  | zero => rfl
  | succ k ih => rw [padDigits, List.length_append, ih, List.length_singleton]

theorem isDigit_toDigits (n : ℕ) : ∀ c ∈ Nat.toDigits 10 n, c.isDigit = true := by
  intro c hc
  exact Nat.isDigit_of_mem_toDigits (by decide) (by decide) hc

theorem digitsNumber_concat (s : List Char) {d : ℕ} (hd : d < 10) :
    digitsNumber (s ++ [Nat.digitChar d]) = 10 * digitsNumber s + d := by
  have hvalue : ∀ d < 10, (Nat.digitChar d).toNat - '0'.toNat = d := by decide
  rw [digitsNumber, List.foldl_append, List.foldl_cons, List.foldl_nil, hvalue d hd]
  rfl

theorem digitsNumber_toDigits (n : ℕ) : digitsNumber (Nat.toDigits 10 n) = n := by
  induction n using Nat.strongRecOn with
  | ind n ih =>
      rw [Nat.toDigits_eq_if (by decide)]
      split_ifs with hn
      · exact (digitsNumber_concat [] hn).trans (Nat.zero_add n)
      · rw [digitsNumber_concat _ (Nat.mod_lt n (by decide)), ih (n / 10) (by omega)]
        omega

theorem digitsNumber_padDigits (s : List Char) (k n : ℕ) :
    digitsNumber (s ++ padDigits k n) = digitsNumber s * 10 ^ k + n % 10 ^ k := by
  induction k generalizing n with
  | zero => rw [padDigits, List.append_nil, Nat.pow_zero, Nat.mod_one, Nat.mul_one, Nat.add_zero]
  | succ k ih =>
      have hsplit : n % 10 ^ (k + 1) = 10 * (n / 10 % 10 ^ k) + n % 10 := by
        rw [Nat.pow_succ, Nat.mul_comm (10 ^ k) 10, Nat.mod_mul]
        omega
      rw [padDigits, ← List.append_assoc, digitsNumber_concat _ (Nat.mod_lt n (by decide)), ih,
        hsplit, Nat.pow_succ]
      ring

/-- No zero is written in front of a number. -/
theorem head?_toDigits {n : ℕ} (hn : 0 < n) : (Nat.toDigits 10 n).head? ≠ some '0' := by
  induction n using Nat.strongRecOn with
  | ind n ih =>
      rw [Nat.toDigits_eq_if (by decide)]
      split_ifs with hsmall
      · have hdigit : ∀ d < 10, 0 < d → Nat.digitChar d ≠ '0' := by decide
        intro h
        exact hdigit n hsmall hn (Option.some_inj.1 h)
      · rw [List.head?_append_of_ne_nil _ Nat.toDigits_ne_nil]
        exact ih (n / 10) (by omega) (by omega)

theorem takeWhile_digits {s : List Char} (hs : ∀ c ∈ s, c.isDigit = true) (rest : List Char)
    (hrest : ∀ c ∈ rest.head?, c.isDigit = false) :
    (s ++ rest).takeWhile Char.isDigit = s ∧ (s ++ rest).dropWhile Char.isDigit = rest := by
  obtain ⟨htake, hdrop⟩ := @takeWhile_append_of_stop s rest Char.isDigit fun _ => hrest
  rw [List.takeWhile_eq_self_iff.2 hs] at htake
  rw [List.dropWhile_eq_nil_iff.2 hs] at hdrop
  exact ⟨htake, hdrop⟩

/-- The digits of a number are scanned, up to what is no digit. -/
theorem scanWhole_toDigits (n : ℕ) {rest : List Char}
    (hrest : ∀ c ∈ rest.head?, c.isDigit = false) :
    scanWhole (Nat.toDigits 10 n ++ rest) = some (Nat.toDigits 10 n, rest) := by
  have hall := isDigit_toDigits n
  rcases Nat.eq_zero_or_pos n with rfl | hpos
  · rfl
  · have hhead := head?_toDigits hpos
    cases hdigits : Nat.toDigits 10 n with
    | nil => exact absurd hdigits Nat.toDigits_ne_nil
    | cons c s =>
        rw [hdigits] at hall hhead
        obtain ⟨hc, hs⟩ := List.forall_mem_cons.1 hall
        have hzero : c ≠ '0' := fun h => hhead (by rw [h]; rfl)
        obtain ⟨htake, hdrop⟩ := takeWhile_digits hs rest hrest
        rw [List.cons_append, scanWhole, if_neg hzero, if_pos hc, htake, hdrop]

/-! ## Reading it back -/

open Double

theorem den_abs (x : ℚ) : |x|.den = x.den := by
  rcases abs_choice x with h | h
  · rw [h]
  · rw [h, Rat.den_neg_eq_den]

/-- The denominator of a float is a power of two. -/
theorem den_dvd {x : ℚ} (h : (finite x).IsFloat) : x.den ∣ 2 ^ Nat.log2 x.den := by
  obtain ⟨m, k, hx⟩ := h.exists_pow
  have hwhole : |x| = ((m * 2 ^ k.toNat : ℤ) : ℚ) / ((2 ^ (-k).toNat : ℤ) : ℚ) := by
    have hsplit : (2 : ℚ) ^ k = 2 ^ k.toNat / 2 ^ (-k).toNat := by
      rw [← zpow_natCast, ← zpow_natCast, ← zpow_sub₀ two_ne_zero]
      congr 1
      omega
    rw [hx, hsplit]
    push_cast
    ring
  have hdvd : (x.den : ℤ) ∣ 2 ^ (-k).toNat := by
    rw [← den_abs, hwhole]
    rw [← Rat.divInt_eq_div]
    exact Rat.den_dvd _ _
  have hdvd' : x.den ∣ 2 ^ (-k).toNat := by exact_mod_cast hdvd
  obtain ⟨i, -, hi⟩ := (Nat.dvd_prime_pow Nat.prime_two).1 hdvd'
  rw [hi, Nat.log2_two_pow]

/-- A float moved by its decimals is whole. -/
theorem shifted_eq {x : ℚ} (h : (finite x).IsFloat) : (shifted x : ℚ) = |x| * 10 ^ decimals x := by
  have hdvd : x.den ∣ 10 ^ decimals x := by
    calc x.den ∣ 2 ^ Nat.log2 x.den := den_dvd h
      _ ∣ 10 ^ Nat.log2 x.den := pow_dvd_pow_of_dvd (by decide) _
      _ ∣ 10 ^ decimals x := pow_dvd_pow 10 (le_max_right _ _)
  obtain ⟨q, hq⟩ := hdvd
  have hden : (x.den : ℚ) ≠ 0 := Nat.cast_ne_zero.2 x.den_ne_zero
  have hwhole : |x| * 10 ^ decimals x = ((x.num.natAbs * q : ℕ) : ℚ) := by
    have hpow : (10 : ℚ) ^ decimals x = x.den * q := by exact_mod_cast hq
    rw [abs_eq_div, hpow, Nat.cast_mul]
    field_simp
  rw [shifted, hwhole, Rat.num_natCast, Int.natAbs_natCast]

/-- Digits with a point between them. -/
theorem readDecimal_digits {whole cents : List Char} (hwhole : ∀ c ∈ whole, c.isDigit = true)
    (hcents : ∀ c ∈ cents, c.isDigit = true) (hne : whole ≠ []) :
    readDecimal (whole ++ '.' :: cents) =
      some (digitsNumber (whole ++ cents) * (10 : ℚ) ^ (-(cents.length : ℤ))) := by
  have hpoint : ∀ c ∈ ('.' :: cents).head?, c.isDigit = false := by
    intro c hc
    rw [← Option.some_inj.1 hc]
    rfl
  obtain ⟨htake, hdrop⟩ := takeWhile_digits hwhole _ hpoint
  obtain ⟨htake', hdrop'⟩ := takeWhile_digits hcents [] fun c hc => by cases hc
  rw [List.append_nil] at htake' hdrop'
  simp [readDecimal, htake, hdrop, htake', hdrop', hne, readExponent]

/-- A number written out has its value. -/
theorem readDecimal_text {x : ℚ} (h : (finite x).IsFloat) :
    readDecimal (Nat.toDigits 10 (shifted x / 10 ^ decimals x) ++
      '.' :: padDigits (decimals x) (shifted x % 10 ^ decimals x)) = some |x| := by
  have hvalue : digitsNumber (Nat.toDigits 10 (shifted x / 10 ^ decimals x) ++
      padDigits (decimals x) (shifted x % 10 ^ decimals x)) = shifted x := by
    rw [digitsNumber_padDigits, digitsNumber_toDigits, Nat.mod_mod]
    exact Nat.div_add_mod' _ _
  have hpow : (10 : ℚ) ^ decimals x ≠ 0 := pow_ne_zero _ (by norm_num)
  rw [readDecimal_digits (isDigit_toDigits _) (isDigit_padDigits _ _) Nat.toDigits_ne_nil, hvalue,
    length_padDigits, shifted_eq h, zpow_neg, zpow_natCast, mul_inv_cancel_right₀ hpow]

/-- A text that starts with a digit spells no special value. -/
theorem readUnsigned_of_digit {c : Char} (hc : c.isDigit = true) (text : List Char) :
    readUnsigned (c :: text) = (readDecimal (c :: text)).map nearest := by
  have hlower := Math.toLower_of_isDigit hc
  have hne : ∀ d : Char, d.isDigit = false → c ≠ d := by
    rintro d hd rfl
    rw [hc] at hd
    cases hd
  rw [readUnsigned, List.map_cons, hlower, if_neg, if_neg]
  · rintro (h | h)
    · exact hne 'i' rfl (List.cons.inj h).1
    · exact hne 'i' rfl (List.cons.inj h).1
  · intro h
    exact hne 'n' rfl (List.cons.inj h).1

theorem readSigned_of_digit {c : Char} (hc : c.isDigit = true) (text : List Char) :
    readSigned (c :: text) = readUnsigned (c :: text) := by
  have hne : ∀ d : Char, d.isDigit = false → c ≠ d := by
    rintro d hd rfl
    rw [hc] at hd
    cases hd
  rw [readSigned]
  · exact fun rest h => hne '-' rfl (List.cons.inj h).1
  · exact fun rest h => hne '+' rfl (List.cons.inj h).1

/-- The text of a float without its sign is read as a float. -/
theorem readUnsigned_text {x : ℚ} (h : (finite x).IsFloat) :
    readUnsigned (Nat.toDigits 10 (shifted x / 10 ^ decimals x) ++
      '.' :: padDigits (decimals x) (shifted x % 10 ^ decimals x)) = some (finite |x|) ∧
    readSigned (Nat.toDigits 10 (shifted x / 10 ^ decimals x) ++
      '.' :: padDigits (decimals x) (shifted x % 10 ^ decimals x)) = some (finite |x|) := by
  have hvalue := readDecimal_text h
  have hdigits := isDigit_toDigits (shifted x / 10 ^ decimals x)
  obtain ⟨c, s, hs⟩ :=
    List.exists_cons_of_ne_nil (Nat.toDigits_ne_nil (b := 10) (n := shifted x / 10 ^ decimals x))
  rw [hs] at hvalue hdigits ⊢
  have hc := hdigits c List.mem_cons_self
  have hread : readUnsigned (c :: (s ++ '.' :: padDigits (decimals x)
      (shifted x % 10 ^ decimals x))) = some (finite |x|) := by
    have hnearest : nearest |x| = finite |x| := h.abs
    rw [readUnsigned_of_digit hc, ← List.cons_append, hvalue, Option.map_some, hnearest]
  rw [List.cons_append, readSigned_of_digit hc]
  exact ⟨hread, hread⟩

/-- The parts of a number make the number. -/
theorem scanNumber_of_parts {sign text whole left fraction left' exponent rest : List Char}
    {v : Json} (hsign : minusOf (sign ++ text) = sign)
    (hwhole : scanWhole text = some (whole, left))
    (hfraction : scanFraction left = (fraction, left'))
    (hexponent : scanExponent left' = (exponent, rest))
    (hvalue : numberValue sign whole fraction exponent = some v) :
    scanNumber (sign ++ text) = some (v, rest) := by
  rw [scanNumber, hsign, List.drop_left, hwhole]
  simp only [Option.bind_eq_bind, Option.bind_some, hfraction, hexponent, hvalue]
  rfl

/-- A number that is written without a sign has none. -/
theorem minusOf_toDigits (n : ℕ) (rest : List Char) : minusOf (Nat.toDigits 10 n ++ rest) = [] := by
  have hdigits := isDigit_toDigits n
  obtain ⟨c, s, hs⟩ := List.exists_cons_of_ne_nil (Nat.toDigits_ne_nil (b := 10) (n := n))
  rw [hs] at hdigits ⊢
  refine if_neg fun h => ?_
  have hc := hdigits c List.mem_cons_self
  rw [Option.some_inj.1 h] at hc
  exact absurd hc (by decide)

/-- A sign in front of a number, or none. -/
theorem minusOf_signed (negative : Prop) [Decidable negative] (n : ℕ) (rest : List Char) :
    minusOf ((if negative then ['-'] else []) ++ (Nat.toDigits 10 n ++ rest)) =
      if negative then ['-'] else [] := by
  split_ifs
  · rfl
  · exact minusOf_toDigits n rest

/-- A float written out is scanned as itself. -/
theorem scanNumber_decimalText {x : ℚ} (h : (finite x).IsFloat) :
    scanNumber (decimalText x) = some (.float (finite x), []) := by
  obtain ⟨hunsigned, hsigned⟩ := readUnsigned_text h
  have hcents := isDigit_padDigits (decimals x) (shifted x % 10 ^ decimals x)
  have hlength := length_padDigits (decimals x) (shifted x % 10 ^ decimals x)
  have hsome : padDigits (decimals x) (shifted x % 10 ^ decimals x) ≠ [] := by
    intro hnil
    rw [hnil] at hlength
    have hpos : 1 ≤ decimals x := le_max_left 1 _
    rw [← hlength] at hpos
    exact absurd hpos (by decide)
  rw [decimalText]
  generalize shifted x / 10 ^ decimals x = whole at *
  generalize padDigits (decimals x) (shifted x % 10 ^ decimals x) = cents at *
  obtain ⟨htake, hdrop⟩ := takeWhile_digits hcents [] fun c hc => by cases hc
  rw [List.append_nil] at htake hdrop
  have hfraction : scanFraction ('.' :: cents) = ('.' :: cents, []) := by
    simp [scanFraction, htake, hdrop, hsome]
  have hwhole : scanWhole (Nat.toDigits 10 whole ++ '.' :: cents) =
      some (Nat.toDigits 10 whole, '.' :: cents) := by
    refine scanWhole_toDigits whole ?_
    intro c hc
    rw [← Option.some_inj.1 hc]
    rfl
  have hvalue : readSigned ((if x < 0 then ['-'] else []) ++ Nat.toDigits 10 whole ++
      '.' :: cents ++ []) = some (finite x) := by
    rw [List.append_nil, List.append_assoc]
    split_ifs with hneg
    · show (readUnsigned (Nat.toDigits 10 whole ++ '.' :: cents)).map Double.neg = some (finite x)
      rw [hunsigned, Option.map_some, abs_of_neg hneg, neg, neg_neg]
    · rw [List.nil_append, hsigned, abs_of_nonneg (not_lt.1 hneg)]
  have hpart : ¬('.' :: cents = [] ∧ ([] : List Char) = []) := fun hnil => by cases hnil.1
  refine scanNumber_of_parts (minusOf_signed _ _ _) hwhole hfraction rfl ?_
  rw [numberValue, if_neg hpart, hvalue]
  rfl

/-- A written number is digits, a point and perhaps a sign. -/
theorem newline_not_mem_decimalText (x : ℚ) : '\n' ∉ decimalText x := by
  have hdigit : ∀ l : List Char, (∀ c ∈ l, c.isDigit = true) → '\n' ∉ l := fun l hl hmem =>
    absurd (hl _ hmem) (by decide)
  have hwhole := hdigit _ (isDigit_toDigits (shifted x / 10 ^ decimals x))
  have hcents := hdigit _ (isDigit_padDigits (decimals x) (shifted x % 10 ^ decimals x))
  rw [decimalText]
  split_ifs
  · simp [hwhole, hcents]
  · simp [hwhole, hcents]

/-- A whole number. -/
def intText (n : ℤ) : List Char := (if n < 0 then ['-'] else []) ++ Nat.toDigits 10 n.natAbs

/-- A whole number is scanned as itself. -/
theorem scanNumber_intText (n : ℤ) : scanNumber (intText n) = some (.int n, []) := by
  have hsign := minusOf_signed (n < 0) n.natAbs []
  have hwhole := @scanWhole_toDigits n.natAbs [] fun c hc => by cases hc
  rw [List.append_nil] at hsign hwhole
  refine scanNumber_of_parts hsign hwhole rfl rfl ?_
  rw [numberValue, if_pos ⟨rfl, rfl⟩, digitsNumber_toDigits]
  split_ifs with hneg hnil hnil
  · cases hnil
  · rw [Option.some_inj, Json.int.injEq]
    omega
  · rw [Option.some_inj, Json.int.injEq]
    omega
  · exact absurd rfl hnil

theorem newline_not_mem_intText (n : ℤ) : '\n' ∉ intText n := by
  have hdigits : '\n' ∉ Nat.toDigits 10 n.natAbs := fun hmem =>
    absurd (isDigit_toDigits n.natAbs _ hmem) (by decide)
  rw [intText]
  split_ifs
  · simp [hdigits]
  · simp [hdigits]

end DealFinder.Feeds
