/-
# Percent-encoding

A quoted string spells each byte of its UTF-8 form, an unreserved byte as itself
and any other as `%` and two hexadecimal digits. Quoting loses nothing, and a
quoted string has none of the characters that delimit the parts of a URL.
-/

import DealFinder.Math.Text
import Mathlib.Data.List.Basic
import Mathlib.Data.String.Basic

namespace DealFinder.Math

/-- Letters, digits and `_.-~`. -/
def unreserved (b : UInt8) : Bool :=
  (48 ≤ b && b ≤ 57) || (65 ≤ b && b ≤ 90) || (97 ≤ b && b ≤ 122) ||
    b == 95 || b == 46 || b == 45 || b == 126

/-- An uppercase hexadecimal digit. -/
def hexDigit (n : ℕ) : Char := if n < 10 then Char.ofNat (48 + n) else Char.ofNat (55 + n)

/-- The value of an uppercase hexadecimal digit. -/
def hexValue (c : Char) : ℕ := if c.toNat < 58 then c.toNat - 48 else c.toNat - 55

/-- How one byte is spelled. -/
def quoteByte (b : UInt8) : List Char :=
  if unreserved b then [Char.ofNat b.toNat]
  else ['%', hexDigit (b.toNat / 16), hexDigit (b.toNat % 16)]

/-- `urllib.parse.quote(s, safe="")`. -/
def quote (s : String) : String :=
  String.ofList (s.toByteArray.data.toList.flatMap quoteByte)

/-- Read one byte off a spelled string. -/
def unquoteHead : List Char → Option (ℕ × List Char)
  | '%' :: high :: low :: rest => some (16 * hexValue high + hexValue low, rest)
  | c :: rest => some (c.toNat, rest)
  | [] => none

/-- The characters between the parts of a URL. -/
def delimiters : List Char := [':', '/', '?', '#', '[', ']', '@', '&', '=']

theorem hexValue_hexDigit : ∀ n < 16, hexValue (hexDigit n) = n := by decide

private theorem unreserved_spelling :
    ∀ n < 256, unreserved (UInt8.ofNat n) = true →
      (Char.ofNat n).toNat = n ∧ Char.ofNat n ≠ '%' ∧ Char.ofNat n ∉ delimiters := by
  decide +kernel

theorem unreserved_char {b : UInt8} (h : unreserved b = true) :
    (Char.ofNat b.toNat).toNat = b.toNat ∧ Char.ofNat b.toNat ≠ '%' ∧
      Char.ofNat b.toNat ∉ delimiters :=
  unreserved_spelling b.toNat b.toNat_lt (by rwa [UInt8.ofNat_toNat])

theorem unquoteHead_quoteByte (b : UInt8) (rest : List Char) :
    unquoteHead (quoteByte b ++ rest) = some (b.toNat, rest) := by
  unfold quoteByte
  split_ifs with h
  · obtain ⟨hvalue, hpercent, -⟩ := unreserved_char h
    rw [List.singleton_append, unquoteHead.eq_2 _ _ (fun _ _ _ hc _ => hpercent hc), hvalue]
  · have hlt := b.toNat_lt
    rw [List.cons_append, List.cons_append, List.cons_append, List.nil_append, unquoteHead,
      hexValue_hexDigit _ (by omega), hexValue_hexDigit _ (by omega), Nat.div_add_mod]

private theorem flatMap_quoteByte_injective :
    Function.Injective fun bytes : List UInt8 => bytes.flatMap quoteByte := by
  intro first second heq
  simp only at heq
  induction first generalizing second with
  | nil =>
      cases second with
      | nil => rfl
      | cons b rest =>
          have hread := unquoteHead_quoteByte b (rest.flatMap quoteByte)
          rw [← List.flatMap_cons, ← heq] at hread
          cases hread
  | cons a first ih =>
      have hread := unquoteHead_quoteByte a (first.flatMap quoteByte)
      rw [← List.flatMap_cons, heq] at hread
      cases second with
      | nil => cases hread
      | cons b second =>
          rw [List.flatMap_cons, unquoteHead_quoteByte, Option.some.injEq, Prod.mk.injEq,
            UInt8.toNat_inj] at hread
          rw [hread.1, ih hread.2.symm]

/-- Quoting loses nothing. -/
theorem quote_injective : Function.Injective quote := by
  intro s t heq
  have hbytes := flatMap_quoteByte_injective (String.ofList_injective heq)
  exact String.toByteArray_inj.1 (ByteArray.ext (Array.toList_inj.1 hbytes))

/-- A quoted string has no delimiter. -/
theorem not_mem_quote {c : Char} (hc : c ∈ delimiters) (s : String) : c ∉ (quote s).toList := by
  have hhex : ∀ n < 16, hexDigit n ∉ delimiters := by decide
  rw [quote, String.toList_ofList, List.mem_flatMap]
  rintro ⟨b, -, hmem⟩
  unfold quoteByte at hmem
  split_ifs at hmem with h
  · rw [List.mem_singleton.1 hmem] at hc
    exact (unreserved_char h).2.2 hc
  · have hlt := b.toNat_lt
    rcases List.mem_cons.1 hmem with rfl | hmem
    · exact absurd hc (by decide)
    · rcases List.mem_pair.1 hmem with rfl | rfl
      · exact hhex _ (by omega) hc
      · exact hhex _ (by omega) hc

/-- A quoted string ends where a delimiter stands. -/
theorem quote_append_inj {c : Char} (hc : c ∈ delimiters) {s t : String} {rest tail : List Char}
    (heq : (quote s).toList ++ c :: rest = (quote t).toList ++ c :: tail) : s = t := by
  have hquoted := takeWhile_ne_append (not_mem_quote hc s) rest
  rw [heq, takeWhile_ne_append (not_mem_quote hc t)] at hquoted
  exact quote_injective (String.toList_injective hquoted.symm)

end DealFinder.Math
