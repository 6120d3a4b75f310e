/-
# Text and slices

The operations on strings and sequences the program takes from its language's
standard library.
-/

import Mathlib.Data.String.Basic

namespace DealFinder.Math

/-- The characters that `str.strip` removes. -/
def isSpace (c : Char) : Bool :=
  (9 ≤ c.toNat && c.toNat ≤ 13) || (28 ≤ c.toNat && c.toNat ≤ 32) ||
    (8192 ≤ c.toNat && c.toNat ≤ 8202) ||
    [133, 160, 5760, 8232, 8233, 8239, 8287, 12288].contains c.toNat

/-- `str.strip`. -/
def strip (s : String) : String :=
  String.ofList ((s.toList.dropWhile isSpace).reverse.dropWhile isSpace).reverse

/-- Two texts are compared character by character. -/
instance lawfulBEqChars : LawfulBEq (List Char) := inferInstance

/-- A digit has no other case. -/
theorem toLower_of_isDigit {c : Char} (h : c.isDigit = true) : c.toLower = c := by
  have hle : c.toNat ≤ 57 := (Char.isDigit_iff_toNat.1 h).2
  unfold Char.toLower
  rw [dif_neg]
  rintro ⟨hge, -⟩
  have hge' : 65 ≤ c.toNat := hge
  omega

section Cut

variable {α : Type*} [DecidableEq α] {c : α} {before : List α}

/-- What stands before the first of a character. -/
theorem takeWhile_ne_append (h : c ∉ before) (after : List α) :
    (before ++ c :: after).takeWhile (· ≠ c) = before := by
  have hbefore : ∀ x ∈ before, decide (x ≠ c) = true :=
    fun x hx => decide_eq_true fun heq => h (heq ▸ hx)
  rw [List.takeWhile_append_of_pos hbefore, List.takeWhile_cons_of_neg (by simp), List.append_nil]

/-- The first of a character, and what stands behind it. -/
theorem dropWhile_ne_append (h : c ∉ before) (after : List α) :
    (before ++ c :: after).dropWhile (· ≠ c) = c :: after := by
  have hbefore : ∀ x ∈ before, decide (x ≠ c) = true :=
    fun x hx => decide_eq_true fun heq => h (heq ▸ hx)
  rw [List.dropWhile_append_of_pos hbefore, List.dropWhile_cons_of_neg (by simp)]

end Cut

/-- What joined parts hold is of the separator or of a part. -/
theorem mem_intercalate {α : Type*} {sep : List α} {x : α} {parts : List (List α)}
    (h : x ∈ sep.intercalate parts) : x ∈ sep ∨ ∃ part ∈ parts, x ∈ part := by
  induction parts with
  | nil => simp at h
  | cons part parts ih =>
      cases parts with
      | nil =>
          rw [List.intercalate_singleton] at h
          exact .inr ⟨part, List.mem_cons_self, h⟩
      | cons part' parts =>
          rw [List.intercalate_cons_cons, List.mem_append, List.mem_append] at h
          rcases h with (hpart | hsep) | hrest
          · exact .inr ⟨part, List.mem_cons_self, hpart⟩
          · exact .inl hsep
          · rcases ih hrest with hsep | ⟨p, hp, hx⟩
            · exact .inl hsep
            · exact .inr ⟨p, List.mem_cons_of_mem part hp, hx⟩

/-- `l[:k]`: a negative bound counts from the end. -/
def upTo {α : Type*} (k : ℤ) (l : List α) : List α :=
  if 0 ≤ k then l.take k.toNat else l.take (l.length - (-k).toNat)

theorem upTo_initial {α : Type*} (k : ℤ) (l : List α) : upTo k l <+: l := by
  unfold upTo
  split_ifs
  · exact List.take_prefix _ _
  · exact List.take_prefix _ _

theorem upTo_of_length_le {α : Type*} {k : ℤ} {l : List α} (h : (l.length : ℤ) ≤ k) :
    upTo k l = l := by
  rw [upTo, if_pos (by omega), List.take_of_length_le (by omega)]

theorem upTo_map {α β : Type*} (k : ℤ) (f : α → β) (l : List α) :
    upTo k (l.map f) = (upTo k l).map f := by
  unfold upTo
  split_ifs
  · exact List.map_take.symm
  · rw [List.length_map, List.map_take]

theorem upTo_of_nonneg {α : Type*} {k : ℤ} (h : 0 ≤ k) (l : List α) : upTo k l = l.take k.toNat :=
  if_pos h

/-- `l[k:]`: a negative bound counts from the end. -/
def startingAt {α : Type*} (k : ℤ) (l : List α) : List α :=
  if 0 ≤ k then l.drop k.toNat else l.drop (l.length - (-k).toNat)

/-- The two slices at a negative bound part the list. -/
theorem slices_of_pos {α : Type*} {n : ℕ} (h : 0 < n) (l : List α) :
    upTo (-n) l = l.take (l.length - n) ∧ startingAt (-n) l = l.drop (l.length - n) := by
  have hneg : ¬(0 : ℤ) ≤ -n := by omega
  rw [upTo, startingAt, if_neg hneg, if_neg hneg]
  simp

end DealFinder.Math
