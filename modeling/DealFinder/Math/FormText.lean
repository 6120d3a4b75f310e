/-
# The text of a form

A form is a list of names and values, written `name=value` with `&` between. A text in it
has its bytes spelled, a blank as `+`. Reading splits at the separators first, so whatever
spells every byte without them loses nothing (`readForm_writeForm`).
-/

import DealFinder.Math.Text
import DealFinder.Math.Traverse
import Mathlib.Data.List.Basic
import Mathlib.Data.String.Basic

namespace DealFinder.Math

/-! ## Reading -/

/-- The value of a hexadecimal digit. -/
def hexNumber? (c : Char) : Option ℕ :=
  if c.isDigit then some (c.toNat - 48)
  else if 65 ≤ c.toNat ∧ c.toNat ≤ 70 then some (c.toNat - 55)
  else if 97 ≤ c.toNat ∧ c.toNat ≤ 102 then some (c.toNat - 87)
  else none

/-- The bytes that a character spells on its own. -/
def formChar (c : Char) : List UInt8 := if c = '+' then [32] else String.utf8EncodeChar c

/-- The bytes that a text spells. A `%` without two digits behind it stands for itself. -/
def formBytes : List Char → List UInt8
  | [] => []
  | [c] => formChar c
  | [c, d] => formChar c ++ formChar d
  | c :: high :: low :: rest =>
      if c = '%' then
        match hexNumber? high, hexNumber? low with
        | some h, some l => UInt8.ofNat (16 * h + l) :: formBytes rest
        | _, _ => formChar c ++ formBytes (high :: low :: rest)
      else formChar c ++ formBytes (high :: low :: rest)

theorem formBytes_cons {c : Char} (hc : c ≠ '%') (rest : List Char) :
    formBytes (c :: rest) = formChar c ++ formBytes rest := by
  cases rest with
  | nil => exact (List.append_nil _).symm
  | cons d rest =>
      cases rest with
      | nil => rfl
      | cons e rest => rw [formBytes, if_neg hc]

theorem formBytes_escape {high low : Char} {h l : ℕ} (hhigh : hexNumber? high = some h)
    (hlow : hexNumber? low = some l) (rest : List Char) :
    formBytes ('%' :: high :: low :: rest) = UInt8.ofNat (16 * h + l) :: formBytes rest := by
  rw [formBytes, if_pos rfl, hhigh, hlow]

/-- The text that a text spells, where its bytes are UTF-8. -/
def readText (text : List Char) : Option String := String.fromUTF8? ⟨(formBytes text).toArray⟩

/-- The name and the value before and after the first `=`. -/
def readPair (text : List Char) : Option (String × String) := do
  let name ← readText (text.takeWhile (· ≠ '='))
  let value ← readText ((text.dropWhile (· ≠ '=')).drop 1)
  return (name, value)

/-- The names and values of a form. -/
def readForm (text : List Char) : Option (List (String × String)) :=
  ((text.splitOn '&').filter (· ≠ [])).mapM readPair

/-! ## Writing -/

section Write

/-- A name and a value, under a spelling of texts. -/
def writePair (spell : String → List Char) (pair : String × String) : List Char :=
  spell pair.1 ++ '=' :: spell pair.2

/-- A form, under a spelling of texts. -/
def writeForm (spell : String → List Char) (pairs : List (String × String)) : List Char :=
  ['&'].intercalate (pairs.map (writePair spell))

/-- A spelling that is read back, and has no separator in it. -/
structure Spells (spell : String → List Char) : Prop where
  read : ∀ s, readText (spell s) = some s
  plain : ∀ s, '=' ∉ spell s ∧ '&' ∉ spell s

/-- A text is read back if each of its bytes is. -/
theorem readText_flatMap {spell : UInt8 → List Char}
    (h : ∀ b rest, formBytes (spell b ++ rest) = b :: formBytes rest) (s : String) :
    readText (s.toByteArray.data.toList.flatMap spell) = some s := by
  have hbytes : ∀ bytes : List UInt8, formBytes (bytes.flatMap spell) = bytes := by
    intro bytes
    induction bytes with
    | nil => rw [List.flatMap_nil, formBytes]
    | cons b bytes ih => rw [List.flatMap_cons, h, ih]
  have harray : (⟨(s.toByteArray.data.toList).toArray⟩ : ByteArray) = s.toByteArray := rfl
  rw [readText, hbytes, harray, String.fromUTF8?, dif_pos s.isValidUTF8]
  rfl

variable {spell : String → List Char}

theorem readPair_writePair (h : Spells spell) (pair : String × String) :
    readPair (writePair spell pair) = some pair := by
  have hname : (writePair spell pair).takeWhile (· ≠ '=') = spell pair.1 :=
    takeWhile_ne_append (h.plain pair.1).1 (spell pair.2)
  have hvalue : (writePair spell pair).dropWhile (· ≠ '=') = '=' :: spell pair.2 :=
    dropWhile_ne_append (h.plain pair.1).1 (spell pair.2)
  rw [readPair, hname, hvalue, h.read, List.drop_one, List.tail_cons, h.read]
  rfl

theorem ampersand_not_mem (h : Spells spell) (pair : String × String) :
    '&' ∉ writePair spell pair := by
  rw [writePair, List.mem_append, List.mem_cons]
  rintro (hname | hsep | hvalue)
  · exact (h.plain pair.1).2 hname
  · exact absurd hsep (by decide)
  · exact (h.plain pair.2).2 hvalue

/-- A form that is written is read back. -/
theorem readForm_writeForm (h : Spells spell) (pairs : List (String × String)) :
    readForm (writeForm spell pairs) = some pairs := by
  have hread : (pairs.map (writePair spell)).mapM readPair = some pairs := by
    rw [mapM_map fun pair _ => readPair_writePair h pair, List.map_id']
  cases pairs with
  | nil => rfl
  | cons pair pairs =>
      have hsplit : (writeForm spell (pair :: pairs)).splitOn '&' =
          (pair :: pairs).map (writePair spell) := by
        apply List.splitOn_intercalate
        · simp only [List.mem_map]
          rintro text ⟨other, -, rfl⟩
          exact ampersand_not_mem h other
        · simp
      have hfilter : ((pair :: pairs).map (writePair spell)).filter (· ≠ []) =
          (pair :: pairs).map (writePair spell) := by
        apply List.filter_eq_self.2
        simp only [List.mem_map]
        rintro text ⟨other, -, rfl⟩
        simp [writePair]
      rw [readForm, hsplit, hfilter, hread]

end Write

end DealFinder.Math
