/-
# Text as the language reads it

Lowercasing and tokens. `str.lower` maps each character on its own, but for a capital
sigma, whose small letter depends on its place in the word. No small sigma is of a
token, so the tokens of a text are those of its characters, and do not run over a
separator.
-/

import DealFinder.Math.Runs
import DealFinder.Shop.Features

namespace DealFinder.Rag

open DealFinder.Math DealFinder.Features

/-- A capital sigma ends a word: a cased letter before it and none after it, past the
characters that case ignores. -/
def endsWord (isCased isIgnorable : Char → Bool) (before after : List Char) : Bool :=
  (before.dropWhile isIgnorable).head?.any isCased &&
    !(after.dropWhile isIgnorable).head?.any isCased

/-- `str.lower`, of the characters after some others, which are listed last first. -/
def spell (lowerChar : Char → List Char) (isCased isIgnorable : Char → Bool)
    (before : List Char) : List Char → List Char
  | [] => []
  | x :: after =>
      (if x = 'Σ' then [if endsWord isCased isIgnorable before after then 'ς' else 'σ']
        else lowerChar x) ++ spell lowerChar isCased isIgnorable (x :: before) after

/-- The character tables of the language, with what the program's own characters have
there. -/
structure Language extends Unicode where
  /-- The value of a decimal digit. -/
  decimal : Char → Option ℕ
  /-- `str.lower`, of a character on its own. -/
  lowerChar : Char → List Char
  isCased : Char → Bool
  isIgnorable : Char → Bool
  lower_eq : ∀ s, lower s = String.ofList (spell lowerChar isCased isIgnorable [] s.toList)
  lowerChar_ascii : ∀ c : Char, c.toNat < 128 → lowerChar c = [c.toLower]
  lowerChar_dash : lowerChar '—' = ['—']
  decimal_ascii : ∀ c : Char, c.toNat < 128 →
    decimal c = if c.isDigit then some (c.toNat - '0'.toNat) else none
  decimal_dash : decimal '—' = none
  decimal_space : ∀ c, isSpace c = true → decimal c = none
  isAlnum_ascii : ∀ c : Char, c.toNat < 128 → isAlnum c = c.isAlphanum

section Lower

variable (lang : Language)

/-- A character in lowercase, wherever it stands. -/
def lowered (c : Char) : List Char := if c = 'Σ' then ['σ'] else lang.lowerChar c

/-- `re.findall(r"[a-z0-9]+", s.lower())`. -/
def tokens (s : String) : List (List Char) := Shop.findTokens (lang.lower s)

end Lower

variable {lang : Language}

theorem findTokens_eq (s : String) : Shop.findTokens s = runs Shop.isTokenChar s.toList := by
  rw [Shop.findTokens, runs]
  congr 1
  funext token
  cases token with
  | nil => rfl
  | cons x token => rfl

theorem forall₂_spell (before text : List Char) :
    List.Forall₂
      (fun x y => x = y ∨ (Shop.isTokenChar x = false ∧ Shop.isTokenChar y = false))
      (spell lang.lowerChar lang.isCased lang.isIgnorable before text)
      (text.flatMap (lowered lang)) := by
  induction text generalizing before with
  | nil => exact List.Forall₂.nil
  | cons c text ih =>
      rw [spell, List.flatMap_cons]
      refine List.rel_append ?_ (ih (c :: before))
      unfold lowered
      split_ifs
      · exact List.Forall₂.cons (Or.inr (by decide)) List.Forall₂.nil
      · exact List.Forall₂.cons (Or.inl rfl) List.Forall₂.nil
      · exact List.forall₂_same.2 fun x _ => Or.inl rfl

/-- The tokens of a text are those of its characters in lowercase. -/
theorem tokens_eq (s : String) :
    tokens lang s = runs Shop.isTokenChar (s.toList.flatMap (lowered lang)) := by
  rw [tokens, findTokens_eq, lang.lower_eq, String.toList_ofList]
  exact runs_congr (forall₂_spell [] s.toList)

/-- What is lowered after some text stands at the end of the whole in lowercase. -/
theorem spell_append (before front text : List Char) :
    ∃ out, spell lang.lowerChar lang.isCased lang.isIgnorable before (front ++ text) =
      out ++ spell lang.lowerChar lang.isCased lang.isIgnorable (front.reverse ++ before) text := by
  induction front generalizing before with
  | nil => exact ⟨[], rfl⟩
  | cons c front ih =>
      obtain ⟨out, hout⟩ := ih (c :: before)
      rw [List.cons_append, spell, hout, List.reverse_cons, List.append_assoc front.reverse,
        List.singleton_append, ← List.append_assoc]
      exact ⟨_, rfl⟩

/-- A word of ASCII letters is lowered letter by letter. -/
theorem spell_ascii {word : List Char} (h : ∀ c ∈ word, c.toNat < 128)
    (before text : List Char) :
    spell lang.lowerChar lang.isCased lang.isIgnorable before (word ++ text) =
      word.map Char.toLower ++
        spell lang.lowerChar lang.isCased lang.isIgnorable (word.reverse ++ before) text := by
  induction word generalizing before with
  | nil => rfl
  | cons c word ih =>
      obtain ⟨hc, hword⟩ := List.forall_mem_cons.1 h
      have hsigma : c ≠ 'Σ' := by
        rintro rfl
        exact absurd hc (by decide)
      rw [List.cons_append, spell, if_neg hsigma, lang.lowerChar_ascii c hc, ih hword,
        List.reverse_cons, List.append_assoc]
      rfl

/-- A word of ASCII letters in a text is in the text in lowercase. -/
theorem infix_lower {word : List Char} (hword : ∀ c ∈ word, c.toNat < 128) {s : String}
    (h : word <:+: s.toList) : word.map Char.toLower <:+: (lang.lower s).toList := by
  obtain ⟨before, after, htext⟩ := h
  rw [lang.lower_eq, String.toList_ofList, ← htext, List.append_assoc]
  obtain ⟨out, hout⟩ := @spell_append lang [] before (word ++ after)
  rw [hout, spell_ascii hword, ← List.append_assoc]
  exact ⟨out, _, rfl⟩

theorem toNat_lt_of_isDigit {c : Char} (h : c.isDigit = true) : c.toNat < 128 := by
  obtain ⟨-, hle⟩ := Char.isDigit_iff_toNat.1 h
  exact lt_of_le_of_lt hle (by decide)

theorem not_isDigit_of_isSpace {c : Char} (h : isSpace c = true) : c.isDigit = false := by
  rw [Bool.eq_false_iff]
  intro hdigit
  obtain ⟨hlow, hhigh⟩ := Char.isDigit_iff_toNat.1 hdigit
  have hlow' : 48 ≤ c.toNat := hlow
  have hhigh' : c.toNat ≤ 57 := hhigh
  simp only [isSpace, Bool.or_eq_true, Bool.and_eq_true, decide_eq_true_eq, List.contains_iff_mem,
    List.mem_cons, List.not_mem_nil, or_false] at h
  omega

/-- The tables, on ASCII. -/
def plainLanguage : Language where
  toUnicode := { ascii with
    lower := fun s =>
      String.ofList (spell (fun c => [c.toLower]) Char.isAlpha (fun _ => false) [] s.toList) }
  decimal := fun c => if c.isDigit then some (c.toNat - '0'.toNat) else none
  lowerChar := fun c => [c.toLower]
  isCased := Char.isAlpha
  isIgnorable := fun _ => false
  lower_eq := fun _ => rfl
  lowerChar_ascii := fun _ _ => rfl
  lowerChar_dash := rfl
  decimal_ascii := fun _ _ => rfl
  decimal_dash := rfl
  decimal_space := fun c h => by rw [if_neg (by simp [not_isDigit_of_isSpace h])]
  isAlnum_ascii := fun _ _ => rfl

end DealFinder.Rag
