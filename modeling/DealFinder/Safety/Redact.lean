/-
# Redaction

`redact_pii` replaces email addresses, then card numbers, then phone numbers. Each pass changes
which characters stand beside what is left, and the patterns of numbers ask for word boundaries.
The passes keep the boundaries of word characters all the same, so nothing is left behind, and what
was replaced was an email address, a card or a phone number of the given text
(`redactPii_leavesNothing`).
-/

import DealFinder.Math.Substitution
import DealFinder.Rag.Prices

namespace DealFinder.Safety

open DealFinder.Math DealFinder.Features DealFinder.Rag

variable (lang : Language)

/-! ## The patterns -/

/-- `\w` and some other characters. -/
def wordOr (others : List Char) (x : Char) : Bool := isWord lang.toUnicode x || others.contains x

/-- `_EMAIL`. -/
def emailRe : Regex :=
  .inOrder [.atLeastOne (wordOr lang ['.', '+', '-']), .one fun x => x = '@',
    .atLeastOne (wordOr lang ['-']), .one fun x => x = '.', .atLeastOne (wordOr lang ['.', '-'])]

/-- `\d[ -]?`. -/
def cardDigit : Regex :=
  .inOrder [.one (isDigit lang), (Regex.one fun x => x = ' ' || x = '-').opt]

/-- `_CARD`. -/
def cardRe : Regex := .bounded (.between 13 16 (cardDigit lang))

/-- `[-.\s]?`. -/
def phoneGap : Regex := (Regex.one fun x => x = '-' || x = '.' || isSpace x).opt

/-- `\d{3}[-.\s]?\d{3}[-.\s]?\d{4}`. -/
def phoneDigits : Regex :=
  .inOrder [.times 3 (.one (isDigit lang)), phoneGap, .times 3 (.one (isDigit lang)), phoneGap,
    .times 4 (.one (isDigit lang))]

/-- `_PHONE`. -/
def phoneRe : Regex := .bounded (phoneDigits lang)

/-- `redact_pii`. -/
def redactPii (text : String) : String :=
  let text := (emailRe lang).sub (isWord lang.toUnicode) "[email]".toList text.toList
  let text := (cardRe lang).sub (isWord lang.toUnicode) "[card]".toList text
  let text := (phoneRe lang).sub (isWord lang.toUnicode) "[phone]".toList text
  String.ofList text

/-! ## What is redacted -/

/-- What is redacted. -/
inductive Kind
  | email | card | phone
  deriving DecidableEq

/-- The pattern of a kind. -/
def Kind.pattern : Kind → Regex
  | email => emailRe lang
  | card => cardRe lang
  | phone => phoneRe lang

/-- What a kind is called in brackets. -/
def Kind.name : Kind → List Char
  | email => "email".toList
  | card => "card".toList
  | phone => "phone".toList

/-- Decimal digits are word characters. -/
def DigitsAreWords : Prop := ∀ x, isDigit lang x = true → isWord lang.toUnicode x = true

/-- A redacted text: nothing can be read of it, it is redacted already, and it differs from the
given text only in matches of that, each replaced by the name of its kind. -/
structure LeavesNothing (text out : String) : Prop where
  clear : ∀ kind, (Kind.pattern lang kind).found (isWord lang.toUnicode) out.toList = false
  again : redactPii lang out = out
  replaced : Redacted (isWord lang.toUnicode) (Kind.pattern lang) Kind.name ⟨none, text.toList⟩
    out.toList

variable {lang}

theorem redactPii_eq (text : String) :
    redactPii lang text = String.ofList (passes (isWord lang.toUnicode) (Kind.pattern lang)
      Kind.name [.email, .card, .phone] text.toList) := rfl

/-- No bracket. -/
def NoBracket (x : Char) : Prop := x ≠ '[' ∧ x ≠ ']'

theorem noBracket_of {accepts : Char → Bool} (hopening : accepts '[' = false)
    (hclosing : accepts ']' = false) : ∀ x, accepts x = true → NoBracket x := by
  intro x hx
  constructor
  · rintro rfl
    rw [hopening] at hx
    cases hx
  · rintro rfl
    rw [hclosing] at hx
    cases hx

theorem isWord_opening : isWord lang.toUnicode '[' = false := by
  rw [isWord, lang.isAlnum_ascii '[' (by decide)]
  rfl

theorem isWord_closing : isWord lang.toUnicode ']' = false := by
  rw [isWord, lang.isAlnum_ascii ']' (by decide)]
  rfl

theorem noBracket_wordOr {others : List Char} (hopening : '[' ∉ others) (hclosing : ']' ∉ others) :
    ∀ x, wordOr lang others x = true → NoBracket x := by
  refine noBracket_of ?_ ?_
  · simp [wordOr, isWord_opening, hopening]
  · simp [wordOr, isWord_closing, hclosing]

theorem noBracket_isDigit : ∀ x, isDigit lang x = true → NoBracket x := by
  refine noBracket_of ?_ ?_
  · rw [isDigit, lang.decimal_ascii '[' (by decide)]
    rfl
  · rw [isDigit, lang.decimal_ascii ']' (by decide)]
    rfl

theorem over_emailRe : (emailRe lang).Over NoBracket := by
  have hname : ∀ x, wordOr lang ['.', '+', '-'] x = true → NoBracket x :=
    noBracket_wordOr (by decide) (by decide)
  have hhost : ∀ x, wordOr lang ['-'] x = true → NoBracket x :=
    noBracket_wordOr (by decide) (by decide)
  have hdomain : ∀ x, wordOr lang ['.', '-'] x = true → NoBracket x :=
    noBracket_wordOr (by decide) (by decide)
  exact ⟨⟨hname, hname⟩, noBracket_of rfl rfl, ⟨hhost, hhost⟩, noBracket_of rfl rfl,
    hdomain, hdomain⟩

theorem over_cardDigits : (Regex.between 13 16 (cardDigit lang)).Over NoBracket := by
  have hdigit : (cardDigit lang).Over NoBracket :=
    ⟨noBracket_isDigit, noBracket_of rfl rfl, trivial⟩
  exact Regex.over_between hdigit 13 16

theorem over_phoneGap : phoneGap.Over NoBracket :=
  ⟨noBracket_of (by decide) (by decide), trivial⟩

theorem over_phoneDigits : (phoneDigits lang).Over NoBracket := by
  have hdigits : ∀ n, (Regex.times n (.one (isDigit lang))).Over NoBracket :=
    Regex.over_times noBracket_isDigit
  exact ⟨hdigits 3, over_phoneGap, hdigits 3, over_phoneGap, hdigits 4⟩

/-- The first character of a card number is a digit. -/
theorem head?_cardDigits {text : List Char}
    (h : (Regex.between 13 16 (cardDigit lang)).Reads text) :
    ∃ x rest, text = x :: rest ∧ isDigit lang x = true := by
  obtain ⟨_, v, ⟨_, w, ⟨_, gap, ⟨x, hx, rfl⟩, -, rfl⟩, -, rfl⟩, -, rfl⟩ := h
  exact ⟨x, _, rfl, hx⟩

/-- The first character of a phone number is a digit. -/
theorem head?_phoneDigits {text : List Char} (h : (phoneDigits lang).Reads text) :
    ∃ x rest, text = x :: rest ∧ isDigit lang x = true := by
  obtain ⟨_, v, ⟨_, w, ⟨x, hx, rfl⟩, -, rfl⟩, -, rfl⟩ := h
  exact ⟨x, _, rfl, hx⟩

/-- An email address has an `@`. -/
theorem at_mem_of_reads {text : List Char} (h : (emailRe lang).Reads text) : '@' ∈ text := by
  obtain ⟨u, _, -, ⟨_, v, ⟨x, hx, rfl⟩, -, rfl⟩, rfl⟩ := h
  obtain rfl : x = '@' := by simpa using hx
  simp

/-- The names hold neither digits nor an `@`. -/
theorem not_mem_name {x : Char} (h : x = '@' ∨ isDigit lang x = true) (kind : Kind) :
    x ∉ kind.name := by
  have hletters : ∀ kind : Kind, kind.name.all
      (fun x => x.toNat < 128 && !x.isDigit && x ≠ '@') = true := by
    intro kind
    cases kind <;> decide +kernel
  intro hx
  have hx := List.all_eq_true.1 (hletters kind) x hx
  simp only [Bool.and_eq_true, decide_eq_true_eq, Bool.not_eq_true'] at hx
  obtain ⟨⟨hascii, hdigit⟩, hat⟩ := hx
  rcases h with rfl | h
  · exact hat rfl
  · rw [isDigit, lang.decimal_ascii x hascii, hdigit] at h
    cases h

/-- An email address is matched as far as it goes. -/
theorem stops_emailRe {c d : Cursor} (h : (emailRe lang).Prefers (isWord lang.toUnicode) c d) :
    ∀ x ∈ d.rest.head?, wordOr lang ['.', '-'] x = false := by
  obtain ⟨_, -, h⟩ := h.exists_second
  obtain ⟨_, -, h⟩ := h.exists_second
  obtain ⟨_, -, h⟩ := h.exists_second
  obtain ⟨_, -, h⟩ := h.exists_second
  obtain ⟨_, -, h⟩ := h.exists_second
  exact h.stops_many

theorem wordOr_of_isWord {x : Char} (h : isWord lang.toUnicode x = true) (others : List Char) :
    wordOr lang others x = true := by
  rw [wordOr, h, Bool.true_or]

/-- The patterns of numbers, between their boundaries. -/
theorem pattern_eq_bounded {kind : Kind} (h : kind ≠ .email) :
    ∃ r : Regex, Kind.pattern lang kind = r.bounded ∧ r.Over NoBracket ∧
      ∀ text, r.Reads text → ∃ x rest, text = x :: rest ∧ isDigit lang x = true := by
  cases kind with
  | email => exact absurd rfl h
  | card => exact ⟨_, rfl, over_cardDigits, fun _ => head?_cardDigits⟩
  | phone => exact ⟨phoneDigits lang, rfl, over_phoneDigits, fun _ => head?_phoneDigits⟩

theorem startsWord_of_digit (hdigits : DigitsAreWords lang) {r : Regex}
    (h : ∀ text, r.Reads text → ∃ x rest, text = x :: rest ∧ isDigit lang x = true) :
    StartsWord (isWord lang.toUnicode) r := by
  intro text hreads
  obtain ⟨x, rest, rfl, hx⟩ := h text hreads
  exact hdigits x hx

/-- What a pattern reads. -/
theorem reads_of_mem_ends {kind : Kind} {c d : Cursor}
    (h : d ∈ (Kind.pattern lang kind).ends (isWord lang.toUnicode) c) :
    ∃ text, Moves text c d ∧ (∀ x ∈ text, NoBracket x) ∧ ∃ x ∈ text, ∀ j : Kind, x ∉ j.name := by
  by_cases hkind : kind = .email
  · rw [hkind] at h
    obtain ⟨text, hreads, hmoves⟩ := (Regex.mem_ends_iff_reads over_emailRe).1 h
    exact ⟨text, hmoves, over_emailRe.forall_mem hreads, '@', at_mem_of_reads hreads,
      @not_mem_name lang '@' (.inl rfl)⟩
  · obtain ⟨r, hr, hover, hfirst⟩ := @pattern_eq_bounded lang kind hkind
    rw [hr] at h
    obtain ⟨text, hreads, hmoves, -⟩ := (Regex.mem_ends_bounded hover).1 h
    obtain ⟨x, rest, rfl, hx⟩ := hfirst text hreads
    exact ⟨x :: rest, hmoves, hover.forall_mem hreads, x, List.mem_cons_self,
      not_mem_name (.inr hx)⟩

/-- The three patterns can be replaced one after the other. -/
theorem taggable (hdigits : DigitsAreWords lang) :
    Taggable (isWord lang.toUnicode) (Kind.pattern lang) Kind.name where
  opening := isWord_opening
  closing := isWord_closing
  reads := by
    intro kind c d h
    obtain ⟨text, hmoves, hbrackets, hnames⟩ := reads_of_mem_ends h
    exact ⟨text, hmoves, fun h => (hbrackets '[' h).1 rfl, fun h => (hbrackets ']' h).2 rfl,
      hnames⟩
  moved := by
    intro kind text c c' d d' h hmoves' hmoves hsides
    by_cases hkind : kind = .email
    · subst hkind
      exact moved_of_over over_emailRe h hmoves' hmoves
    · obtain ⟨r, hr, hover, hfirst⟩ := @pattern_eq_bounded lang kind hkind
      rw [hr] at h ⊢
      exact moved_bounded hover (startsWord_of_digit hdigits hfirst) h hmoves' hmoves hsides
  front := by
    intro kind x last rest hx h
    by_cases hkind : kind = .email
    · subst hkind
      exact front_of_over over_emailRe (wordOr_of_isWord hx _) h
    · obtain ⟨r, hr, hover, hfirst⟩ := @pattern_eq_bounded lang kind hkind
      rw [hr] at h
      exact absurd (front_bounded hover (startsWord_of_digit hdigits hfirst) hx) h
  back := by
    intro kind c d h x hx hword
    by_cases hkind : kind = .email
    · subst hkind
      have hstop := stops_emailRe h x hx
      rw [wordOr_of_isWord hword] at hstop
      cases hstop
    · obtain ⟨r, hr, hover, -⟩ := @pattern_eq_bounded lang kind hkind
      rw [hr] at h
      exact back_bounded hover (List.mem_of_mem_head? h) hx hword

/-- Redaction leaves nothing behind. -/
theorem redactPii_leavesNothing (hdigits : DigitsAreWords lang) (text : String) :
    LeavesNothing lang text (redactPii lang text) := by
  have hpassed := passed_passes (taggable hdigits) [.email, .card, .phone] text.toList
  have hall : ∀ kind : Kind, kind ∈ [Kind.email, .card, .phone] := by
    intro kind
    cases kind <;> decide
  have hout : (redactPii lang text).toList = passes (isWord lang.toUnicode) (Kind.pattern lang)
      Kind.name [.email, .card, .phone] text.toList := by
    rw [redactPii_eq, String.toList_ofList]
  refine ⟨?_, ?_, ?_⟩
  · intro kind
    have hclear := hpassed.clear kind (hall kind)
    rw [hout, Regex.found, List.any_eq_false]
    intro e he
    rw [hclear e he]
    simp
  · rw [redactPii_eq, hout, passes_of_clear hpassed.clear, ← hout, String.ofList_toList]
  · rw [hout]
    exact hpassed.replaced.redacted

/-- The digits of plain text are word characters, and an address and two numbers are redacted. -/
theorem redactPii_leavesNothing_plain :
    LeavesNothing plainLanguage "jo@example.com, 555-123-4567, 4111 1111 1111 1111"
      (redactPii plainLanguage "jo@example.com, 555-123-4567, 4111 1111 1111 1111") := by
  refine redactPii_leavesNothing ?_ _
  intro x hx
  cases hdigit : x.isDigit with
  | true =>
      have halnum : x.isAlphanum = true := by rw [Char.isAlphanum, hdigit, Bool.or_true]
      rw [isWord, plainLanguage.isAlnum_ascii x (toNat_lt_of_isDigit hdigit), halnum, Bool.true_or]
  | false =>
      have hdecimal : plainLanguage.decimal x = none := if_neg (by simp [hdigit])
      rw [isDigit, hdecimal] at hx
      cases hx

example : redactPii plainLanguage
    "mail jo@example.com or call 555-123-4567, card 4111 1111 1111 1111" =
    "mail [email] or call [phone], card [card]" := by decide +kernel

end DealFinder.Safety
