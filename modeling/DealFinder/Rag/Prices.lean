/-
# Dollar amounts in a text

The price pattern finds a dollar sign, at most one space, and a number with at most two
decimals. A number holds no dollar sign, so the scan finds what can be read after each
dollar sign of the text (`pricesFound_eq`), and text in front of a space and a character
that starts no number changes nothing.
-/

import DealFinder.Math.Regex
import DealFinder.Rag.Items
import Mathlib.Data.List.TakeWhile

namespace DealFinder.Rag

open DealFinder.Math DealFinder.Features

section Pattern

variable (lang : Language)

/-- `\d`. -/
def isDigit (x : Char) : Bool := (lang.decimal x).isSome

/-- `[\d,]`. -/
def inNumber (x : Char) : Bool := isDigit lang x || x = ','

/-- `(?:\.\d{1,2})?`. -/
def centsRe : Regex :=
  (Regex.inOrder [.one fun x => x = '.', .one (isDigit lang), (Regex.one (isDigit lang)).opt]).opt

/-- `_PRICE_RE`. -/
def priceRe : Grouped where
  before := (Regex.one fun x => x = '$').seq (Regex.one isSpace).opt
  group := Regex.inOrder [.one (isDigit lang), .many (inNumber lang), centsRe lang]
  after := .plain .empty

/-- The groups that `finditer` finds. -/
def pricesFound (text : List Char) : List (List Char) :=
  scan ((priceRe lang).matchAt (isWord lang.toUnicode)) 0 none text

/-- The number that some digits spell. -/
def digitsValue (digits : List Char) : ℕ :=
  digits.foldl (fun n x => 10 * n + (lang.decimal x).getD 0) 0

/-- `float(m.group(1).replace(",", ""))`. -/
def groupValue (group : List Char) : ℚ :=
  let digits := group.filter fun x => x ≠ ','
  let whole := digits.takeWhile fun x => x ≠ '.'
  let cents := (digits.dropWhile fun x => x ≠ '.').drop 1
  digitsValue lang (whole ++ cents) / 10 ^ cents.length

/-- `_prices_in`. -/
def pricesIn (text : String) : Finset String :=
  ((pricesFound lang text.toList).map fun group =>
    Shop.fixed 2 (groupValue lang group)).toFinset

/-! ## What is read after a dollar sign -/

/-- The text after at most one space. -/
def skipSpace : List Char → List Char
  | [] => []
  | x :: rest => if isSpace x then rest else x :: rest

/-- A point and one or two digits at the start of a text. -/
def centsAt : List Char → List Char
  | '.' :: x :: rest =>
      if isDigit lang x then '.' :: x :: (rest.take 1).filter (isDigit lang) else []
  | _ => []

/-- The number at the start of a text. -/
def numberAt : List Char → Option (List Char)
  | [] => none
  | x :: rest =>
      if isDigit lang x then
        some (x :: (rest.takeWhile (inNumber lang) ++ centsAt lang (rest.dropWhile (inNumber lang))))
      else none

/-- The number at the start of a text, after at most one space. -/
def amountAt (text : List Char) : Option (List Char) := numberAt lang (skipSpace text)

/-- The numbers after the dollar signs of a text. -/
def amounts : List Char → List (List Char)
  | [] => []
  | x :: rest => (if x = '$' then (amountAt lang rest).toList else []) ++ amounts rest

end Pattern

variable {lang : Language} {last : Option Char} {text rest : List Char}

theorem isDigit_ascii {x : Char} (h : x.toNat < 128) : isDigit lang x = x.isDigit := by
  rw [isDigit, lang.decimal_ascii x h]
  split_ifs with hdigit
  · exact hdigit.symm
  · simpa using hdigit

theorem isDigit_of_isSpace {x : Char} (h : isSpace x = true) : isDigit lang x = false := by
  rw [isDigit, lang.decimal_space x h]
  rfl

/-! ## The pattern reads an amount -/

section Reading

variable {w : Char → Bool}

theorem prefers_centsRe (text : List Char) :
    ∃ after, text = centsAt lang text ++ after ∧
      (centsRe lang).Prefers w ⟨last, text⟩ ⟨(centsAt lang text).getLast?.or last, after⟩ := by
  have hnone : ∀ text : List Char, (∀ x rest, text = '.' :: x :: rest → isDigit lang x = false) →
      (centsRe lang).Prefers w ⟨last, text⟩ ⟨last, text⟩ := by
    intro text hno
    apply Regex.prefers_opt_of_none
    rw [List.eq_nil_iff_forall_not_mem]
    intro d hd
    obtain ⟨m, hm, hd⟩ := Regex.mem_ends_seq.1 hd
    obtain ⟨x, rest, rfl, hpoint, rfl⟩ := Regex.mem_ends_one.1 hm
    obtain ⟨m, hm, -⟩ := Regex.mem_ends_seq.1 hd
    obtain ⟨y, rest', hrest, hdigit, rfl⟩ := Regex.mem_ends_one.1 hm
    obtain rfl : rest = y :: rest' := hrest
    obtain rfl : x = '.' := of_decide_eq_true hpoint
    rw [hno y rest' rfl] at hdigit
    cases hdigit
  match text with
  | [] => exact ⟨[], rfl, hnone [] (by simp)⟩
  | [x] => exact ⟨[x], by simp [centsAt], by simpa [centsAt] using hnone [x] (by simp)⟩
  | x :: y :: rest =>
      by_cases hpoint : x = '.'
      · subst hpoint
        by_cases hdigit : isDigit lang y = true
        · have hpoint : (Regex.one fun x => x = '.').Prefers w ⟨last, '.' :: y :: rest⟩
              ⟨some '.', y :: rest⟩ := Regex.prefers_one (by decide)
          have hfirst : (Regex.one (isDigit lang)).Prefers w ⟨some '.', y :: rest⟩
              ⟨some y, rest⟩ := Regex.prefers_one hdigit
          rw [centsAt, if_pos hdigit]
          match rest with
          | [] =>
              exact ⟨[], rfl, (hpoint.seq (hfirst.seq
                (Regex.prefers_opt_of_none rfl))).opt⟩
          | z :: rest =>
              by_cases hsecond : isDigit lang z = true
              · refine ⟨rest, by simp [hsecond], ?_⟩
                have hlast : (Regex.one (isDigit lang)).Prefers w ⟨some y, z :: rest⟩
                    ⟨some z, rest⟩ := Regex.prefers_one hsecond
                have hall : (centsRe lang).Prefers w ⟨last, '.' :: y :: z :: rest⟩
                    ⟨some z, rest⟩ := (hpoint.seq (hfirst.seq hlast.opt)).opt
                simpa [hsecond] using hall
              · refine ⟨z :: rest, by simp [hsecond], ?_⟩
                have hlast : (Regex.one (isDigit lang)).opt.Prefers w ⟨some y, z :: rest⟩
                    ⟨some y, z :: rest⟩ :=
                  Regex.prefers_opt_of_none (Regex.ends_one_of_not (by simpa using hsecond))
                have hall : (centsRe lang).Prefers w ⟨last, '.' :: y :: z :: rest⟩
                    ⟨some y, z :: rest⟩ := (hpoint.seq (hfirst.seq hlast)).opt
                simpa [hsecond] using hall
        · rw [centsAt, if_neg hdigit]
          refine ⟨'.' :: y :: rest, rfl, hnone _ ?_⟩
          rintro x' rest' ⟨⟩
          simpa using hdigit
      · have hempty : centsAt lang (x :: y :: rest) = [] := by
          simp [centsAt, hpoint]
        rw [hempty]
        refine ⟨x :: y :: rest, rfl, hnone _ ?_⟩
        rintro x' rest' ⟨⟩
        exact absurd rfl hpoint

/-- The members of an amount are digits, commas and points, and it is what the group reads. -/
theorem prefers_group {x : Char} (hx : isDigit lang x = true) (rest : List Char) :
    ∃ after, x :: rest = (x :: (rest.takeWhile (inNumber lang) ++
        centsAt lang (rest.dropWhile (inNumber lang)))) ++ after ∧
      ∃ stop, (priceRe lang).group.Prefers w ⟨last, x :: rest⟩ ⟨stop, after⟩ := by
  obtain ⟨after, hafter, hcents⟩ := @prefers_centsRe lang
    ((rest.takeWhile (inNumber lang)).getLast?.or (some x)) w (rest.dropWhile (inNumber lang))
  refine ⟨after, ?_, ?_⟩
  · rw [List.cons_append, List.append_assoc, ← hafter, List.takeWhile_append_dropWhile]
  · have hfirst : (Regex.one (isDigit lang)).Prefers w ⟨last, x :: rest⟩ ⟨some x, rest⟩ :=
      Regex.prefers_one hx
    have hmany := @Regex.prefers_many w (inNumber lang) (some x)
      (rest.takeWhile (inNumber lang)) (rest.dropWhile (inNumber lang))
      (fun y hy => List.mem_takeWhile_imp hy) (fun y hy => by
        have hstop := List.head?_dropWhile_not (inNumber lang) rest
        rwa [hy] at hstop)
    rw [List.takeWhile_append_dropWhile] at hmany
    exact ⟨_, hfirst.seq (hmany.seq hcents)⟩

theorem groupAt_of_not {start : Cursor} (h : ∀ x ∈ start.rest.head?, isDigit lang x = false) :
    (priceRe lang).groupAt w start = none := by
  obtain ⟨last, text⟩ := start
  have hends : (priceRe lang).group.ends w ⟨last, text⟩ = [] := by
    apply Regex.ends_seq_of_none
    cases text with
    | nil => exact Regex.ends_one_nil
    | cons x rest => exact Regex.ends_one_of_not (h x rfl)
  rw [Grouped.groupAt, hends]
  rfl

theorem groupAt_of_digit {x : Char} (hx : isDigit lang x = true) (last : Option Char)
    (rest : List Char) :
    ∃ after, x :: rest = (x :: (rest.takeWhile (inNumber lang) ++
        centsAt lang (rest.dropWhile (inNumber lang)))) ++ after ∧
      ∃ stop, (priceRe lang).groupAt w ⟨last, x :: rest⟩ =
        some (x :: (rest.takeWhile (inNumber lang) ++
          centsAt lang (rest.dropWhile (inNumber lang))), ⟨stop, after⟩) := by
  obtain ⟨after, hafter, stop, hgroup⟩ := @prefers_group lang last w x hx rest
  refine ⟨after, hafter, stop, ?_⟩
  generalize x :: (rest.takeWhile (inNumber lang) ++
    centsAt lang (rest.dropWhile (inNumber lang))) = number at hafter ⊢
  rw [hafter] at hgroup ⊢
  exact @Grouped.groupAt_of_prefers w (priceRe lang) ⟨stop, after⟩ _ number last hgroup
    Regex.prefers_empty

/-- Nothing is read where there is no dollar sign. -/
theorem matchAt_of_ne {x : Char} (h : x ≠ '$') :
    (priceRe lang).matchAt w ⟨last, x :: rest⟩ = none :=
  Grouped.matchAt_of_none (Regex.ends_seq_of_none (Regex.ends_one_of_not (by simpa using h)))

/-- After a dollar sign the amount is read, with the space before it. -/
theorem matchAt_of_amount {number : List Char} (h : amountAt lang rest = some number) :
    ∃ space after stop, rest = (space ++ number) ++ after ∧
      (∀ x ∈ space, isSpace x = true) ∧
      (priceRe lang).matchAt w ⟨last, '$' :: rest⟩ = some (number, ⟨stop, after⟩) := by
  have hdollar : (Regex.one fun x => x = '$').Prefers w ⟨last, '$' :: rest⟩ ⟨some '$', rest⟩ :=
    Regex.prefers_one (by decide)
  have hread : ∀ (before : Option Char) (text : List Char) (x : Char) (more : List Char),
      text = x :: more → isDigit lang x = true →
      (Regex.one isSpace).opt.Prefers w ⟨some '$', rest⟩ ⟨before, text⟩ →
      some (x :: (more.takeWhile (inNumber lang) ++
        centsAt lang (more.dropWhile (inNumber lang)))) = some number →
      ∃ after stop, text = number ++ after ∧
        (priceRe lang).matchAt w ⟨last, '$' :: rest⟩ = some (number, ⟨stop, after⟩) := by
    rintro before text x more rfl hx hspace hnumber
    obtain ⟨after, hafter, stop, hgroup⟩ := @groupAt_of_digit lang w x hx before more
    obtain rfl := Option.some.inj hnumber
    exact ⟨after, stop, hafter, Grouped.matchAt_of_prefers (hdollar.seq hspace) hgroup⟩
  unfold amountAt numberAt at h
  cases rest with
  | nil => cases h
  | cons x rest =>
      by_cases hx : isSpace x = true
      · rw [skipSpace, if_pos hx] at h
        cases rest with
        | nil => cases h
        | cons y rest =>
            dsimp only at h
            split_ifs at h with hy
            have hspace : (Regex.one isSpace).opt.Prefers w ⟨some '$', x :: y :: rest⟩
                ⟨some x, y :: rest⟩ := (Regex.prefers_one hx).opt
            obtain ⟨after, stop, htext, hmatch⟩ := hread _ _ y rest rfl hy hspace h
            exact ⟨[x], after, stop, by rw [htext]; rfl, by simpa using hx, hmatch⟩
      · rw [skipSpace, if_neg hx] at h
        dsimp only at h
        split_ifs at h with hdigit
        have hspace : (Regex.one isSpace).opt.Prefers w ⟨some '$', x :: rest⟩
            ⟨some '$', x :: rest⟩ :=
          Regex.prefers_opt_of_none (Regex.ends_one_of_not (by simpa using hx))
        obtain ⟨after, stop, htext, hmatch⟩ := hread _ _ x rest rfl hdigit hspace h
        exact ⟨[], after, stop, htext, by simp, hmatch⟩

/-- After a dollar sign without an amount nothing is read. -/
theorem matchAt_of_no_amount (h : amountAt lang rest = none) :
    (priceRe lang).matchAt w ⟨last, '$' :: rest⟩ = none := by
  rw [Grouped.matchAt, List.findSome?_eq_none_iff]
  intro start hstart
  apply groupAt_of_not
  obtain ⟨m, hm, hstart⟩ := Regex.mem_ends_seq.1 hstart
  obtain ⟨x, text, hrest, -, rfl⟩ := Regex.mem_ends_one.1 hm
  obtain ⟨-, rfl⟩ := List.cons.inj hrest
  unfold amountAt numberAt at h
  rcases Regex.mem_ends_alt.1 hstart with hone | hnone
  · obtain ⟨y, more, hmore, hspace, rfl⟩ := Regex.mem_ends_one.1 hone
    obtain rfl : rest = y :: more := hmore
    rw [skipSpace, if_pos hspace] at h
    intro z hz
    obtain ⟨tail, rfl⟩ := List.head?_eq_some_iff.1 hz
    by_contra hdigit
    simp [hdigit] at h
  · obtain rfl := Pattern.mem_ends_empty.1 (Regex.mem_ends_plain.1 hnone)
    intro z hz
    obtain ⟨tail, rfl⟩ := List.head?_eq_some_iff.1 hz
    by_cases hspace : isSpace z = true
    · exact isDigit_of_isSpace hspace
    · rw [skipSpace, if_neg hspace] at h
      by_contra hdigit
      simp [hdigit] at h

end Reading

/-! ## What is found -/

theorem dollar_not_digit : isDigit lang '$' = false := by
  rw [isDigit_ascii (by decide)]
  decide

/-- A number holds no dollar sign. -/
theorem not_dollar_mem_amount {number : List Char} (h : amountAt lang text = some number) :
    '$' ∉ number := by
  have hnumber : ∀ rest : List Char, '$' ∉ rest.takeWhile (inNumber lang) := by
    intro rest hmem
    have haccepted := List.mem_takeWhile_imp hmem
    simp [inNumber, dollar_not_digit] at haccepted
  have hcents : ∀ rest : List Char, '$' ∉ centsAt lang rest := by
    intro rest hmem
    unfold centsAt at hmem
    split at hmem
    · split_ifs at hmem with hdigit
      · rcases List.mem_cons.1 hmem with hpoint | hmem
        · exact absurd hpoint (by decide)
        · rcases List.mem_cons.1 hmem with rfl | hmem
          · rw [dollar_not_digit] at hdigit
            cases hdigit
          · have haccepted := (List.mem_filter.1 hmem).2
            rw [dollar_not_digit] at haccepted
            cases haccepted
      · cases hmem
    · cases hmem
  unfold amountAt numberAt at h
  split at h
  · cases h
  · split_ifs at h with hdigit
    obtain rfl := Option.some.inj h
    intro hmem
    rcases List.mem_cons.1 hmem with rfl | hmem
    · rw [dollar_not_digit] at hdigit
      cases hdigit
    · rcases List.mem_append.1 hmem with hmem | hmem
      · exact hnumber _ hmem
      · exact hcents _ hmem

theorem amounts_of_no_dollar {front : List Char} (h : '$' ∉ front) (text : List Char) :
    amounts lang (front ++ text) = amounts lang text := by
  induction front with
  | nil => rfl
  | cons x front ih =>
      obtain ⟨hx, hfront⟩ := not_or.1 (mt List.mem_cons.2 h)
      rw [List.cons_append, amounts, if_neg (fun hx' => hx hx'.symm), List.nil_append, ih hfront]

/-- The scan finds the numbers after the dollar signs. -/
theorem pricesFound_eq (text : List Char) : pricesFound lang text = amounts lang text := by
  have hall : ∀ (n : ℕ) (last : Option Char) (text : List Char), text.length ≤ n →
      scan ((priceRe lang).matchAt (isWord lang.toUnicode)) 0 last text = amounts lang text := by
    intro n
    induction n with
    | zero =>
        intro last text hlength
        obtain rfl := List.length_eq_zero_iff.1 (Nat.le_zero.1 hlength)
        rfl
    | succ n ih =>
        intro last text hlength
        cases text with
        | nil => rfl
        | cons x rest =>
            have hrest : rest.length ≤ n := Nat.le_of_succ_le_succ hlength
            rw [amounts]
            by_cases hx : x = '$'
            · subst hx
              rw [if_pos rfl]
              cases hamount : amountAt lang rest with
              | none =>
                  rw [scan_of_none (matchAt_of_no_amount hamount), ih _ _ hrest]
                  rfl
              | some number =>
                  obtain ⟨space, after, stop, rfl, hspace, hmatch⟩ :=
                    @matchAt_of_amount lang last rest (isWord lang.toUnicode) number hamount
                  have hdollar : '$' ∉ space ++ number := by
                    rw [List.mem_append, not_or]
                    exact ⟨fun hmem => absurd (hspace _ hmem) (by decide),
                      not_dollar_mem_amount hamount⟩
                  rw [List.length_append] at hrest
                  rw [scan_of_some hmatch, ih _ _ (by omega), amounts_of_no_dollar hdollar]
                  rfl
            · rw [scan_of_none (matchAt_of_ne hx), if_neg hx, List.nil_append, ih _ _ hrest]
  exact hall text.length none text le_rfl

/-- An amount is found exactly when it can be read after some dollar sign. -/
theorem mem_amounts {number : List Char} :
    number ∈ amounts lang text ↔
      ∃ before after, text = before ++ '$' :: after ∧ amountAt lang after = some number := by
  induction text with
  | nil => simp [amounts]
  | cons x rest ih =>
      rw [amounts, List.mem_append, ih]
      constructor
      · rintro (hhere | ⟨before, after, rfl, hafter⟩)
        · split_ifs at hhere with hx
          · exact ⟨[], rest, by rw [hx]; rfl, by simpa using hhere⟩
          · cases hhere
        · exact ⟨x :: before, after, rfl, hafter⟩
      · rintro ⟨before, after, htext, hafter⟩
        cases before with
        | nil =>
            obtain ⟨rfl, rfl⟩ := List.cons.inj htext
            exact Or.inl (by simp [hafter])
        | cons y before =>
            obtain ⟨rfl, rfl⟩ := List.cons.inj htext
            exact Or.inr ⟨before, after, rfl, hafter⟩

/-! ## Seams -/

/-- A text that continues no number: it starts with no digit, comma or point, and with no
space before a digit. -/
def Closes (lang : Language) (text : List Char) : Prop :=
  ∀ x ∈ text.head?, inNumber lang x = false ∧ x ≠ '.' ∧
    (isSpace x = true → ∀ y ∈ text.tail.head?, isDigit lang y = false)

theorem isDigit_of_inNumber {x : Char} (h : inNumber lang x = false) : isDigit lang x = false := by
  rw [inNumber, Bool.or_eq_false_iff] at h
  exact h.1

theorem Closes.digit {after : List Char} (h : Closes lang after) :
    ∀ x ∈ after.head?, isDigit lang x = false := fun x hx => isDigit_of_inNumber (h x hx).1

theorem centsAt_append {after : List Char} (h : Closes lang after) (text : List Char) :
    centsAt lang (text ++ after) = centsAt lang text := by
  match text with
  | [] =>
      cases after with
      | nil => rfl
      | cons x after => simp [centsAt, (h x rfl).2.1]
  | [x] =>
      cases after with
      | nil => rfl
      | cons y after =>
          by_cases hx : x = '.'
          · simp [centsAt, hx, h.digit y rfl]
          · simp [centsAt, hx]
  | [x, y] =>
      cases after with
      | nil => rfl
      | cons z after =>
          by_cases hx : x = '.'
          · simp [centsAt, hx, h.digit z rfl]
          · simp [centsAt, hx]
  | x :: y :: z :: text =>
      by_cases hx : x = '.'
      · simp [centsAt, hx]
      · simp [centsAt, hx]

/-- The number that a text starts with does not go on in what closes it. -/
theorem number_append {after : List Char} (h : Closes lang after) (text : List Char) :
    (text ++ after).takeWhile (inNumber lang) ++
        centsAt lang ((text ++ after).dropWhile (inNumber lang)) =
      text.takeWhile (inNumber lang) ++ centsAt lang (text.dropWhile (inNumber lang)) := by
  induction text with
  | nil =>
      cases after with
      | nil => rfl
      | cons x after =>
          have hx := (h x rfl).1
          have hcents := centsAt_append h []
          rw [List.nil_append, List.takeWhile_cons_of_neg (by simp [hx]),
            List.dropWhile_cons_of_neg (by simp [hx])]
          exact hcents
  | cons y text ih =>
      by_cases hy : inNumber lang y = true
      · rw [List.cons_append, List.takeWhile_cons_of_pos hy, List.dropWhile_cons_of_pos hy,
          List.takeWhile_cons_of_pos hy, List.dropWhile_cons_of_pos hy, List.cons_append, ih,
          List.cons_append]
      · rw [List.cons_append, List.takeWhile_cons_of_neg hy, List.dropWhile_cons_of_neg hy,
          List.takeWhile_cons_of_neg hy, List.dropWhile_cons_of_neg hy, List.nil_append,
          List.nil_append, ← List.cons_append, centsAt_append h]

theorem numberAt_append {after : List Char} (h : Closes lang after) (text : List Char) :
    numberAt lang (text ++ after) = numberAt lang text := by
  cases text with
  | nil =>
      cases after with
      | nil => rfl
      | cons x after => exact if_neg (by simp [h.digit x rfl])
  | cons x text => rw [List.cons_append, numberAt, numberAt, number_append h]

theorem amountAt_append {after : List Char} (h : Closes lang after) (text : List Char) :
    amountAt lang (text ++ after) = amountAt lang text := by
  cases text with
  | cons x text =>
      unfold amountAt
      rw [List.cons_append, skipSpace, skipSpace]
      split_ifs
      · exact numberAt_append h text
      · exact numberAt_append h (x :: text)
  | nil =>
      -- The space that may be skipped is the first of what closes the text.
      show numberAt lang (skipSpace after) = none
      cases after with
      | nil => rfl
      | cons x after =>
          rw [skipSpace]
          split_ifs with hspace
          · cases after with
            | nil => rfl
            | cons y after => exact if_neg (by simp [(h x rfl).2.2 hspace y rfl])
          · exact if_neg (by simp [h.digit x rfl])

/-- The amounts of two texts, when the second continues no number of the first. -/
theorem amounts_append {after : List Char} (h : Closes lang after) (text : List Char) :
    amounts lang (text ++ after) = amounts lang text ++ amounts lang after := by
  induction text with
  | nil => rfl
  | cons x text ih =>
      rw [List.cons_append, amounts, amounts, ih, amountAt_append h, List.append_assoc]

/-! ## A price as it is written -/

theorem isDigit_of_mem_toString {n : ℕ} {c : Char} (h : c ∈ (toString n).toList) :
    c.isDigit = true := by
  rw [Nat.toString_eq_repr, Nat.repr_eq_ofList_toDigits, String.toList_ofList] at h
  exact Nat.isDigit_of_mem_toDigits (by norm_num) le_rfl h

theorem isDigit_of_mem_leftpad {n k : ℕ} {c : Char} (h : c ∈ (toString n).toList.leftpad k '0') :
    c.isDigit = true := by
  rcases List.mem_append.1 h with hzero | hdigit
  · rw [List.eq_of_mem_replicate hzero]
    decide
  · exact isDigit_of_mem_toString hdigit

/-- A number as an f-string writes it is made of digits, a point and a sign. -/
theorem mem_fixed {digits : ℕ} {x : ℚ} {c : Char} (h : c ∈ (Shop.fixed digits x).toList) :
    c.isDigit = true ∨ c = '.' ∨ c = '-' := by
  unfold Shop.fixed at h
  dsimp only at h
  generalize (Shop.roundHalfEven (|x| * 10 ^ digits)).toNat = n at h
  have hsign : ∀ c ∈ (if x < 0 then "-" else "").toList, c = '-' := by
    split_ifs <;> simp
  generalize (if x < 0 then "-" else "") = sign at h hsign
  have hwhole : ∀ c ∈ (sign ++ toString (n / 10 ^ digits)).toList,
      c.isDigit = true ∨ c = '.' ∨ c = '-' := by
    intro c hc
    rw [String.toList_append, List.mem_append] at hc
    exact hc.elim (fun hc => Or.inr (Or.inr (hsign c hc)))
      fun hc => Or.inl (isDigit_of_mem_toString hc)
  split_ifs at h
  · exact hwhole c h
  · rw [String.toList_append, String.toList_append, List.mem_append, List.mem_append] at h
    rcases h with (hc | hpoint) | hcents
    · exact hwhole c hc
    · exact Or.inr (Or.inl (by simpa using hpoint))
    · rw [String.toList_ofList] at hcents
      exact Or.inl (isDigit_of_mem_leftpad hcents)

/-- A price from zero on, with two decimals: digits, a point and two digits. -/
theorem fixed_two {x : ℚ} (h : ¬ x < 0) :
    ∃ first whole d e, (Shop.fixed 2 x).toList = first :: (whole ++ ['.', d, e]) ∧
      ∀ c ∈ first :: (whole ++ [d, e]), c.isDigit = true := by
  generalize hn : (Shop.roundHalfEven (|x| * 10 ^ 2)).toNat = n
  have htext : (Shop.fixed 2 x).toList = (toString (n / 10 ^ 2)).toList ++
      ('.' :: (toString (n % 10 ^ 2)).toList.leftpad 2 '0') := by
    simp only [Shop.fixed, hn, if_neg h]
    simp
  have hlength : ((toString (n % 10 ^ 2)).toList.leftpad 2 '0').length = 2 := by
    have hshort : (toString (n % 10 ^ 2)).toList.length ≤ 2 := by
      rw [Nat.toString_eq_repr, String.length_toList, Nat.length_repr_le_iff (by norm_num)]
      exact Nat.mod_lt _ (by norm_num)
    rw [List.length_leftpad]
    omega
  obtain ⟨d, e, hcents⟩ := List.length_eq_two.1 hlength
  have hwhole : (toString (n / 10 ^ 2)).toList ≠ [] := by
    rw [Nat.toString_eq_repr, ← List.length_pos_iff, String.length_toList]
    exact Nat.length_repr_pos
  obtain ⟨first, whole, hfirst⟩ := List.exists_cons_of_ne_nil hwhole
  refine ⟨first, whole, d, e, by rw [htext, hcents, hfirst]; rfl, ?_⟩
  intro c hc
  rw [← List.cons_append, ← hfirst, List.mem_append] at hc
  rcases hc with hc | hc
  · exact isDigit_of_mem_toString hc
  · rw [← hcents] at hc
    exact isDigit_of_mem_leftpad hc

/-- After a dollar sign a price is read as it is written, and one below zero is not. -/
theorem amountAt_fixed (x : ℚ) (rest : List Char) :
    amountAt lang ((Shop.fixed 2 x).toList ++ rest) =
      if x < 0 then none else some (Shop.fixed 2 x).toList := by
  split_ifs with hneg
  · have hsign : ∃ more, (Shop.fixed 2 x).toList = '-' :: more := by
      simp [Shop.fixed, hneg]
    obtain ⟨more, hmore⟩ := hsign
    have hminus : isDigit lang '-' = false := by
      rw [isDigit_ascii (by decide)]
      decide
    rw [hmore, amountAt, List.cons_append, skipSpace, if_neg (by decide), numberAt, hminus]
    rfl
  · obtain ⟨first, whole, d, e, htext, hdigits⟩ := fixed_two hneg
    have hread : ∀ c ∈ first :: (whole ++ [d, e]), isDigit lang c = true := by
      intro c hc
      rw [isDigit_ascii (toNat_lt_of_isDigit (hdigits c hc))]
      exact hdigits c hc
    obtain ⟨hfirst, hrest⟩ := List.forall_mem_cons.1 hread
    have hspace : ¬ isSpace first = true := fun h => by
      rw [isDigit_of_isSpace h] at hfirst
      cases hfirst
    have hpoint : ¬ inNumber lang '.' = true := by
      rw [inNumber, isDigit_ascii (by decide)]
      decide
    have hwhole : ∀ c ∈ whole, inNumber lang c = true := by
      intro c hc
      rw [inNumber, hrest c (List.mem_append_left _ hc)]
      rfl
    have hcents : centsAt lang ('.' :: d :: e :: rest) = ['.', d, e] := by
      rw [centsAt, if_pos (hrest d (by simp))]
      simp [hrest e (by simp)]
    have hgroup : whole ++ ['.', d, e] ++ rest = whole ++ '.' :: d :: e :: rest := by simp
    rw [htext, amountAt, List.cons_append, skipSpace, if_neg hspace, numberAt, if_pos hfirst,
      hgroup, List.takeWhile_append_of_pos hwhole, List.dropWhile_append_of_pos hwhole,
      List.takeWhile_cons_of_neg hpoint, List.dropWhile_cons_of_neg hpoint, List.append_nil, hcents]

/-- The amount of a price that is shown. -/
def shown (x : ℚ) : List (List Char) := if x < 0 then [] else [(Shop.fixed 2 x).toList]

theorem amounts_price (x : ℚ) (rest : List Char) :
    amounts lang ('$' :: ((Shop.fixed 2 x).toList ++ rest)) = shown x ++ amounts lang rest := by
  have hdollar : '$' ∉ (Shop.fixed 2 x).toList := fun h =>
    absurd (mem_fixed h) (by decide)
  rw [amounts, if_pos rfl, amountAt_fixed, amounts_of_no_dollar hdollar, shown]
  split_ifs
  · rfl
  · rfl

end DealFinder.Rag
