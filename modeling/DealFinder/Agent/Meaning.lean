/-
# What a question asks for

A question that has one phrase `under $A` or `over $A` asks for prices on that side of the amount,
and for a condition if it names one. The statement it becomes reads the first digits behind the
word, up to a comma or a point, wherever the word stands, and the first condition word of the table
that occurs in any word of the question. So the statement means what was asked exactly if these
digits are worth the amount, no digits stand behind the other word, and no condition word from
further up in the table occurs (`means_iff`).
-/

import DealFinder.Agent.Question
import Mathlib.Data.Bool.AllAny
import Mathlib.Data.List.TakeWhile

namespace DealFinder.Agent

open DealFinder.Math DealFinder.Feeds DealFinder.Features DealFinder.Rag

/-! ## Amounts -/

/-- An amount as it is written: digits, perhaps with commas between the thousands, and perhaps
cents. -/
structure Amount where
  lead : List Char
  groups : List (List Char) := []
  cents : Option (List Char) := none
  lead_ne : lead ≠ []
  digits : ∀ c ∈ lead ++ groups.flatten ++ cents.getD [], c.isDigit = true
  lead_length : groups ≠ [] → lead.length ≤ 3
  group_length : ∀ group ∈ groups, group.length = 3
  cents_length : ∀ pair ∈ cents, pair.length = 2

namespace Amount

/-- The text of an amount. -/
def text (a : Amount) : List Char :=
  a.lead ++ (a.groups.flatMap (fun group => ',' :: group) ++
    (a.cents.map fun pair => '.' :: pair).getD [])

/-- What an amount is worth. -/
def value (a : Amount) : ℚ :=
  digitsNumber (a.lead ++ a.groups.flatten) + digitsNumber (a.cents.getD []) / 100

end Amount

/-! ## What is asked for -/

/-- A side of an amount. -/
inductive Bound
  | below
  | above
  deriving DecidableEq

namespace Bound

/-- The word for a side. -/
def word : Bound → String
  | below => "under"
  | above => "over"

/-- The other side. -/
def other : Bound → Bound
  | below => above
  | above => below

/-- A price is on a side of a limit. -/
def accepts : Bound → Double → Double → Bool
  | below, price, limit => price.less limit
  | above, price, limit => limit.less price

/-- The clause for a side. -/
def clause : Bound → String → Clause
  | below => .below
  | above => .above

/-- The condition on rows for a side. -/
def cond : Bound → ℕ → Cond
  | below => .below
  | above => .above

end Bound

section Asking

variable (lang : Language)

/-- No number goes on here, neither with a digit nor with a comma or a point and a digit. -/
def numberEnds (after : List Char) : Bool :=
  !after.head?.any (isDecimal lang) &&
    !(after.head?.any (fun c => c = ',' || c = '.') && after.tail.head?.any (isDecimal lang))

/-- `under $A` or `over $A` as a phrase of a text, between what stands before it and after it. -/
structure Phrase (q before : List Char) (bound : Bound) (amount : Amount)
    (after : List Char) : Prop where
  text : q = before ++ ((bound.word ++ " ").toList ++ '$' :: (amount.text ++ after))
  starts : before.getLast?.any (isWord lang.toUnicode) = false
  ends : numberEnds lang after = true

/-- A text stands in another as words of their own. -/
def wholeWord (text : String) (q : List Char) : Bool :=
  (Pattern.cursors none q).any fun c =>
    !c.last.any (isWord lang.toUnicode) && text.toList.isPrefixOf c.rest &&
      !(c.rest.drop text.toList.length).head?.any (isWord lang.toUnicode)

/-- A text has no condition word as a whole word, or exactly one, which stands for a condition. -/
def NamesCondition (q : List Char) : Option String → Prop
  | none => ∀ entry ∈ conditionWords, wholeWord lang entry.1 q = false
  | some value => ∃ entry ∈ conditionWords, entry.2 = value ∧
      ∀ other ∈ conditionWords, wholeWord lang other.1 q = true ↔ other = entry

/-- A question asks for prices on a side of an amount, in its only phrase of this kind, and for
the condition that it names, if it names one. -/
structure Asks (question : String) (bound : Bound) (amount : Amount)
    (condition : Option String) : Prop where
  phrase : ∃ before after, Phrase lang (lang.lower question).toList before bound amount after ∧
    ∀ before' bound' amount' after',
      Phrase lang (lang.lower question).toList before' bound' amount' after' →
        before' = before ∧ bound' = bound
  names : NamesCondition lang (lang.lower question).toList condition

/-- A row is what was asked for. -/
def Row.Asked (row : Row) (bound : Bound) (amount : Amount) (condition : Option String) : Prop :=
  (row.price.any fun price => bound.accepts price (.finite amount.value)) = true ∧
    ∀ value ∈ condition, row.condition = value

/-- A condition that is about the price or about the condition of a product. -/
def Cond.restricts : Cond → Bool
  | .below _ | .above _ | .equals .condition _ => true
  | _ => false

/-- The statement of a question runs on the table of some products, all rows that it returns are
what was asked for, and no row that was asked for fails one of its conditions on the price or on
the condition. -/
def Means (question : String) (bound : Bound) (amount : Amount) (condition : Option String)
    (products : List Product) : Prop :=
  ∃ conds rows, readSql (nlToSql lang question) = some conds ∧
    runSql (buildDb products) (nlToSql lang question) = some rows ∧
    (∀ row ∈ rows, row.Asked bound amount condition) ∧
    ∀ row ∈ buildDb products, row.Asked bound amount condition →
      ∀ cond ∈ conds, cond.restricts = true → cond.holds row = true

/-- The digits that are found behind the word are of ASCII and worth the amount, no digits are
found behind the other word, and no condition word from further up in the table than those for
the condition occurs. -/
structure Understood (question : String) (bound : Bound) (amount : Amount)
    (condition : Option String) : Prop where
  amount : ∀ digits, numberAfter lang bound.word (lang.lower question).toList = some digits →
    (∀ c ∈ digits, c.isDigit = true) ∧ literal (digitsNumber digits) = .finite amount.value
  other : numberAfter lang bound.other.word (lang.lower question).toList = none
  condition : ∀ entry ∈ conditionWords.takeWhile (fun entry => some entry.2 ≠ condition),
    within entry.1 (lang.lower question) = false

end Asking

/-! ## The table of condition words -/

section Conditions

variable {lang : Language} {q : String} {condition : Option String}

theorem within_of_wholeWord {text : String} (h : wholeWord lang text q.toList = true) :
    within text q = true := by
  obtain ⟨c, hc, hword⟩ := List.any_eq_true.1 h
  simp only [Bool.and_eq_true, List.isPrefixOf_iff_prefix] at hword
  rw [within, decide_eq_true_eq]
  exact hword.1.2.isInfix.trans (Pattern.suffix_of_mem_cursors hc).isInfix

/-- The words for a condition stand together in the table. -/
theorem stands_together : ∀ entry ∈ conditionWords, entry ∈
    (conditionWords.dropWhile fun other => some other.2 ≠ some entry.2).takeWhile fun other =>
      other.2 = entry.2 := by
  decide +kernel

/-- A question's condition is the one it names, if no word from further up in the table occurs. -/
theorem conditionOf_of_clear (hnames : NamesCondition lang q.toList condition)
    (hclear : ∀ entry ∈ conditionWords.takeWhile (fun entry => some entry.2 ≠ condition),
      within entry.1 q = false) : conditionOf q = condition := by
  cases condition with
  | none =>
      have hall : conditionWords.takeWhile (fun entry => some entry.2 ≠ none) = conditionWords :=
        List.takeWhile_eq_self_iff.2 fun entry _ => by simp
      rw [hall] at hclear
      rw [conditionOf, List.find?_eq_none.2 fun entry hentry => by simp [hclear entry hentry]]
      rfl
  | some value =>
      obtain ⟨entry, hentry, rfl, hwhole⟩ := hnames
      have hwithin : within entry.1 q = true :=
        within_of_wholeWord ((hwhole entry hentry).2 rfl)
      have hfront : (conditionWords.takeWhile fun other => some other.2 ≠ some entry.2).find?
          (fun other => within other.1 q) = none :=
        List.find?_eq_none.2 fun other hother => by simp [hclear other hother]
      have hblock := stands_together entry hentry
      obtain ⟨found, hfound⟩ := Option.isSome_iff_exists.1 ((@List.find?_isSome _ _
        fun other : String × String => within other.1 q).2 ⟨entry, hblock, hwithin⟩)
      have hvalue : found.2 = entry.2 := by
        simpa using List.all_eq_true.1 List.all_takeWhile found (List.mem_of_find?_eq_some hfound)
      rw [conditionOf, ← @List.takeWhile_append_dropWhile _
        (fun other : String × String => some other.2 ≠ some entry.2) conditionWords,
        List.find?_append, hfront, Option.none_or, ← @List.takeWhile_append_dropWhile _
        (fun other : String × String => other.2 = entry.2)
        (conditionWords.dropWhile fun other => some other.2 ≠ some entry.2),
        List.find?_append, hfound, Option.some_or, Option.map_some, hvalue]

/-- If no other condition is read than the one that is named, then no word from further up in the
table occurs. -/
theorem clear_of_conditionOf (h : ∀ value ∈ conditionOf q, condition = some value) :
    ∀ entry ∈ conditionWords.takeWhile (fun entry => some entry.2 ≠ condition),
      within entry.1 q = false := by
  intro entry hentry
  by_contra hwithin
  rw [Bool.not_eq_false] at hwithin
  obtain ⟨found, hfound⟩ := Option.isSome_iff_exists.1 ((@List.find?_isSome _ _
    fun other : String × String => within other.1 q).2 ⟨entry, hentry, hwithin⟩)
  have hread : conditionOf q = some found.2 := by
    rw [conditionOf, ← @List.takeWhile_append_dropWhile _
      (fun entry : String × String => some entry.2 ≠ condition) conditionWords,
      List.find?_append, hfound, Option.some_or, Option.map_some]
  have hother : some found.2 ≠ condition := by
    simpa using List.all_eq_true.1 List.all_takeWhile found (List.mem_of_find?_eq_some hfound)
  exact hother (h found.2 hread).symm

end Conditions

/-! ## The phrase -/

section Phrase

variable {lang : Language} {q before before' after after' : List Char} {bound bound' : Bound}
  {amount amount' : Amount}

theorem isDecimal_of_isDigit {c : Char} (h : c.isDigit = true) : isDecimal lang c = true := by
  rw [isDecimal, lang.decimal_ascii c (toNat_lt_of_isDigit h), if_pos h]
  rfl

/-- Some number stands behind the word of a phrase. -/
theorem Phrase.exists_number (h : Phrase lang q before bound amount after) :
    ∃ digits, numberAfter lang bound.word q = some digits := by
  have hhere : ∃ digits, numberBehind lang bound.word
      ((bound.word ++ " ").toList ++ '$' :: (amount.text ++ after)) = some digits := by
    obtain ⟨c, lead, hlead⟩ := List.exists_cons_of_ne_nil amount.lead_ne
    have hdigit : isDecimal lang c = true :=
      isDecimal_of_isDigit (amount.digits c (by simp [hlead]))
    rw [numberBehind, if_pos (List.isPrefixOf_iff_prefix.2 (List.prefix_append _ _)),
      List.drop_left, numberHere, List.head?_cons, if_pos rfl, List.tail_cons, Amount.text, hlead,
      List.cons_append, List.cons_append, List.takeWhile_cons_of_pos hdigit,
      if_neg (List.cons_ne_nil _ _)]
    exact ⟨_, rfl⟩
  rw [h.text]
  clear h
  induction before with
  | nil =>
      obtain ⟨digits, hdigits⟩ := hhere
      have hcons : ∃ c rest, (bound.word ++ " ").toList ++ '$' :: (amount.text ++ after) =
          c :: rest := List.exists_cons_of_ne_nil (by simp)
      obtain ⟨c, rest, hcons⟩ := hcons
      rw [hcons] at hdigits
      rw [List.nil_append, hcons, numberAfter, hdigits, Option.some_or]
      exact ⟨digits, rfl⟩
  | cons c before ih =>
      obtain ⟨digits, hdigits⟩ := ih
      rw [List.cons_append, numberAfter, hdigits]
      cases numberBehind lang bound.word (c :: (before ++ _)) with
      | none => exact ⟨digits, rfl⟩
      | some digits' => exact ⟨digits', rfl⟩

/-- What stands before the only dollar sign of a text. -/
theorem Phrase.front (h : Phrase lang q before bound amount after) (hone : q.count '$' = 1) :
    q.takeWhile (· ≠ '$') = before ++ (bound.word ++ " ").toList := by
  have htext : q = (before ++ (bound.word ++ " ").toList) ++ '$' :: (amount.text ++ after) := by
    rw [h.text, List.append_assoc]
  have hnone : '$' ∉ before ++ (bound.word ++ " ").toList := by
    intro hmem
    have hcount := List.count_pos_iff.2 hmem
    rw [htext, List.count_append, List.count_cons_self] at hone
    omega
  rw [htext, takeWhile_ne_append hnone]

/-- A text with only one dollar sign has only one phrase. -/
theorem Phrase.unique (h : Phrase lang q before bound amount after) (hone : q.count '$' = 1)
    (h' : Phrase lang q before' bound' amount' after') : before' = before ∧ bound' = bound := by
  have hfront := (h'.front hone).symm.trans (h.front hone)
  have hbound : bound' = bound := by
    have hsuffix : (bound.word ++ " ").toList <:+ before' ++ (bound'.word ++ " ").toList :=
      hfront ▸ List.suffix_append before _
    have hsuffix' : (bound'.word ++ " ").toList <:+ before' ++ (bound'.word ++ " ").toList :=
      List.suffix_append before' _
    rcases List.suffix_or_suffix_of_suffix hsuffix hsuffix' with hends | hends
    · revert hends
      cases bound <;> cases bound' <;> decide +kernel
    · revert hends
      cases bound <;> cases bound' <;> decide +kernel
  rw [hbound] at hfront
  exact ⟨List.append_cancel_right hfront, hbound⟩

end Phrase

/-! ## Clauses and conditions -/

section Clauses

variable {lang : Language} {question : String} {bound : Bound} {conds : List Cond}

/-- What a clause says was found in the question. -/
def Clause.From (lang : Language) (question : String) : Clause → Prop
  | .below digits => searchBound lang "under" (lang.lower question) = some digits
  | .above digits => searchBound lang "over" (lang.lower question) = some digits
  | .category name => categoryOf lang question (lang.lower question) = some name
  | .condition value => conditionOf (lang.lower question) = some value
  | .brand name => brandOf lang question = some name
  | .productType keyword => productTypeOf (lang.lower question) = some keyword

theorem mem_clausesOf_iff {clause : Clause} :
    clause ∈ clausesOf lang question ↔ clause.From lang question := by
  cases clause <;> simp [clausesOf, Clause.From]

/-- The clause of a side. -/
theorem Bound.mem_clausesOf_iff {digits : String} : bound.clause digits ∈ clausesOf lang question ↔
    (numberAfter lang bound.word (lang.lower question).toList).map String.ofList =
      some digits := by
  rw [Agent.mem_clausesOf_iff, ← searchBound_eq]
  cases bound <;> rfl

theorem Bound.cond?_clause {digits : List Char} (h : ∀ c ∈ digits, c.isDigit = true) :
    (bound.clause (String.ofList digits)).cond? = some (bound.cond (digitsNumber digits)) := by
  have hall : (String.ofList digits).toList.all Char.isDigit = true := by
    rw [String.toList_ofList]
    exact List.all_eq_true.2 h
  cases bound with
  | below => rw [clause, Clause.cond?, if_pos hall, String.toList_ofList, cond]
  | above => rw [clause, Clause.cond?, if_pos hall, String.toList_ofList, cond]

theorem Bound.holds_cond (row : Row) (n : ℕ) : (bound.cond n).holds row =
    row.price.any fun price => bound.accepts price (literal n) := by
  cases bound <;> rfl

/-- Each condition of a statement is that of a clause, if the statement has clauses. -/
theorem source_of_readSql (h : readSql (nlToSql lang question) = some conds)
    (hne : clausesOf lang question ≠ []) {cond : Cond} (hmem : cond ∈ conds) :
    ∃ clause : Clause, clause.From lang question ∧ clause.cond? = some cond := by
  rw [readSql_nlToSql, if_neg hne] at h
  obtain ⟨clause, hclause, hcond⟩ := source_of_mapM h hmem
  exact ⟨clause, mem_clausesOf_iff.1 hclause, hcond⟩

theorem likeChars_percent (pattern text : List Char) :
    likeChars ('%' :: pattern) text = text.tails.any (likeChars pattern) := by
  rw [likeChars.eq_def]
  exact if_pos rfl

/-- A pattern reads its own characters. -/
theorem likeChars_append (part back : List Char) :
    likeChars (part ++ ['%']) (part ++ back) = true := by
  induction part with
  | nil =>
      rw [List.nil_append, likeChars_percent]
      exact List.any_eq_true.2 ⟨[], (List.mem_tails _ _).2 List.nil_suffix, rfl⟩
  | cons c part ih =>
      by_cases hc : c = '%'
      · rw [hc, List.cons_append, likeChars_percent]
        exact List.any_eq_true.2 ⟨part ++ back, (List.mem_tails _ _).2 (List.suffix_cons '%' _), ih⟩
      · rw [List.cons_append, List.cons_append, likeChars.eq_def]
        simp [hc, ih]

/-- A text that has what stands between the percent signs is like the pattern. -/
theorem likeChars_within (front part back : List Char) :
    likeChars ('%' :: (part ++ ['%'])) (front ++ (part ++ back)) = true := by
  rw [likeChars_percent]
  exact List.any_eq_true.2
    ⟨part ++ back, (List.mem_tails _ _).2 (List.suffix_append front _),
      likeChars_append part back⟩

end Clauses

/-! ## Meaning what was asked -/

section Meaning

variable {lang : Language} {question : String} {bound : Bound} {amount : Amount}
  {condition : Option String} {conds : List Cond}

/-- A limit that lets the same prices pass as an amount is the amount. -/
theorem eq_of_accepts {limit : Double} {x : ℚ}
    (hall : ∀ price : Double, bound.accepts price (.finite x) = true →
      bound.accepts price limit = true)
    (hnot : bound.accepts (.finite x) limit = false) : limit = .finite x := by
  cases bound with
  | below =>
      have hbelow := hall (.finite (x - 1)) (by simp [Bound.accepts, Double.less])
      cases limit with
      | nan => cases hbelow
      | inf negative =>
          cases negative with
          | true => cases hbelow
          | false => cases hnot
      | finite y =>
          simp only [Bound.accepts, Double.less, decide_eq_false_iff_not, not_lt] at hnot
          have hle : x ≤ y := by
            by_contra hlt
            have hself := hall (.finite y) (by simpa [Bound.accepts, Double.less] using hlt)
            simp [Bound.accepts, Double.less] at hself
          rw [le_antisymm hnot hle]
  | above =>
      have habove := hall (.finite (x + 1)) (by simp [Bound.accepts, Double.less])
      cases limit with
      | nan => cases habove
      | inf negative =>
          cases negative with
          | true => cases hnot
          | false => cases habove
      | finite y =>
          simp only [Bound.accepts, Double.less, decide_eq_false_iff_not, not_lt] at hnot
          have hle : y ≤ x := by
            by_contra hlt
            have hself := hall (.finite y) (by simpa [Bound.accepts, Double.less] using hlt)
            simp [Bound.accepts, Double.less] at hself
          rw [le_antisymm hle hnot]

/-- The condition for a number behind a side's word. -/
theorem cond_mem_of_number (hread : readSql (nlToSql lang question) = some conds)
    {digits : List Char}
    (hdigits : numberAfter lang bound.word (lang.lower question).toList = some digits) :
    (∀ c ∈ digits, c.isDigit = true) ∧ bound.cond (digitsNumber digits) ∈ conds := by
  have hascii : ∀ c ∈ digits, c.isDigit = true :=
    ascii_of_readSql hread (by cases bound <;> decide) hdigits
  have hclause : bound.clause (String.ofList digits) ∈ clausesOf lang question :=
    Bound.mem_clausesOf_iff.2 (by rw [hdigits, Option.map_some])
  obtain ⟨cond, hmem, hcond⟩ := cond_of_readSql hread hclause
  rw [Bound.cond?_clause hascii] at hcond
  exact ⟨hascii, Option.some_inj.1 hcond ▸ hmem⟩

theorem condition_mem_of_read (hread : readSql (nlToSql lang question) = some conds)
    {value : String} (hvalue : conditionOf (lang.lower question) = some value) :
    .equals .condition value ∈ conds := by
  obtain ⟨cond, hmem, hcond⟩ :=
    cond_of_readSql hread (@mem_clausesOf_iff lang question (.condition value) |>.2 hvalue)
  exact Option.some_inj.1 hcond ▸ hmem

/-- What a condition on the price or on the condition was read from. -/
theorem source_of_restricts (hread : readSql (nlToSql lang question) = some conds)
    (hne : clausesOf lang question ≠ []) {cond : Cond} (hmem : cond ∈ conds)
    (hcond : cond.restricts = true) :
    (∃ (side : Bound) (digits : List Char),
      numberAfter lang side.word (lang.lower question).toList = some digits ∧
        cond = side.cond (digitsNumber digits)) ∨
    ∃ value, conditionOf (lang.lower question) = some value ∧ cond = .equals .condition value := by
  obtain ⟨clause, hfrom, hclause⟩ := source_of_readSql hread hne hmem
  have hbound : ∀ (side : Bound) (text : String), (side.clause text).From lang question →
      (side.clause text).cond? = some cond → ∃ digits,
        numberAfter lang side.word (lang.lower question).toList = some digits ∧
          cond = side.cond (digitsNumber digits) := by
    intro side text hfrom hclause
    obtain ⟨digits, hdigits, rfl⟩ := Option.map_eq_some_iff.1
      (Bound.mem_clausesOf_iff.1 (mem_clausesOf_iff.2 hfrom))
    rw [Bound.cond?_clause (cond_mem_of_number hread hdigits).1] at hclause
    exact ⟨digits, hdigits, (Option.some_inj.1 hclause).symm⟩
  cases clause with
  | below text => exact Or.inl ⟨.below, hbound .below text hfrom hclause⟩
  | above text => exact Or.inl ⟨.above, hbound .above text hfrom hclause⟩
  | category name =>
      obtain rfl := Option.some_inj.1 hclause
      cases hcond
  | condition value => exact Or.inr ⟨value, hfrom, (Option.some_inj.1 hclause).symm⟩
  | brand name | productType name =>
      obtain rfl := Option.some_inj.1 hclause
      cases hcond

/-- A product that has all that a question is about, but for its price and its condition. -/
def fitting (lang : Language) (question : String) (price : Double) (condition : String) :
    Product where
  id := ""
  title := (brandOf lang question).getD "" ++ (productTypeOf (lang.lower question)).getD ""
  brand := none
  category := (categoryOf lang question (lang.lower question)).getD ""
  price := price
  condition := condition
  source := ""

/-- A NaN is on no side, so a row's price is on a side if the product's is. -/
theorem any_price (p : Product) (limit : Double) :
    ((rowOf p).price.any fun price => bound.accepts price limit) = bound.accepts p.price limit := by
  by_cases hnan : p.price = .nan
  · have hrow : (rowOf p).price = none := if_pos hnan
    rw [hrow, hnan]
    cases bound <;> cases limit <;> rfl
  · have hrow : (rowOf p).price = some p.price := if_neg hnan
    rw [hrow]
    rfl

/-- With a price and a condition that were read, the product meets all conditions. -/
theorem fitting_holds (hread : readSql (nlToSql lang question) = some conds)
    (hne : clausesOf lang question ≠ []) {price : Double} {value : String}
    (hprice : ∀ (side : Bound) (digits : List Char),
      numberAfter lang side.word (lang.lower question).toList = some digits →
        side.accepts price (literal (digitsNumber digits)) = true)
    (hvalue : ∀ found ∈ conditionOf (lang.lower question), value = found) :
    ∀ cond ∈ conds, cond.holds (rowOf (fitting lang question price value)) = true := by
  intro cond hmem
  by_cases hrestricts : cond.restricts = true
  · rcases source_of_restricts hread hne hmem hrestricts with
      ⟨side, digits, hdigits, rfl⟩ | ⟨found, hfound, rfl⟩
    · rw [Bound.holds_cond, any_price]
      exact hprice side digits hdigits
    · rw [← hvalue found hfound]
      simp [Cond.holds, Row.text?, rowOf, fitting]
  · have hlike : ∀ (front part back : String),
        likeChars ("%" ++ part ++ "%").toList (front ++ (part ++ back)).toList = true := by
      intro front part back
      have hread := likeChars_within front.toList part.toList back.toList
      simpa using hread
    obtain ⟨clause, hfrom, hclause⟩ := source_of_readSql hread hne hmem
    cases clause with
    | below text | above text =>
        rw [Clause.cond?] at hclause
        split_ifs at hclause
        obtain rfl := Option.some_inj.1 hclause
        exact absurd rfl hrestricts
    | condition found =>
        obtain rfl := Option.some_inj.1 hclause
        exact absurd rfl hrestricts
    | category name =>
        obtain rfl := Option.some_inj.1 hclause
        have hname : categoryOf lang question (lang.lower question) = some name := hfrom
        simp [Cond.holds, Row.text?, rowOf, fitting, hname]
    | brand name =>
        obtain rfl := Option.some_inj.1 hclause
        have hname : brandOf lang question = some name := hfrom
        have hread := hlike "" name ((productTypeOf (lang.lower question)).getD "")
        simpa [Cond.holds, Row.text?, rowOf, fitting, hname] using hread
    | productType name =>
        obtain rfl := Option.some_inj.1 hclause
        have hname : productTypeOf (lang.lower question) = some name := hfrom
        have hread := hlike ((brandOf lang question).getD "") name ""
        simpa [Cond.holds, Row.text?, rowOf, fitting, hname] using hread

theorem clausesOf_ne_nil (h : Asks lang question bound amount condition) :
    clausesOf lang question ≠ [] := by
  obtain ⟨before, after, hphrase, -⟩ := h.phrase
  obtain ⟨digits, hdigits⟩ := hphrase.exists_number
  have hmem : bound.clause (String.ofList digits) ∈ clausesOf lang question :=
    Bound.mem_clausesOf_iff.2 (by rw [hdigits, Option.map_some])
  exact List.ne_nil_of_mem hmem

theorem eq_or_eq_other (side bound : Bound) : side = bound ∨ side = bound.other := by
  cases side <;> cases bound <;> decide

/-- A question that is understood means what was asked. -/
theorem means_of_understood (h : Asks lang question bound amount condition)
    (hunderstood : Understood lang question bound amount condition) (products : List Product) :
    Means lang question bound amount condition products := by
  have hnumber : ∀ (side : Bound) (digits : List Char),
      numberAfter lang side.word (lang.lower question).toList = some digits →
        side = bound ∧ (∀ c ∈ digits, c.isDigit = true) ∧
          literal (digitsNumber digits) = .finite amount.value := by
    intro side digits hdigits
    rcases eq_or_eq_other side bound with rfl | rfl
    · exact ⟨rfl, hunderstood.amount digits hdigits⟩
    · cases hunderstood.other.symm.trans hdigits
  have hcondition : conditionOf (lang.lower question) = condition :=
    conditionOf_of_clear h.names hunderstood.condition
  have hascii : ∀ word ∈ ["under", "over"], ∀ digits,
      numberAfter lang word (lang.lower question).toList = some digits →
        ∀ c ∈ digits, c.isDigit = true := by
    intro word hword digits hdigits
    simp only [List.mem_cons, List.not_mem_nil, or_false] at hword
    rcases hword with rfl | rfl
    · exact (hnumber .below digits hdigits).2.1
    · exact (hnumber .above digits hdigits).2.1
  obtain ⟨conds, hread⟩ := (inGrammar_of_ascii hascii).reads
  refine ⟨conds, _, hread, runSql_of_readSql hread _, ?_, ?_⟩
  · intro row hrow
    have hall : ∀ cond ∈ conds, cond.holds row = true :=
      List.all_eq_true.1 (List.mem_filter.1 hrow).2
    obtain ⟨before, after, hphrase, -⟩ := h.phrase
    obtain ⟨digits, hdigits⟩ := hphrase.exists_number
    have hprice := hall _ (cond_mem_of_number hread hdigits).2
    rw [Bound.holds_cond, (hnumber bound digits hdigits).2.2] at hprice
    have hvalue : ∀ value ∈ condition, row.condition = value := by
      intro value hvalue
      have hmem := condition_mem_of_read hread (hcondition.trans hvalue)
      simpa [Cond.holds, Row.text?] using hall _ hmem
    exact ⟨hprice, hvalue⟩
  · intro row _ hasked cond hmem hrestricts
    rcases source_of_restricts hread (clausesOf_ne_nil h) hmem hrestricts with
      ⟨side, digits, hdigits, rfl⟩ | ⟨value, hvalue, rfl⟩
    · obtain ⟨rfl, -, hworth⟩ := hnumber side digits hdigits
      rw [Bound.holds_cond, hworth]
      exact hasked.1
    · have hrow := hasked.2 value (hcondition.symm.trans hvalue)
      simpa [Cond.holds, Row.text?] using hrow

/-- A price on the side of the amount and the condition that is asked for pass. -/
theorem holds_of_means
    (hmeans : ∀ products, Means lang question bound amount condition products)
    (hread : readSql (nlToSql lang question) = some conds) {price : Double} {value : String}
    (hprice : bound.accepts price (.finite amount.value) = true)
    (hvalue : ∀ named ∈ condition, value = named) {cond : Cond} (hmem : cond ∈ conds)
    (hrestricts : cond.restricts = true) :
    cond.holds (rowOf (fitting lang question price value)) = true := by
  obtain ⟨conds', rows, hread', -, -, hall⟩ := hmeans [fitting lang question price value]
  obtain rfl : conds = conds' := Option.some_inj.1 (hread.symm.trans hread')
  exact hall _ List.mem_cons_self ⟨(any_price _ _).trans hprice, hvalue⟩ cond hmem hrestricts

theorem accepts_of_means
    (hmeans : ∀ products, Means lang question bound amount condition products)
    (hread : readSql (nlToSql lang question) = some conds) {price : Double}
    (hprice : bound.accepts price (.finite amount.value) = true) {side : Bound}
    {digits : List Char}
    (hdigits : numberAfter lang side.word (lang.lower question).toList = some digits) :
    side.accepts price (literal (digitsNumber digits)) = true := by
  have hvalue : ∀ named ∈ condition, condition.getD "" = named :=
    fun named hnamed => by rw [hnamed, Option.getD_some]
  have hholds := holds_of_means hmeans hread hprice hvalue (cond_mem_of_number hread hdigits).2
    (by cases side <;> rfl)
  rwa [Bound.holds_cond, any_price] at hholds

/-- No price is beyond the infinity of its own side. -/
theorem other_of_means
    (hmeans : ∀ products, Means lang question bound amount condition products)
    (hread : readSql (nlToSql lang question) = some conds) :
    numberAfter lang bound.other.word (lang.lower question).toList = none := by
  cases hdigits : numberAfter lang bound.other.word (lang.lower question).toList with
  | none => rfl
  | some digits =>
      generalize hlimit : literal (digitsNumber digits) = limit
      cases bound with
      | below =>
          have hholds := @accepts_of_means _ _ _ _ _ _ hmeans hread (.inf true) rfl .above _ hdigits
          rw [hlimit] at hholds
          cases limit <;> simp [Bound.accepts, Double.less] at hholds
      | above =>
          have hholds :=
            @accepts_of_means _ _ _ _ _ _ hmeans hread (.inf false) rfl .below _ hdigits
          rw [hlimit] at hholds
          cases limit <;> simp [Bound.accepts, Double.less] at hholds

/-- Only the condition that is asked for is read. -/
theorem condition_of_means
    (hmeans : ∀ products, Means lang question bound amount condition products)
    (hread : readSql (nlToSql lang question) = some conds) :
    ∀ found ∈ conditionOf (lang.lower question), condition = some found := by
  intro found hfound
  have hnear : ∃ price, bound.accepts price (.finite amount.value) = true := by
    cases bound with
    | below => exact ⟨.inf true, rfl⟩
    | above => exact ⟨.inf false, rfl⟩
  obtain ⟨price, hprice⟩ := hnear
  have hsame : ∀ value : String, (∀ named ∈ condition, value = named) → value = found := by
    intro value hvalue
    have hholds :=
      holds_of_means hmeans hread hprice hvalue (condition_mem_of_read hread hfound) rfl
    simpa [Cond.holds, Row.text?, rowOf, fitting] using hholds
  cases condition with
  | none => exact absurd ((hsame "new" nofun).trans (hsame "used" nofun).symm) (by decide)
  | some named => rw [hsame named fun _ heq => Option.some_inj.1 heq]

/-- The number that is read is the amount. If the amount itself passed, a row would be returned
that was not asked for. -/
theorem amount_of_means (h : Asks lang question bound amount condition)
    (hmeans : ∀ products, Means lang question bound amount condition products)
    (hread : readSql (nlToSql lang question) = some conds) {digits : List Char}
    (hdigits : numberAfter lang bound.word (lang.lower question).toList = some digits) :
    literal (digitsNumber digits) = .finite amount.value := by
  have hnot : bound.accepts (.finite amount.value) (literal (digitsNumber digits)) = false := by
    by_contra hpasses
    rw [Bool.not_eq_false] at hpasses
    have hprice : ∀ (side : Bound) (digits' : List Char),
        numberAfter lang side.word (lang.lower question).toList = some digits' →
          side.accepts (.finite amount.value) (literal (digitsNumber digits')) = true := by
      intro side digits' hdigits'
      rcases eq_or_eq_other side bound with rfl | rfl
      · obtain rfl := Option.some_inj.1 (hdigits.symm.trans hdigits')
        exact hpasses
      · cases (other_of_means hmeans hread).symm.trans hdigits'
    have hvalue : ∀ found ∈ conditionOf (lang.lower question), condition.getD "" = found :=
      fun found hfound => by rw [condition_of_means hmeans hread found hfound, Option.getD_some]
    have hholds := fitting_holds hread (clausesOf_ne_nil h) hprice hvalue
    obtain ⟨conds', rows, hread', hrun, hsound, -⟩ :=
      hmeans [fitting lang question (.finite amount.value) (condition.getD "")]
    have hrow :
        rowOf (fitting lang question (.finite amount.value) (condition.getD "")) ∈ rows := by
      rw [runSql_of_readSql hread] at hrun
      rw [← Option.some_inj.1 hrun]
      exact List.mem_filter.2 ⟨List.mem_cons_self, List.all_eq_true.2 hholds⟩
    have hself := (hsound _ hrow).1
    rw [any_price] at hself
    cases bound <;> simp [Bound.accepts, Double.less, fitting] at hself
  exact eq_of_accepts (fun price hprice => accepts_of_means hmeans hread hprice hdigits) hnot

/-- A question whose statement means what was asked is understood. -/
theorem understood_of_means (h : Asks lang question bound amount condition)
    (hmeans : ∀ products, Means lang question bound amount condition products) :
    Understood lang question bound amount condition := by
  obtain ⟨conds, -, hread, -⟩ := hmeans []
  have hamount : ∀ digits,
      numberAfter lang bound.word (lang.lower question).toList = some digits →
        (∀ c ∈ digits, c.isDigit = true) ∧
          literal (digitsNumber digits) = .finite amount.value := fun digits hdigits =>
    ⟨(cond_mem_of_number hread hdigits).1, amount_of_means h hmeans hread hdigits⟩
  exact ⟨hamount, other_of_means hmeans hread,
    clear_of_conditionOf (condition_of_means hmeans hread)⟩

/-- The statement of a question means what was asked, on every catalog, if and only if the question
is understood. -/
theorem means_iff (h : Asks lang question bound amount condition) :
    (∀ products, Means lang question bound amount condition products) ↔
      Understood lang question bound amount condition :=
  ⟨understood_of_means h, means_of_understood h⟩

/-- `100`. -/
def oneHundred : Amount where
  lead := "100".toList
  lead_ne := by decide +kernel
  digits := List.all_iff_forall_prop.1 (by decide +kernel)
  lead_length := fun h => absurd rfl h
  group_length := nofun
  cents_length := by decide

/-- `1,000`. -/
def oneThousand : Amount where
  lead := "1".toList
  groups := ["000".toList]
  lead_ne := by decide +kernel
  digits := List.all_iff_forall_prop.1 (by decide +kernel)
  lead_length := fun _ => by decide +kernel
  group_length := by decide +kernel
  cents_length := by decide

theorem means_iff_used_monitor :
    Understood plainLanguage "used monitor under $100" .below oneHundred (some "used") ∧
      ∀ products,
        Means plainLanguage "used monitor under $100" .below oneHundred (some "used") products := by
  have hphrase : Phrase plainLanguage (plainLanguage.lower "used monitor under $100").toList
      "used monitor ".toList .below oneHundred [] :=
    ⟨by decide +kernel, by decide +kernel, by decide +kernel⟩
  have hasks : Asks plainLanguage "used monitor under $100" .below oneHundred (some "used") :=
    ⟨⟨_, _, hphrase, fun _ _ _ _ => hphrase.unique (by decide +kernel)⟩,
      ("used", "used"), by decide, rfl, by decide +kernel⟩
  have hnumber : numberAfter plainLanguage "under"
      (plainLanguage.lower "used monitor under $100").toList = some "100".toList := by
    decide +kernel
  have hamount : ∀ digits, numberAfter plainLanguage Bound.below.word
      (plainLanguage.lower "used monitor under $100").toList = some digits →
      (∀ c ∈ digits, c.isDigit = true) ∧
        literal (digitsNumber digits) = .finite oneHundred.value := by
    intro digits hdigits
    obtain rfl := Option.some_inj.1 (hnumber.symm.trans hdigits)
    exact ⟨List.all_iff_forall_prop.1 (by decide +kernel), by decide +kernel⟩
  have hunderstood : Understood plainLanguage "used monitor under $100" .below oneHundred
      (some "used") := ⟨hamount, by decide +kernel, by decide +kernel⟩
  exact ⟨hunderstood, (means_iff hasks).2 hunderstood⟩

/-- A comma ends the number that is read: a monitor for 500 is not found under 1,000. -/
theorem thousands_cut :
    Asks plainLanguage "monitors under $1,000" .below oneThousand none ∧
      ¬Means plainLanguage "monitors under $1,000" .below oneThousand none
        [fitting plainLanguage "monitors under $1,000" (.finite 500) "new"] := by
  have hphrase : Phrase plainLanguage (plainLanguage.lower "monitors under $1,000").toList
      "monitors ".toList .below oneThousand [] :=
    ⟨by decide +kernel, by decide +kernel, by decide +kernel⟩
  have hclauses : clausesOf plainLanguage "monitors under $1,000" =
      [.below "1", .category "displays", .productType "monitor"] := by decide +kernel
  have hread : readSql (nlToSql plainLanguage "monitors under $1,000") =
      some [.below 1, .equals .category "displays", .like .title "%monitor%"] := by
    rw [readSql_nlToSql, hclauses]
    decide +kernel
  have hasked : (rowOf (fitting plainLanguage "monitors under $1,000" (.finite 500) "new")).Asked
      .below oneThousand none := ⟨by decide +kernel, nofun⟩
  have hnone : ∀ entry ∈ conditionWords, wholeWord plainLanguage entry.1
      (plainLanguage.lower "monitors under $1,000").toList = false := by decide +kernel
  constructor
  · exact ⟨⟨_, _, hphrase, fun _ _ _ _ => hphrase.unique (by decide +kernel)⟩, hnone⟩
  · rintro ⟨conds, rows, hread', -, -, hall⟩
    obtain rfl := Option.some_inj.1 (hread.symm.trans hread')
    have hholds := hall _ List.mem_cons_self hasked (.below 1) List.mem_cons_self rfl
    exact absurd hholds (by decide +kernel)

end Meaning

end DealFinder.Agent
