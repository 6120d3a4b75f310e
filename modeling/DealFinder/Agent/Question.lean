/-
# Questions in SQL

A question becomes a statement with at most one clause of each kind. What it quotes are words of
the program's own, and only digits come from the question. A digit may be of any script for the
search, but not for SQL, so the statement is of the intended form exactly if the digits are of
ASCII (`nlToSql_safe_iff`).
-/

import DealFinder.Agent.Sql
import DealFinder.Math.Regex
import DealFinder.Math.Traverse
import DealFinder.Rag.Language

namespace DealFinder.Agent

open DealFinder.Math DealFinder.Feeds DealFinder.Features DealFinder.Rag

/-! ## Categories -/

section Category

variable (lang : Language)

/-- `\d`. -/
def isDecimal (c : Char) : Bool := (lang.decimal c).isSome

/-- Some letters of a pattern, in any case. -/
def word (text : String) : Regex := .plain (letters text)

/-- `\b`. -/
def edge : Regex := .plain .boundary

/-- One of several. -/
def anyOf : List Regex → Regex
  | [] => .one fun _ => false
  | r :: rest => r.alt (anyOf rest)

/-- A character that may be missing, between letters. -/
def maybe (first between second : String) : Regex :=
  .inOrder [word first, (word between).opt, word second]

/-- Letters between word boundaries. -/
def bounded (text : String) : Regex := .inOrder [edge, word text, edge]

/-- `_CATEGORY_HINTS`. -/
def categoryHints : List (Regex × String) :=
  [(anyOf [.inOrder [maybe "head" " " "phone", (word "s").opt],
      .inOrder [word "earbud", (word "s").opt], .inOrder [maybe "ear" " " "bud", (word "s").opt],
      word "speaker", word "soundbar", word "sound bar", word "airpods"], "audio"),
    (anyOf [word "keyboard", word "mouse", word "webcam", word "mousepad", word "mouse pad"],
      "peripherals"),
    (anyOf [bounded "ssd", word "hard drive", word "hdd", maybe "micro" " " "sd",
      word "memory card", word "flash drive"], "storage"),
    (anyOf [word "monitor", word "display",
      .inOrder [.atLeastOne (isDecimal lang), word "k", edge]], "displays"),
    (anyOf [word "laptop", word "desktop", word "chromebook", bounded "pc", word "mini pc"],
      "computers"),
    (anyOf [word "tablet", word "kindle", maybe "e" "-" "reader", word "smartphone",
      bounded "phone"], "mobile"),
    (anyOf [word "watch", word "smartwatch",
      .inOrder [word "fitness ", anyOf [word "band", word "tracker"]], bounded "band"],
      "wearables"),
    (anyOf [word "vacuum", word "security camera",
      .inOrder [word "smart ", anyOf [word "plug", word "bulb", word "home"]], word "doorbell",
      word "thermostat"], "smart-home"),
    (anyOf [word "graphics card", bounded "gpu", bounded "rtx", bounded "cpu", word "processor",
      word "motherboard", bounded "ram"], "components"),
    (anyOf [word "hub", word "adapter", word "cable", word "charger", word "power bank",
      word "dock", word "case", word "mount"], "accessories")]

/-- `pat.search(text)`, as a test. -/
def finds (r : Regex) (text : String) : Bool :=
  (Pattern.cursors none text.toList).any fun c => !(r.ends (isWord lang.toUnicode) c).isEmpty

/-- `guess_category`. -/
def guessCategory (text : String) : Option String :=
  ((categoryHints lang).find? fun hint => finds lang hint.1 text).map Prod.snd

end Category

/-! ## Clauses -/

/-- A clause of the statement, by what it is about. -/
inductive Clause
  | below (digits : String)
  | above (digits : String)
  | category (name : String)
  | condition (value : String)
  | brand (name : String)
  | productType (keyword : String)
  deriving DecidableEq

/-- The text of a clause. -/
def Clause.text : Clause → String
  | .below digits => "price < " ++ digits
  | .above digits => "price > " ++ digits
  | .category name => "category = '" ++ name ++ "'"
  | .condition value => "condition = '" ++ value ++ "'"
  | .brand name => "title LIKE '%" ++ name ++ "%'"
  | .productType keyword => "title LIKE '%" ++ keyword ++ "%'"

/-- A statement with some clauses. -/
def statement (table : String) (clauses : List Clause) : String :=
  let where' := if clauses = [] then "1=1" else " AND ".intercalate (clauses.map Clause.text)
  "SELECT * FROM " ++ table ++ " WHERE " ++ where'

/-! ## The question -/

/-- `_CONDITION_WORDS`. -/
def conditionWords : List (String × String) :=
  [("new", "new"), ("refurb", "refurb"), ("refurbished", "refurb"), ("renewed", "refurb"),
    ("open box", "refurb"), ("used", "used")]

/-- `KNOWN_CATEGORIES`. -/
def knownCategories : List String := Shop.categoryCodes.map Prod.fst

/-- The words for a type of product. -/
def productTypes : List String :=
  ["headphone", "earbud", "speaker", "soundbar", "keyboard", "mouse", "monitor", "laptop",
    "tablet", "watch", "webcam"]

/-- `part in s`. -/
def within (part s : String) : Bool := decide (part.toList <:+: s.toList)

section Question

variable (lang : Language)

/-- `under \$?(\d+)`, and the same of another word. -/
def boundRe (word : String) : Grouped where
  before := (Regex.plain (.literal (fun c x => decide (x = c)) (word ++ " ").toList)).seq
    (Regex.one fun c => c = '$').opt
  group := .atLeastOne (isDecimal lang)
  after := .plain .empty

/-- `m.group(1)` of a search for the digits behind a word. -/
def searchBound (word q : String) : Option String :=
  ((boundRe lang word).search (isWord lang.toUnicode) q.toList).map fun found =>
    String.ofList found.1

/-- The category that a question names, or the one that its words hint at. -/
def categoryOf (question q : String) : Option String :=
  (knownCategories.find? fun c => c ≠ "misc" && within c q).or (guessCategory lang question)

/-- The condition of the first condition word, in the order of the table. -/
def conditionOf (q : String) : Option String :=
  (conditionWords.find? fun entry => within entry.1 q).map Prod.snd

/-- The known brand of a question. -/
def brandOf (question : String) : Option String :=
  (titleBrand lang.toUnicode question).filter fun brand => brand ≠ "" && brand ∈ brandList

/-- The first type of product that a question names. -/
def productTypeOf (q : String) : Option String := productTypes.find? fun kw => within kw q

/-- The clauses of a question. -/
def clausesOf (question : String) : List Clause :=
  let q := lang.lower question
  ((searchBound lang "under" q).map Clause.below).toList ++
    ((searchBound lang "over" q).map Clause.above).toList ++
    ((categoryOf lang question q).map Clause.category).toList ++
    ((conditionOf q).map Clause.condition).toList ++
    ((brandOf lang question).map Clause.brand).toList ++
    ((productTypeOf q).map Clause.productType).toList

/-- `nl_to_sql`. -/
def nlToSql (question : String) (table : String := "catalog") : String :=
  statement table (clausesOf lang question)

/-- The question of the program's own test. -/
example : nlToSql plainLanguage "find a good noise-cancelling headphone under $120 from Sony" =
    "SELECT * FROM catalog WHERE price < 120 AND category = 'audio' AND title LIKE '%Sony%' " ++
      "AND title LIKE '%headphone%'" := by
  decide +kernel

end Question

/-! ## Reading the statement -/

/-- A clause that may be written: digits where digits belong, and no quote in what is quoted. -/
def Clause.Sane : Clause → Prop
  | .below digits | .above digits =>
      digits ≠ "" ∧ ∀ c ∈ digits.toList, c.isDigit = true ∨ 128 ≤ c.toNat
  | .category name | .condition name | .brand name | .productType name => '\'' ∉ name.toList

/-- The three tokens of a clause. -/
def Clause.triple? : Clause → Option (Token × Token × Token)
  | .below digits =>
      (numeralToken digits.toList).map fun token => (.word "price".toList, .symbol '<', token)
  | .above digits =>
      (numeralToken digits.toList).map fun token => (.word "price".toList, .symbol '>', token)
  | .category name => some (.word "category".toList, .symbol '=', .text name.toList)
  | .condition value => some (.word "condition".toList, .symbol '=', .text value.toList)
  | .brand name | .productType name =>
      some (.word "title".toList, .word "LIKE".toList, .text ('%' :: (name.toList ++ ['%'])))

/-- The condition of a clause. Digits that are not of ASCII make none. -/
def Clause.cond? : Clause → Option Cond
  | .below digits =>
      if digits.toList.all Char.isDigit then some (.below (digitsNumber digits.toList)) else none
  | .above digits =>
      if digits.toList.all Char.isDigit then some (.above (digitsNumber digits.toList)) else none
  | .category name => some (.equals .category name)
  | .condition value => some (.equals .condition value)
  | .brand name | .productType name => some (.like .title ("%" ++ name ++ "%"))

def tripleTokens (t : Token × Token × Token) : List Token := [t.1, t.2.1, t.2.2]

/-- The tokens of clauses with `AND` between. -/
def joined : List (Token × Token × Token) → List Token
  | [] => []
  | [t] => tripleTokens t
  | t :: ts => tripleTokens t ++ .word "AND".toList :: joined ts

/-- The text of clauses with `AND` between. -/
def joinedText (clause : Clause) : List Clause → List Char
  | [] => clause.text.toList
  | next :: more => clause.text.toList ++ ' ' :: ("AND".toList ++ ' ' :: joinedText next more)

section Reading

variable {clause : Clause} {front : List Char} {left op : Token}

/-- A comparison with digits. -/
theorem reads_bound {digits : String} (hfront : Reads front (some [left, op]))
    (h : digits ≠ "" ∧ ∀ c ∈ digits.toList, c.isDigit = true ∨ 128 ≤ c.toNat) :
    Reads (front ++ ' ' :: digits.toList)
      (((numeralToken digits.toList).map fun token => (left, op, token)).map tripleTokens) := by
  have hread := hfront.append (reads_numeral (by simpa using h.1) h.2)
  cases hnumeral : numeralToken digits.toList with
  | none =>
      rw [hnumeral] at hread
      exact hread
  | some token =>
      rw [hnumeral] at hread
      exact hread

/-- A comparison with a text. -/
theorem reads_quoted {content : List Char} (hfront : Reads front (some [left, op]))
    (h : '\'' ∉ content) :
    Reads (front ++ ' ' :: '\'' :: (content ++ ['\'']))
      (some (tripleTokens (left, op, .text content))) :=
  hfront.append (reads_text h)

theorem reads_clause (h : clause.Sane) :
    Reads clause.text.toList (clause.triple?.map tripleTokens) := by
  have hless : Reads "price <".toList (some [.word "price".toList, .symbol '<']) := fun done => rfl
  have hmore : Reads "price >".toList (some [.word "price".toList, .symbol '>']) := fun done => rfl
  have hcategory : Reads "category =".toList (some [.word "category".toList, .symbol '=']) :=
    fun done => rfl
  have hcondition : Reads "condition =".toList (some [.word "condition".toList, .symbol '=']) :=
    fun done => rfl
  have hlike : Reads "title LIKE".toList (some [.word "title".toList, .word "LIKE".toList]) :=
    fun done => rfl
  have hwild : ∀ name : String, '\'' ∉ name.toList → '\'' ∉ '%' :: (name.toList ++ ['%']) := by
    intro name hname hmem
    simp only [List.mem_cons, List.mem_append, List.not_mem_nil, or_false] at hmem
    rcases hmem with hmem | hmem | hmem
    · exact absurd hmem (by decide)
    · exact hname hmem
    · exact absurd hmem (by decide)
  -- The texts are unfolded by `change`: the equations of `Clause.text` are slow to generate.
  cases clause with
  | below digits =>
      have htext : (Clause.below digits).text.toList =
          "price <".toList ++ ' ' :: digits.toList := by
        change ("price < " ++ digits).toList = _
        simp
      rw [htext]
      exact reads_bound hless h
  | above digits =>
      have htext : (Clause.above digits).text.toList =
          "price >".toList ++ ' ' :: digits.toList := by
        change ("price > " ++ digits).toList = _
        simp
      rw [htext]
      exact reads_bound hmore h
  | category name =>
      have htext : (Clause.category name).text.toList =
          "category =".toList ++ ' ' :: '\'' :: (name.toList ++ ['\'']) := by
        change ("category = '" ++ name ++ "'").toList = _
        simp
      rw [htext]
      exact reads_quoted hcategory h
  | condition value =>
      have htext : (Clause.condition value).text.toList =
          "condition =".toList ++ ' ' :: '\'' :: (value.toList ++ ['\'']) := by
        change ("condition = '" ++ value ++ "'").toList = _
        simp
      rw [htext]
      exact reads_quoted hcondition h
  | brand name | productType name =>
      have htext : ("title LIKE '%" ++ name ++ "%'").toList = "title LIKE".toList ++
          ' ' :: '\'' :: ('%' :: (name.toList ++ ['%']) ++ ['\'']) := by simp
      change Reads ("title LIKE '%" ++ name ++ "%'").toList _
      rw [htext]
      exact reads_quoted hlike (hwild name h)

/-- Clauses with `AND` between. -/
theorem reads_joinedText (h : clause.Sane) {more : List Clause} (hmore : ∀ c ∈ more, c.Sane) :
    Reads (joinedText clause more) (((clause :: more).mapM Clause.triple?).map joined) := by
  induction more generalizing clause with
  | nil =>
      have hread := reads_clause h
      cases htriple : clause.triple? with
      | none =>
          rw [htriple] at hread
          simpa [joinedText, htriple] using hread
      | some t =>
          rw [htriple] at hread
          simpa [joinedText, htriple, joined] using hread
  | cons next more ih =>
      obtain ⟨hnext, hmore⟩ := List.forall_mem_cons.1 hmore
      have hand : Reads "AND".toList (some [.word "AND".toList]) := fun done => rfl
      have hread := (reads_clause h).append (hand.append (ih hnext hmore))
      have hfound : (clause.triple?.map tripleTokens).bind (fun tokens =>
          ((some [Token.word "AND".toList]).bind fun conjunction =>
            (((next :: more).mapM Clause.triple?).map joined).map fun rest =>
              conjunction ++ rest).map fun rest => tokens ++ rest) =
          ((clause :: next :: more).mapM Clause.triple?).map joined := by
        simp only [List.mapM_cons]
        cases clause.triple? with
        | none => rfl
        | some t =>
            cases next.triple? with
            | none => rfl
            | some t' =>
                cases more.mapM Clause.triple? with
                | none => rfl
                | some ts => rfl
      rwa [hfound] at hread

/-- Conditions with `AND` between are read one by one. -/
theorem readConds_joined (t : Token × Token × Token) (ts : List (Token × Token × Token)) :
    readConds (joined (t :: ts)) = (t :: ts).mapM fun t => readCond t.1 t.2.1 t.2.2 := by
  induction ts generalizing t with
  | nil =>
      have hone : readConds (joined [t]) = (readCond t.1 t.2.1 t.2.2).map fun cond => [cond] := rfl
      rw [hone, List.mapM_cons]
      cases readCond t.1 t.2.1 t.2.2 with
      | none => rfl
      | some cond => rfl
  | cons t' ts ih =>
      have hmore : readConds (joined (t :: t' :: ts)) = (do
          let cond ← readCond t.1 t.2.1 t.2.2
          let conds ← readConds (joined (t' :: ts))
          return cond :: conds) := by
        have hjoined : joined (t :: t' :: ts) =
            t.1 :: t.2.1 :: t.2.2 :: .word "AND".toList :: joined (t' :: ts) := rfl
        rw [hjoined, readConds, if_pos (by decide)]
      rw [hmore, ih, List.mapM_cons (a := t)]

/-- The condition of a clause is that of its tokens. -/
theorem bind_triple? (clause : Clause) :
    (clause.triple?.bind fun t => readCond t.1 t.2.1 t.2.2) = clause.cond? := by
  have hnumeral : ∀ digits : List Char, digits.all Char.isDigit = true →
      numeralToken digits = some (.number digits) := fun digits h => if_pos h
  have hname : ∀ (digits : List Char) (op : Token), ¬digits.all Char.isDigit = true →
      ((numeralToken digits).bind fun token =>
        readCond (.word "price".toList) op token) = none := by
    intro digits op h
    rw [numeralToken, if_neg h]
    split_ifs
    · rfl
    · rfl
  cases clause with
  | below digits =>
      rw [Clause.cond?]
      split_ifs with h
      · rw [Clause.triple?, hnumeral _ h]
        rfl
      · rw [Clause.triple?, Option.bind_map]
        exact hname digits.toList (.symbol '<') h
  | above digits =>
      rw [Clause.cond?]
      split_ifs with h
      · rw [Clause.triple?, hnumeral _ h]
        rfl
      · rw [Clause.triple?, Option.bind_map]
        exact hname digits.toList (.symbol '>') h
  | category name =>
      have hread : readCond (.word "category".toList) (.symbol '=') (.text name.toList) =
          some (.equals .category (String.ofList name.toList)) := rfl
      rw [Clause.triple?, Option.bind_some, hread, String.ofList_toList]
      rfl
  | condition value =>
      have hread : readCond (.word "condition".toList) (.symbol '=') (.text value.toList) =
          some (.equals .condition (String.ofList value.toList)) := rfl
      rw [Clause.triple?, Option.bind_some, hread, String.ofList_toList]
      rfl
  | brand name | productType name =>
      have hread : readCond (.word "title".toList) (.word "LIKE".toList)
          (.text ('%' :: (name.toList ++ ['%']))) =
          some (.like .title (String.ofList ('%' :: (name.toList ++ ['%'])))) := rfl
      have hpattern : String.ofList ('%' :: (name.toList ++ ['%'])) = "%" ++ name ++ "%" := by
        rw [← String.toList_inj]
        simp
      rw [Clause.triple?, Option.bind_some, hread, hpattern]
      rfl

/-- The text of clauses with `AND` between. -/
theorem toList_intercalate (clause : Clause) (more : List Clause) :
    (" AND ".intercalate ((clause :: more).map Clause.text)).toList = joinedText clause more := by
  induction more generalizing clause with
  | nil => simp [joinedText]
  | cons next more ih =>
      have hnext := ih next
      rw [String.toList_intercalate] at hnext ⊢
      simp only [List.map_cons, List.intercalate_cons_cons] at hnext ⊢
      rw [hnext, joinedText]
      simp

/-- A statement is read as the conditions of its clauses. -/
theorem readSql_statement {clauses : List Clause} (h : ∀ c ∈ clauses, c.Sane) :
    readSql (statement "catalog" clauses) =
      if clauses = [] then some [.same 1 1] else clauses.mapM Clause.cond? := by
  have hfront : Reads "SELECT * FROM catalog WHERE".toList (some [.word "SELECT".toList,
      .symbol '*', .word "FROM".toList, .word "catalog".toList, .word "WHERE".toList]) :=
    fun done => rfl
  cases clauses with
  | nil =>
      have hone : Reads "1=1".toList (some [.number ['1'], .symbol '=', .number ['1']]) :=
        fun done => rfl
      have htext : (statement "catalog" []).toList =
          "SELECT * FROM catalog WHERE".toList ++ ' ' :: "1=1".toList := by
        change ("SELECT * FROM " ++ "catalog" ++ " WHERE " ++ "1=1").toList = _
        simp
      rw [readSql, htext, lex_eq (hfront.append hone)]
      rfl
  | cons clause more =>
      obtain ⟨hclause, hmore⟩ := List.forall_mem_cons.1 h
      have htext : (statement "catalog" (clause :: more)).toList =
          "SELECT * FROM catalog WHERE".toList ++ ' ' :: joinedText clause more := by
        rw [← toList_intercalate]
        change ("SELECT * FROM " ++ "catalog" ++ " WHERE " ++
          " AND ".intercalate ((clause :: more).map Clause.text)).toList = _
        simp
      have hselect : ∀ rest, readSelect ([.word "SELECT".toList, .symbol '*', .word "FROM".toList,
          .word "catalog".toList, .word "WHERE".toList] ++ rest) = readConds rest :=
        fun rest => by rw [List.cons_append, List.cons_append, List.cons_append, List.cons_append,
          List.cons_append, List.nil_append, readSelect, if_pos (by decide)]
      have hcond : Clause.cond? = fun c => c.triple?.bind fun t => readCond t.1 t.2.1 t.2.2 :=
        funext fun c => (bind_triple? c).symm
      rw [readSql, htext, lex_eq (hfront.append (reads_joinedText hclause hmore)),
        if_neg (List.cons_ne_nil clause more), Option.bind_some, Option.map_map, hcond, ← bind_mapM]
      cases hfound : (clause :: more).mapM Clause.triple? with
      | none => rfl
      | some found =>
          obtain ⟨t, ts, -, -, rfl⟩ := mapM_cons_eq_some_iff.1 hfound
          rw [Option.map_some, Option.bind_some, Option.bind_some, ← readConds_joined]
          exact hselect _

end Reading

/-! ## The number behind a word -/

section Number

variable (lang : Language)

/-- The number at the start of a text, with a dollar sign before it or without. -/
def numberHere (text : List Char) : Option (List Char) :=
  let digits := (if text.head? = some '$' then text.tail else text).takeWhile (isDecimal lang)
  if digits = [] then none else some digits

/-- The number behind a word at the start of a text. -/
def numberBehind (word : String) (text : List Char) : Option (List Char) :=
  if (word ++ " ").toList.isPrefixOf text then
    numberHere lang (text.drop (word ++ " ").toList.length)
  else none

/-- The first number that stands behind a word in a text. -/
def numberAfter (word : String) : List Char → Option (List Char)
  | [] => none
  | c :: rest => (numberBehind lang word (c :: rest)).or (numberAfter word rest)

variable {lang} {isWord : Char → Bool} {last : Option Char} {text : List Char}

/-- A text is read as it stands, or not at all. -/
theorem ends_literal (front : List Char) :
    (Regex.plain (.literal (fun c x => decide (x = c)) front)).ends isWord ⟨last, text⟩ =
      if front.isPrefixOf text then [⟨front.getLast?.or last, text.drop front.length⟩] else [] := by
  induction front generalizing last text with
  | nil => rfl
  | cons c front ih =>
      cases text with
      | nil => rfl
      | cons x text =>
          have hseq : (Regex.plain (.literal (fun c x => decide (x = c)) (c :: front))).ends isWord
              ⟨last, x :: text⟩ = if x = c then
                (Regex.plain (.literal (fun c x => decide (x = c)) front)).ends isWord
                  ⟨some x, text⟩ else [] := by
            by_cases hx : x = c
            · simp [Regex.ends, Pattern.literal, Pattern.ends, hx]
            · simp [Regex.ends, Pattern.literal, Pattern.ends, hx]
          rw [hseq, Regex.getLast?_or_cons]
          by_cases hx : x = c
          · rw [if_pos hx, ih, hx]
            simp [List.isPrefixOf]
          · rw [if_neg hx, if_neg]
            simp [List.isPrefixOf, Ne.symm hx]

/-- Digits are read as far as they go. -/
theorem groupAt_digits (word : String) :
    ((boundRe lang word).groupAt isWord ⟨last, text⟩).map Prod.fst =
      if text.takeWhile (isDecimal lang) = [] then none
      else some (text.takeWhile (isDecimal lang)) := by
  have hnone : (boundRe lang word).group.ends isWord ⟨last, text⟩ = [] →
      ((boundRe lang word).groupAt isWord ⟨last, text⟩).map Prod.fst = none := by
    intro hends
    rw [Grouped.groupAt, hends]
    rfl
  cases text with
  | nil => exact hnone (Regex.ends_seq_of_none Regex.ends_one_nil)
  | cons c rest =>
      by_cases hc : isDecimal lang c = true
      · have hgroup : (boundRe lang word).group.Prefers isWord
            ⟨last, (c :: rest.takeWhile (isDecimal lang)) ++ rest.dropWhile (isDecimal lang)⟩
            ⟨(c :: rest.takeWhile (isDecimal lang)).getLast?.or last,
              rest.dropWhile (isDecimal lang)⟩ := by
          apply Regex.prefers_atLeastOne hc
          · exact fun y hy => List.all_eq_true.1 List.all_takeWhile y hy
          · intro y hy
            simpa [Option.mem_def.1 hy] using List.head?_dropWhile_not (isDecimal lang) rest
        have hafter : (boundRe lang word).after.Prefers isWord
            ⟨(c :: rest.takeWhile (isDecimal lang)).getLast?.or last,
              rest.dropWhile (isDecimal lang)⟩ _ := Regex.prefers_empty
        have htake := Grouped.groupAt_of_prefers hgroup hafter
        rw [List.cons_append, List.takeWhile_append_dropWhile] at htake
        rw [htake, List.takeWhile_cons_of_pos hc, if_neg (List.cons_ne_nil _ _)]
        rfl
      · rw [List.takeWhile_cons_of_neg hc, if_pos rfl]
        exact hnone (Regex.ends_seq_of_none (Regex.ends_one_of_not (Bool.eq_false_iff.2 hc)))

/-- No dollar sign is a digit. -/
theorem isDecimal_dollar : isDecimal lang '$' = false := by
  rw [isDecimal, lang.decimal_ascii '$' (by decide)]
  rfl

/-- A match at a place is the number behind the word there. -/
theorem matchAt_bound (word : String) :
    ((boundRe lang word).matchAt isWord ⟨last, text⟩).map Prod.fst =
      numberBehind lang word text := by
  have hends : (boundRe lang word).before.ends isWord ⟨last, text⟩ =
      ((Regex.plain (.literal (fun c x => decide (x = c)) (word ++ " ").toList)).ends isWord
        ⟨last, text⟩).flatMap ((Regex.one fun c => c = '$').opt.ends isWord) := rfl
  rw [Grouped.matchAt, hends, ends_literal, numberBehind]
  split_ifs with hfront
  · generalize hrest : text.drop (word ++ " ").toList.length = rest
    generalize (word ++ " ").toList.getLast?.or last = last'
    have hone : ∀ c : Cursor, ([c].findSome? ((boundRe lang word).groupAt isWord)).map Prod.fst =
        ((boundRe lang word).groupAt isWord c).map Prod.fst := fun c => by
      rw [List.findSome?_cons, List.findSome?_nil]
      cases (boundRe lang word).groupAt isWord c <;> rfl
    have hplain : ∀ rest : List Char, rest.head? ≠ some '$' →
        (Regex.one fun c => c = '$').opt.ends isWord ⟨last', rest⟩ = [⟨last', rest⟩] := by
      intro rest hrest
      cases rest with
      | nil => rfl
      | cons x rest =>
          have hx : x ≠ '$' := fun heq => hrest (congrArg some heq)
          simp [Regex.opt, Regex.ends, Regex.one, Pattern.ends, hx]
    rw [List.flatMap_cons, List.flatMap_nil, List.append_nil]
    by_cases hdollar : rest.head? = some '$'
    · obtain ⟨rest, rfl⟩ := List.head?_eq_some_iff.1 hdollar
      have hboth : (Regex.one fun c => c = '$').opt.ends isWord ⟨last', '$' :: rest⟩ =
          [⟨some '$', rest⟩, ⟨last', '$' :: rest⟩] := rfl
      have hfirst := @groupAt_digits lang isWord (some '$') rest word
      have hsecond := @groupAt_digits lang isWord last' ('$' :: rest) word
      rw [List.takeWhile_cons_of_neg (by simp [isDecimal_dollar]), if_pos rfl,
        Option.map_eq_none_iff] at hsecond
      rw [hboth, List.findSome?_cons, List.findSome?_cons, hsecond, List.findSome?_nil]
      simp only [numberHere, List.head?_cons, if_true, List.tail_cons]
      rw [← hfirst]
      cases (boundRe lang word).groupAt isWord ⟨some '$', rest⟩ <;> rfl
    · rw [hplain rest hdollar, hone, groupAt_digits, numberHere, if_neg hdollar]
  · rfl

/-- The search finds the first number behind the word. -/
theorem searchBound_eq (word q : String) :
    searchBound lang word q = (numberAfter lang word q.toList).map String.ofList := by
  have hfind : ∀ (text : List Char) (last : Option Char),
      ((Pattern.cursors last text).findSome? ((boundRe lang word).matchAt
        (Features.isWord lang.toUnicode))).map Prod.fst = numberAfter lang word text := by
    intro text
    induction text with
    | nil =>
        intro last
        have hfront : ((word ++ " ").toList.isPrefixOf []) = false := by
          rw [String.toList_append]
          cases word.toList <;> rfl
        have hhere := @matchAt_bound lang (Features.isWord lang.toUnicode) last [] word
        rw [numberBehind, hfront, if_neg (by decide), Option.map_eq_none_iff] at hhere
        rw [Pattern.cursors, List.findSome?_cons, hhere]
        rfl
    | cons c rest ih =>
        intro last
        have hhere := @matchAt_bound lang (Features.isWord lang.toUnicode) last (c :: rest) word
        rw [Pattern.cursors, List.findSome?_cons, numberAfter, ← hhere, ← ih (some c)]
        cases (boundRe lang word).matchAt (Features.isWord lang.toUnicode) ⟨last, c :: rest⟩ <;> rfl
  rw [searchBound, Grouped.search, ← hfind q.toList none, Option.map_map]
  rfl

theorem digits_of_numberHere {digits : List Char} (h : numberHere lang text = some digits) :
    digits ≠ [] ∧ ∀ c ∈ digits, isDecimal lang c = true := by
  simp only [numberHere] at h
  generalize (if text.head? = some '$' then text.tail else text) = rest at h
  split_ifs at h with hne
  obtain rfl := Option.some_inj.1 h
  exact ⟨hne, fun c hc => List.all_eq_true.1 List.all_takeWhile c hc⟩

/-- What is found behind a word is a number. -/
theorem digits_of_numberAfter {word : String} {digits : List Char}
    (h : numberAfter lang word text = some digits) :
    digits ≠ [] ∧ ∀ c ∈ digits, isDecimal lang c = true := by
  induction text with
  | nil => cases h
  | cons c rest ih =>
      rw [numberAfter] at h
      rcases Option.or_eq_some_iff.1 h with hhere | ⟨-, hrest⟩
      · rw [numberBehind] at hhere
        split_ifs at hhere
        exact digits_of_numberHere hhere
      · exact ih hrest

/-- A digit of ASCII, or no character of ASCII at all. -/
theorem digit_or_foreign {c : Char} (h : isDecimal lang c = true) :
    c.isDigit = true ∨ 128 ≤ c.toNat := by
  rcases Nat.lt_or_ge c.toNat 128 with hascii | hforeign
  · rw [isDecimal, lang.decimal_ascii c hascii] at h
    by_cases hdigit : c.isDigit = true
    · exact Or.inl hdigit
    · rw [if_neg hdigit] at h
      cases h
  · exact Or.inr hforeign

end Number

/-! ## The grammar -/

/-- What a clause is about. -/
inductive Kind
  | below
  | above
  | category
  | condition
  | brand
  | productType
  deriving DecidableEq

def Clause.kind : Clause → Kind
  | .below _ => .below
  | .above _ => .above
  | .category _ => .category
  | .condition _ => .condition
  | .brand _ => .brand
  | .productType _ => .productType

/-- A clause with nothing in it but digits of ASCII, or a word of the program's own without a
quote in it. -/
def Clause.Plain : Clause → Prop
  | .below digits | .above digits => digits ≠ "" ∧ ∀ c ∈ digits.toList, c.isDigit = true
  | .category name => name ∈ knownCategories ∧ '\'' ∉ name.toList
  | .condition value => value ∈ conditionWords.map Prod.snd ∧ '\'' ∉ value.toList
  | .brand name => name ∈ brandList ∧ '\'' ∉ name.toList
  | .productType keyword => keyword ∈ productTypes ∧ '\'' ∉ keyword.toList

/-- A statement of the catalog with plain clauses, at most one of each kind. -/
def InGrammar (sql : String) : Prop :=
  ∃ clauses : List Clause, (∀ c ∈ clauses, c.Plain) ∧ (clauses.map Clause.kind).Nodup ∧
    sql = statement "catalog" clauses

section Grammar

variable {lang : Language} {question : String}

theorem Clause.Plain.sane {clause : Clause} (h : clause.Plain) : clause.Sane := by
  cases clause with
  | below digits | above digits => exact ⟨h.1, fun c hc => Or.inl (h.2 c hc)⟩
  | _ => exact h.2

/-- What a question's category is called. -/
theorem category_plain {name : String} (h : categoryOf lang question (lang.lower question) =
    some name) : (Clause.category name).Plain := by
  have hhints : ∀ hint ∈ categoryHints lang, hint.2 ∈ knownCategories := by
    simp only [categoryHints, List.forall_mem_cons]
    decide
  have hmem : name ∈ knownCategories := by
    rcases Option.or_eq_some_iff.1 h with hnamed | ⟨-, hhinted⟩
    · exact List.mem_of_find?_eq_some hnamed
    · obtain ⟨hint, hfind, rfl⟩ := Option.map_eq_some_iff.1 hhinted
      exact hhints hint (List.mem_of_find?_eq_some hfind)
  have hquote : ∀ name ∈ knownCategories, '\'' ∉ name.toList := by decide +kernel
  exact ⟨hmem, hquote name hmem⟩

theorem condition_plain {value : String} (h : conditionOf (lang.lower question) = some value) :
    (Clause.condition value).Plain := by
  obtain ⟨entry, hfind, rfl⟩ := Option.map_eq_some_iff.1 h
  have hquote : ∀ entry ∈ conditionWords, '\'' ∉ entry.2.toList := by decide +kernel
  have hmem := List.mem_of_find?_eq_some hfind
  exact ⟨List.mem_map_of_mem hmem, hquote entry hmem⟩

theorem brand_plain {name : String} (h : brandOf lang question = some name) :
    (Clause.brand name).Plain := by
  have hquote : ∀ name ∈ brandList, '\'' ∉ name.toList := by decide +kernel
  obtain ⟨-, hknown⟩ := Option.filter_eq_some_iff.1 h
  have hmem : name ∈ brandList := by
    simp only [Bool.and_eq_true, decide_eq_true_eq] at hknown
    exact hknown.2
  exact ⟨hmem, hquote name hmem⟩

theorem productType_plain {keyword : String}
    (h : productTypeOf (lang.lower question) = some keyword) :
    (Clause.productType keyword).Plain := by
  have hquote : ∀ keyword ∈ productTypes, '\'' ∉ keyword.toList := by decide +kernel
  have hmem := List.mem_of_find?_eq_some h
  exact ⟨hmem, hquote keyword hmem⟩

/-- A clause of a question is a bound or plain. -/
theorem clausesOf_cases {clause : Clause} (h : clause ∈ clausesOf lang question) :
    (∃ digits, numberAfter lang "under" (lang.lower question).toList = some digits ∧
      clause = .below (String.ofList digits)) ∨
    (∃ digits, numberAfter lang "over" (lang.lower question).toList = some digits ∧
      clause = .above (String.ofList digits)) ∨ clause.Plain := by
  simp only [clausesOf, List.mem_append, Option.mem_toList, Option.map_eq_some_iff,
    searchBound_eq] at h
  rcases h with ((((h | h) | h) | h) | h) | h
  · obtain ⟨text, ⟨digits, hdigits, rfl⟩, rfl⟩ := h
    exact Or.inl ⟨digits, hdigits, rfl⟩
  · obtain ⟨text, ⟨digits, hdigits, rfl⟩, rfl⟩ := h
    exact Or.inr (Or.inl ⟨digits, hdigits, rfl⟩)
  · obtain ⟨name, hname, rfl⟩ := h
    exact Or.inr (Or.inr (category_plain hname))
  · obtain ⟨value, hvalue, rfl⟩ := h
    exact Or.inr (Or.inr (condition_plain hvalue))
  · obtain ⟨name, hname, rfl⟩ := h
    exact Or.inr (Or.inr (brand_plain hname))
  · obtain ⟨keyword, hkeyword, rfl⟩ := h
    exact Or.inr (Or.inr (productType_plain hkeyword))

theorem nodup_clausesOf (lang : Language) (question : String) :
    ((clausesOf lang question).map Clause.kind).Nodup := by
  have hone : ∀ {α : Type} (found : Option α) (make : α → Clause) (kind : Kind),
      (∀ x, (make x).kind = kind) →
      ((found.map make).toList.map Clause.kind).Sublist [kind] := by
    intro α found make kind hkind
    cases found with
    | none => exact List.nil_sublist _
    | some x => exact (hkind x) ▸ List.Sublist.refl _
  have hsub : ((clausesOf lang question).map Clause.kind).Sublist
      ([Kind.below] ++ [.above] ++ [.category] ++ [.condition] ++ [.brand] ++ [.productType]) := by
    simp only [clausesOf, List.map_append]
    exact (((((hone _ Clause.below .below fun _ => rfl).append
      (hone _ Clause.above .above fun _ => rfl)).append
      (hone _ Clause.category .category fun _ => rfl)).append
      (hone _ Clause.condition .condition fun _ => rfl)).append
      (hone _ Clause.brand .brand fun _ => rfl)).append
      (hone _ Clause.productType .productType fun _ => rfl)
  exact List.Nodup.sublist hsub (by decide)

theorem sane_clausesOf : ∀ clause ∈ clausesOf lang question, clause.Sane := by
  intro clause h
  have hdigits : ∀ {word digits}, numberAfter lang word (lang.lower question).toList =
      some digits → String.ofList digits ≠ "" ∧
        ∀ c ∈ (String.ofList digits).toList, c.isDigit = true ∨ 128 ≤ c.toNat := by
    intro word digits hfound
    obtain ⟨hne, hall⟩ := digits_of_numberAfter hfound
    rw [String.toList_ofList]
    exact ⟨fun heq => hne (String.ofList_eq_empty_iff.1 heq),
      fun c hc => digit_or_foreign (hall c hc)⟩
  rcases clausesOf_cases h with ⟨digits, hfound, rfl⟩ | ⟨digits, hfound, rfl⟩ | hplain
  · exact hdigits hfound
  · exact hdigits hfound
  · exact hplain.sane

/-- The statement of a question is read as the conditions of its clauses. -/
theorem readSql_nlToSql : readSql (nlToSql lang question) =
    if clausesOf lang question = [] then some [.same 1 1]
    else (clausesOf lang question).mapM Clause.cond? :=
  readSql_statement sane_clausesOf

theorem below_mem_clausesOf {digits : List Char}
    (h : numberAfter lang "under" (lang.lower question).toList = some digits) :
    .below (String.ofList digits) ∈ clausesOf lang question := by
  simp [clausesOf, searchBound_eq, h]

theorem above_mem_clausesOf {digits : List Char}
    (h : numberAfter lang "over" (lang.lower question).toList = some digits) :
    .above (String.ofList digits) ∈ clausesOf lang question := by
  simp [clausesOf, searchBound_eq, h]

/-- What a statement is read as has a condition for each clause. -/
theorem cond_of_readSql {conds : List Cond} (h : readSql (nlToSql lang question) = some conds)
    {clause : Clause} (hmem : clause ∈ clausesOf lang question) :
    ∃ cond ∈ conds, clause.cond? = some cond := by
  rw [readSql_nlToSql, if_neg (List.ne_nil_of_mem hmem)] at h
  exact read_of_mapM h hmem

/-- A statement that is read has digits of ASCII only. -/
theorem ascii_of_readSql {conds : List Cond} (h : readSql (nlToSql lang question) = some conds)
    {word : String} (hword : word ∈ ["under", "over"]) {digits : List Char}
    (hdigits : numberAfter lang word (lang.lower question).toList = some digits) :
    ∀ c ∈ digits, c.isDigit = true := by
  have hall : digits.all Char.isDigit = true := by
    simp only [List.mem_cons, List.not_mem_nil, or_false] at hword
    rcases hword with rfl | rfl
    · obtain ⟨cond, -, hcond⟩ := cond_of_readSql h (below_mem_clausesOf hdigits)
      rw [Clause.cond?, String.toList_ofList] at hcond
      split_ifs at hcond with hall
      exact hall
    · obtain ⟨cond, -, hcond⟩ := cond_of_readSql h (above_mem_clausesOf hdigits)
      rw [Clause.cond?, String.toList_ofList] at hcond
      split_ifs at hcond with hall
      exact hall
  exact List.all_eq_true.1 hall

theorem Clause.Plain.cond? {clause : Clause} (h : clause.Plain) :
    ∃ cond, clause.cond? = some cond := by
  cases clause with
  | below digits | above digits =>
      rw [Clause.cond?, if_pos (List.all_eq_true.2 h.2)]
      exact ⟨_, rfl⟩
  | _ => exact ⟨_, rfl⟩

/-- With digits of ASCII only, all clauses are plain. -/
theorem plain_of_ascii (h : ∀ word ∈ ["under", "over"], ∀ digits,
    numberAfter lang word (lang.lower question).toList = some digits →
      ∀ c ∈ digits, c.isDigit = true) :
    ∀ clause ∈ clausesOf lang question, clause.Plain := by
  intro clause hmem
  have hdigits : ∀ {word digits}, word ∈ ["under", "over"] →
      numberAfter lang word (lang.lower question).toList = some digits →
      String.ofList digits ≠ "" ∧ ∀ c ∈ (String.ofList digits).toList, c.isDigit = true := by
    intro word digits hword hfound
    rw [String.toList_ofList]
    exact ⟨fun heq => (digits_of_numberAfter hfound).1 (String.ofList_eq_empty_iff.1 heq),
      h word hword digits hfound⟩
  rcases clausesOf_cases hmem with ⟨digits, hfound, rfl⟩ | ⟨digits, hfound, rfl⟩ | hplain
  · exact hdigits (by decide) hfound
  · exact hdigits (by decide) hfound
  · exact hplain

/-- What is in the grammar is read. -/
theorem InGrammar.reads {sql : String} (h : InGrammar sql) : ∃ conds, readSql sql = some conds := by
  obtain ⟨clauses, hplain, -, rfl⟩ := h
  rw [readSql_statement fun clause hmem => (hplain clause hmem).sane]
  split_ifs
  · exact ⟨_, rfl⟩
  · exact exists_mapM fun clause hmem => (hplain clause hmem).cond?

theorem inGrammar_of_ascii (h : ∀ word ∈ ["under", "over"], ∀ digits,
    numberAfter lang word (lang.lower question).toList = some digits →
      ∀ c ∈ digits, c.isDigit = true) : InGrammar (nlToSql lang question) :=
  ⟨clausesOf lang question, plain_of_ascii h, nodup_clausesOf lang question, rfl⟩

/-- The statement of a question is in the grammar and runs if and only if the numbers that are
searched for are of ASCII. -/
theorem nlToSql_safe_iff (lang : Language) (question : String) :
    (InGrammar (nlToSql lang question) ∧ ∀ products, ∃ rows,
      runSql (buildDb products) (nlToSql lang question) = some rows ∧
        rows.Sublist (buildDb products)) ↔
    ∀ word ∈ ["under", "over"], ∀ digits,
      numberAfter lang word (lang.lower question).toList = some digits →
        ∀ c ∈ digits, c.isDigit = true := by
  constructor
  · rintro ⟨-, hruns⟩ word hword digits hdigits
    obtain ⟨rows, hrows, -⟩ := hruns []
    obtain ⟨conds, hconds, -⟩ := Option.map_eq_some_iff.1 hrows
    exact ascii_of_readSql hconds hword hdigits
  · intro hascii
    have hgrammar := inGrammar_of_ascii hascii
    obtain ⟨conds, hconds⟩ := hgrammar.reads
    exact ⟨hgrammar, fun products => ⟨_, runSql_of_readSql hconds _, List.filter_sublist⟩⟩

/-- The digits that Arabic is written with. -/
def isArabicDigit (c : Char) : Bool := 0x660 ≤ c.toNat && c.toNat ≤ 0x669

/-- The tables, on ASCII and Arabic digits. -/
def arabicLanguage : Language := { plainLanguage with
  isAlnum := fun c => c.isAlphanum || isArabicDigit c
  decimal := fun c =>
    if isArabicDigit c then some (c.toNat - 0x660) else plainLanguage.decimal c
  decimal_ascii := by
    intro c hc
    have hother : isArabicDigit c = false := by
      simp only [isArabicDigit, Bool.and_eq_false_iff, decide_eq_false_iff_not]
      omega
    rw [hother, if_neg (by decide)]
    exact plainLanguage.decimal_ascii c hc
  decimal_dash := by decide
  decimal_space := by
    intro c hc
    have hother : isArabicDigit c = false := by
      simp only [isSpace, Bool.or_eq_true, Bool.and_eq_true, decide_eq_true_eq,
        List.contains_iff_mem, List.mem_cons, List.not_mem_nil, or_false] at hc
      simp only [isArabicDigit, Bool.and_eq_false_iff, decide_eq_false_iff_not]
      omega
    rw [hother, if_neg (by decide)]
    exact plainLanguage.decimal_space c hc
  isAlnum_ascii := by
    intro c hc
    have hother : isArabicDigit c = false := by
      simp only [isArabicDigit, Bool.and_eq_false_iff, decide_eq_false_iff_not]
      omega
    rw [hother, Bool.or_false] }

/-- A question with Arabic digits becomes a statement that raises. -/
theorem arabic_digits_raise :
    nlToSql arabicLanguage "headphones under $٣٤" =
      "SELECT * FROM catalog WHERE price < ٣٤ AND category = 'audio' " ++
        "AND title LIKE '%headphone%'" ∧
    ¬InGrammar (nlToSql arabicLanguage "headphones under $٣٤") ∧
    ∀ products,
      runSql (buildDb products) (nlToSql arabicLanguage "headphones under $٣٤") = none := by
  have hclauses : clausesOf arabicLanguage "headphones under $٣٤" =
      [.below "٣٤", .category "audio", .productType "headphone"] := by decide +kernel
  have hraises : readSql (nlToSql arabicLanguage "headphones under $٣٤") = none := by
    rw [readSql_nlToSql, hclauses]
    decide +kernel
  have htext : nlToSql arabicLanguage "headphones under $٣٤" =
      "SELECT * FROM catalog WHERE price < ٣٤ AND category = 'audio' " ++
        "AND title LIKE '%headphone%'" := by
    rw [nlToSql, hclauses]
    decide +kernel
  refine ⟨htext, fun hgrammar => ?_, fun products => ?_⟩
  · obtain ⟨conds, hconds⟩ := hgrammar.reads
    cases hraises.symm.trans hconds
  · rw [runSql, hraises]
    rfl

end Grammar

end DealFinder.Agent
