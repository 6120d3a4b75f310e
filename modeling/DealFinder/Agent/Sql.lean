/-
# The SQL of the catalog

The table that the agent asks, and the statements that it asks it: one table, all columns, and
conditions that all have to hold. A statement is read token by token. What is not of this form
raises, a name that is no column in particular.
-/

import DealFinder.Feeds.Float

namespace DealFinder.Agent

open DealFinder.Math DealFinder.Feeds

/-! ## The catalog -/

/-- What `build_db` reads of a product. -/
structure Product where
  id : String
  title : String
  brand : Option String
  category : String
  price : Double
  condition : String
  source : String

/-- A row of the catalog. -/
structure Row where
  id : String
  title : String
  brand : Option String
  category : String
  price : Option Double
  condition : String
  source : String
  deriving DecidableEq

/-- The row of a product. A NaN is stored as `NULL`. -/
def rowOf (p : Product) : Row where
  id := p.id
  title := p.title
  brand := p.brand
  category := p.category
  price := if p.price = .nan then none else some p.price
  condition := p.condition
  source := p.source

/-- `build_db`. -/
def buildDb (products : List Product) : List Row := products.map rowOf

/-- The columns of the catalog. -/
inductive Column
  | id
  | title
  | brand
  | category
  | price
  | condition
  | source
  deriving DecidableEq

/-- The names of the columns. -/
def columnNames : List (String × Column) :=
  [("id", .id), ("title", .title), ("brand", .brand), ("category", .category), ("price", .price),
    ("condition", .condition), ("source", .source)]

/-- The text in a column, where there is one. -/
def Row.text? (row : Row) : Column → Option String
  | .id => some row.id
  | .title => some row.title
  | .brand => row.brand
  | .category => some row.category
  | .price => none
  | .condition => some row.condition
  | .source => some row.source

/-! ## Tokens -/

inductive Token
  | word (name : List Char)
  | number (digits : List Char)
  | text (content : List Char)
  | symbol (c : Char)
  deriving DecidableEq

/-- What is being read, the last character first. -/
inductive Pending
  | blank
  | word (read : List Char)
  | number (read : List Char)
  | text (read : List Char)
  /-- After a quote in a text, which ends it unless another follows. -/
  | quote (read : List Char)
  deriving DecidableEq

/-- The tokens that are read, the last one first, and what is being read. -/
structure Lexer where
  done : List Token
  pending : Pending
  deriving DecidableEq

/-- The characters of a name: letters and digits of ASCII, and whatever is not ASCII. -/
def isName (c : Char) : Bool := c.isAlphanum || c = '_' || c = '$' || 128 ≤ c.toNat

/-- A character between tokens or at the start of one. -/
def Lexer.start (done : List Token) (c : Char) : Option Lexer :=
  if c = ' ' || c = '\t' || c = '\n' || c = '\r' || c = '\x0c' then some ⟨done, .blank⟩
  else if c.isDigit then some ⟨done, .number [c]⟩
  else if isName c && c ≠ '$' then some ⟨done, .word [c]⟩
  else if c = '\'' then some ⟨done, .text []⟩
  else if ['*', '<', '>', '='].contains c then some ⟨.symbol c :: done, .blank⟩
  else none

/-- The tokens once what is being read is over. A text has to be closed. -/
def Lexer.flush (lexer : Lexer) : Option (List Token) :=
  match lexer.pending with
  | .blank => some lexer.done
  | .word read => some (.word read.reverse :: lexer.done)
  | .number read => some (.number read.reverse :: lexer.done)
  | .text _ => none
  | .quote read => some (.text read.reverse :: lexer.done)

/-- Read a character. A name may not start right behind a number. -/
def Lexer.feed (lexer : Lexer) (c : Char) : Option Lexer :=
  match lexer.pending with
  | .blank => Lexer.start lexer.done c
  | .word read =>
      if isName c then some ⟨lexer.done, .word (c :: read)⟩
      else Lexer.start (.word read.reverse :: lexer.done) c
  | .number read =>
      if c.isDigit then some ⟨lexer.done, .number (c :: read)⟩
      else if isName c then none
      else Lexer.start (.number read.reverse :: lexer.done) c
  | .text read =>
      if c = '\'' then some ⟨lexer.done, .quote read⟩ else some ⟨lexer.done, .text (c :: read)⟩
  | .quote read =>
      if c = '\'' then some ⟨lexer.done, .text (c :: read)⟩
      else Lexer.start (.text read.reverse :: lexer.done) c

/-- Read some characters. -/
def Lexer.feedAll (lexer : Lexer) (text : List Char) : Option Lexer := text.foldlM Lexer.feed lexer

/-- The tokens of a text. -/
def lex (text : List Char) : Option (List Token) :=
  ((Lexer.feedAll ⟨[], .blank⟩ text).bind Lexer.flush).map List.reverse

/-! ## Statements -/

/-- A condition on a row. -/
inductive Cond
  | below (n : ℕ)
  | above (n : ℕ)
  | equals (column : Column) (content : String)
  | like (column : Column) (pattern : String)
  | same (a b : ℕ)
  deriving DecidableEq

/-- A word of the language, or a name, in upper or lower case. -/
def Token.isWord (token : Token) (name : String) : Bool :=
  match token with
  | .word found => found.map Char.toLower = name.toList
  | _ => false

/-- The column that a token names. -/
def Token.column? (token : Token) : Option Column :=
  (columnNames.find? fun named => token.isWord named.1).map Prod.snd

/-- A condition of three tokens. A price is compared with a number, any other column with a
text. -/
def readCond (left op right : Token) : Option Cond :=
  match left, right with
  | .number a, .number b =>
      if op = .symbol '=' then some (.same (digitsNumber a) (digitsNumber b)) else none
  | left, .number n =>
      if left.column? = some .price then
        if op = .symbol '<' then some (.below (digitsNumber n))
        else if op = .symbol '>' then some (.above (digitsNumber n))
        else none
      else none
  | left, .text content =>
      left.column?.bind fun column =>
        if column = .price then none
        else if op = .symbol '=' then some (.equals column (String.ofList content))
        else if op.isWord "like" then some (.like column (String.ofList content))
        else none
  | _, _ => none

/-- Conditions with `AND` between them. -/
def readConds : List Token → Option (List Cond)
  | [left, op, right] => (readCond left op right).map fun cond => [cond]
  | left :: op :: right :: conjunction :: rest =>
      if conjunction.isWord "and" then do
        let cond ← readCond left op right
        let conds ← readConds rest
        return cond :: conds
      else none
  | _ => none

/-- `SELECT * FROM catalog WHERE` and its conditions. -/
def readSelect : List Token → Option (List Cond)
  | select :: star :: from' :: table :: where' :: rest =>
      if select.isWord "select" && star = .symbol '*' && from'.isWord "from" &&
          table.isWord "catalog" && where'.isWord "where" then readConds rest
      else none
  | _ => none

/-- The conditions of a statement. -/
def readSql (sql : String) : Option (List Cond) := (lex sql.toList).bind readSelect

/-! ## Rows -/

/-- A whole number as the engine reads it: exactly, if 64 bits hold it. -/
def literal (n : ℕ) : Double := if n < 2 ^ 63 then .finite n else Double.nearest n

/-- `LIKE`: a percent sign stands for any text, an underscore for a character, and ASCII letters
for themselves in upper or lower case. -/
def likeChars : List Char → List Char → Bool
  | [], text => text.isEmpty
  | c :: pattern, text =>
      if c = '%' then text.tails.any (likeChars pattern)
      else
        match text with
        | [] => false
        | x :: rest => (c = '_' || c.toLower = x.toLower) && likeChars pattern rest

/-- A row meets a condition. `NULL` meets none. -/
def Cond.holds (row : Row) : Cond → Bool
  | .below n => row.price.any fun p => p.less (literal n)
  | .above n => row.price.any fun p => (literal n).less p
  | .equals column content => row.text? column = some content
  | .like column pattern => (row.text? column).any fun t => likeChars pattern.toList t.toList
  | .same a b => a = b

/-- `run_sql`. -/
def runSql (rows : List Row) (sql : String) : Option (List Row) :=
  (readSql sql).map fun conds => rows.filter fun row => conds.all (Cond.holds row)

theorem runSql_of_readSql {sql : String} {conds : List Cond} (h : readSql sql = some conds)
    (rows : List Row) :
    runSql rows sql = some (rows.filter fun row => conds.all (Cond.holds row)) := by
  rw [runSql, h, Option.map_some]

/-- Conditions are read with their texts and numbers, and a name that is no column raises. -/
example : readSql "SELECT * FROM catalog WHERE price < 120 AND title LIKE '%it''s%'" =
    some [.below 120, .like .title "%it's%"] := by decide +kernel

example : readSql "SELECT * FROM catalog WHERE price < ten" = none := by decide +kernel

/-! ## Reading a text piece by piece -/

/-- Between other tokens a piece of a text is read as some tokens, or raises. -/
def Reads (piece : List Char) (found : Option (List Token)) : Prop :=
  ∀ done, (Lexer.feedAll ⟨done, .blank⟩ piece).map Lexer.flush =
    found.map fun tokens => some (tokens.reverse ++ done)

section Reads

variable {done : List Token} {read piece piece' : List Char} {found found' : Option (List Token)}

theorem feedAll_append (lexer : Lexer) (piece piece' : List Char) :
    lexer.feedAll (piece ++ piece') = (lexer.feedAll piece).bind (Lexer.feedAll · piece') :=
  List.foldlM_append

theorem feedAll_cons (lexer : Lexer) (c : Char) (piece : List Char) :
    lexer.feedAll (c :: piece) = (lexer.feed c).bind (Lexer.feedAll · piece) := rfl

/-- A blank ends a token. -/
theorem feed_blank (lexer : Lexer) (hopen : lexer.flush ≠ none) :
    lexer.feed ' ' = lexer.flush.map fun done => ⟨done, .blank⟩ := by
  obtain ⟨done, pending⟩ := lexer
  cases pending with
  | text read => exact absurd rfl hopen
  | _ => rfl

theorem lex_eq (h : Reads piece found) : lex piece = found := by
  have hread := h []
  cases found with
  | none => rw [lex, Option.map_eq_none_iff.1 hread, Option.bind_none, Option.map_none]
  | some tokens =>
      obtain ⟨lexer, hlexer, hflush⟩ := Option.map_eq_some_iff.1 hread
      rw [lex, hlexer, Option.bind_some, hflush, Option.map_some, List.append_nil,
        List.reverse_reverse]

/-- Two pieces with a blank between. -/
theorem Reads.append (h : Reads piece found) (h' : Reads piece' found') :
    Reads (piece ++ ' ' :: piece')
      (found.bind fun tokens => found'.map fun tokens' => tokens ++ tokens') := by
  intro done
  have hread := h done
  rw [feedAll_append]
  cases found with
  | none =>
      rw [Option.map_eq_none_iff.1 hread, Option.bind_none, Option.bind_none]
      rfl
  | some tokens =>
      obtain ⟨lexer, hlexer, hflush⟩ := Option.map_eq_some_iff.1 hread
      rw [hlexer, Option.bind_some, feedAll_cons, feed_blank lexer (by rw [hflush]; nofun), hflush,
        Option.map_some, Option.bind_some, h', Option.bind_some, Option.map_map]
      simp [Function.comp_def]

theorem feedAll_digits {digits : List Char} (h : ∀ c ∈ digits, c.isDigit = true) :
    Lexer.feedAll ⟨done, .number read⟩ digits = some ⟨done, .number (digits.reverse ++ read)⟩ := by
  induction digits generalizing read with
  | nil => rfl
  | cons c digits ih =>
      obtain ⟨hc, hdigits⟩ := List.forall_mem_cons.1 h
      have hfeed : Lexer.feed ⟨done, .number read⟩ c = some ⟨done, .number (c :: read)⟩ :=
        if_pos hc
      rw [feedAll_cons, hfeed, Option.bind_some, ih hdigits, List.reverse_cons, List.append_assoc]
      rfl

theorem feedAll_name {name : List Char} (h : ∀ c ∈ name, isName c = true) :
    Lexer.feedAll ⟨done, .word read⟩ name = some ⟨done, .word (name.reverse ++ read)⟩ := by
  induction name generalizing read with
  | nil => rfl
  | cons c name ih =>
      obtain ⟨hc, hname⟩ := List.forall_mem_cons.1 h
      have hfeed : Lexer.feed ⟨done, .word read⟩ c = some ⟨done, .word (c :: read)⟩ := if_pos hc
      rw [feedAll_cons, hfeed, Option.bind_some, ih hname, List.reverse_cons, List.append_assoc]
      rfl

theorem feedAll_text {content : List Char} (h : '\'' ∉ content) :
    Lexer.feedAll ⟨done, .text read⟩ content = some ⟨done, .text (content.reverse ++ read)⟩ := by
  induction content generalizing read with
  | nil => rfl
  | cons c content ih =>
      have hc : c ≠ '\'' := fun heq => h (heq ▸ List.mem_cons_self)
      have hfeed : Lexer.feed ⟨done, .text read⟩ c = some ⟨done, .text (c :: read)⟩ := if_neg hc
      rw [feedAll_cons, hfeed, Option.bind_some, ih fun hmem => h (List.mem_cons_of_mem _ hmem),
        List.reverse_cons, List.append_assoc]
      rfl

/-- A text without quotes, between quotes. -/
theorem reads_text {content : List Char} (h : '\'' ∉ content) :
    Reads ('\'' :: (content ++ ['\''])) (some [.text content]) := by
  intro done
  have hopen : Lexer.feed ⟨done, .blank⟩ '\'' = some ⟨done, .text []⟩ := rfl
  rw [feedAll_cons, hopen, Option.bind_some, feedAll_append, feedAll_text h, Option.bind_some,
    List.append_nil]
  simp [Lexer.feedAll, Lexer.feed, Lexer.flush]

/-- Some digits, of ASCII or not: a number if all are of ASCII, a name if the first is not, and
else a number with a name right behind it. -/
def numeralToken (digits : List Char) : Option Token :=
  if digits.all Char.isDigit then some (.number digits)
  else if digits.head?.any Char.isDigit then none
  else some (.word digits)

theorem isName_of_digit {c : Char} (h : c.isDigit = true ∨ 128 ≤ c.toNat) : isName c = true := by
  rcases h with h | h
  · simp [isName, Char.isAlphanum, h]
  · simp [isName, h]

theorem not_isDigit_of_le {c : Char} (h : 128 ≤ c.toNat) : c.isDigit = false := by
  rw [Bool.eq_false_iff]
  intro hdigit
  exact absurd (Rag.toNat_lt_of_isDigit hdigit) h.not_gt

theorem start_of_digit {c : Char} (h : c.isDigit = true) :
    Lexer.start done c = some ⟨done, .number [c]⟩ := by
  have hne : ∀ d : Char, d.isDigit = false → c ≠ d := by
    rintro d hd rfl
    exact absurd (h.symm.trans hd) (by decide)
  rw [Lexer.start, if_neg, if_pos h]
  simp [hne ' ' rfl, hne '\t' rfl, hne '\n' rfl, hne '\r' rfl, hne '\x0c' rfl]

theorem start_of_foreign {c : Char} (h : 128 ≤ c.toNat) :
    Lexer.start done c = some ⟨done, .word [c]⟩ := by
  have hne : ∀ d : Char, d.toNat < 128 → c ≠ d := by
    rintro d hd rfl
    omega
  have hdigit := not_isDigit_of_le h
  rw [Lexer.start, if_neg, if_neg (by simp [hdigit]), if_pos]
  · simp [isName, h, hne '$' (by decide)]
  · simp [hne ' ' (by decide), hne '\t' (by decide), hne '\n' (by decide), hne '\r' (by decide),
      hne '\x0c' (by decide)]

/-- Digits that follow a number: they go on with it as long as they are of ASCII. -/
theorem feedAll_number {digits : List Char} (h : ∀ c ∈ digits, c.isDigit = true ∨ 128 ≤ c.toNat)
    (hall : ¬digits.all Char.isDigit = true) :
    Lexer.feedAll ⟨done, .number read⟩ digits = none := by
  induction digits generalizing read with
  | nil => exact absurd rfl hall
  | cons c digits ih =>
      obtain ⟨hc, hdigits⟩ := List.forall_mem_cons.1 h
      rw [feedAll_cons]
      by_cases hdigit : c.isDigit = true
      · have hfeed : Lexer.feed ⟨done, .number read⟩ c = some ⟨done, .number (c :: read)⟩ :=
          if_pos hdigit
        rw [hfeed, Option.bind_some]
        exact ih hdigits fun htail => hall (by simp [hdigit, htail])
      · have hfeed : Lexer.feed ⟨done, .number read⟩ c = none :=
          (if_neg hdigit).trans (if_pos (isName_of_digit hc))
        rw [hfeed]
        rfl

/-- Some digits. -/
theorem reads_numeral {digits : List Char} (hne : digits ≠ [])
    (h : ∀ c ∈ digits, c.isDigit = true ∨ 128 ≤ c.toNat) :
    Reads digits ((numeralToken digits).map fun token => [token]) := by
  intro done
  cases digits with
  | nil => exact absurd rfl hne
  | cons c digits =>
      obtain ⟨hc, hdigits⟩ := List.forall_mem_cons.1 h
      rw [feedAll_cons]
      by_cases hdigit : c.isDigit = true
      · have hfeed : Lexer.feed ⟨done, .blank⟩ c = some ⟨done, .number [c]⟩ :=
          start_of_digit hdigit
        rw [hfeed, Option.bind_some]
        by_cases hall : digits.all Char.isDigit = true
        · rw [feedAll_digits (List.all_eq_true.1 hall), numeralToken,
            if_pos (by simp [hdigit, hall])]
          simp [Lexer.flush]
        · rw [feedAll_number hdigits hall, numeralToken, if_neg (by simp [hdigit, hall]),
            if_pos (by simp [hdigit])]
          rfl
      · have hfeed : Lexer.feed ⟨done, .blank⟩ c = some ⟨done, .word [c]⟩ :=
          start_of_foreign (hc.resolve_left hdigit)
        rw [hfeed, Option.bind_some, feedAll_name fun d hd => isName_of_digit (hdigits d hd),
          numeralToken, if_neg (by simp [hdigit]), if_neg (by simp [hdigit])]
        simp [Lexer.flush]

end Reads

end DealFinder.Agent
