/-
# Writing JSON

What `json.dumps` makes of a value: ASCII on one line, with a comma or a colon and a blank between
the parts. Reading the text of a value gives the value back (`loads_dumps`), if the runtime writes
floats as numbers that are read as them.
-/

import DealFinder.Feeds.Decimal

namespace DealFinder.Feeds

/-! ## The writer -/

/-- A number of four hexadecimal digits, escaped. -/
def unicodeEscape (n : ℕ) : List Char :=
  ['\\', 'u', hexDigit (n / 4096), hexDigit (n / 256 % 16), hexDigit (n / 16 % 16),
    hexDigit (n % 16)]

/-- How a character is written in ASCII, between quotes. A character of the upper planes takes two
escapes. -/
def asciiChar (c : Char) : List Char :=
  match escapes.find? fun pair => pair.2 = c ∧ c ≠ '/' with
  | some pair => ['\\', pair.1]
  | none =>
      if ' ' ≤ c ∧ c ≤ '~' then [c]
      else if c.toNat < 0x10000 then unicodeEscape c.toNat
      else
        unicodeEscape (0xD800 + (c.toNat - 0x10000) / 0x400) ++
          unicodeEscape (0xDC00 + (c.toNat - 0x10000) % 0x400)

/-- A string in ASCII between quotes. -/
def quoteAscii (s : List Char) : List Char := '"' :: (s.flatMap asciiChar ++ ['"'])

section Write

variable (runtime : Runtime)

/-- A float, as `repr` has it if it is a number. -/
def floatText : Double → List Char
  | .nan => "NaN".toList
  | .inf negative => (if negative then "-Infinity" else "Infinity").toList
  | .finite x => (runtime.repr (.float (.finite x))).toList

mutual

/-- `json.dumps`. -/
def dumps : Json → List Char
  | .null => "null".toList
  | .bool b => (if b then "true" else "false").toList
  | .int n => intText n
  | .float x => floatText runtime x
  | .str s => quoteAscii s.toList
  | .arr [] => ['[', ']']
  | .arr (v :: rest) => '[' :: (dumps v ++ moreItems rest)
  | .obj [] => ['\x7b', '\x7d']
  | .obj ((key, v) :: rest) =>
      '\x7b' :: (quoteAscii key.toList ++ ':' :: ' ' :: (dumps v ++ moreMembers rest))

/-- The items of an array behind the first. -/
def moreItems : List Json → List Char
  | [] => [']']
  | v :: rest => ',' :: ' ' :: (dumps v ++ moreItems rest)

/-- The members of an object behind the first. -/
def moreMembers : List (String × Json) → List Char
  | [] => ['\x7d']
  | (key, v) :: rest =>
      ',' :: ' ' :: (quoteAscii key.toList ++ ':' :: ' ' :: (dumps v ++ moreMembers rest))

end

/-- Floats are written on one line, as numbers that are read as them. -/
structure ReprReads : Prop where
  reads : ∀ x, (Double.finite x).IsFloat →
    scanNumber (runtime.repr (.float (.finite x))).toList = some (.float (.finite x), [])
  line : ∀ x, (Double.finite x).IsFloat → '\n' ∉ (runtime.repr (.float (.finite x))).toList

end Write

mutual

/-- The floats of a value are floats. -/
def HasFloats : Json → Prop
  | .float x => x.IsFloat
  | .arr items => HaveFloats items
  | .obj entries => MembersHaveFloats entries
  | _ => True

/-- The floats of some values are floats. -/
def HaveFloats : List Json → Prop
  | [] => True
  | v :: rest => HasFloats v ∧ HaveFloats rest

/-- The floats of the members of an object are floats. -/
def MembersHaveFloats : List (String × Json) → Prop
  | [] => True
  | (_, v) :: rest => HasFloats v ∧ MembersHaveFloats rest

end

theorem haveFloats_map {α : Type} {g : α → Json} {l : List α} (h : ∀ x ∈ l, HasFloats (g x)) :
    HaveFloats (l.map g) := by
  induction l with
  | nil => trivial
  | cons x l ih =>
      obtain ⟨hx, hl⟩ := List.forall_mem_cons.1 h
      exact ⟨hx, ih hl⟩

/-! ## Strings -/

theorem hexDigit?_hexDigit : ∀ n < 16, hexDigit? (hexDigit n) = some n := by decide

/-- The digits of an escape. -/
def hexDigits (n : ℕ) : List Char :=
  [hexDigit (n / 4096), hexDigit (n / 256 % 16), hexDigit (n / 16 % 16), hexDigit (n % 16)]

theorem unicodeEscape_eq (n : ℕ) : unicodeEscape n = '\\' :: 'u' :: hexDigits n := rfl

theorem readHex_hexDigits {n : ℕ} (h : n < 0x10000) (rest : List Char) :
    readHex (hexDigits n ++ rest) = some (n, rest) := by
  have hvalue : 4096 * (n / 4096) + 256 * (n / 256 % 16) + 16 * (n / 16 % 16) + n % 16 = n := by
    omega
  simp only [hexDigits, List.cons_append, List.nil_append, readHex,
    hexDigit?_hexDigit _ (show n / 4096 < 16 by omega),
    hexDigit?_hexDigit _ (show n / 256 % 16 < 16 by omega),
    hexDigit?_hexDigit _ (show n / 16 % 16 < 16 by omega),
    hexDigit?_hexDigit _ (show n % 16 < 16 by omega), Option.bind_eq_bind, Option.bind_some,
    hvalue]
  rfl

theorem readChar_unicode (rest : List Char) :
    readChar ('\\' :: 'u' :: rest) = readUnicode rest := rfl

/-- A character is no half of another. -/
theorem not_surrogate (c : Char) : c.toNat < 0xD800 ∨ 0xDFFF < c.toNat ∧ c.toNat < 0x110000 := by
  rcases c.valid with h | h
  · exact .inl h
  · exact .inr h

theorem readChar_unicodeEscape {c : Char} (h : c.toNat < 0x10000) :
    readChar (unicodeEscape c.toNat) = some (c, []) := by
  have hhex := readHex_hexDigits h []
  have hplain := not_surrogate c
  rw [List.append_nil] at hhex
  rw [unicodeEscape_eq, readChar_unicode, readUnicode, hhex]
  simp only [Option.bind_eq_bind, Option.bind_some]
  rw [if_neg (by omega), if_neg (by omega), Char.ofNat_toNat]

theorem readLow_of_hex {high low : ℕ} {text : List Char} (h : readHex text = some (low, []))
    (hlow : 0xDC00 ≤ low ∧ low ≤ 0xDFFF) :
    readLow high ('\\' :: 'u' :: text) =
      some (Char.ofNat (0x10000 + 0x400 * (high - 0xD800) + (low - 0xDC00)), []) := by
  rw [readLow, h]
  simp only [Option.bind_eq_bind, Option.bind_some]
  rw [if_pos hlow]

theorem readUnicode_of_hex {high : ℕ} {text rest : List Char}
    (h : readHex text = some (high, rest)) (hhigh : 0xD800 ≤ high ∧ high ≤ 0xDBFF) :
    readUnicode text = readLow high rest := by
  rw [readUnicode, h]
  simp only [Option.bind_eq_bind, Option.bind_some]
  rw [if_pos hhigh]

/-- Two halves spell a character of the upper planes. -/
theorem readChar_halves {high low : ℕ} (hhigh : 0xD800 ≤ high ∧ high ≤ 0xDBFF)
    (hlow : 0xDC00 ≤ low ∧ low ≤ 0xDFFF) :
    readChar (unicodeEscape high ++ unicodeEscape low) =
      some (Char.ofNat (0x10000 + 0x400 * (high - 0xD800) + (low - 0xDC00)), []) := by
  have hread := readHex_hexDigits (show high < 0x10000 by omega) (unicodeEscape low)
  have hread' := readHex_hexDigits (show low < 0x10000 by omega) []
  rw [List.append_nil] at hread'
  rw [unicodeEscape_eq high, List.cons_append, List.cons_append, readChar_unicode,
    readUnicode_of_hex hread hhigh, unicodeEscape_eq, readLow_of_hex hread' hlow]

/-- The halves of a number. -/
theorem halves_spec {n : ℕ} (h : 0x10000 ≤ n) (hmax : n < 0x110000) :
    (0xD800 ≤ 0xD800 + (n - 0x10000) / 0x400 ∧ 0xD800 + (n - 0x10000) / 0x400 ≤ 0xDBFF) ∧
      (0xDC00 ≤ 0xDC00 + (n - 0x10000) % 0x400 ∧ 0xDC00 + (n - 0x10000) % 0x400 ≤ 0xDFFF) ∧
        0x10000 + 0x400 * (0xD800 + (n - 0x10000) / 0x400 - 0xD800) +
          (0xDC00 + (n - 0x10000) % 0x400 - 0xDC00) = n := by
  omega

theorem escapes_spec : ∀ pair ∈ escapes, pair.1 ≠ 'u' ∧
    (escapes.find? fun other => other.1 = pair.1) = some pair := by
  decide

/-- A character is read back from ASCII, and none is written as a quote. -/
theorem readChar_asciiChar (c : Char) :
    readChar (asciiChar c) = some (c, []) ∧ (asciiChar c).head? ≠ some '"' := by
  rw [asciiChar]
  cases hfind : escapes.find? fun pair => pair.2 = c ∧ c ≠ '/' with
  | some pair =>
      obtain ⟨hu, hpair⟩ := escapes_spec pair (List.mem_of_find?_eq_some hfind)
      have hc : pair.2 = c := by
        have hsome := List.find?_some hfind
        simp only [decide_eq_true_eq] at hsome
        exact hsome.1
      refine ⟨?_, by simp⟩
      rw [readChar, if_pos rfl, if_neg hu, hpair, Option.map_some, Option.map_some, hc]
  | none =>
      split_ifs with hplain hsmall
      · have hquote : c ≠ '"' := by
          rintro rfl
          exact absurd hfind (by decide)
        have hback : c ≠ '\\' := by
          rintro rfl
          exact absurd hfind (by decide)
        have hle : 32 ≤ c.toNat := hplain.1
        exact ⟨by simp [readChar, hback, hle], by simpa using hquote⟩
      · exact ⟨readChar_unicodeEscape hsmall, by simp [unicodeEscape]⟩
      · have hmax : c.toNat < 0x110000 := by
          have hplain := not_surrogate c
          omega
        obtain ⟨hhigh, hlow, hvalue⟩ := halves_spec (not_lt.1 hsmall) hmax
        have hread := readChar_halves hhigh hlow
        rw [hvalue, Char.ofNat_toNat] at hread
        exact ⟨hread, by simp [unicodeEscape]⟩

/-! ## Values -/

section Values

variable {text after : List Char} {v : Json} {n : ℕ}

/-- A number starts with a minus sign or a digit. -/
theorem head_of_scanNumber {found : Json × List Char} (h : scanNumber text = some found) :
    ∃ c rest, text = c :: rest ∧ (c = '-' ∨ c.isDigit = true) := by
  obtain ⟨v, left⟩ := found
  obtain ⟨whole, left', -, -, -, hwhole, -⟩ := scanNumber_eq_some h
  cases text with
  | nil => cases hwhole
  | cons c rest =>
      refine ⟨c, rest, rfl, ?_⟩
      by_cases hminus : c = '-'
      · exact .inl hminus
      · right
        have hnone : minusOf (c :: rest) = [] := by simp [minusOf, hminus]
        rw [hnone, List.length_nil, List.drop_zero, scanWhole] at hwhole
        split_ifs at hwhole with hzero hdigit
        · rw [hzero]
          rfl
        · exact hdigit

/-- What opens a string, an array or an object opens neither a word nor a number. -/
theorem scanValue_of_head {c : Char} {rest : List Char}
    (hc : c ∉ ['"', '\x7b', '[']) (n : ℕ) :
    scanValue (n + 1) (c :: rest) = (scanWord (c :: rest)).or (scanNumber (c :: rest)) := by
  have hne : ∀ d ∈ ['"', '\x7b', '['], (c :: rest).head? ≠ some d := by
    intro d hd heq
    rw [← Option.some_inj.1 heq] at hd
    exact hc hd
  rw [scanValue, if_neg (hne _ (by simp)), if_neg (hne _ (by simp)), if_neg (hne _ (by simp))]

theorem scanValue_of_number (h : scanNumber text = some (v, []))
    (hafter : after = [] ∨ Stops after) (n : ℕ) :
    scanValue (n + 1) (text ++ after) = some (v, after) := by
  have hread : scanNumber (text ++ after) = some (v, after) := by
    rcases hafter with rfl | hstops
    · rw [List.append_nil]
      exact h
    · exact scanNumber_append after h hstops
  have hword := scanWord_of_number after h
  obtain ⟨c, rest, rfl, hc⟩ := head_of_scanNumber h
  have hplain : c ∉ ['"', '\x7b', '['] := by
    rcases hc with rfl | hdigit
    · decide
    · intro hmem
      have hnot : (['"', '\x7b', '['].all fun d => !d.isDigit) = true := by decide
      have hplain := List.all_eq_true.1 hnot c hmem
      rw [hdigit] at hplain
      cases hplain
  rw [List.cons_append] at hread hword ⊢
  rw [scanValue_of_head hplain, hword, Option.none_or, hread]

theorem scanValue_of_word {word : List Char} (h : (word, v) ∈ words) (after : List Char) (n : ℕ) :
    scanValue (n + 1) (word ++ after) = some (v, after) := by
  have hread : scanWord word = some (v, []) := by
    simp only [words, List.mem_cons, Prod.mk.injEq, List.not_mem_nil, or_false] at h
    rcases h with ⟨rfl, rfl⟩ | ⟨rfl, rfl⟩ | ⟨rfl, rfl⟩ | ⟨rfl, rfl⟩ | ⟨rfl, rfl⟩ | ⟨rfl, rfl⟩ <;>
      rfl
  have hhead : ∃ c rest, word = c :: rest ∧ c ∉ ['"', '\x7b', '['] := by
    simp only [words, List.mem_cons, Prod.mk.injEq, List.not_mem_nil, or_false] at h
    rcases h with ⟨rfl, -⟩ | ⟨rfl, -⟩ | ⟨rfl, -⟩ | ⟨rfl, -⟩ | ⟨rfl, -⟩ | ⟨rfl, -⟩ <;>
      exact ⟨_, _, rfl, by decide⟩
  have hword := scanWord_append after hread
  obtain ⟨c, rest, rfl, hplain⟩ := hhead
  rw [List.cons_append] at hword ⊢
  rw [scanValue_of_head hplain, hword, Option.some_or]
  rfl

theorem scanValue_quoteAscii (s : String) (after : List Char) (n : ℕ) :
    scanValue (n + 1) (quoteAscii s.toList ++ after) = some (.str s, after) := by
  have htext : quoteAscii s.toList ++ after =
      '"' :: (s.toList.flatMap asciiChar ++ '"' :: after) := by
    simp [quoteAscii]
  rw [htext, scanValue, List.head?_cons, if_pos rfl, List.tail_cons,
    scanString_quoted readChar_asciiChar, Option.map_some]
  dsimp only
  rw [String.ofList_toList]

end Values

section RoundTrip

variable {runtime : Runtime} (hrepr : ReprReads runtime)

/-- A character that opens a value. -/
def Opens (c : Char) : Prop := isBlank c = false ∧ c ∉ [']', '\ufeff']

theorem opens_of_number {c : Char} (h : c = '-' ∨ c.isDigit = true) : Opens c := by
  rcases h with rfl | hdigit
  · exact ⟨rfl, by decide⟩
  · have hne : ∀ d : Char, d.isDigit = false → c ≠ d := by
      rintro d hd rfl
      rw [hdigit] at hd
      cases hd
    refine ⟨?_, by simp [hne ']' rfl, hne '\ufeff' rfl]⟩
    simp [isBlank, hne ' ' rfl, hne '\t' rfl, hne '\n' rfl, hne '\r' rfl]

include hrepr

/-- A written value starts with a character that opens a value. -/
theorem head_dumps {v : Json} (hv : HasFloats v) :
    ∃ c rest, dumps runtime v = c :: rest ∧ Opens c := by
  cases v with
  | null => exact ⟨'n', _, rfl, rfl, by decide⟩
  | bool b =>
      cases b with
      | false => exact ⟨'f', _, rfl, rfl, by decide⟩
      | true => exact ⟨'t', _, rfl, rfl, by decide⟩
  | int n =>
      obtain ⟨c, rest, htext, hc⟩ := head_of_scanNumber (scanNumber_intText n)
      exact ⟨c, rest, htext, opens_of_number hc⟩
  | float x =>
      cases x with
      | nan => exact ⟨'N', _, rfl, rfl, by decide⟩
      | inf negative =>
          cases negative with
          | false => exact ⟨'I', _, rfl, rfl, by decide⟩
          | true => exact ⟨'-', _, rfl, rfl, by decide⟩
      | finite x =>
          obtain ⟨c, rest, htext, hc⟩ := head_of_scanNumber (hrepr.reads x hv)
          exact ⟨c, rest, htext, opens_of_number hc⟩
  | str s => exact ⟨'"', _, rfl, rfl, by decide⟩
  | arr items =>
      cases items with
      | nil => exact ⟨'[', _, rfl, rfl, by decide⟩
      | cons v rest => exact ⟨'[', _, rfl, rfl, by decide⟩
  | obj entries =>
      cases entries with
      | nil => exact ⟨'\x7b', _, rfl, rfl, by decide⟩
      | cons entry rest => exact ⟨'\x7b', _, rfl, rfl, by decide⟩

theorem skipBlanks_dumps {v : Json} (hv : HasFloats v) (after : List Char) :
    skipBlanks (dumps runtime v ++ after) = dumps runtime v ++ after ∧
      skipBlanks (' ' :: (dumps runtime v ++ after)) = dumps runtime v ++ after ∧
        (dumps runtime v ++ after).head? ≠ some ']' := by
  obtain ⟨c, rest, htext, hblank, hne⟩ := head_dumps hrepr hv
  have hskip : skipBlanks (dumps runtime v ++ after) = dumps runtime v ++ after := by
    rw [htext, List.cons_append, skipBlanks, List.dropWhile_cons_of_neg (by simp [hblank])]
  refine ⟨hskip, hskip, ?_⟩
  rw [htext, List.cons_append, List.head?_cons]
  intro h
  rw [Option.some_inj.1 h] at hne
  exact hne List.mem_cons_self

omit hrepr in
theorem stops_moreItems (rest : List Json) (after : List Char) :
    Stops (moreItems runtime rest ++ after) := by
  cases rest with
  | nil => exact ⟨']', rfl, rfl, by decide⟩
  | cons v rest => exact ⟨',', rfl, rfl, by decide⟩

omit hrepr in
theorem stops_moreMembers (rest : List (String × Json)) (after : List Char) :
    Stops (moreMembers runtime rest ++ after) := by
  cases rest with
  | nil => exact ⟨'\x7d', rfl, rfl, by decide⟩
  | cons entry rest => exact ⟨',', rfl, rfl, by decide⟩

omit hrepr

/-- A member of an object as it is written, up to what follows its value. -/
def memberText (runtime : Runtime) (key : String) (v : Json) (after : List Char) : List Char :=
  quoteAscii key.toList ++ ':' :: ' ' :: (dumps runtime v ++ after)

/-- What the scanner reads with a bound that the text has room in. -/
structure Writes (runtime : Runtime) (n : ℕ) : Prop where
  value : ∀ v after, HasFloats v → (dumps runtime v).length ≤ n → after = [] ∨ Stops after →
    scanValue n (dumps runtime v ++ after) = some (v, after)
  items : ∀ v rest after, HasFloats v → HaveFloats rest →
    (dumps runtime v ++ moreItems runtime rest).length ≤ n →
      scanItems n (dumps runtime v ++ (moreItems runtime rest ++ after)) = some (v :: rest, after)
  members : ∀ key v rest after, HasFloats v → MembersHaveFloats rest →
    (memberText runtime key v (moreMembers runtime rest)).length ≤ n →
      scanMembers n (memberText runtime key v (moreMembers runtime rest ++ after)) =
        some ((key, v) :: rest, after)

/-- A value between others. -/
theorem Writes.value_before {n : ℕ} (ih : Writes runtime n) {v : Json} {more after : List Char}
    (hv : HasFloats v) (hlength : (dumps runtime v ++ more).length ≤ n + 1)
    (hstops : Stops (more ++ after)) (hne : more ≠ []) :
    scanValue n (dumps runtime v ++ (more ++ after)) = some (v, more ++ after) := by
  have hpos := List.length_pos_iff.2 hne
  rw [List.length_append] at hlength
  exact ih.value v (more ++ after) hv (by omega) (.inr hstops)

include hrepr

theorem scanItems_dumps {n : ℕ} (ih : Writes runtime n) {v : Json} {rest : List Json}
    (after : List Char) (hv : HasFloats v) (hrest : HaveFloats rest)
    (hlength : (dumps runtime v ++ moreItems runtime rest).length ≤ n + 1) :
    scanItems (n + 1) (dumps runtime v ++ (moreItems runtime rest ++ after)) =
      some (v :: rest, after) := by
  have hstops := @stops_moreItems runtime rest after
  have hne : moreItems runtime rest ≠ [] := by cases rest <;> exact List.cons_ne_nil _ _
  have hread := ih.value_before hv hlength hstops hne
  rw [scanItems, hread]
  cases rest with
  | nil => rfl
  | cons w rest =>
      have htext : moreItems runtime (w :: rest) ++ after =
          ',' :: ' ' :: (dumps runtime w ++ (moreItems runtime rest ++ after)) := by
        rw [moreItems]
        simp
      have hshort : (dumps runtime w ++ moreItems runtime rest).length ≤ n := by
        rw [moreItems, List.length_append, List.length_cons, List.length_cons] at hlength
        omega
      obtain ⟨-, hskip, -⟩ :=
        skipBlanks_dumps hrepr hrest.1 (moreItems runtime rest ++ after)
      have hmore := ih.items w rest after hrest.1 hrest.2 hshort
      have hcomma : skipBlanks (moreItems runtime (w :: rest) ++ after) =
          ',' :: ' ' :: (dumps runtime w ++ (moreItems runtime rest ++ after)) := by
        rw [htext]
        rfl
      simp only [Option.bind_eq_bind, Option.bind_some, hcomma, List.head?_cons, List.tail_cons,
        hskip, hmore]
      rfl

theorem scanMembers_dumps {n : ℕ} (ih : Writes runtime n) {key : String} {v : Json}
    {rest : List (String × Json)} (after : List Char) (hv : HasFloats v)
    (hrest : MembersHaveFloats rest)
    (hlength : (memberText runtime key v (moreMembers runtime rest)).length ≤ n + 1) :
    scanMembers (n + 1) (memberText runtime key v (moreMembers runtime rest ++ after)) =
      some ((key, v) :: rest, after) := by
  have hstops := @stops_moreMembers runtime rest after
  have hne : moreMembers runtime rest ≠ [] := by cases rest <;> exact List.cons_ne_nil _ _
  have hvalue : (dumps runtime v ++ moreMembers runtime rest).length ≤ n := by
    rw [memberText, quoteAscii] at hlength
    simp only [List.length_append, List.length_cons] at hlength ⊢
    omega
  have hread := ih.value_before hv (by omega) hstops hne
  obtain ⟨-, hskip, -⟩ := skipBlanks_dumps hrepr hv (moreMembers runtime rest ++ after)
  have hkey : memberText runtime key v (moreMembers runtime rest ++ after) =
      '"' :: (key.toList.flatMap asciiChar ++ '"' :: ':' :: ' ' ::
        (dumps runtime v ++ (moreMembers runtime rest ++ after))) := by
    simp [memberText, quoteAscii]
  rw [hkey, scanMembers, List.head?_cons, if_pos rfl, List.tail_cons,
    scanString_quoted readChar_asciiChar]
  have hcolon :
      skipBlanks (':' :: ' ' :: (dumps runtime v ++ (moreMembers runtime rest ++ after))) =
        ':' :: ' ' :: (dumps runtime v ++ (moreMembers runtime rest ++ after)) := rfl
  simp only [Option.bind_eq_bind, Option.bind_some, hcolon, List.head?_cons, if_true,
    List.tail_cons, hskip, hread, String.ofList_toList]
  cases rest with
  | nil => rfl
  | cons entry rest =>
      obtain ⟨key', w⟩ := entry
      have htext : skipBlanks (moreMembers runtime ((key', w) :: rest) ++ after) =
          ',' :: ' ' :: memberText runtime key' w (moreMembers runtime rest ++ after) := by
        rw [moreMembers, memberText]
        simp [skipBlanks, isBlank]
      have hshort : (memberText runtime key' w (moreMembers runtime rest)).length ≤ n := by
        rw [moreMembers] at hvalue
        simp only [memberText, List.length_append, List.length_cons] at hvalue ⊢
        omega
      have hblank : skipBlanks (' ' :: memberText runtime key' w
          (moreMembers runtime rest ++ after)) =
            memberText runtime key' w (moreMembers runtime rest ++ after) := rfl
      have hmore := ih.members key' w rest after hrest.1 hrest.2 hshort
      simp only [htext, List.head?_cons, List.tail_cons, hblank, hmore]
      rfl

theorem scanValue_dumps {n : ℕ} (ih : Writes runtime n) {v : Json} {after : List Char}
    (hv : HasFloats v) (hlength : (dumps runtime v).length ≤ n + 1)
    (hafter : after = [] ∨ Stops after) :
    scanValue (n + 1) (dumps runtime v ++ after) = some (v, after) := by
  cases v with
  | null => exact scanValue_of_word (by simp [words, dumps]) after n
  | bool b =>
      cases b with
      | false => exact scanValue_of_word (by simp [words, dumps]) after n
      | true => exact scanValue_of_word (by simp [words, dumps]) after n
  | int k => exact scanValue_of_number (scanNumber_intText k) hafter n
  | float x =>
      cases x with
      | nan => exact scanValue_of_word (by simp [words, dumps, floatText]) after n
      | inf negative =>
          cases negative with
          | false => exact scanValue_of_word (by simp [words, dumps, floatText]) after n
          | true => exact scanValue_of_word (by simp [words, dumps, floatText]) after n
      | finite x => exact scanValue_of_number (hrepr.reads x hv) hafter n
  | str s => exact scanValue_quoteAscii s after n
  | arr items =>
      cases items with
      | nil => rfl
      | cons w rest =>
          obtain ⟨hw, hrest⟩ := hv
          have htext : dumps runtime (.arr (w :: rest)) ++ after =
              '[' :: (dumps runtime w ++ (moreItems runtime rest ++ after)) := by
            rw [dumps, List.cons_append, List.append_assoc]
          have hshort : (dumps runtime w ++ moreItems runtime rest).length ≤ n := by
            rw [dumps, List.length_cons] at hlength
            omega
          obtain ⟨hskip, -, hclose⟩ :=
            skipBlanks_dumps hrepr hw (moreItems runtime rest ++ after)
          rw [htext, scanValue, List.head?_cons, List.tail_cons, if_neg (by decide),
            if_neg (by decide), if_pos rfl, hskip, if_neg hclose,
            ih.items w rest after hw hrest hshort]
          rfl
  | obj entries =>
      cases entries with
      | nil => rfl
      | cons entry rest =>
          obtain ⟨key, w⟩ := entry
          obtain ⟨hw, hrest⟩ := hv
          have htext : dumps runtime (.obj ((key, w) :: rest)) ++ after =
              '\x7b' :: memberText runtime key w (moreMembers runtime rest ++ after) := by
            rw [dumps, memberText]
            simp
          have hshort : (memberText runtime key w (moreMembers runtime rest)).length ≤ n := by
            rw [dumps, List.length_cons] at hlength
            rw [memberText]
            omega
          have hskip : skipBlanks (memberText runtime key w (moreMembers runtime rest ++ after)) =
              memberText runtime key w (moreMembers runtime rest ++ after) := rfl
          have hclose : (memberText runtime key w (moreMembers runtime rest ++ after)).head? ≠
              some '\x7d' := by
            rw [memberText, quoteAscii, List.cons_append, List.head?_cons]
            decide
          rw [htext, scanValue, List.head?_cons, List.tail_cons, if_neg (by decide), if_pos rfl,
            hskip, if_neg hclose, ih.members key w rest after hw hrest hshort]
          rfl

theorem writes (n : ℕ) : Writes runtime n := by
  induction n with
  | zero =>
      refine ⟨?_, ?_, ?_⟩
      · intro v after hv hlength
        obtain ⟨c, rest, htext, -⟩ := head_dumps hrepr hv
        rw [htext] at hlength
        exact absurd hlength (by simp)
      · intro v rest after hv hrest hlength
        obtain ⟨c, text, htext, -⟩ := head_dumps hrepr hv
        rw [htext] at hlength
        exact absurd hlength (by simp)
      · intro key v rest after hv hrest hlength
        exact absurd hlength (by simp [memberText, quoteAscii])
  | succ n ih =>
      exact ⟨fun v after hv hlength => scanValue_dumps hrepr ih hv hlength,
        fun v rest after hv hrest hlength => scanItems_dumps hrepr ih after hv hrest hlength,
        fun key v rest after hv hrest hlength => scanMembers_dumps hrepr ih after hv hrest hlength⟩

/-- `json.loads` reads what `json.dumps` writes. -/
theorem loads_dumps {v : Json} (hv : HasFloats v) :
    loads (String.ofList (dumps runtime v)) = some v := by
  have hread := (writes hrepr ((dumps runtime v).length + 1)).value v [] hv (by omega) (.inl rfl)
  obtain ⟨hskip, -, -⟩ := skipBlanks_dumps hrepr hv []
  rw [List.append_nil] at hread hskip
  have hmark : (dumps runtime v).head? ≠ some '\ufeff' := by
    obtain ⟨c, rest, htext, -, hne⟩ := head_dumps hrepr hv
    rw [htext, List.head?_cons]
    intro h
    rw [Option.some_inj.1 h] at hne
    exact hne (List.mem_cons_of_mem _ List.mem_cons_self)
  rw [loads, String.toList_ofList, if_neg hmark, hskip, hread]
  rfl

end RoundTrip

/-! ## One line -/

theorem newline_not_mem_unicodeEscape {n : ℕ} (h : n < 0x10000) : '\n' ∉ unicodeEscape n := by
  have hne : ∀ k < 16, '\n' ≠ hexDigit k := by decide
  simp [unicodeEscape, hne _ (show n / 4096 < 16 by omega),
    hne _ (show n / 256 % 16 < 16 by omega), hne _ (show n / 16 % 16 < 16 by omega),
    hne _ (show n % 16 < 16 by omega)]

theorem newline_not_mem_asciiChar (c : Char) : '\n' ∉ asciiChar c := by
  rw [asciiChar]
  cases hfind : escapes.find? fun pair => pair.2 = c ∧ c ≠ '/' with
  | some pair =>
      have hall : ∀ pair ∈ escapes, '\n' ∉ ['\\', pair.1] := by decide
      exact hall pair (List.mem_of_find?_eq_some hfind)
  | none =>
      have hmax := not_surrogate c
      split_ifs with hplain hsmall
      · intro hmem
        rw [← List.mem_singleton.1 hmem] at hplain
        exact absurd hplain (by decide)
      · exact newline_not_mem_unicodeEscape hsmall
      · obtain ⟨hhigh, hlow, -⟩ := halves_spec (not_lt.1 hsmall) (by omega)
        rw [List.mem_append, not_or]
        exact ⟨newline_not_mem_unicodeEscape (by omega), newline_not_mem_unicodeEscape (by omega)⟩

theorem newline_not_mem_quoteAscii (s : List Char) : '\n' ∉ quoteAscii s := by
  simp only [quoteAscii, List.mem_cons, List.mem_append, List.mem_flatMap, List.not_mem_nil,
    or_false, not_or, not_exists, not_and]
  exact ⟨by decide, fun c _ => newline_not_mem_asciiChar c, by decide⟩

section Line

variable {runtime : Runtime}

theorem newline_not_mem_floatText (hrepr : ReprReads runtime) {x : Double} (hx : x.IsFloat) :
    '\n' ∉ floatText runtime x := by
  cases x with
  | nan =>
      rw [floatText]
      decide
  | inf negative =>
      rw [floatText]
      cases negative <;> decide
  | finite x => exact hrepr.line x hx

mutual

/-- A value is written on one line. -/
theorem newline_not_mem_dumps (hrepr : ReprReads runtime) :
    ∀ v : Json, HasFloats v → '\n' ∉ dumps runtime v
  | .null, _ => by
      rw [dumps]
      decide
  | .bool b, _ => by
      rw [dumps]
      cases b <;> decide
  | .int n, _ => by
      rw [dumps]
      exact newline_not_mem_intText n
  | .float x, hx => by
      rw [dumps]
      exact newline_not_mem_floatText hrepr hx
  | .str s, _ => by
      rw [dumps]
      exact newline_not_mem_quoteAscii s.toList
  | .arr [], _ => by
      rw [dumps]
      decide
  | .arr (v :: rest), hv => by
      have hfirst := newline_not_mem_dumps hrepr v hv.1
      have hmore := newline_not_mem_moreItems hrepr rest hv.2
      simp [dumps, hfirst, hmore]
  | .obj [], _ => by
      rw [dumps]
      decide
  | .obj ((key, v) :: rest), hv => by
      have hkey := newline_not_mem_quoteAscii key.toList
      have hfirst := newline_not_mem_dumps hrepr v hv.1
      have hmore := newline_not_mem_moreMembers hrepr rest hv.2
      simp [dumps, hkey, hfirst, hmore]

theorem newline_not_mem_moreItems (hrepr : ReprReads runtime) :
    ∀ rest : List Json, HaveFloats rest → '\n' ∉ moreItems runtime rest
  | [], _ => by
      rw [moreItems]
      decide
  | v :: rest, hv => by
      have hfirst := newline_not_mem_dumps hrepr v hv.1
      have hmore := newline_not_mem_moreItems hrepr rest hv.2
      simp [moreItems, hfirst, hmore]

theorem newline_not_mem_moreMembers (hrepr : ReprReads runtime) :
    ∀ rest : List (String × Json), MembersHaveFloats rest → '\n' ∉ moreMembers runtime rest
  | [], _ => by
      rw [moreMembers]
      decide
  | (key, v) :: rest, hv => by
      have hkey := newline_not_mem_quoteAscii key.toList
      have hfirst := newline_not_mem_dumps hrepr v hv.1
      have hmore := newline_not_mem_moreMembers hrepr rest hv.2
      simp [moreMembers, hkey, hfirst, hmore]

end

end Line

end DealFinder.Feeds
