/-
# JSON texts

What `json.loads` makes of a text. The scanner reads one value and leaves the rest of the
text, and `loads` raises unless nothing but blanks is left. A value that opens with a
brace is read the same whatever follows it (`scanValue_object_append`).
-/

import DealFinder.Feeds.Json

namespace DealFinder.Feeds

/-! ## Blanks and characters -/

/-- The characters between the tokens of a JSON text. -/
def isBlank (c : Char) : Bool := c = ' ' || c = '\t' || c = '\n' || c = '\r'

/-- The text after its blanks. -/
def skipBlanks (text : List Char) : List Char := text.dropWhile isBlank

/-- The value of a hexadecimal digit. -/
def hexDigit? (c : Char) : Option ℕ :=
  if c.isDigit then some (c.toNat - 48)
  else if 'a' ≤ c ∧ c ≤ 'f' then some (c.toNat - 87)
  else if 'A' ≤ c ∧ c ≤ 'F' then some (c.toNat - 55)
  else none

/-- Four hexadecimal digits. -/
def readHex : List Char → Option (ℕ × List Char)
  | a :: b :: c :: d :: rest => do
      let a ← hexDigit? a
      let b ← hexDigit? b
      let c ← hexDigit? c
      let d ← hexDigit? d
      return (4096 * a + 256 * b + 16 * c + d, rest)
  | _ => none

/-- The second half of a character that two escapes spell, after the first. -/
def readLow (high : ℕ) : List Char → Option (Char × List Char)
  | '\\' :: 'u' :: rest => do
      let (low, rest) ← readHex rest
      if 0xDC00 ≤ low ∧ low ≤ 0xDFFF then
        some (Char.ofNat (0x10000 + 0x400 * (high - 0xD800) + (low - 0xDC00)), rest)
      else none
  | _ => none

/-- A character that `\u` spells. Half of one alone is no character. -/
def readUnicode (text : List Char) : Option (Char × List Char) := do
  let (code, rest) ← readHex text
  if 0xD800 ≤ code ∧ code ≤ 0xDBFF then readLow code rest
  else if 0xDC00 ≤ code ∧ code ≤ 0xDFFF then none
  else some (Char.ofNat code, rest)

/-- The characters that a backslash and one more character spell. -/
def escapes : List (Char × Char) :=
  [('"', '"'), ('\\', '\\'), ('/', '/'), ('b', '\x08'), ('f', '\x0c'), ('n', '\n'), ('r', '\r'),
    ('t', '\t')]

/-- One character of a string. -/
def readChar : List Char → Option (Char × List Char)
  | [] => none
  | c :: rest =>
      if c = '\\' then
        match rest with
        | [] => none
        | e :: rest =>
            if e = 'u' then readUnicode rest
            else ((escapes.find? fun pair => pair.1 = e).map Prod.snd).map fun c => (c, rest)
      else if c.toNat < 32 then none
      else some (c, rest)

/-- The characters of a string, after its opening quote. -/
def scanString : ℕ → List Char → Option (List Char × List Char)
  | 0, _ => none
  | n + 1, text =>
      if text.head? = some '"' then some ([], text.tail)
      else do
        let (c, rest) ← readChar text
        let (s, rest) ← scanString n rest
        return (c :: s, rest)

/-! ## Numbers and words -/

/-- The digits of a whole number, without a zero in front of others. -/
def scanWhole : List Char → Option (List Char × List Char)
  | [] => none
  | c :: rest =>
      if c = '0' then some ([c], rest)
      else if c.isDigit then
        some (c :: rest.takeWhile Char.isDigit, rest.dropWhile Char.isDigit)
      else none

/-- A point and the digits behind it, if there are any. -/
def scanFraction (text : List Char) : List Char × List Char :=
  let digits := text.tail
  if text.head? = some '.' ∧ digits.takeWhile Char.isDigit ≠ [] then
    ('.' :: digits.takeWhile Char.isDigit, digits.dropWhile Char.isDigit)
  else ([], text)

/-- The sign at the head of a text. -/
def signOf (text : List Char) : List Char :=
  if text.head? = some '+' ∨ text.head? = some '-' then text.take 1 else []

/-- An exponent, if there is one. -/
def scanExponent (text : List Char) : List Char × List Char :=
  let sign := signOf text.tail
  let digits := text.tail.drop sign.length
  if (text.head? = some 'e' ∨ text.head? = some 'E') ∧ digits.takeWhile Char.isDigit ≠ [] then
    (text.take 1 ++ sign ++ digits.takeWhile Char.isDigit, digits.dropWhile Char.isDigit)
  else ([], text)

/-- The minus sign at the head of a text. -/
def minusOf (text : List Char) : List Char := if text.head? = some '-' then ['-'] else []

/-- The value of the parts of a number: a whole number, or a float. -/
def numberValue (sign whole fraction exponent : List Char) : Option Json :=
  if fraction = [] ∧ exponent = [] then
    some (.int (if sign = [] then digitsNumber whole else -digitsNumber whole))
  else (readSigned (sign ++ whole ++ fraction ++ exponent)).map .float

/-- A number. -/
def scanNumber (text : List Char) : Option (Json × List Char) := do
  let sign := minusOf text
  let (whole, afterWhole) ← scanWhole (text.drop sign.length)
  let (fraction, afterFraction) := scanFraction afterWhole
  let (exponent, rest) := scanExponent afterFraction
  let v ← numberValue sign whole fraction exponent
  return (v, rest)

/-- The words that are values. -/
def words : List (List Char × Json) :=
  [("null".toList, .null), ("true".toList, .bool true), ("false".toList, .bool false),
    ("NaN".toList, .float .nan), ("Infinity".toList, .float (.inf false)),
    ("-Infinity".toList, .float (.inf true))]

/-- A word. -/
def scanWord (text : List Char) : Option (Json × List Char) :=
  (words.find? fun word => word.1.isPrefixOf text).map fun word =>
    (word.2, text.drop word.1.length)

/-! ## Values -/

mutual

/-- `scan_once`. Every value takes a character at least, so the length of the text is
enough for the bound. -/
def scanValue : ℕ → List Char → Option (Json × List Char)
  | 0, _ => none
  | n + 1, text =>
      if text.head? = some '"' then
        (scanString text.length text.tail).map fun (s, rest) => (.str (String.ofList s), rest)
      else if text.head? = some '\x7b' then
        if (skipBlanks text.tail).head? = some '\x7d' then
          some (.obj [], (skipBlanks text.tail).tail)
        else
          (scanMembers n (skipBlanks text.tail)).map fun (entries, rest) => (.obj entries, rest)
      else if text.head? = some '[' then
        if (skipBlanks text.tail).head? = some ']' then
          some (.arr [], (skipBlanks text.tail).tail)
        else (scanItems n (skipBlanks text.tail)).map fun (items, rest) => (.arr items, rest)
      else (scanWord text).or (scanNumber text)

/-- The members of an object, up to its closing brace. -/
def scanMembers : ℕ → List Char → Option (List (String × Json) × List Char)
  | 0, _ => none
  | n + 1, text =>
      if text.head? = some '"' then do
        let (key, afterKey) ← scanString text.length text.tail
        if (skipBlanks afterKey).head? = some ':' then do
          let (v, rest) ← scanValue n (skipBlanks (skipBlanks afterKey).tail)
          let rest := skipBlanks rest
          if rest.head? = some '\x7d' then some ([(String.ofList key, v)], rest.tail)
          else if rest.head? = some ',' then
            (scanMembers n (skipBlanks rest.tail)).map fun (more, rest) =>
              ((String.ofList key, v) :: more, rest)
          else none
        else none
      else none

/-- The items of an array, up to its closing bracket. -/
def scanItems : ℕ → List Char → Option (List Json × List Char)
  | 0, _ => none
  | n + 1, text => do
      let (v, rest) ← scanValue n text
      let rest := skipBlanks rest
      if rest.head? = some ']' then some ([v], rest.tail)
      else if rest.head? = some ',' then
        (scanItems n (skipBlanks rest.tail)).map fun (more, rest) => (v :: more, rest)
      else none

end

/-- `json.loads`: a byte order mark, or anything after the value, raises. -/
def loads (s : String) : Option Json :=
  if s.toList.head? = some '\ufeff' then none
  else
    (scanValue (s.toList.length + 1) (skipBlanks s.toList)).bind fun (v, rest) =>
      if skipBlanks rest = [] then some v else none

/-- Nested values, an escape and an exponent are read. -/
example : (loads "\x7b\"a\": [1, -2.5e1, \"x\\u0041\"]\x7d").isSome := by decide +kernel

/-! ## What follows a value -/

section Append

variable {text rest : List Char} (after : List Char)

/-- Characters of a kind are read the same unless the text ends with them and they go on. -/
theorem takeWhile_append_of_stop {p : Char → Bool}
    (h : text.dropWhile p = [] → ∀ c ∈ after.head?, p c = false) :
    (text ++ after).takeWhile p = text.takeWhile p ∧
      (text ++ after).dropWhile p = text.dropWhile p ++ after := by
  induction text with
  | nil =>
      cases after with
      | nil => exact ⟨rfl, rfl⟩
      | cons c after =>
          have hc := h rfl c rfl
          simp [hc]
  | cons c text ih =>
      by_cases hc : p c = true
      · rw [List.dropWhile_cons_of_pos hc] at h
        obtain ⟨htake, hdrop⟩ := ih h
        simp [hc, htake, hdrop]
      · simp [hc]

theorem skipBlanks_append (h : skipBlanks text ≠ []) :
    skipBlanks (text ++ after) = skipBlanks text ++ after :=
  (takeWhile_append_of_stop after fun hnil => absurd hnil h).2

theorem head?_append_of_some {c : Char} (h : text.head? = some c) :
    (text ++ after).head? = some c ∧ (text ++ after).tail = text.tail ++ after := by
  cases text with
  | nil => cases h
  | cons d text => exact ⟨h, rfl⟩

theorem head?_append_of_ne_nil (h : text ≠ []) : (text ++ after).head? = text.head? := by
  cases text with
  | nil => exact absurd rfl h
  | cons c text => rfl

theorem tail_append_of_ne_nil (h : text ≠ []) : (text ++ after).tail = text.tail ++ after := by
  cases text with
  | nil => exact absurd rfl h
  | cons c text => rfl

theorem ne_nil_of_head? {c : Char} (h : text.head? = some c) : text ≠ [] := by
  rintro rfl
  cases h

theorem readHex_append {n : ℕ} (h : readHex text = some (n, rest)) :
    readHex (text ++ after) = some (n, rest ++ after) := by
  rcases text with _ | ⟨a, _ | ⟨b, _ | ⟨c, _ | ⟨d, text⟩⟩⟩⟩
  · cases h
  · cases h
  · cases h
  · cases h
  · simp only [readHex, Option.bind_eq_bind, Option.bind_eq_some_iff] at h
    obtain ⟨a', ha, b', hb, c', hc, d', hd, hresult⟩ := h
    obtain ⟨rfl, rfl⟩ := Prod.mk.inj (Option.some_inj.1 hresult)
    simp [readHex, ha, hb, hc, hd]

theorem readLow_append {high : ℕ} {c : Char} (h : readLow high text = some (c, rest)) :
    readLow high (text ++ after) = some (c, rest ++ after) := by
  unfold readLow at h
  split at h
  · next tail =>
    simp only [Option.bind_eq_bind, Option.bind_eq_some_iff] at h
    obtain ⟨⟨low, left⟩, hhex, hlow⟩ := h
    split_ifs at hlow with hrange
    obtain ⟨rfl, rfl⟩ := Prod.mk.inj (Option.some_inj.1 hlow)
    simp [readLow, readHex_append after hhex, hrange]
  · cases h

theorem readUnicode_append {c : Char} (h : readUnicode text = some (c, rest)) :
    readUnicode (text ++ after) = some (c, rest ++ after) := by
  simp only [readUnicode, Option.bind_eq_bind, Option.bind_eq_some_iff] at h
  obtain ⟨⟨code, left⟩, hhex, hcode⟩ := h
  dsimp only at hcode
  split_ifs at hcode with hhigh hlow
  · simp [readUnicode, readHex_append after hhex, hhigh, readLow_append after hcode]
  · obtain ⟨rfl, rfl⟩ := Prod.mk.inj (Option.some_inj.1 hcode)
    simp only [readUnicode, readHex_append after hhex, Option.bind_eq_bind, Option.bind_some]
    rw [if_neg hhigh, if_neg hlow]

theorem readChar_append {c : Char} (h : readChar text = some (c, rest)) :
    readChar (text ++ after) = some (c, rest ++ after) := by
  cases text with
  | nil => cases h
  | cons d text =>
      unfold readChar at h ⊢
      dsimp only [List.cons_append] at h ⊢
      split_ifs at h ⊢ with hslash hcontrol
      · cases text with
        | nil => cases h
        | cons e text =>
            dsimp only [List.cons_append] at h ⊢
            split_ifs at h ⊢ with hunicode
            · exact readUnicode_append after h
            · obtain ⟨c', hfind, hresult⟩ := Option.map_eq_some_iff.1 h
              obtain ⟨rfl, rfl⟩ := Prod.mk.inj hresult
              rw [hfind]
              rfl
      · obtain ⟨rfl, rfl⟩ := Prod.mk.inj (Option.some_inj.1 h)
        rfl

/-- A string is read the same whatever follows it. -/
theorem scanString_append {n m : ℕ} (hle : n ≤ m) {s : List Char}
    (h : scanString n text = some (s, rest)) :
    scanString m (text ++ after) = some (s, rest ++ after) := by
  induction n generalizing m text s with
  | zero => cases h
  | succ n ih =>
      obtain ⟨m, rfl⟩ := Nat.exists_eq_add_one_of_ne_zero (Nat.ne_of_gt (Nat.lt_of_lt_of_le
        (Nat.succ_pos n) hle))
      rw [scanString] at h ⊢
      split_ifs at h with hquote
      · obtain ⟨hhead, htail⟩ := head?_append_of_some after hquote
        obtain ⟨rfl, rfl⟩ := Prod.mk.inj (Option.some_inj.1 h)
        rw [if_pos hhead, htail]
      · simp only [Option.bind_eq_bind, Option.bind_eq_some_iff] at h
        obtain ⟨⟨c, left⟩, hchar, ⟨s', left'⟩, hstring, hresult⟩ := h
        obtain ⟨rfl, rfl⟩ := Prod.mk.inj (Option.some_inj.1 hresult)
        have hhead : (text ++ after).head? ≠ some '"' := by
          cases text with
          | nil => cases hchar
          | cons d text => exact hquote
        rw [if_neg hhead, readChar_append after hchar]
        simp [ih (Nat.le_of_succ_le_succ hle) hstring]

/-! ## Numbers and words, when something follows -/

/-- A text that does not continue a number. -/
def Stops (rest : List Char) : Prop :=
  ∃ c, rest.head? = some c ∧ c.isDigit = false ∧ c ∉ ['.', 'e', 'E']

theorem Stops.head (h : Stops rest) {c : Char} (hc : c ∈ ['.', 'e', 'E']) :
    rest.head? ≠ some c := by
  obtain ⟨d, hd, -, hnot⟩ := h
  intro heq
  exact hnot (Option.some_inj.1 (hd.symm.trans heq) ▸ hc)

theorem signOf_append (h : text ≠ []) : signOf (text ++ after) = signOf text := by
  cases text with
  | nil => exact absurd rfl h
  | cons c text => rfl

theorem Stops.digit (h : Stops rest) : ∀ c ∈ rest.head?, c.isDigit = false := by
  obtain ⟨d, hd, hdigit, -⟩ := h
  intro c hc
  obtain rfl := Option.some_inj.1 (hd.symm.trans hc)
  exact hdigit

theorem Stops.append (h : Stops rest) : Stops (rest ++ after) := by
  obtain ⟨d, hd, hplain⟩ := h
  exact ⟨d, (head?_append_of_some after hd).1, hplain⟩

theorem scanExponent_append {taken : List Char} (h : scanExponent text = (taken, rest))
    (hrest : Stops (rest ++ after)) : scanExponent (text ++ after) = (taken, rest ++ after) := by
  unfold scanExponent at h ⊢
  dsimp only at h ⊢
  split_ifs at h with hexponent
  · obtain ⟨rfl, rfl⟩ := Prod.mk.inj h
    cases text with
    | nil => exact absurd hexponent.1 (by simp)
    | cons e text =>
        rw [List.tail_cons] at hexponent hrest
        have hne : text ≠ [] := by
          rintro rfl
          exact hexponent.2 rfl
        have hsign : (signOf text).length ≤ text.length := by
          unfold signOf
          split_ifs
          · exact List.length_take_le' 1 text
          · exact Nat.zero_le _
        have hstop : (text.drop (signOf text).length).dropWhile Char.isDigit = [] →
            ∀ c ∈ after.head?, c.isDigit = false := by
          intro hnil
          rw [hnil] at hrest
          exact hrest.digit
        obtain ⟨htake, hdrop⟩ := takeWhile_append_of_stop after hstop
        rw [List.cons_append, List.tail_cons, List.tail_cons, signOf_append after hne,
          List.drop_append_of_le_length hsign, htake, hdrop]
        exact if_pos hexponent
  · obtain ⟨rfl, rfl⟩ := Prod.mk.inj h
    rw [if_neg fun h => h.1.elim (hrest.head (by simp)) (hrest.head (by simp))]

/-- An exponent reads no point. -/
theorem head?_of_scanExponent {found : List Char} (h : scanExponent text = (found, rest))
    (hrest : Stops (rest ++ after)) : (text ++ after).head? ≠ some '.' := by
  intro hhead
  have hnone : scanExponent text = ([], text) := by
    cases text with
    | nil => rfl
    | cons c text =>
        obtain rfl := Option.some_inj.1 hhead
        unfold scanExponent
        rw [List.head?_cons, if_neg (by simp)]
  obtain ⟨-, rfl⟩ := Prod.mk.inj (hnone.symm.trans h)
  exact hrest.head (by simp) hhead

theorem scanFraction_append {taken left : List Char} {found : List Char}
    (h : scanFraction text = (taken, left)) (hleft : scanExponent left = (found, rest))
    (hrest : Stops (rest ++ after)) : scanFraction (text ++ after) = (taken, left ++ after) := by
  have hpoint := head?_of_scanExponent after hleft hrest
  unfold scanFraction at h ⊢
  dsimp only at h ⊢
  split_ifs at h with hfraction
  · obtain ⟨rfl, rfl⟩ := Prod.mk.inj h
    obtain ⟨hhead, htail⟩ := head?_append_of_some after hfraction.1
    have hstop : text.tail.dropWhile Char.isDigit = [] →
        ∀ c ∈ after.head?, c.isDigit = false := by
      intro hnil
      rw [hnil] at hleft
      obtain ⟨-, rfl⟩ := Prod.mk.inj (show ([], []) = (found, rest) from hleft)
      exact hrest.digit
    obtain ⟨htake, hdrop⟩ := takeWhile_append_of_stop after hstop
    rw [htail, htake, hdrop, if_pos ⟨hhead, hfraction.2⟩]
  · obtain ⟨rfl, rfl⟩ := Prod.mk.inj h
    rw [if_neg fun h => hpoint h.1]

theorem scanWhole_append {digits left : List Char} (h : scanWhole text = some (digits, left))
    (hleft : left = [] → ∀ c ∈ after.head?, c.isDigit = false) :
    scanWhole (text ++ after) = some (digits, left ++ after) := by
  cases text with
  | nil => cases h
  | cons c text =>
      rw [scanWhole] at h
      rw [List.cons_append, scanWhole]
      split_ifs at h ⊢ with hzero hdigit
      · obtain ⟨rfl, rfl⟩ := Prod.mk.inj (Option.some_inj.1 h)
        rfl
      · obtain ⟨rfl, rfl⟩ := Prod.mk.inj (Option.some_inj.1 h)
        obtain ⟨htake, hdrop⟩ := takeWhile_append_of_stop after hleft
        rw [htake, hdrop]

theorem minusOf_append (h : text ≠ []) : minusOf (text ++ after) = minusOf text := by
  rw [minusOf, head?_append_of_ne_nil after h]
  rfl

theorem length_minusOf_le : (minusOf text).length ≤ text.length := by
  unfold minusOf
  split_ifs with h
  · exact List.length_pos_of_ne_nil (ne_nil_of_head? h)
  · exact Nat.zero_le _

/-- The parts of a number that is read. -/
theorem scanNumber_eq_some {v : Json} (h : scanNumber text = some (v, rest)) :
    ∃ whole left fraction left' exponent,
      scanWhole (text.drop (minusOf text).length) = some (whole, left) ∧
        scanFraction left = (fraction, left') ∧ scanExponent left' = (exponent, rest) ∧
          numberValue (minusOf text) whole fraction exponent = some v := by
  simp only [scanNumber, Option.bind_eq_bind, Option.bind_eq_some_iff] at h
  obtain ⟨⟨whole, left⟩, hwhole, v', hvalue, hresult⟩ := h
  obtain ⟨rfl, rfl⟩ := Prod.mk.inj (Option.some_inj.1 hresult)
  exact ⟨whole, left, _, _, _, hwhole, rfl, rfl, hvalue⟩

/-- A number is read the same when what follows does not continue it. -/
theorem scanNumber_append {v : Json} (h : scanNumber text = some (v, rest))
    (hrest : Stops (rest ++ after)) : scanNumber (text ++ after) = some (v, rest ++ after) := by
  obtain ⟨whole, left, fraction, left', exponent, hwhole, hfraction, hexponent, hvalue⟩ :=
    scanNumber_eq_some h
  have hleft : left = [] → ∀ c ∈ after.head?, c.isDigit = false := by
    rintro rfl
    obtain ⟨-, rfl⟩ := Prod.mk.inj (show ([], []) = (fraction, left') from hfraction)
    obtain ⟨-, rfl⟩ := Prod.mk.inj (show ([], []) = (exponent, rest) from hexponent)
    exact hrest.digit
  have hsome : text ≠ [] := by
    rintro rfl
    cases hwhole
  simp only [scanNumber, minusOf_append after hsome,
    List.drop_append_of_le_length length_minusOf_le, scanWhole_append after hwhole hleft,
    Option.bind_eq_bind, Option.bind_some, scanFraction_append after hfraction hexponent hrest,
    scanExponent_append after hexponent hrest, hvalue]
  rfl

/-- A word is read the same whatever follows it. -/
theorem scanWord_append {v : Json} (h : scanWord text = some (v, rest)) :
    scanWord (text ++ after) = some (v, rest ++ after) := by
  obtain ⟨word, hfind, hresult⟩ := Option.map_eq_some_iff.1 h
  obtain ⟨rfl, rfl⟩ := Prod.mk.inj hresult
  have hword : word.1 <+: text :=
    List.isPrefixOf_iff_prefix.1 (by simpa using List.find?_some hfind)
  obtain ⟨left, rfl⟩ := hword
  have hmem := List.mem_of_find?_eq_some hfind
  -- The first letters of the words are all different.
  have hsame : words.find? (fun other => other.1.isPrefixOf (word.1 ++ (left ++ after))) =
      some word := by
    simp only [words, List.mem_cons, List.not_mem_nil, or_false] at hmem
    rcases hmem with rfl | rfl | rfl | rfl | rfl | rfl <;> rfl
  rw [List.append_assoc, scanWord, hsame, Option.map_some, List.drop_left, List.drop_left]

/-- A text that starts as a number starts as no word. -/
theorem scanWord_of_number {found : Json × List Char} (h : scanNumber text = some found) :
    scanWord (text ++ after) = none := by
  obtain ⟨v, rest⟩ := found
  obtain ⟨whole, left, -, -, -, hwhole, -⟩ := scanNumber_eq_some h
  have hdigit : ∀ c tail, scanWhole (c :: tail) = some (whole, left) → c.isDigit = true := by
    intro c tail hscan
    rw [scanWhole] at hscan
    split_ifs at hscan with hzero hdigit
    · rw [hzero]
      rfl
    · exact hdigit
  have hne : ∀ c d : Char, c.isDigit = true → d.isDigit = false → d ≠ c := by
    rintro c d hc hd rfl
    exact absurd (hc.symm.trans hd) (by decide)
  rw [scanWord, Option.map_eq_none_iff, List.find?_eq_none]
  simp only [words, List.mem_cons, List.not_mem_nil, or_false]
  cases text with
  | nil => cases hwhole
  | cons c tail =>
      by_cases hminus : c = '-'
      · subst hminus
        cases tail with
        | nil => cases hwhole
        | cons d tail =>
            have hd := hdigit d tail hwhole
            rintro word (rfl | rfl | rfl | rfl | rfl | rfl) <;>
              simp [hne d 'I' hd rfl]
      · have hnone : minusOf (c :: tail) = [] := by simp [minusOf, hminus]
        rw [hnone] at hwhole
        have hc := hdigit c tail hwhole
        rintro word (rfl | rfl | rfl | rfl | rfl | rfl) <;>
          simp [hne c 'n' hc rfl, hne c 't' hc rfl, hne c 'f' hc rfl, hne c 'N' hc rfl,
            hne c 'I' hc rfl, hne c '-' hc rfl]

/-! ## Values, whatever follows -/

/-- What follows the blanks after a value stops a number, and so do the blanks. -/
theorem stops_of_skipBlanks {c : Char} (h : (skipBlanks text).head? = some c)
    (hc : c.isDigit = false ∧ c ∉ ['.', 'e', 'E']) : Stops text := by
  cases text with
  | nil => cases h
  | cons d text =>
      by_cases hd : isBlank d = true
      · have hplain : d.isDigit = false ∧ d ∉ ['.', 'e', 'E'] := by
          simp only [isBlank, Bool.or_eq_true, decide_eq_true_eq] at hd
          rcases hd with ((rfl | rfl) | rfl) | rfl <;> decide
        exact ⟨d, rfl, hplain⟩
      · have hhead : skipBlanks (d :: text) = d :: text := by simp [skipBlanks, hd]
        rw [hhead] at h
        obtain rfl := Option.some_inj.1 h
        exact ⟨d, rfl, hc⟩

theorem scanMembers_ne_nil {n : ℕ} {found : List (String × Json) × List Char}
    (h : scanMembers n text = some found) : text ≠ [] := by
  rintro rfl
  cases n <;> cases h

theorem scanValue_ne_nil {n : ℕ} {found : Json × List Char} (h : scanValue n text = some found) :
    text ≠ [] := by
  rintro rfl
  cases n <;> cases h

theorem scanItems_ne_nil {n : ℕ} {found : List Json × List Char}
    (h : scanItems n text = some found) : text ≠ [] := by
  cases n with
  | zero => cases h
  | succ n =>
      rw [scanItems, Option.bind_eq_bind, Option.bind_eq_some_iff] at h
      obtain ⟨found, hvalue, -⟩ := h
      exact scanValue_ne_nil hvalue

/-- What a scanner reads up to a bound it reads up to any larger one, whatever follows. -/
structure Appends (n : ℕ) : Prop where
  value : ∀ m ≥ n, ∀ text v rest, scanValue n text = some (v, rest) →
    Stops rest ∨ text.head? ∈ [some '"', some '\x7b', some '['] →
      scanValue m (text ++ after) = some (v, rest ++ after)
  members : ∀ m ≥ n, ∀ text entries rest, scanMembers n text = some (entries, rest) →
    scanMembers m (text ++ after) = some (entries, rest ++ after)
  items : ∀ m ≥ n, ∀ text items rest, scanItems n text = some (items, rest) →
    scanItems m (text ++ after) = some (items, rest ++ after)

/-- What stands behind an opening brace or bracket: the closing one, or parts up to it. -/
theorem inside_append {β : Type} {scan scan' : List Char → Option (β × List Char)}
    {make : β → Json} {close : Char} {empty v : Json}
    (hne : ∀ inner found, scan inner = some found → inner ≠ [])
    (hscan : ∀ inner found rest, scan inner = some (found, rest) →
      scan' (inner ++ after) = some (found, rest ++ after))
    (h : (if (skipBlanks text).head? = some close then some (empty, (skipBlanks text).tail)
      else (scan (skipBlanks text)).map fun (found, rest) => (make found, rest)) =
        some (v, rest)) :
    (if (skipBlanks (text ++ after)).head? = some close then
        some (empty, (skipBlanks (text ++ after)).tail)
      else (scan' (skipBlanks (text ++ after))).map fun (found, rest) => (make found, rest)) =
        some (v, rest ++ after) := by
  have hsome : skipBlanks text ≠ [] := by
    intro hnil
    rw [hnil, if_neg (by simp)] at h
    obtain ⟨found, hfound, -⟩ := Option.map_eq_some_iff.1 h
    exact hne [] found hfound rfl
  rw [skipBlanks_append after hsome, head?_append_of_ne_nil after hsome,
    tail_append_of_ne_nil after hsome]
  split_ifs at h ⊢
  · obtain ⟨rfl, rfl⟩ := Prod.mk.inj (Option.some_inj.1 h)
    rfl
  · obtain ⟨⟨found, left⟩, hfound, hresult⟩ := Option.map_eq_some_iff.1 h
    obtain ⟨rfl, rfl⟩ := Prod.mk.inj hresult
    rw [hscan _ _ _ hfound]
    rfl

theorem scanValue_append_step {n m : ℕ} (ih : Appends after n) (hle : n ≤ m) {v : Json}
    (h : scanValue (n + 1) text = some (v, rest))
    (hends : Stops rest ∨ text.head? ∈ [some '"', some '\x7b', some '[']) :
    scanValue (m + 1) (text ++ after) = some (v, rest ++ after) := by
  have hne := scanValue_ne_nil h
  have hlength : text.length ≤ (text ++ after).length := by
    rw [List.length_append]
    exact Nat.le_add_right _ _
  rw [scanValue] at h ⊢
  rw [head?_append_of_ne_nil after hne, tail_append_of_ne_nil after hne]
  by_cases hquote : text.head? = some '"'
  · rw [if_pos hquote] at h ⊢
    obtain ⟨⟨s, left⟩, hstring, hresult⟩ := Option.map_eq_some_iff.1 h
    obtain ⟨rfl, rfl⟩ := Prod.mk.inj hresult
    rw [scanString_append after hlength hstring]
    rfl
  rw [if_neg hquote] at h ⊢
  by_cases hbrace : text.head? = some '\x7b'
  · rw [if_pos hbrace] at h ⊢
    exact inside_append after (fun _ _ => scanMembers_ne_nil) (ih.members m hle) h
  rw [if_neg hbrace] at h ⊢
  by_cases hbracket : text.head? = some '['
  · rw [if_pos hbracket] at h ⊢
    exact inside_append after (fun _ _ => scanItems_ne_nil) (ih.items m hle) h
  rw [if_neg hbracket] at h ⊢
  have hstops : Stops rest := hends.resolve_right (by simp [hquote, hbrace, hbracket])
  rcases Option.or_eq_some_iff.1 h with hword | ⟨-, hnumber⟩
  · rw [scanWord_append after hword, Option.some_or]
  · rw [scanWord_of_number after hnumber, Option.none_or]
    exact scanNumber_append after hnumber (hstops.append after)

/-- The blanks after a value, and the separator behind them. -/
theorem value_append {n m : ℕ} (ih : Appends after n) (hle : n ≤ m) {v : Json} {c : Char}
    (h : scanValue n text = some (v, rest)) (hc : (skipBlanks rest).head? = some c)
    (hplain : c.isDigit = false ∧ c ∉ ['.', 'e', 'E']) :
    scanValue m (text ++ after) = some (v, rest ++ after) ∧
      skipBlanks (rest ++ after) = skipBlanks rest ++ after :=
  ⟨ih.value m hle text v rest h (.inl (stops_of_skipBlanks hc hplain)),
    skipBlanks_append after (ne_nil_of_head? hc)⟩

/-- What stands behind a member or an item: the closing character, or a comma and more. -/
theorem more_append {β : Type} {scan scan' : List Char → Option (β × List Char)} {add : β → β}
    {one found : β} {close : Char}
    (hne : ∀ inner found, scan inner = some found → inner ≠ [])
    (hscan : ∀ inner found rest, scan inner = some (found, rest) →
      scan' (inner ++ after) = some (found, rest ++ after))
    (h : (if text.head? = some close then some (one, text.tail)
      else if text.head? = some ',' then
        (scan (skipBlanks text.tail)).map fun (more, rest) => (add more, rest)
      else none) = some (found, rest)) :
    (if (text ++ after).head? = some close then some (one, (text ++ after).tail)
      else if (text ++ after).head? = some ',' then
        (scan' (skipBlanks (text ++ after).tail)).map fun (more, rest) => (add more, rest)
      else none) = some (found, rest ++ after) := by
  have hsome : text ≠ [] := by
    rintro rfl
    simp at h
  rw [head?_append_of_ne_nil after hsome, tail_append_of_ne_nil after hsome]
  split_ifs at h ⊢
  · obtain ⟨rfl, rfl⟩ := Prod.mk.inj (Option.some_inj.1 h)
    rfl
  · obtain ⟨⟨more, left⟩, hmore, hresult⟩ := Option.map_eq_some_iff.1 h
    obtain ⟨rfl, rfl⟩ := Prod.mk.inj hresult
    rw [skipBlanks_append after (hne _ _ hmore), hscan _ _ _ hmore]
    rfl

/-- A member or an item is followed by a character that continues no number. -/
theorem separator_of_more {β : Type} {more : Option β} {one found : β} {close : Char}
    (hclose : close.isDigit = false ∧ close ∉ ['.', 'e', 'E'])
    (h : (if text.head? = some close then some one
      else if text.head? = some ',' then more else none) = some found) :
    ∃ c, text.head? = some c ∧ c.isDigit = false ∧ c ∉ ['.', 'e', 'E'] := by
  split_ifs at h with hclosed hcomma
  · exact ⟨close, hclosed, hclose⟩
  · exact ⟨',', hcomma, by decide⟩

theorem scanItems_append_step {n m : ℕ} (ih : Appends after n) (hle : n ≤ m) {items : List Json}
    (h : scanItems (n + 1) text = some (items, rest)) :
    scanItems (m + 1) (text ++ after) = some (items, rest ++ after) := by
  rw [scanItems] at h ⊢
  simp only [Option.bind_eq_bind, Option.bind_eq_some_iff] at h ⊢
  obtain ⟨⟨v, left⟩, hvalue, h⟩ := h
  obtain ⟨c, hc, hplain⟩ := separator_of_more (by decide) h
  obtain ⟨hread, hskip⟩ := value_append after ih hle hvalue hc hplain
  refine ⟨_, hread, ?_⟩
  dsimp only
  rw [hskip]
  exact more_append after (fun _ _ => scanItems_ne_nil) (ih.items m hle) h

theorem scanMembers_append_step {n m : ℕ} (ih : Appends after n) (hle : n ≤ m)
    {entries : List (String × Json)} (h : scanMembers (n + 1) text = some (entries, rest)) :
    scanMembers (m + 1) (text ++ after) = some (entries, rest ++ after) := by
  have hlength : text.length ≤ (text ++ after).length := by
    rw [List.length_append]
    exact Nat.le_add_right _ _
  rw [scanMembers] at h ⊢
  split_ifs at h with hquote
  obtain ⟨hhead, htail⟩ := head?_append_of_some after hquote
  rw [if_pos hhead, htail]
  simp only [Option.bind_eq_bind, Option.bind_eq_some_iff] at h ⊢
  obtain ⟨⟨key, left⟩, hkey, h⟩ := h
  refine ⟨_, scanString_append after hlength hkey, ?_⟩
  dsimp only at h ⊢
  split_ifs at h with hcolon
  obtain ⟨hcolonHead, hcolonTail⟩ := head?_append_of_some after hcolon
  rw [skipBlanks_append after (ne_nil_of_head? hcolon), if_pos hcolonHead, hcolonTail]
  simp only [Option.bind_eq_some_iff] at h ⊢
  obtain ⟨⟨v, left'⟩, hvalue, h⟩ := h
  obtain ⟨c, hc, hplain⟩ := separator_of_more (by decide) h
  obtain ⟨hread, hskip⟩ := value_append after ih hle hvalue hc hplain
  rw [skipBlanks_append after (scanValue_ne_nil hvalue)]
  refine ⟨_, hread, ?_⟩
  dsimp only
  rw [hskip]
  exact more_append after (fun _ _ => scanMembers_ne_nil) (ih.members m hle) h

theorem scan_append (n : ℕ) : Appends after n := by
  induction n with
  | zero =>
      refine ⟨?_, ?_, ?_⟩ <;> intro m hm text v rest h <;> cases h
  | succ n ih =>
      have hsucc : ∀ m ≥ n + 1, ∃ k, m = k + 1 ∧ n ≤ k := fun m hm =>
        ⟨m - 1, by omega, by omega⟩
      refine ⟨?_, ?_, ?_⟩
      · intro m hm text v rest h hends
        obtain ⟨k, rfl, hle⟩ := hsucc m hm
        exact scanValue_append_step after ih hle h hends
      · intro m hm text entries rest h
        obtain ⟨k, rfl, hle⟩ := hsucc m hm
        exact scanMembers_append_step after ih hle h
      · intro m hm text items rest h
        obtain ⟨k, rfl, hle⟩ := hsucc m hm
        exact scanItems_append_step after ih hle h

/-- An object is read the same whatever follows it. -/
theorem scanValue_object_append {n m : ℕ} (hle : n ≤ m) {v : Json}
    (h : scanValue n text = some (v, rest)) (hbrace : text.head? = some '\x7b') :
    scanValue m (text ++ after) = some (v, rest ++ after) :=
  (scan_append after n).value m hle text v rest h (.inr (by simp [hbrace]))

/-- Nothing but blanks may follow an object. -/
theorem loads_append {s : String} {t : List Char} {v : Json}
    (h : scanValue (t.length + 1) t = some (v, [])) (hbrace : t.head? = some '\x7b')
    (hs : s.toList = t ++ after) : loads s = if skipBlanks after = [] then some v else none := by
  have hlength : t.length + 1 ≤ (t ++ after).length + 1 := by
    rw [List.length_append]
    omega
  obtain ⟨hhead, -⟩ := head?_append_of_some after hbrace
  have hskip : skipBlanks (t ++ after) = t ++ after := by
    cases t with
    | nil => cases hbrace
    | cons c t =>
        obtain rfl := Option.some_inj.1 hbrace
        rfl
  rw [loads, hs, hhead, if_neg (by decide), hskip,
    scanValue_object_append after hlength h hbrace]
  rfl

end Append

/-! ## Writing a string -/

/-- The hexadecimal digit of a number below 16. -/
def hexDigit (n : ℕ) : Char := Char.ofNat (if n < 10 then 48 + n else 87 + n)

/-- How a character is written between quotes. -/
def escapeChar (c : Char) : List Char :=
  match escapes.find? fun pair => pair.2 = c ∧ c ≠ '/' with
  | some pair => ['\\', pair.1]
  | none =>
      if c.toNat < 32 then ['\\', 'u', '0', '0', hexDigit (c.toNat / 16), hexDigit (c.toNat % 16)]
      else [c]

/-- A string between quotes. -/
def quoteText (s : List Char) : List Char := '"' :: (s.flatMap escapeChar ++ ['"'])

/-- A character that needs no escape. -/
theorem escapeChar_of_plain {c : Char} (hle : 32 ≤ c.toNat) (hquote : c ≠ '"') (hback : c ≠ '\\') :
    escapeChar c = [c] := by
  have hcontrol : ∀ d : Char, d.toNat < 32 → d ≠ c := fun d hd h =>
    Nat.not_le_of_lt hd (h ▸ hle)
  have hnone : (escapes.find? fun pair => pair.2 = c ∧ c ≠ '/') = none := by
    rw [List.find?_eq_none]
    simp only [escapes, List.mem_cons, List.not_mem_nil, or_false, decide_eq_true_eq]
    rintro pair (rfl | rfl | rfl | rfl | rfl | rfl | rfl | rfl) ⟨hpair, hslash⟩
    · exact hquote hpair.symm
    · exact hback hpair.symm
    · exact hslash hpair.symm
    · exact hcontrol _ (by decide) hpair
    · exact hcontrol _ (by decide) hpair
    · exact hcontrol _ (by decide) hpair
    · exact hcontrol _ (by decide) hpair
    · exact hcontrol _ (by decide) hpair
  rw [escapeChar, hnone]
  exact if_neg (Nat.not_lt.2 hle)

theorem escapeChar_control : ∀ n < 32, readChar (escapeChar (Char.ofNat n)) =
    some (Char.ofNat n, []) ∧ (escapeChar (Char.ofNat n)).head? = some '\\' := by
  decide +kernel

/-- A written character is read back, and none is written as a quote. -/
theorem readChar_escapeChar (c : Char) :
    readChar (escapeChar c) = some (c, []) ∧ (escapeChar c).head? ≠ some '"' := by
  by_cases hcontrol : c.toNat < 32
  · have hread := escapeChar_control c.toNat hcontrol
    rw [Char.ofNat_toNat] at hread
    exact ⟨hread.1, by rw [hread.2]; decide⟩
  by_cases hquote : c = '"'
  · rw [hquote]
    decide
  by_cases hback : c = '\\'
  · rw [hback]
    decide
  rw [escapeChar_of_plain (Nat.not_lt.1 hcontrol) hquote hback]
  exact ⟨by simp [readChar, hback, hcontrol], by simpa using hquote⟩

section Escapes

variable {escape : Char → List Char}
  (hescape : ∀ c, readChar (escape c) = some (c, []) ∧ (escape c).head? ≠ some '"')

include hescape

theorem escape_ne_nil (c : Char) : escape c ≠ [] := by
  intro h
  have hread := (hescape c).1
  rw [h] at hread
  cases hread

/-- A written string is read back. -/
theorem scanString_escapes (s rest : List Char) :
    scanString (s.length + 1) (s.flatMap escape ++ '"' :: rest) = some (s, rest) := by
  induction s with
  | nil => rfl
  | cons c s ih =>
      obtain ⟨hread, hhead⟩ := hescape c
      rw [List.flatMap_cons, List.append_assoc, List.length_cons, scanString,
        head?_append_of_ne_nil _ (escape_ne_nil hescape c), if_neg hhead, readChar_append _ hread]
      simp only [Option.bind_eq_bind, Option.bind_some, List.nil_append, ih]
      rfl

theorem length_le_flatMap_escape (s : List Char) : s.length ≤ (s.flatMap escape).length := by
  induction s with
  | nil => exact Nat.le_refl 0
  | cons c s ih =>
      have hpos := List.length_pos_of_ne_nil (escape_ne_nil hescape c)
      rw [List.flatMap_cons, List.length_append, List.length_cons]
      omega

/-- A written string is read back by any bound that its text has room for. -/
theorem scanString_quoted (s rest : List Char) :
    scanString ('"' :: (s.flatMap escape ++ '"' :: rest)).length
      (s.flatMap escape ++ '"' :: rest) = some (s, rest) := by
  have hle := length_le_flatMap_escape hescape s
  have hlength : s.length + 1 ≤ ('"' :: (s.flatMap escape ++ '"' :: rest)).length := by
    rw [List.length_cons, List.length_append]
    omega
  have hread := scanString_append rest hlength (scanString_escapes hescape s [])
  rwa [List.append_assoc, List.cons_append] at hread

end Escapes

theorem scanString_quoteText (s rest : List Char) :
    scanString (quoteText s ++ rest).length (quoteText s ++ rest).tail = some (s, rest) := by
  have htext : quoteText s ++ rest = '"' :: (s.flatMap escapeChar ++ '"' :: rest) := by
    simp [quoteText]
  rw [htext]
  exact scanString_quoted readChar_escapeChar s rest

end DealFinder.Feeds
