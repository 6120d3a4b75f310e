/-
# IP addresses

Addresses of both families as texts and as numbers: four octets, or eight hextets with the zone of
a scope. A text is read as the one family or the other. An IPv4 address has one text only
(`text_of_readV4`); an IPv6 address has many, but the one that is written for it, with its longest
stretch of zeros left out, is read as that address again (`readV6_text`).
-/

import DealFinder.Math.Numeral
import DealFinder.Math.Text
import DealFinder.Math.Traverse
import Mathlib.Data.List.Basic

namespace DealFinder.Math

/-! ## Addresses -/

/-- `IPv4Address`. -/
structure IPv4Address where
  octets : List ℕ
  length_eq : octets.length = 4
  lt : ∀ o ∈ octets, o < 256
  deriving DecidableEq

/-- `IPv6Address`: the number in base 65536, and the zone. -/
structure IPv6Address where
  hextets : List ℕ
  scopeId : Option (List Char)
  length_eq : hextets.length = 8
  lt : ∀ h ∈ hextets, h < 65536
  scope_ok : ∀ s ∈ scopeId, s ≠ [] ∧ '%' ∉ s ∧ '/' ∉ s
  deriving DecidableEq

/-! ## Reading -/

/-- `_parse_octet`. -/
def parseOctet (s : List Char) : Option ℕ :=
  if s = [] ∨ 3 < s.length ∨ (s ≠ ['0'] ∧ s.head? = some '0') then none
  else (readNumeral 10 s).filter fun n => n ≤ 255

/-- `IPv4Address(text)`. -/
def readV4 (text : List Char) : Option IPv4Address :=
  match (text.splitOn '.').mapM parseOctet with
  | some octets =>
      if h : octets.length = 4 ∧ ∀ o ∈ octets, o < 256 then some ⟨octets, h.1, h.2⟩ else none
  | none => none

/-- `_parse_hextet`. -/
def parseHextet (s : List Char) : Option ℕ :=
  if s = [] ∨ 4 < s.length then none else readNumeral 16 s

/-- The hextets before and behind a `::`, and zeros between them. -/
def fillZeros (high low : List (List Char)) : Option (List ℕ) :=
  if 7 < high.length + low.length then none
  else do
    let high ← high.mapM parseHextet
    let low ← low.mapM parseHextet
    return high ++ List.replicate (8 - (high.length + low.length)) 0 ++ low

/-- The hextets of the parts around the empty part of a `::`, which may take up an end. -/
def readGap (first : List Char) (interior : List (List Char)) (last : List Char) :
    Option (List ℕ) :=
  let before := first :: interior.takeWhile (· ≠ [])
  let rest := (interior.dropWhile (· ≠ [])).drop 1
  let after := rest ++ [last]
  if [] ∈ rest ∨ (first = [] ∧ before.length ≠ 1) ∨ (last = [] ∧ after.length ≠ 1) then none
  else fillZeros (if first = [] then [] else before) (if last = [] then [] else after)

/-- The hextets of the parts between colons. An empty part that is neither the first nor the last
stands for `::`. -/
def readParts (parts : List (List Char)) : Option (List ℕ) :=
  let interior := (parts.drop 1).dropLast
  if [] ∈ interior then readGap (parts.headD []) interior (parts.getLastD [])
  else if parts.length ≠ 8 ∨ parts.headD [] = [] ∨ parts.getLastD [] = [] then none
  else parts.mapM parseHextet

/-- `'%x' % n`. -/
def hexText (n : ℕ) : List Char := Nat.toDigits 16 n

/-- An IPv4 address in place of the last two hextets. -/
def replaceTail (parts : List (List Char)) : Option (List (List Char)) :=
  if '.' ∈ parts.getLastD [] then
    match (readV4 (parts.getLastD [])).map IPv4Address.octets with
    | some [a, b, c, d] => some (parts.dropLast ++ [hexText (256 * a + b), hexText (256 * c + d)])
    | _ => none
  else some parts

/-- `_BaseV6._ip_int_from_string`. -/
def readHextets (text : List Char) : Option (List ℕ) :=
  let parts := text.splitOn ':'
  if parts.length < 3 then none
  else
    match replaceTail parts with
    | some parts => if 9 < parts.length then none else readParts parts
    | none => none

/-- `_split_scope_id`. -/
def splitScopeId (text : List Char) : Option (List Char × Option (List Char)) :=
  if '%' ∈ text then
    let scope := (text.dropWhile (· ≠ '%')).drop 1
    if scope = [] ∨ '%' ∈ scope then none else some (text.takeWhile (· ≠ '%'), some scope)
  else some (text, none)

/-- `IPv6Address(text)`. -/
def readV6 (text : List Char) : Option IPv6Address :=
  if '/' ∈ text then none
  else
    match splitScopeId text with
    | some (addr, scopeId) =>
        match readHextets addr with
        | some hextets =>
            if h : hextets.length = 8 ∧ (∀ x ∈ hextets, x < 65536) ∧
                ∀ s ∈ scopeId, s ≠ [] ∧ '%' ∉ s ∧ '/' ∉ s then
              some ⟨hextets, scopeId, h.1, h.2.1, h.2.2⟩
            else none
        | none => none
    | none => none

/-! ## Writing -/

/-- A stretch of zeros: where it starts and how long it is. -/
structure Stretch where
  start : ℕ
  length : ℕ

/-- The body of the loop of `_compress_hextets`, on the longest stretch so far and the one that
has begun. -/
def stretchStep (acc : Stretch × Stretch) (indexed : List Char × ℕ) : Stretch × Stretch :=
  if indexed.1 = ['0'] then
    let here : Stretch :=
      ⟨if acc.2.length = 0 then indexed.2 else acc.2.start, acc.2.length + 1⟩
    (if acc.1.length < here.length then here else acc.1, here)
  else (acc.1, ⟨0, 0⟩)

/-- The longest stretch of zeros, the first of several. -/
def longestStretch (hextets : List (List Char)) : Stretch :=
  (hextets.zipIdx.foldl stretchStep (⟨0, 0⟩, ⟨0, 0⟩)).1

/-- `_compress_hextets`. -/
def compressHextets (hextets : List (List Char)) : List (List Char) :=
  let best := longestStretch hextets
  if 1 < best.length then
    (if best.start = 0 then [[]] else []) ++ hextets.take best.start ++ [[]] ++
      hextets.drop (best.start + best.length) ++
        (if best.start + best.length = hextets.length then [[]] else [])
  else hextets

/-- `str`, of an IPv6 address. -/
def IPv6Address.text (a : IPv6Address) : List Char :=
  let text := [':'].intercalate (compressHextets (a.hextets.map hexText))
  match a.scopeId with
  | some scope => text ++ '%' :: scope
  | none => text

/-- `str`, of an IPv4 address. -/
def IPv4Address.text (a : IPv4Address) : List Char :=
  ['.'].intercalate (a.octets.map (Nat.toDigits 10))

/-! ## One text of an IPv4 address -/

theorem toDigits_of_parseOctet {s : List Char} {n : ℕ} (h : parseOctet s = some n) :
    Nat.toDigits 10 n = s := by
  rw [parseOctet] at h
  split_ifs at h with hbad
  obtain ⟨hne, -, hzeros⟩ : s ≠ [] ∧ ¬3 < s.length ∧ (s = ['0'] ∨ s.head? ≠ some '0') := by
    simp only [not_or, not_and_or, not_not] at hbad
    exact hbad
  exact toDigits_of_readNumeral (Option.filter_eq_some_iff.1 h).1 hne hzeros

/-- An IPv4 address is written as the text it is read from. -/
theorem text_of_readV4 {text : List Char} {a : IPv4Address} (h : readV4 text = some a) :
    a.text = text := by
  rw [readV4] at h
  cases hoctets : (text.splitOn '.').mapM parseOctet with
  | none =>
      rw [hoctets] at h
      cases h
  | some octets =>
      rw [hoctets] at h
      dsimp only at h
      split_ifs at h with hvalid
      obtain rfl := Option.some_inj.1 h
      rw [IPv4Address.text, map_of_mapM (fun _ _ => toDigits_of_parseOctet) hoctets,
        List.intercalate_splitOn]

/-- An IPv4 address is written with digits and dots. -/
theorem colon_not_mem_text (a : IPv4Address) : ':' ∉ a.text := by
  intro h
  rcases mem_intercalate h with hdot | ⟨part, hpart, hmem⟩
  · exact absurd hdot (by decide)
  · obtain ⟨n, -, rfl⟩ := List.mem_map.1 hpart
    have hdigit := Nat.isDigit_of_mem_toDigits (by decide) (by decide) hmem
    exact absurd hdigit (by decide)

/-! ## Hextets -/

theorem digitChar_ne {d : ℕ} (hd : d < 16) {c : Char} (hc : c ∈ [':', '%', '/', '.']) :
    Nat.digitChar d ≠ c := by
  have hall : ∀ d < 16, Nat.digitChar d ∉ [':', '%', '/', '.'] := by decide
  exact fun heq => hall d hd (heq ▸ hc)

/-- A hextet is written without separators. -/
theorem not_mem_hexText (n : ℕ) {c : Char} (hc : c ∈ [':', '%', '/', '.']) : c ∉ hexText n := by
  induction n using Nat.strongRecOn with
  | ind n ih =>
      rw [hexText, Nat.toDigits_eq_if (by decide)]
      split_ifs with hn
      · rw [List.mem_singleton]
        exact (digitChar_ne hn hc).symm
      · rw [List.mem_append, List.mem_singleton, not_or]
        exact ⟨ih (n / 16) (by omega), (digitChar_ne (Nat.mod_lt n (by decide)) hc).symm⟩

theorem hexText_ne_nil (n : ℕ) : hexText n ≠ [] := Nat.toDigits_ne_nil

theorem parseHextet_hexText {n : ℕ} (h : n < 65536) : parseHextet (hexText n) = some n := by
  have hlength : (hexText n).length ≤ 4 := (Nat.length_toDigits_le_iff (by decide) (by decide)).2 h
  rw [parseHextet, if_neg (by simp [hexText_ne_nil, hlength])]
  exact readNumeral_toDigits (by decide) (by decide) n

theorem eq_zero_of_hexText {n : ℕ} (hn : n < 65536) (h : hexText n = ['0']) : n = 0 := by
  have hread := parseHextet_hexText hn
  rw [h] at hread
  exact (Option.some_inj.1 hread).symm

theorem mapM_parseHextet {hextets : List ℕ} (h : ∀ x ∈ hextets, x < 65536) :
    (hextets.map hexText).mapM parseHextet = some hextets := by
  induction hextets with
  | nil => rfl
  | cons x hextets ih =>
      obtain ⟨hx, hrest⟩ := List.forall_mem_cons.1 h
      exact mapM_cons_eq_some_iff.2 ⟨x, hextets, parseHextet_hexText hx, ih hrest, rfl⟩

/-! ## The longest stretch of zeros -/

/-- A stretch in a list that holds nothing but zeros. -/
def Stretch.OfZeros (l : List (List Char)) (s : Stretch) : Prop :=
  s.start + s.length ≤ l.length ∧
    ∀ i, s.start ≤ i → i < s.start + s.length → l[i]? = some ['0']

theorem Stretch.OfZeros.concat {l : List (List Char)} {s : Stretch} (h : s.OfZeros l)
    (x : List Char) : s.OfZeros (l ++ [x]) := by
  obtain ⟨hin, hzeros⟩ := h
  constructor
  · rw [List.length_append]
    omega
  · intro i hlow hhigh
    rw [List.getElem?_append_left (by omega)]
    exact hzeros i hlow hhigh

theorem ofZeros_empty (l : List (List Char)) : (⟨0, 0⟩ : Stretch).OfZeros l := by
  constructor
  · exact Nat.zero_le _
  · intro i _ hi
    exact absurd hi (Nat.not_lt_zero i)

/-- A stretch that reaches to the end is made longer by a zero. -/
theorem ofZeros_longer {l : List (List Char)} {s : Stretch} (h : s.OfZeros l)
    (hend : 0 < s.length → s.start + s.length = l.length) :
    (⟨if s.length = 0 then l.length else s.start, s.length + 1⟩ : Stretch).OfZeros (l ++ [['0']]) ∧
      (if s.length = 0 then l.length else s.start) + (s.length + 1) = (l ++ [['0']]).length := by
  have hstart : (if s.length = 0 then l.length else s.start) + s.length = l.length := by
    split_ifs with hzero
    · omega
    · exact hend (by omega)
  constructor
  · constructor
    · rw [List.length_append, List.length_singleton]
      dsimp only
      omega
    · intro i hlow hhigh
      dsimp only at hlow hhigh
      rcases Nat.lt_or_ge i l.length with hi | hi
      · rw [List.getElem?_append_left hi]
        split_ifs at hlow with hzero
        · omega
        · exact h.2 i hlow (by omega)
      · have heq : i = l.length := by omega
        rw [heq, List.getElem?_concat_length]
  · rw [List.length_append, List.length_singleton]
    omega

theorem stretchStep_zero (acc : Stretch × Stretch) (i : ℕ) :
    stretchStep acc (['0'], i) =
      (if acc.1.length < acc.2.length + 1 then
        ⟨if acc.2.length = 0 then i else acc.2.start, acc.2.length + 1⟩ else acc.1,
        ⟨if acc.2.length = 0 then i else acc.2.start, acc.2.length + 1⟩) := rfl

theorem stretchStep_other {x : List Char} (h : x ≠ ['0']) (acc : Stretch × Stretch) (i : ℕ) :
    stretchStep acc (x, i) = (acc.1, ⟨0, 0⟩) := if_neg h

/-- What the loop knows of the parts it has passed. -/
theorem foldl_stretchStep (l : List (List Char)) :
    (l.zipIdx.foldl stretchStep (⟨0, 0⟩, ⟨0, 0⟩)).1.OfZeros l ∧
      (l.zipIdx.foldl stretchStep (⟨0, 0⟩, ⟨0, 0⟩)).2.OfZeros l ∧
      (0 < (l.zipIdx.foldl stretchStep (⟨0, 0⟩, ⟨0, 0⟩)).2.length →
        (l.zipIdx.foldl stretchStep (⟨0, 0⟩, ⟨0, 0⟩)).2.start +
          (l.zipIdx.foldl stretchStep (⟨0, 0⟩, ⟨0, 0⟩)).2.length = l.length) := by
  induction l using List.reverseRecOn with
  | nil => exact ⟨ofZeros_empty [], ofZeros_empty [], fun h => absurd h (Nat.lt_irrefl 0)⟩
  | append_singleton l x ih =>
      rw [List.zipIdx_append, List.foldl_append]
      generalize l.zipIdx.foldl stretchStep (⟨0, 0⟩, ⟨0, 0⟩) = acc at ih
      obtain ⟨hbest, hhere, hend⟩ := ih
      rw [List.zipIdx_singleton, Nat.zero_add, List.foldl_cons, List.foldl_nil]
      by_cases hx : x = ['0']
      · obtain ⟨hnew, hreach⟩ := ofZeros_longer hhere hend
        rw [hx, stretchStep_zero]
        rcases Nat.lt_or_ge acc.1.length (acc.2.length + 1) with hlonger | hshorter
        · rw [if_pos hlonger]
          exact ⟨hnew, hnew, fun _ => hreach⟩
        · rw [if_neg (Nat.not_lt.2 hshorter)]
          exact ⟨hbest.concat _, hnew, fun _ => hreach⟩
      · rw [stretchStep_other hx]
        exact ⟨hbest.concat x, ofZeros_empty _, fun h => absurd h (Nat.lt_irrefl 0)⟩

theorem ofZeros_longestStretch (l : List (List Char)) : (longestStretch l).OfZeros l :=
  (foldl_stretchStep l).1

/-- A list is what stands before a stretch of zeros, the zeros, and what stands behind. -/
theorem split_ofZeros {hextets : List ℕ} (hlt : ∀ x ∈ hextets, x < 65536) {s : Stretch}
    (h : s.OfZeros (hextets.map hexText)) :
    hextets = hextets.take s.start ++ List.replicate s.length 0 ++
      hextets.drop (s.start + s.length) := by
  obtain ⟨hin, hzeros⟩ := h
  rw [List.length_map] at hin
  have hmiddle : (hextets.drop s.start).take s.length = List.replicate s.length 0 := by
    rw [List.eq_replicate_iff]
    constructor
    · rw [List.length_take, List.length_drop]
      omega
    · intro x hx
      obtain ⟨k, hk⟩ := List.mem_iff_getElem?.1 hx
      have hklt : k < s.length := by
        have hlength := (List.getElem?_eq_some_iff.1 hk).1
        rw [List.length_take] at hlength
        omega
      rw [List.getElem?_take_of_lt hklt, List.getElem?_drop] at hk
      have hzero := hzeros (s.start + k) (by omega) (by omega)
      rw [List.getElem?_map, hk, Option.map_some, Option.some.injEq] at hzero
      exact eq_zero_of_hexText (hlt x (List.mem_of_getElem? hk)) hzero
  rw [← hmiddle, List.append_assoc, ← List.drop_drop, List.take_append_drop,
    List.take_append_drop]

/-! ## Reading what is written -/

/-- What is left out between two parts is filled with zeros. -/
theorem readGap_eq {first last : List Char} {before after : List (List Char)}
    (hbefore : [] ∉ before) (hafter : [] ∉ after) (hfirst : first = [] → before = [])
    (hlast : last = [] → after = []) :
    readGap first (before ++ [] :: after) last =
      fillZeros (if first = [] then [] else first :: before)
        (if last = [] then [] else after ++ [last]) := by
  have hgood : ¬([] ∈ after ∨ (first = [] ∧ (first :: before).length ≠ 1) ∨
      (last = [] ∧ (after ++ [last]).length ≠ 1)) := by
    rintro (hmem | ⟨hnil, hlength⟩ | ⟨hnil, hlength⟩)
    · exact hafter hmem
    · rw [hfirst hnil] at hlength
      exact hlength rfl
    · rw [hlast hnil] at hlength
      exact hlength rfl
  rw [readGap, takeWhile_ne_append hbefore, dropWhile_ne_append hbefore]
  exact if_neg hgood

/-- An empty part that is neither the first nor the last stands for zeros. -/
theorem readParts_of_gap (first last : List Char) (before after : List (List Char)) :
    readParts (first :: (before ++ [] :: (after ++ [last]))) =
      readGap first (before ++ [] :: after) last := by
  have hinterior : ((first :: (before ++ [] :: (after ++ [last]))).drop 1).dropLast =
      before ++ [] :: after := by
    rw [List.drop_one, List.tail_cons, ← List.cons_append, ← List.append_assoc,
      List.dropLast_concat]
  have hend : (first :: (before ++ [] :: (after ++ [last]))).getLastD [] = last := by
    have hshape : first :: (before ++ [] :: (after ++ [last])) =
        (first :: (before ++ [] :: after)) ++ [last] := by simp
    rw [hshape, List.getLastD_concat]
  have hgap : [] ∈ before ++ [] :: after := List.mem_append_right _ List.mem_cons_self
  rw [readParts, hinterior, hend]
  exact if_pos hgap

/-- The parts of a compressed address are read as what they leave out, and what stands around. -/
theorem readParts_compressed {high low : List (List Char)} (hhigh : [] ∉ high) (hlow : [] ∉ low) :
    readParts ((if high = [] then [[]] else high) ++ [] :: (if low = [] then [[]] else low)) =
      fillZeros high low := by
  obtain ⟨first, before, hfirstParts, hbefore, hfirst, hhighEq⟩ :
      ∃ first before, (if high = [] then [[]] else high) = first :: before ∧ [] ∉ before ∧
        (first = [] → before = []) ∧ (if first = [] then [] else first :: before) = high := by
    cases high with
    | nil => exact ⟨[], [], rfl, by simp, fun _ => rfl, rfl⟩
    | cons first before =>
        have hne : first ≠ [] := by
          rintro rfl
          exact hhigh List.mem_cons_self
        exact ⟨first, before, if_neg (by simp), fun h => hhigh (List.mem_cons_of_mem _ h),
          fun h => absurd h hne, if_neg hne⟩
  obtain ⟨after, last, hlastParts, hafter, hlast, hlowEq⟩ :
      ∃ after last, (if low = [] then [[]] else low) = after ++ [last] ∧ [] ∉ after ∧
        (last = [] → after = []) ∧ (if last = [] then [] else after ++ [last]) = low := by
    rcases List.eq_nil_or_concat' low with rfl | ⟨after, last, rfl⟩
    · exact ⟨[], [], rfl, by simp, fun _ => rfl, rfl⟩
    · have hne : last ≠ [] := by
        rintro rfl
        exact hlow (by simp)
      exact ⟨after, last, if_neg (by simp), fun h => hlow (List.mem_append_left _ h),
        fun h => absurd h hne, if_neg hne⟩
  rw [hfirstParts, hlastParts, List.cons_append, readParts_of_gap,
    readGap_eq hbefore hafter hfirst hlast, hhighEq, hlowEq]

theorem fillZeros_hexText {high low : List ℕ} (hhigh : ∀ x ∈ high, x < 65536)
    (hlow : ∀ x ∈ low, x < 65536) (hlength : high.length + low.length ≤ 7) :
    fillZeros (high.map hexText) (low.map hexText) =
      some (high ++ List.replicate (8 - (high.length + low.length)) 0 ++ low) := by
  rw [fillZeros, List.length_map, List.length_map, if_neg (by omega), mapM_parseHextet hhigh,
    mapM_parseHextet hlow]
  rfl

/-- A part that stands for an end where nothing is left of it. -/
def endParts (parts : List (List Char)) : List (List Char) := if parts = [] then [[]] else parts

/-- The parts of an address that leaves out the zeros between two lists of hextets. -/
def gapParts (high low : List ℕ) : List (List Char) :=
  endParts (high.map hexText) ++ [] :: endParts (low.map hexText)

/-- The parts before the gap, with the empty part in front when the gap is at the start. -/
theorem endParts_take {parts : List (List Char)} {n : ℕ} (hn : n ≤ parts.length) :
    (if n = 0 then [[]] else []) ++ parts.take n = endParts (parts.take n) := by
  rw [endParts]
  have hempty : parts.take n = [] ↔ n = 0 := by
    rw [← List.length_eq_zero_iff, List.length_take, Nat.min_eq_left hn]
  by_cases hzero : n = 0
  · rw [if_pos hzero, if_pos (hempty.2 hzero), hempty.2 hzero, List.append_nil]
  · rw [if_neg hzero, if_neg (mt hempty.1 hzero), List.nil_append]

/-- The parts behind the gap, with the empty part at the end when the gap is there. -/
theorem endParts_drop {parts : List (List Char)} {n : ℕ} (hn : n ≤ parts.length) :
    parts.drop n ++ (if n = parts.length then [[]] else []) = endParts (parts.drop n) := by
  rw [endParts]
  have hempty : parts.drop n = [] ↔ n = parts.length := by
    rw [List.drop_eq_nil_iff]
    omega
  by_cases hend : n = parts.length
  · rw [if_pos hend, if_pos (hempty.2 hend), hempty.2 hend, List.nil_append]
  · rw [if_neg hend, if_neg (mt hempty.1 hend), List.append_nil]

/-- The parts of a written address are those of all its hextets, or leave out zeros. -/
theorem compressHextets_cases {hextets : List ℕ} (hlength : hextets.length = 8)
    (hlt : ∀ x ∈ hextets, x < 65536) :
    compressHextets (hextets.map hexText) = hextets.map hexText ∨
      ∃ high low, high.length + low.length ≤ 6 ∧
        hextets = high ++ List.replicate (8 - (high.length + low.length)) 0 ++ low ∧
        compressHextets (hextets.map hexText) = gapParts high low := by
  have hzeros := ofZeros_longestStretch (hextets.map hexText)
  rcases Nat.lt_or_ge 1 (longestStretch (hextets.map hexText)).length with hlong | hshort
  · right
    have hsplit := split_ofZeros hlt hzeros
    have hin := hzeros.1
    have hcompressed : compressHextets (hextets.map hexText) =
        (if (longestStretch (hextets.map hexText)).start = 0 then [[]] else []) ++
          (hextets.map hexText).take (longestStretch (hextets.map hexText)).start ++ [[]] ++
          (hextets.map hexText).drop ((longestStretch (hextets.map hexText)).start +
            (longestStretch (hextets.map hexText)).length) ++
          (if (longestStretch (hextets.map hexText)).start +
            (longestStretch (hextets.map hexText)).length = (hextets.map hexText).length
            then [[]] else []) := if_pos hlong
    generalize longestStretch (hextets.map hexText) = best at hlong hsplit hin hcompressed
    rw [List.length_map, hlength] at hin
    have hhigh : (hextets.take best.start).length = best.start := by
      rw [List.length_take, hlength]
      omega
    have hlow : (hextets.drop (best.start + best.length)).length =
        8 - (best.start + best.length) := by
      rw [List.length_drop, hlength]
    refine ⟨hextets.take best.start, hextets.drop (best.start + best.length), ?_, ?_, ?_⟩
    · rw [hhigh, hlow]
      omega
    · have hcount : 8 - (best.start + (8 - (best.start + best.length))) = best.length := by omega
      rw [hhigh, hlow, hcount]
      exact hsplit
    · have hstart : best.start ≤ (hextets.map hexText).length := by
        rw [List.length_map, hlength]
        omega
      have hend : best.start + best.length ≤ (hextets.map hexText).length := by
        rw [List.length_map, hlength]
        exact hin
      rw [hcompressed, gapParts, List.map_take, List.map_drop, ← endParts_take hstart,
        ← endParts_drop hend]
      simp only [List.append_assoc, List.cons_append, List.nil_append]
  · left
    exact if_neg (Nat.not_lt.2 hshort)

theorem nil_not_mem_map_hexText (l : List ℕ) : [] ∉ l.map hexText := by
  intro hmem
  obtain ⟨n, -, hn⟩ := List.mem_map.1 hmem
  exact hexText_ne_nil n hn

/-- All hextets are read as they are written. -/
theorem readParts_map_hexText {hextets : List ℕ} (hlength : hextets.length = 8)
    (hlt : ∀ x ∈ hextets, x < 65536) : readParts (hextets.map hexText) = some hextets := by
  have hnot := nil_not_mem_map_hexText hextets
  have hinterior : [] ∉ ((hextets.map hexText).drop 1).dropLast :=
    fun h => hnot (List.mem_of_mem_drop ((List.dropLast_sublist _).subset h))
  have hne : hextets.map hexText ≠ [] := by
    intro hnil
    rw [List.map_eq_nil_iff] at hnil
    rw [hnil] at hlength
    cases hlength
  have hfirst : (hextets.map hexText).headD [] ≠ [] := by
    intro h
    rw [List.headD_eq_head?_getD, List.head?_eq_some_head hne, Option.getD_some] at h
    exact hnot (h ▸ List.head_mem hne)
  have hlast : (hextets.map hexText).getLastD [] ≠ [] := by
    intro h
    rw [List.getLastD_eq_getLast?, List.getLast?_eq_some_getLast hne, Option.getD_some] at h
    exact hnot (h ▸ List.getLast_mem hne)
  have hgood : ¬((hextets.map hexText).length ≠ 8 ∨ (hextets.map hexText).headD [] = [] ∨
      (hextets.map hexText).getLastD [] = []) := by
    rw [List.length_map]
    rintro (h | h | h)
    · exact h hlength
    · exact hfirst h
    · exact hlast h
  rw [readParts, if_neg hinterior, if_neg hgood, mapM_parseHextet hlt]

/-- The parts of a written address give its hextets, whether zeros are left out or not. -/
theorem readParts_compressHextets {hextets : List ℕ} (hlength : hextets.length = 8)
    (hlt : ∀ x ∈ hextets, x < 65536) :
    readParts (compressHextets (hextets.map hexText)) = some hextets := by
  rcases compressHextets_cases hlength hlt with hall | ⟨high, low, hshort, hparts, hgap⟩
  · rw [hall]
    exact readParts_map_hexText hlength hlt
  · have hhigh : ∀ x ∈ high, x < 65536 := fun x hx => hlt x (by rw [hparts]; simp [hx])
    have hlow : ∀ x ∈ low, x < 65536 := fun x hx => hlt x (by rw [hparts]; simp [hx])
    rw [hgap, gapParts, endParts, endParts,
      readParts_compressed (nil_not_mem_map_hexText high) (nil_not_mem_map_hexText low),
      fillZeros_hexText hhigh hlow (by omega), ← hparts]

theorem mem_endParts {parts : List (List Char)} {part : List Char} (h : part ∈ endParts parts) :
    part = [] ∨ part ∈ parts := by
  rw [endParts] at h
  split_ifs at h with hnil
  · exact .inl (List.mem_singleton.1 h)
  · exact .inr h

theorem length_endParts (parts : List (List Char)) :
    (endParts parts).length = max 1 parts.length := by
  rw [endParts]
  split_ifs with hnil
  · rw [hnil]
    rfl
  · have hpos := List.length_pos_iff.2 hnil
    omega

section Text

variable {hextets : List ℕ}

/-- No part of a written address holds a separator. -/
theorem not_mem_compressHextets (hlength : hextets.length = 8) (hlt : ∀ x ∈ hextets, x < 65536)
    {c : Char} (hc : c ∈ [':', '%', '/', '.']) :
    ∀ part ∈ compressHextets (hextets.map hexText), c ∉ part := by
  have hmap : ∀ (l : List ℕ), ∀ part ∈ l.map hexText, c ∉ part := by
    intro l part hpart
    obtain ⟨n, -, rfl⟩ := List.mem_map.1 hpart
    exact not_mem_hexText n hc
  have hends : ∀ (l : List ℕ), ∀ part ∈ endParts (l.map hexText), c ∉ part := by
    intro l part hpart
    rcases mem_endParts hpart with rfl | hpart
    · exact List.not_mem_nil
    · exact hmap l part hpart
  rcases compressHextets_cases hlength hlt with hall | ⟨high, low, -, -, hgap⟩
  · rw [hall]
    exact hmap hextets
  · rw [hgap]
    intro part hpart
    rcases List.mem_append.1 hpart with hpart | hpart
    · exact hends high part hpart
    · rcases List.mem_cons.1 hpart with rfl | hpart
      · exact List.not_mem_nil
      · exact hends low part hpart

/-- A written address has between three and nine parts. -/
theorem length_compressHextets (hlength : hextets.length = 8) (hlt : ∀ x ∈ hextets, x < 65536) :
    3 ≤ (compressHextets (hextets.map hexText)).length ∧
      (compressHextets (hextets.map hexText)).length ≤ 9 := by
  rcases compressHextets_cases hlength hlt with hall | ⟨high, low, hshort, -, hgap⟩
  · rw [hall, List.length_map, hlength]
    decide
  · rw [hgap, gapParts, List.length_append, List.length_cons, length_endParts, length_endParts,
      List.length_map, List.length_map]
    omega

/-- The hextets of an address are read off the text that is written for them. -/
theorem readHextets_written (hlength : hextets.length = 8) (hlt : ∀ x ∈ hextets, x < 65536) :
    readHextets ([':'].intercalate (compressHextets (hextets.map hexText))) = some hextets := by
  obtain ⟨hmin, hmax⟩ := length_compressHextets hlength hlt
  have hne : compressHextets (hextets.map hexText) ≠ [] := by
    intro hnil
    rw [hnil] at hmin
    exact absurd hmin (by decide)
  have hsplit := List.splitOn_intercalate ':'
    (not_mem_compressHextets hlength hlt (c := ':') (by decide)) hne
  have hdot : '.' ∉ (compressHextets (hextets.map hexText)).getLastD [] := by
    rw [List.getLastD_eq_getLast?, List.getLast?_eq_some_getLast hne, Option.getD_some]
    exact not_mem_compressHextets hlength hlt (by decide) _ (List.getLast_mem hne)
  have htail : replaceTail (compressHextets (hextets.map hexText)) =
      some (compressHextets (hextets.map hexText)) := if_neg hdot
  rw [readHextets, hsplit, if_neg (Nat.not_lt.2 hmin), htail]
  dsimp only
  rw [if_neg (Nat.not_lt.2 hmax), readParts_compressHextets hlength hlt]

/-- The text of an address without its zone holds no sign of a zone or a network. -/
theorem not_mem_written (hlength : hextets.length = 8) (hlt : ∀ x ∈ hextets, x < 65536) {c : Char}
    (hc : c ∈ ['%', '/']) :
    c ∉ [':'].intercalate (compressHextets (hextets.map hexText)) := by
  intro hmem
  have hcolon : c ≠ ':' := by
    rintro rfl
    exact absurd hc (by decide)
  have hseparator : c ∈ [':', '%', '/', '.'] := by
    rcases List.mem_cons.1 hc with rfl | hc
    · decide
    · rw [List.mem_singleton.1 hc]
      decide
  rcases mem_intercalate hmem with heq | ⟨part, hpart, hin⟩
  · exact hcolon (List.mem_singleton.1 heq)
  · exact not_mem_compressHextets hlength hlt hseparator part hpart hin

/-- The text of an address holds a colon. -/
theorem colon_mem_written (hlength : hextets.length = 8) (hlt : ∀ x ∈ hextets, x < 65536) :
    ':' ∈ [':'].intercalate (compressHextets (hextets.map hexText)) := by
  obtain ⟨hmin, -⟩ := length_compressHextets hlength hlt
  generalize compressHextets (hextets.map hexText) = parts at hmin
  cases parts with
  | nil => exact absurd hmin (by decide)
  | cons p parts =>
      cases parts with
      | nil =>
          rw [List.length_singleton] at hmin
          exact absurd hmin (by decide)
      | cons q parts =>
          rw [List.intercalate_cons_cons]
          simp

end Text

/-- What is read of a text without `/`, once the zone is split off. -/
theorem readV6_of_split {text addr : List Char} {scopeId : Option (List Char)} {hextets : List ℕ}
    (hclean : '/' ∉ text) (hsplit : splitScopeId text = some (addr, scopeId))
    (hread : readHextets addr = some hextets)
    (hvalid : hextets.length = 8 ∧ (∀ x ∈ hextets, x < 65536) ∧
      ∀ s ∈ scopeId, s ≠ [] ∧ '%' ∉ s ∧ '/' ∉ s) :
    readV6 text = some ⟨hextets, scopeId, hvalid.1, hvalid.2.1, hvalid.2.2⟩ := by
  rw [readV6, if_neg hclean, hsplit]
  dsimp only
  rw [hread]
  exact dif_pos hvalid

/-- An address is read off the text that is written for it. -/
theorem readV6_text (a : IPv6Address) : readV6 a.text = some a := by
  obtain ⟨hextets, scopeId, hlength, hlt, hscope⟩ := a
  have hpercent := not_mem_written hlength hlt (c := '%') (by decide)
  have hslash := not_mem_written hlength hlt (c := '/') (by decide)
  have hread := readHextets_written hlength hlt
  have hvalid : hextets.length = 8 ∧ (∀ x ∈ hextets, x < 65536) ∧
      ∀ s ∈ scopeId, s ≠ [] ∧ '%' ∉ s ∧ '/' ∉ s := ⟨hlength, hlt, hscope⟩
  cases scopeId with
  | none => exact readV6_of_split hslash (if_neg hpercent) hread hvalid
  | some scope =>
      obtain ⟨hne, hzone, hnet⟩ := hscope scope rfl
      have hsplit : splitScopeId ([':'].intercalate (compressHextets (hextets.map hexText)) ++
          '%' :: scope) =
            some ([':'].intercalate (compressHextets (hextets.map hexText)), some scope) := by
        have hmem : '%' ∈ [':'].intercalate (compressHextets (hextets.map hexText)) ++
            '%' :: scope := by simp
        rw [splitScopeId, if_pos hmem, takeWhile_ne_append hpercent, dropWhile_ne_append hpercent]
        exact if_neg (by simp [hne, hzone])
      have hclean : '/' ∉ [':'].intercalate (compressHextets (hextets.map hexText)) ++
          '%' :: scope := by
        simp [hslash, hnet]
      exact readV6_of_split hclean hsplit hread hvalid

/-- Addresses with one text are one address. -/
theorem IPv6Address.text_injective {a b : IPv6Address} (h : a.text = b.text) : a = b := by
  have hread := readV6_text a
  rw [h, readV6_text b] at hread
  exact (Option.some_inj.1 hread).symm

theorem IPv6Address.colon_mem_text (a : IPv6Address) : ':' ∈ a.text := by
  have hcolon := colon_mem_written a.length_eq a.lt
  obtain ⟨hextets, scopeId, hlength, hlt, hscope⟩ := a
  cases scopeId with
  | none => exact hcolon
  | some scope => exact List.mem_append_left _ hcolon

/-! ## Networks and families -/

/-- An address of either family. -/
inductive IpAddress
  | v4 (a : IPv4Address)
  | v6 (a : IPv6Address)
  deriving DecidableEq

/-- `ip_address(text)`. -/
def readIp (text : List Char) : Option IpAddress :=
  match readV4 text with
  | some a => some (.v4 a)
  | none => (readV6 text).map .v6

/-- The zone that an address keeps when its host bits are cleared: there was nothing to clear. -/
def IPv6Address.keptScope (a : IPv6Address) : Option (List Char) :=
  if a.hextets.drop 4 = [0, 0, 0, 0] then a.scopeId else none

/-- The address of the /64 that an address lies in. -/
def IPv6Address.network64 (a : IPv6Address) : IPv6Address where
  hextets := a.hextets.take 4 ++ [0, 0, 0, 0]
  scopeId := a.keptScope
  length_eq := by
    rw [List.length_append, List.length_take, a.length_eq]
    rfl
  lt := by
    intro h hh
    rcases List.mem_append.1 hh with hh | hh
    · exact a.lt h (List.mem_of_mem_take hh)
    · have hzero : ∀ x ∈ [0, 0, 0, 0], x < 65536 := by decide
      exact hzero h hh
  scope_ok := by
    intro s hs
    rw [keptScope] at hs
    split_ifs at hs with hhost
    · exact a.scope_ok s hs
    · cases hs

/-- `ip_network(text + "/64", strict=False)` of the text of an IPv6 address. -/
def readNetwork64 (text : List Char) : Option IPv6Address := (readV6 text).map IPv6Address.network64

/-- `str`, of a /64. -/
def networkText (network : IPv6Address) : List Char := network.text ++ "/64".toList

theorem networkText_injective {a b : IPv6Address} (h : networkText a = networkText b) : a = b :=
  IPv6Address.text_injective (List.append_cancel_right h)

/-- Two addresses have one network if they agree in the first half and in the zone they keep. -/
theorem IPv6Address.network64_eq_iff {a b : IPv6Address} :
    a.network64 = b.network64 ↔
      a.hextets.take 4 = b.hextets.take 4 ∧ a.keptScope = b.keptScope := by
  rw [network64, network64, IPv6Address.mk.injEq, List.append_cancel_right_eq]

end DealFinder.Math
