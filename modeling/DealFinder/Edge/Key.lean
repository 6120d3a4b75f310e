/-
# The cache key is canonical

A key spells the origin, the number of results and the normalized search, and nothing
else of a URL. Its query reads back to these (`readForm_searchQuery`), and normalizing a
normalized search changes nothing (`normalize_normalize`), so the key of a key is the key.
-/

import DealFinder.Edge.NoLeak
import DealFinder.Math.FormText
import DealFinder.Rag.Language
import Mathlib.Data.Bool.AllAny
import Mathlib.Data.List.TakeWhile

namespace DealFinder.Edge

open DealFinder.Math

/-! ## Case -/

/-- The case conversion of the language as a table, with what the table keeps: a letter in
lowercase stays as it is, and white space is no letter's lowercase. -/
structure Casing extends CaseMap where
  lowerChar : Char → List Char
  isCased : Char → Bool
  isIgnorable : Char → Bool
  lower_eq : ∀ s, toLowerCase s =
    String.ofList (Rag.spell lowerChar isCased isIgnorable [] s.toList)
  lower_ne_nil : ∀ c, lowerChar c ≠ []
  lower_lower : ∀ c, ∀ d ∈ lowerChar c, d ≠ 'Σ' ∧ lowerChar d = [d]
  lower_sigma : lowerChar 'σ' = ['σ'] ∧ lowerChar 'ς' = ['ς']
  lower_white : ∀ c, isWhite c = true → lowerChar c = [c]
  lower_plain : ∀ c, isWhite c = false → ∀ d ∈ lowerChar c, isWhite d = false

section Case

variable (casing : Casing)

/-- The characters that lowercasing leaves alone. -/
def Settled (c : Char) : Prop := c ≠ 'Σ' ∧ casing.lowerChar c = [c]

/-- What a character is lowered to, in its place. -/
def pieceOf (before after : List Char) (c : Char) : List Char :=
  if c = 'Σ' then
    [if Rag.endsWord casing.isCased casing.isIgnorable before after then 'ς' else 'σ']
  else casing.lowerChar c

/-- The characters of a text in lowercase, after some others. -/
def lowerAfter (before text : List Char) : List Char :=
  Rag.spell casing.lowerChar casing.isCased casing.isIgnorable before text

variable {casing} {before after text : List Char} {c d : Char}

theorem lowerAfter_cons : lowerAfter casing before (c :: text) =
    pieceOf casing before text c ++ lowerAfter casing (c :: before) text := rfl

theorem toList_toLowerCase (s : String) :
    (casing.toLowerCase s).toList = lowerAfter casing [] s.toList := by
  rw [casing.lower_eq, String.toList_ofList]
  rfl

theorem pieceOf_ne_nil : pieceOf casing before after c ≠ [] := by
  unfold pieceOf
  split
  · exact List.cons_ne_nil _ _
  · exact casing.lower_ne_nil c

theorem settled_of_mem_pieceOf (h : d ∈ pieceOf casing before after c) : Settled casing d := by
  unfold pieceOf at h
  split at h
  · rw [List.mem_singleton] at h
    subst h
    split
    · exact ⟨by decide, casing.lower_sigma.2⟩
    · exact ⟨by decide, casing.lower_sigma.1⟩
  · exact casing.lower_lower c d h

theorem plain_of_mem_pieceOf (hc : isWhite c = false) (h : d ∈ pieceOf casing before after c) :
    isWhite d = false := by
  unfold pieceOf at h
  split at h
  · rw [List.mem_singleton] at h
    subst h
    split <;> decide
  · exact casing.lower_plain c hc d h

/-- A text in lowercase is settled. -/
theorem settled_of_mem_lowerAfter (h : d ∈ lowerAfter casing before text) : Settled casing d := by
  induction text generalizing before with
  | nil => cases h
  | cons c text ih =>
      rw [lowerAfter_cons, List.mem_append] at h
      exact h.elim settled_of_mem_pieceOf ih

/-- Lowercasing leaves a settled text alone. -/
theorem lowerAfter_of_settled (h : ∀ c ∈ text, Settled casing c) :
    lowerAfter casing before text = text := by
  induction text generalizing before with
  | nil => rfl
  | cons c text ih =>
      obtain ⟨hsigma, hlower⟩ := h c List.mem_cons_self
      have hpiece : pieceOf casing before text c = [c] := by
        rw [pieceOf, if_neg hsigma, hlower]
      rw [lowerAfter_cons, hpiece, ih fun d hd => h d (List.mem_cons_of_mem _ hd)]
      rfl

end Case

/-! ## Texts without white space around them -/

/-- No white space starts or ends a text. -/
structure Trimmed (text : List Char) : Prop where
  first : ∀ c, text.head? = some c → isWhite c = false
  last : ∀ c, text.getLast? = some c → isWhite c = false

section Trimmed

variable {text : List Char}

theorem trimmed_trim (s : String) : Trimmed (trim s).toList := by
  have hfirst : ∀ (l : List Char) c, (l.dropWhile isWhite).head? = some c → isWhite c = false :=
    fun l c h => by simpa [h] using List.head?_dropWhile_not isWhite l
  rw [trim, String.toList_ofList]
  constructor
  · intro c hc
    -- The second half of the trimming leaves a beginning of what the first half left.
    have hinitial : ((s.toList.dropWhile isWhite).reverse.dropWhile isWhite).reverse <+:
        s.toList.dropWhile isWhite := by
      rw [← List.reverse_suffix, List.reverse_reverse]
      exact List.dropWhile_suffix isWhite
    obtain ⟨tail, htail⟩ := hinitial
    apply hfirst s.toList c
    rw [← htail, List.head?_append, hc]
    rfl
  · intro c hc
    rw [List.getLast?_reverse] at hc
    exact hfirst _ c hc

theorem Trimmed.trim_eq {s : String} (h : Trimmed s.toList) : trim s = s := by
  have hfix : ∀ l : List Char, (∀ c, l.head? = some c → isWhite c = false) →
      l.dropWhile isWhite = l := by
    intro l hl
    cases l with
    | nil => rfl
    | cons c l => exact List.dropWhile_cons_of_neg (by simp [hl c rfl])
  have hreverse : ∀ c, s.toList.reverse.head? = some c → isWhite c = false := by
    intro c hc
    rw [List.head?_reverse] at hc
    exact h.last c hc
  rw [trim, hfix _ h.first, hfix _ hreverse, List.reverse_reverse, String.ofList_toList]

variable {casing : Casing} {before : List Char} {inside : Bool}

theorem lowerAfter_ne_nil (h : text ≠ []) : lowerAfter casing before text ≠ [] := by
  cases text with
  | nil => exact absurd rfl h
  | cons c text =>
      rw [lowerAfter_cons]
      exact List.append_ne_nil_of_left_ne_nil pieceOf_ne_nil _

/-- No text gets white space around it in lowercase. -/
theorem Trimmed.lowerAfter (h : Trimmed text) (before : List Char) :
    Trimmed (lowerAfter casing before text) := by
  constructor
  · intro d hd
    cases text with
    | nil => cases hd
    | cons c text =>
        rw [lowerAfter_cons, List.head?_append_of_ne_nil _ pieceOf_ne_nil] at hd
        exact plain_of_mem_pieceOf (h.first c rfl) (List.mem_of_head? hd)
  · intro d hd
    have hlast := h.last
    clear h
    induction text generalizing before with
    | nil => cases hd
    | cons c text ih =>
        cases text with
        | nil =>
            have hpiece : Edge.lowerAfter casing before [c] = pieceOf casing before [] c :=
              List.append_nil _
            rw [hpiece] at hd
            exact plain_of_mem_pieceOf (hlast c rfl) (List.mem_of_getLast? hd)
        | cons c' text =>
            rw [lowerAfter_cons, List.getLast?_append_of_ne_nil _
              (lowerAfter_ne_nil (List.cons_ne_nil _ _))] at hd
            exact ih (c :: before) hd hlast

/-! ## Runs of white space -/

/-- Collapsing adds nothing but blanks. -/
theorem mem_of_mem_collapseChars {c : Char} (h : c ∈ collapseChars inside text) :
    c = ' ' ∨ c ∈ text := by
  induction text generalizing inside with
  | nil => cases h
  | cons d text ih =>
      rw [collapseChars] at h
      split at h
      · split at h
        · exact (ih h).imp_right (List.mem_cons_of_mem _)
        · exact (List.mem_cons.1 h).elim Or.inl fun h => (ih h).imp_right (List.mem_cons_of_mem _)
      · exact (List.mem_cons.1 h).elim (fun heq => Or.inr (heq ▸ List.mem_cons_self))
          fun h => (ih h).imp_right (List.mem_cons_of_mem _)

/-- Collapsed white space stays as it is. -/
theorem collapseChars_collapseChars (inside : Bool) (text : List Char) :
    collapseChars inside (collapseChars inside text) = collapseChars inside text := by
  induction text generalizing inside with
  | nil => rfl
  | cons c text ih =>
      by_cases hc : isWhite c = true
      · cases inside with
        | true => rw [collapseChars, if_pos hc, if_pos rfl, ih]
        | false =>
            have hblank : isWhite ' ' = true := by decide
            rw [collapseChars, if_pos hc, if_neg (by decide), collapseChars, if_pos hblank,
              if_neg (by decide), ih]
      · rw [collapseChars, if_neg hc, collapseChars, if_neg hc, ih]

theorem getLast?_collapseChars (hne : text ≠ [])
    (hlast : ∀ c, text.getLast? = some c → isWhite c = false) (inside : Bool) :
    ∃ d, (collapseChars inside text).getLast? = some d ∧ isWhite d = false := by
  induction text generalizing inside with
  | nil => exact absurd rfl hne
  | cons c text ih =>
      cases text with
      | nil =>
          have hc := hlast c rfl
          rw [collapseChars, if_neg (by simp [hc])]
          exact ⟨c, rfl, hc⟩
      | cons c' text =>
          have htail := ih (List.cons_ne_nil _ _) hlast
          rw [collapseChars]
          split
          · split
            · exact htail true
            · obtain ⟨d, hd, hplain⟩ := htail true
              exact ⟨d, by rw [List.getLast?_cons, hd]; rfl, hplain⟩
          · obtain ⟨d, hd, hplain⟩ := htail false
            exact ⟨d, by rw [List.getLast?_cons, hd]; rfl, hplain⟩

/-- A text without white space around it keeps its ends. -/
theorem Trimmed.collapseChars (h : Trimmed text) : Trimmed (collapseChars false text) := by
  constructor
  · intro d hd
    cases text with
    | nil => cases hd
    | cons c text =>
        have hc := h.first c rfl
        rw [Edge.collapseChars, if_neg (by simp [hc])] at hd
        exact Option.some_inj.1 hd ▸ hc
  · intro d hd
    cases text with
    | nil => cases hd
    | cons c text =>
        obtain ⟨last, hlast, hplain⟩ :=
          getLast?_collapseChars (List.cons_ne_nil c text) h.last false
        exact Option.some_inj.1 (hlast.symm.trans hd) ▸ hplain

end Trimmed

/-! ## The normal form of a search -/

section Normalize

/-- A search, trimmed, in lowercase and with its white space collapsed. -/
def normalize (caseMap : CaseMap) (q : String) : String :=
  collapse (caseMap.toLowerCase (trim q))

/-- The search that a URL asks for. -/
def Url.normalQ (caseMap : CaseMap) (url : Url) : String :=
  normalize caseMap ((url.param "q").getD "")

/-- The number of results that a URL asks for. -/
def Url.firstK (url : Url) : String := (url.param "k").getD "12"

variable {casing : Casing}

theorem settled_blank : Settled casing ' ' := ⟨by decide, casing.lower_white ' ' (by decide)⟩

/-- A normalized search is its own normal form. -/
theorem normalize_normalize (q : String) :
    normalize casing.toCaseMap (normalize casing.toCaseMap q) = normalize casing.toCaseMap q := by
  have hlower := @toList_toLowerCase casing (trim q)
  have htext : (normalize casing.toCaseMap q).toList =
      collapseChars false (lowerAfter casing [] (trim q).toList) := by
    rw [normalize, collapse, String.toList_ofList, hlower]
  have htrim : trim (normalize casing.toCaseMap q) = normalize casing.toCaseMap q := by
    apply Trimmed.trim_eq
    rw [htext]
    exact ((trimmed_trim q).lowerAfter []).collapseChars
  have hsettled : ∀ c ∈ (normalize casing.toCaseMap q).toList, Settled casing c := by
    intro c hc
    rw [htext] at hc
    rcases mem_of_mem_collapseChars hc with rfl | hc
    · exact settled_blank
    · exact settled_of_mem_lowerAfter hc
  have hcase : casing.toLowerCase (normalize casing.toCaseMap q) =
      normalize casing.toCaseMap q := by
    rw [← String.toList_inj, toList_toLowerCase, lowerAfter_of_settled hsettled]
  have hcollapse : collapse (normalize casing.toCaseMap q) = normalize casing.toCaseMap q := by
    rw [← String.toList_inj, collapse, String.toList_ofList, htext, collapseChars_collapseChars]
  calc normalize casing.toCaseMap (normalize casing.toCaseMap q)
      = collapse (casing.toLowerCase (trim (normalize casing.toCaseMap q))) := rfl
    _ = normalize casing.toCaseMap q := by rw [htrim, hcase, hcollapse]

end Normalize

/-! ## The query of a key -/

section Query

/-- A text as a form spells it. -/
def formText (s : String) : List Char := (formEncode s).toList

/-- The bytes that a form leaves as they are. -/
def formPlain (b : UInt8) : Bool :=
  (48 ≤ b && b ≤ 57) || (65 ≤ b && b ≤ 90) || (97 ≤ b && b ≤ 122) || [42, 45, 46, 95].contains b

theorem formByte_eq (b : UInt8) : formByte b =
    if b = 32 then ['+'] else if formPlain b then [Char.ofNat b.toNat]
    else ['%', hexDigit (b.toNat / 16), hexDigit (b.toNat % 16)] := rfl

private theorem formPlain_spelling : ∀ n < 256, formPlain (UInt8.ofNat n) = true →
    Char.ofNat n ≠ '%' ∧ formChar (Char.ofNat n) = [UInt8.ofNat n] ∧
      Char.ofNat n ∉ ['=', '&', '#', '?'] := by
  decide +kernel

theorem formPlain_char {b : UInt8} (h : formPlain b = true) : Char.ofNat b.toNat ≠ '%' ∧
    formChar (Char.ofNat b.toNat) = [b] ∧ Char.ofNat b.toNat ∉ ['=', '&', '#', '?'] := by
  have hspelling := formPlain_spelling b.toNat b.toNat_lt
  rw [UInt8.ofNat_toNat] at hspelling
  exact hspelling h

theorem formBytes_formByte (b : UInt8) (rest : List Char) :
    formBytes (formByte b ++ rest) = b :: formBytes rest := by
  rw [formByte_eq]
  split_ifs with hblank hplain
  · rw [hblank, List.singleton_append, formBytes_cons (by decide)]
    rfl
  · obtain ⟨hpercent, hchar, -⟩ := formPlain_char hplain
    rw [List.singleton_append, formBytes_cons hpercent, hchar]
    rfl
  · have hdigit : ∀ n < 16, hexNumber? (hexDigit n) = some n := by decide
    have hlt := b.toNat_lt
    have hescape := formBytes_escape (hdigit (b.toNat / 16) (by omega))
      (hdigit (b.toNat % 16) (by omega)) rest
    rwa [Nat.div_add_mod, UInt8.ofNat_toNat] at hescape

/-- A form spells a text without the characters between the parts of a URL. -/
theorem not_mem_formText {c : Char} (hc : c ∈ ['=', '&', '#', '?']) (s : String) :
    c ∉ formText s := by
  have hhex : ∀ n < 16, hexDigit n ∉ ['=', '&', '#', '?'] := by decide
  rw [formText, formEncode, String.toList_ofList, List.mem_flatMap]
  rintro ⟨b, -, hmem⟩
  have hlt := b.toNat_lt
  rw [formByte_eq] at hmem
  split_ifs at hmem with hblank hplain
  · rw [List.mem_singleton.1 hmem] at hc
    exact absurd hc (by decide)
  · rw [List.mem_singleton.1 hmem] at hc
    exact (formPlain_char hplain).2.2 hc
  · rcases List.mem_cons.1 hmem with rfl | hmem
    · exact absurd hc (by decide)
    · rcases List.mem_pair.1 hmem with rfl | rfl
      · exact hhex _ (by omega) hc
      · exact hhex _ (by omega) hc

theorem spells_formText : Spells formText where
  read s := by
    rw [formText, formEncode, String.toList_ofList]
    exact readText_flatMap formBytes_formByte s
  plain s := ⟨not_mem_formText (by decide) s, not_mem_formText (by decide) s⟩

variable {caseMap : CaseMap}

/-- The query of a key is a form. -/
theorem toList_searchQuery (url : Url) : (searchQuery caseMap url).toList =
    '?' :: writeForm formText [("k", url.firstK), ("q", url.normalQ caseMap)] := by
  have hk : formText "k" = ['k'] := by decide +kernel
  have hq : formText "q" = ['q'] := by decide +kernel
  simp only [searchQuery, String.toList_append, writeForm, List.map_cons, List.map_nil, writePair,
    hk, hq, List.intercalate_cons_cons, List.intercalate_singleton]
  simp [formText, Url.firstK, Url.normalQ, normalize]

/-- The query of a key reads back to what it asks for. -/
theorem readForm_searchQuery (url : Url) : readForm ((searchQuery caseMap url).toList.drop 1) =
    some [("k", url.firstK), ("q", url.normalQ caseMap)] := by
  rw [toList_searchQuery, List.drop_one, List.tail_cons]
  exact readForm_writeForm spells_formText _

/-- No fragment starts in the query of a key. -/
theorem hash_not_mem_searchQuery (url : Url) : '#' ∉ (searchQuery caseMap url).toList := by
  have htext : ∀ s, '#' ∉ (formEncode s).toList := not_mem_formText (by decide)
  have hwords : '#' ∉ "?".toList ∧ '#' ∉ "k=".toList ∧ '#' ∉ "&q=".toList := by decide
  simp only [searchQuery, String.toList_append, List.mem_append, htext, hwords, or_self,
    not_false_eq_true]

end Query

/-! ## Reading a URL -/

/-- Nothing that is taken of a text before its first question mark has one. -/
theorem question_not_mem_take (n : ℕ) (text : List Char) :
    '?' ∉ (String.ofList ((text.takeWhile (· ≠ '?')).take n)).toList := by
  rw [String.toList_ofList]
  intro hmem
  have hplain := List.all_eq_true.1 List.all_takeWhile '?' (List.mem_of_mem_take hmem)
  exact of_decide_eq_true hplain rfl

/-- The parts of a URL that is written as the platform writes one, with a scheme, a host and
a path: `new URL`, which changes nothing of such a text. -/
def readUrl (href : String) : Option Url := do
  let text := href.toList.takeWhile (· ≠ '#')
  let query := (text.dropWhile (· ≠ '?')).drop 1
  let scheme ← ["https://", "http://"].find? fun scheme =>
    scheme.toList.isPrefixOf (text.takeWhile (· ≠ '?'))
  let rest := (text.takeWhile (· ≠ '?')).drop scheme.length
  let host := rest.takeWhile (· ≠ '/')
  let path := rest.dropWhile (· ≠ '/')
  if host = [] then none
  else do
    let searchParams ← readForm query
    return {
      origin := String.ofList ((text.takeWhile (· ≠ '?')).take (scheme.length + host.length))
      pathname := if path = [] then "/" else String.ofList path
      search := if query = [] then "" else String.ofList ('?' :: query)
      searchParams := searchParams
      plain := question_not_mem_take _ text }

/-- An origin, as the platform writes one. -/
def IsOrigin (origin : String) : Prop :=
  ∃ scheme ∈ ["https://", "http://"], ∃ host : List Char, host ≠ [] ∧
    (∀ c ∈ ['/', '?', '#'], c ∉ host) ∧ origin.toList = scheme.toList ++ host

/-- The scheme of a text is found. -/
theorem find?_scheme {scheme : String} (h : scheme ∈ ["https://", "http://"]) (rest : List Char) :
    (["https://", "http://"].find? fun found => found.toList.isPrefixOf (scheme.toList ++ rest)) =
      some scheme := by
  simp only [List.mem_cons, List.not_mem_nil, or_false] at h
  rcases h with rfl | rfl
  · rfl
  · rfl

/-- The parts of a URL are read back. -/
theorem exists_readUrl {href origin : String} {path query : List Char}
    {params : List (String × String)} (horigin : IsOrigin origin)
    (hpath : ∀ c ∈ ['?', '#'], c ∉ path) (hquery : '#' ∉ query) (hne : query ≠ [])
    (hparams : readForm query = some params)
    (hhref : href.toList = origin.toList ++ '/' :: path ++ '?' :: query) :
    ∃ url, readUrl href = some url ∧ url.origin = origin ∧
      url.pathname = String.ofList ('/' :: path) ∧ url.search = String.ofList ('?' :: query) ∧
        url.searchParams = params := by
  obtain ⟨scheme, hscheme, host, hhost, hplain, horigin⟩ := horigin
  have hfree : ∀ c ∈ ['?', '#'], c ∉ origin.toList ++ '/' :: path := by
    intro c hc hmem
    have hslash : c ∉ scheme.toList ++ ['/'] := by
      simp only [List.mem_cons, List.not_mem_nil, or_false] at hscheme hc
      rcases hscheme with rfl | rfl <;> rcases hc with rfl | rfl <;> decide
    have hhere : c ∉ host := hplain c (List.mem_cons_of_mem _ hc)
    have hthere : c ∉ path := hpath c hc
    simp_all
  have htext : href.toList.takeWhile (· ≠ '#') =
      (origin.toList ++ '/' :: path) ++ '?' :: query := by
    rw [hhref, List.takeWhile_eq_self_iff]
    intro c hc
    refine decide_eq_true ?_
    rintro rfl
    rcases List.mem_append.1 hc with hc | hc
    · exact hfree '#' (by decide) hc
    · rcases List.mem_cons.1 hc with heq | hc
      · exact absurd heq (by decide)
      · exact hquery hc
  have hfront := takeWhile_ne_append (hfree '?' (by decide)) query
  have hback := dropWhile_ne_append (hfree '?' (by decide)) query
  have hhostCut := takeWhile_ne_append (hplain '/' (by decide)) path
  have hpathCut := dropWhile_ne_append (hplain '/' (by decide)) path
  have hrest : origin.toList ++ '/' :: path = scheme.toList ++ (host ++ '/' :: path) := by
    rw [horigin, List.append_assoc]
  have hdrop : (scheme.toList ++ (host ++ '/' :: path)).drop scheme.length = host ++ '/' :: path :=
    List.drop_left' String.length_toList
  have htake : (scheme.toList ++ (host ++ '/' :: path)).take (scheme.length + host.length) =
      origin.toList := by
    rw [horigin, ← List.append_assoc]
    apply List.take_left'
    rw [List.length_append, String.length_toList]
  rw [hrest] at htext hfront hback
  have hread : readUrl href = some {
      origin := origin
      pathname := String.ofList ('/' :: path)
      search := String.ofList ('?' :: query)
      searchParams := params
      plain := fun h => hfree '?' (by decide) (List.mem_append_left _ h) } := by
    simp only [readUrl, htext, hfront, hback, List.drop_one, List.tail_cons,
      find?_scheme hscheme, Option.bind_eq_bind, Option.bind_some, hdrop, hhostCut, hpathCut,
      if_neg hhost, hparams, htake, if_neg hne, String.ofList_toList, reduceCtorEq, if_false]
    rfl
  exact ⟨_, hread, rfl, rfl, rfl, rfl⟩

/-! ## Keys -/

section Keys

variable {casing : Casing} {url other : Url}

theorem searchCacheKey_eq (hpath : url.pathname = "/api/search") :
    searchCacheKey casing.toCaseMap url =
      some (url.origin ++ "/api/search" ++ searchQuery casing.toCaseMap url) := by
  rw [searchCacheKey, if_neg (not_not.2 hpath)]

/-- The query of a key is spelled by what it asks for, and spells it. -/
theorem searchQuery_inj : searchQuery casing.toCaseMap url = searchQuery casing.toCaseMap other ↔
    url.firstK = other.firstK ∧
      url.normalQ casing.toCaseMap = other.normalQ casing.toCaseMap := by
  constructor
  · intro heq
    have hread := @readForm_searchQuery casing.toCaseMap url
    rw [heq, readForm_searchQuery] at hread
    simp only [Option.some.injEq, List.cons.injEq, Prod.mk.injEq, true_and, and_true] at hread
    exact ⟨hread.1.symm, hread.2.symm⟩
  · rintro ⟨hk, hq⟩
    rw [← String.toList_inj, toList_searchQuery, toList_searchQuery, hk, hq]

/-- A URL that asks for a normalized search has the query of any URL that it was made from. -/
theorem searchQuery_of_params {keyUrl : Url} (h : keyUrl.searchParams =
    [("k", url.firstK), ("q", url.normalQ casing.toCaseMap)]) :
    searchQuery casing.toCaseMap keyUrl = searchQuery casing.toCaseMap url := by
  have hk : keyUrl.param "k" = some url.firstK := by
    rw [Url.param, h]
    rfl
  have hq : keyUrl.param "q" = some (url.normalQ casing.toCaseMap) := by
    rw [Url.param, h]
    rfl
  apply searchQuery_inj.2
  constructor
  · rw [Url.firstK, hk]
    rfl
  · rw [Url.normalQ, hq]
    exact normalize_normalize _

/-- The key of a search is a URL that asks for the same, in the form that every URL that asks
for it has. -/
theorem searchCacheKey_canonical (hpath : url.pathname = "/api/search")
    (hother : other.pathname = "/api/search") :
    (searchCacheKey casing.toCaseMap url = searchCacheKey casing.toCaseMap other ↔
      url.origin = other.origin ∧ url.firstK = other.firstK ∧
        url.normalQ casing.toCaseMap = other.normalQ casing.toCaseMap) ∧
    (IsOrigin url.origin → ∃ key keyUrl,
      searchCacheKey casing.toCaseMap url = some key ∧ readUrl key = some keyUrl ∧
        keyUrl.origin = url.origin ∧ keyUrl.pathname = "/api/search" ∧
        searchCacheKey casing.toCaseMap keyUrl = some key ∧
        readForm (keyUrl.search.toList.drop 1) =
          some [("k", url.firstK), ("q", url.normalQ casing.toCaseMap)]) := by
  have hkey := @searchCacheKey_eq casing url hpath
  constructor
  · constructor
    · intro heq
      obtain ⟨horigin, hquery⟩ := searchCacheKey_inj hkey (heq ▸ hkey)
      exact ⟨horigin, searchQuery_inj.1 hquery⟩
    · rintro ⟨horigin, hasked⟩
      rw [hkey, searchCacheKey_eq hother, horigin, searchQuery_inj.2 hasked]
  · intro horigin
    obtain ⟨query, hquery⟩ := exists_searchQuery casing.toCaseMap url
    have hform := @readForm_searchQuery casing.toCaseMap url
    have hhash := @hash_not_mem_searchQuery casing.toCaseMap url
    rw [hquery] at hform hhash
    have hne : query ≠ [] := by
      rintro rfl
      cases hform
    have hhref := toList_searchCacheKey hkey
    rw [hquery] at hhref
    obtain ⟨keyUrl, hread, hkeyOrigin, hkeyPath, hkeySearch, hkeyParams⟩ :=
      @exists_readUrl _ _ "api/search".toList _ _ horigin
        (List.all_iff_forall_prop.1 (by decide)) (fun hmem => hhash (List.mem_cons_of_mem _ hmem))
        hne hform hhref
    have hpathname : keyUrl.pathname = "/api/search" := hkeyPath
    refine ⟨_, keyUrl, hkey, hread, hkeyOrigin, hpathname, ?_, ?_⟩
    · rw [searchCacheKey_eq hpathname, hkeyOrigin, searchQuery_of_params hkeyParams]
    · rw [hkeySearch, String.toList_ofList]
      exact hform

end Keys

/-! ## An example -/

/-- The lowercase of ASCII letters and of sigma. -/
def asciiLower (c : Char) : List Char :=
  if c = 'Σ' then ['σ'] else if c.toNat < 128 then [c.toLower] else [c]

theorem asciiLower_cases (c : Char) : (c = 'Σ' ∧ asciiLower c = ['σ']) ∨
    (asciiLower c = [c] ∧ c ≠ 'Σ') ∨ c.toNat < 128 ∧ asciiLower c = [c.toLower] := by
  unfold asciiLower
  split_ifs with hsigma hascii
  · exact Or.inl ⟨hsigma, rfl⟩
  · exact Or.inr (Or.inr ⟨hascii, rfl⟩)
  · exact Or.inr (Or.inl ⟨rfl, hsigma⟩)

private theorem asciiLower_table : ∀ n < 128, (Char.ofNat n).toLower ≠ 'Σ' ∧
    asciiLower (Char.ofNat n).toLower = [(Char.ofNat n).toLower] ∧
    (isWhite (Char.ofNat n) = true → asciiLower (Char.ofNat n) = [Char.ofNat n]) ∧
    (isWhite (Char.ofNat n) = false → isWhite (Char.ofNat n).toLower = false) := by
  decide +kernel

theorem asciiLower_ascii {c : Char} (h : c.toNat < 128) : c.toLower ≠ 'Σ' ∧
    asciiLower c.toLower = [c.toLower] ∧ (isWhite c = true → asciiLower c = [c]) ∧
    (isWhite c = false → isWhite c.toLower = false) := by
  have htable := asciiLower_table c.toNat h
  rwa [Char.ofNat_toNat] at htable

/-- The case conversion of a text of ASCII and sigma. -/
def asciiCasing : Casing where
  toLowerCase s := String.ofList (Rag.spell asciiLower Char.isAlpha (fun _ => false) [] s.toList)
  ascii s h := by
    have hspell : ∀ before (text : List Char), (∀ c ∈ text, c.toNat < 128) →
        Rag.spell asciiLower Char.isAlpha (fun _ => false) before text =
          text.map Char.toLower := by
      intro before text htext
      induction text generalizing before with
      | nil => rfl
      | cons c text ih =>
          have hc := htext c List.mem_cons_self
          have hsigma : c ≠ 'Σ' := fun heq => absurd (heq ▸ hc) (by decide)
          rw [Rag.spell, if_neg hsigma, asciiLower, if_neg hsigma, if_pos hc,
            ih _ fun d hd => htext d (List.mem_cons_of_mem _ hd)]
          rfl
    rw [hspell [] s.toList h]
  lowerChar := asciiLower
  isCased := Char.isAlpha
  isIgnorable _ := false
  lower_eq _ := rfl
  lower_ne_nil c := by
    rcases asciiLower_cases c with ⟨-, h⟩ | ⟨h, -⟩ | ⟨-, h⟩ <;> simp [h]
  lower_lower c d hd := by
    rcases asciiLower_cases c with ⟨-, h⟩ | ⟨h, hsigma⟩ | ⟨hascii, h⟩
    · rw [h, List.mem_singleton] at hd
      subst hd
      exact ⟨by decide, by decide⟩
    · rw [h, List.mem_singleton] at hd
      subst hd
      exact ⟨hsigma, h⟩
    · rw [h, List.mem_singleton] at hd
      subst hd
      exact ⟨(asciiLower_ascii hascii).1, (asciiLower_ascii hascii).2.1⟩
  lower_sigma := by decide
  lower_white c hc := by
    rcases asciiLower_cases c with ⟨rfl, -⟩ | ⟨h, -⟩ | ⟨hascii, -⟩
    · exact absurd hc (by decide)
    · exact h
    · exact (asciiLower_ascii hascii).2.2.1 hc
  lower_plain c hc d hd := by
    rcases asciiLower_cases c with ⟨-, h⟩ | ⟨h, -⟩ | ⟨hascii, h⟩
    · rw [h, List.mem_singleton] at hd
      subst hd
      decide
    · rw [h, List.mem_singleton] at hd
      exact hd ▸ hc
    · rw [h, List.mem_singleton] at hd
      exact hd ▸ (asciiLower_ascii hascii).2.2.2 hc

/-- A search for televisions, with a parameter that does not matter. -/
def tvSearch : Url where
  origin := "https://x"
  pathname := "/api/search"
  search := "?q=%20TV&k=5&utm=y"
  searchParams := [("q", " TV"), ("k", "5"), ("utm", "y")]
  plain := by decide

/-- The same search, spelled in another way. -/
def tvAgain : Url where
  origin := "https://x"
  pathname := "/api/search"
  search := "?k=5&q=tv&q=radio"
  searchParams := [("k", "5"), ("q", "tv"), ("q", "radio")]
  plain := by decide

theorem isOrigin_tv : IsOrigin tvSearch.origin :=
  ⟨"https://", by decide, ['x'], by decide, List.all_iff_forall_prop.1 (by decide), rfl⟩

/-- Both have one key, which is a URL of its own. -/
theorem searchCacheKey_canonical_tv :
    (searchCacheKey asciiCasing.toCaseMap tvSearch = searchCacheKey asciiCasing.toCaseMap tvAgain ∧
      searchCacheKey asciiCasing.toCaseMap tvSearch = some "https://x/api/search?k=5&q=tv") ∧
    ∃ key keyUrl, searchCacheKey asciiCasing.toCaseMap tvSearch = some key ∧
      readUrl key = some keyUrl ∧ keyUrl.origin = tvSearch.origin ∧
        keyUrl.pathname = "/api/search" ∧
        searchCacheKey asciiCasing.toCaseMap keyUrl = some key ∧
        readForm (keyUrl.search.toList.drop 1) = some [("k", tvSearch.firstK),
          ("q", tvSearch.normalQ asciiCasing.toCaseMap)] :=
  ⟨⟨(@searchCacheKey_canonical asciiCasing tvSearch tvAgain rfl rfl).1.2 (by decide +kernel),
      by decide +kernel⟩,
    (@searchCacheKey_canonical asciiCasing tvSearch tvAgain rfl rfl).2 isOrigin_tv⟩

end DealFinder.Edge
