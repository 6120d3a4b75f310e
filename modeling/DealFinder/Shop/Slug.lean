/-
# Slugs

`offer_slug` writes the words of a title, the shop's mark and the SKU with single hyphens between
them. The title part ends where a word ends, as long as the first word fits, and the SKU is what
stands behind the last mark, so a slug names one SKU whatever the title is.
-/

import DealFinder.Rag.Language
import DealFinder.Shop.Search
import Mathlib.Data.Bool.AllAny

namespace DealFinder.Shop

open DealFinder.Math DealFinder.Rag

/-- `[a-z0-9]+(-[a-z0-9]+)*`. -/
def IsSlug (text : List Char) : Prop :=
  ∃ words, words ≠ [] ∧ AreWords isTokenChar words ∧ text = ['-'].intercalate words

/-- The mark of the shop. -/
def mark : List Char := "bestbuy-".toList

/-- What stands behind the last mark of a text. -/
def BehindLastMark (text after : List Char) : Prop :=
  (∃ before, text = before ++ mark ++ after) ∧
    ∀ before' after', text = before' ++ mark ++ after' → after <:+ after'

theorem hyphen_not_token : isTokenChar '-' = false := by decide

/-! ## The title part -/

/-- Substitution and stripping leave the tokens, joined by hyphens. -/
theorem hyphenated_eq (text : String) : hyphenated text = ['-'].intercalate (findTokens text) := by
  rw [hyphenated, trim_collapse hyphen_not_token, findTokens_eq]

theorem areWords_findTokens (text : String) : AreWords isTokenChar (findTokens text) := by
  rw [findTokens_eq]
  exact areWords_runs isTokenChar text.toList

/-- What stands before the last hyphen of a text. -/
theorem before_last_hyphen {cut : List Char} (h : '-' ∈ cut) :
    ∃ before after, cut = before ++ '-' :: after ∧
      ((cut.reverse.dropWhile (· ≠ '-')).drop 1).reverse = before := by
  obtain ⟨last, front, hcut⟩ : ∃ last front, cut.reverse = last ++ '-' :: front ∧ '-' ∉ last := by
    have hmem : '-' ∈ cut.reverse := List.mem_reverse.2 h
    obtain ⟨last, front, hcut, hnot⟩ := List.eq_append_cons_of_mem hmem
    exact ⟨last, front, hcut, hnot⟩
  refine ⟨front.reverse, last.reverse, ?_, ?_⟩
  · rw [← List.reverse_reverse cut, hcut.1]
    simp
  · rw [hcut.1, dropWhile_ne_append hcut.2]
    rfl

/-- The first word is too long if there is no hyphen among the first characters. -/
theorem first_word_of_no_hyphen {words : List (List Char)} {n : ℕ}
    (hlong : n < (['-'].intercalate words).length)
    (hno : '-' ∉ (['-'].intercalate words).take (n + 1)) :
    ∃ w, words.head? = some w ∧ n < w.length ∧ (['-'].intercalate words).take n = w.take n := by
  cases words with
  | nil => simp at hlong
  | cons w words =>
      cases words with
      | nil =>
          rw [List.intercalate_singleton] at hlong
          exact ⟨w, rfl, hlong, by rw [List.intercalate_singleton]⟩
      | cons v words =>
          rw [List.intercalate_cons_cons, List.append_assoc, List.singleton_append] at hno ⊢
          have hlength : n < w.length := by
            by_contra hshort
            apply hno
            rw [List.take_append, List.mem_append]
            right
            obtain ⟨k, hk⟩ : ∃ k, n + 1 - w.length = k + 1 := ⟨n - w.length, by omega⟩
            rw [hk, List.take_succ_cons]
            exact List.mem_cons_self
          exact ⟨w, rfl, hlength, List.take_append_of_le_length hlength.le⟩

/-- The title part: the first words, joined, or the beginning of a first word that is too long. -/
def IsTitlePart (words : List (List Char)) (part : List Char) : Prop :=
  (∃ front back, words = front ++ back ∧ (words ≠ [] → front ≠ []) ∧
      part = ['-'].intercalate front) ∨
    ∃ w, words.head? = some w ∧ 60 < w.length ∧ part = w.take 60

theorem cutWords_of_long {text : List Char} (h : 60 < text.length) :
    cutWords text = trim '-' (if '-' ∈ text.take 61 then
      (((text.take 61).reverse.dropWhile (· ≠ '-')).drop 1).reverse else text.take 60) := by
  rw [cutWords, if_neg (not_le.2 h)]
  rfl

/-- The cut leaves at most 60 characters, and ends where a word ends. -/
theorem cutWords_spec {words : List (List Char)} (hwords : AreWords isTokenChar words) :
    (cutWords (['-'].intercalate words)).length ≤ 60 ∧
      IsTitlePart words (cutWords (['-'].intercalate words)) := by
  rcases le_or_gt (['-'].intercalate words).length 60 with hshort | hlong
  · have hall : IsTitlePart words (['-'].intercalate words) := by
      left
      exact ⟨words, [], by simp, id, rfl⟩
    rw [cutWords, if_pos hshort]
    exact ⟨hshort, hall⟩
  · rw [cutWords_of_long hlong]
    split_ifs with hhyphen
    · obtain ⟨before, after, hcut, hbefore⟩ := before_last_hyphen hhyphen
      have hjoined : ['-'].intercalate words =
          before ++ '-' :: (after ++ (['-'].intercalate words).drop 61) := by
        rw [← List.cons_append, ← List.append_assoc, ← hcut, List.take_append_drop]
      have hlength : before.length ≤ 60 := by
        have htake := List.length_take_le 61 (['-'].intercalate words)
        rw [hcut, List.length_append, List.length_cons] at htake
        omega
      obtain ⟨front, back, hparts, hfront, -, hpart, -⟩ :=
        cut_joined hyphen_not_token hwords hjoined
      have hwords' : AreWords isTokenChar front :=
        fun w hw => hwords w (hparts ▸ List.mem_append_left _ hw)
      have htrim : trim '-' before = before := by
        rw [hpart, trim_joined_self hyphen_not_token hwords']
      rw [hbefore, htrim]
      exact ⟨hlength, .inl ⟨front, back, hparts, fun _ => hfront, hpart⟩⟩
    · obtain ⟨w, hw, hlength, htake⟩ := first_word_of_no_hyphen hlong hhyphen
      obtain ⟨hne, hin⟩ := hwords w (List.mem_of_head? hw)
      have hword : AreWords isTokenChar [w.take 60] := by
        intro u hu
        rw [List.mem_singleton.1 hu]
        exact ⟨by simpa using hne, fun y hy => hin y (List.mem_of_mem_take hy)⟩
      have htrim : trim '-' (w.take 60) = w.take 60 := by
        simpa using trim_joined_self (x := '-') hyphen_not_token hword
      rw [htake, htrim]
      exact ⟨List.length_take_le 60 w, .inr ⟨w, hw, hlength, rfl⟩⟩

/-- A title part is words joined, if it is not empty. -/
theorem IsTitlePart.joined {words : List (List Char)} {part : List Char}
    (h : IsTitlePart words part) (hwords : AreWords isTokenChar words) :
    ∃ front, AreWords isTokenChar front ∧ part = ['-'].intercalate front := by
  rcases h with ⟨front, back, rfl, -, hpart⟩ | ⟨w, hw, -, hpart⟩
  · exact ⟨front, fun w hw => hwords w (List.mem_append_left _ hw), hpart⟩
  · obtain ⟨hne, hin⟩ := hwords w (List.mem_of_head? hw)
    have hword : AreWords isTokenChar [w.take 60] := by
      intro u hu
      rw [List.mem_singleton.1 hu]
      exact ⟨by simpa using hne, fun y hy => hin y (List.mem_of_mem_take hy)⟩
    exact ⟨[w.take 60], hword, by simpa using hpart⟩

/-! ## The SKU -/

/-- Behind a separator without another one stands the end of what stands behind any. -/
theorem suffix_of_no_separator {α : Type*} {x : α} {before after before' after' : List α}
    (h : x ∉ after) (htext : before ++ x :: after = before' ++ x :: after') : after <:+ after' := by
  rcases List.append_eq_append_iff.1 htext with ⟨more, -, hmore⟩ | ⟨more, -, hmore⟩
  · cases more with
    | nil =>
        rw [(List.cons.inj hmore).2]
    | cons y more =>
        rw [(List.cons.inj hmore).2] at h
        exact absurd (by simp) h
  · cases more with
    | nil =>
        rw [(List.cons.inj hmore).2]
    | cons y more =>
        rw [(List.cons.inj hmore).2]
        exact ⟨more ++ [x], by simp⟩

/-- What stands behind the last mark is unique. -/
theorem BehindLastMark.unique {text after after' : List Char} (h : BehindLastMark text after)
    (h' : BehindLastMark text after') : after = after' := by
  obtain ⟨⟨before, htext⟩, hlast⟩ := h
  obtain ⟨⟨before', htext'⟩, hlast'⟩ := h'
  have hshort := (hlast before' after' htext').length_le
  exact (hlast before' after' htext').eq_of_length_le (hlast' before after htext).length_le

/-- Behind a mark without a hyphen stands no other mark. -/
theorem behindLastMark_of_no_hyphen {before after : List Char} (h : '-' ∉ after) :
    BehindLastMark (before ++ mark ++ after) after := by
  have hends : ∀ text rest : List Char,
      text ++ mark ++ rest = (text ++ "bestbuy".toList) ++ '-' :: rest := by
    intro text rest
    have hmark : mark = "bestbuy".toList ++ ['-'] := by decide
    rw [hmark]
    simp
  constructor
  · exact ⟨before, rfl⟩
  · intro before' after' htext
    rw [hends, hends] at htext
    exact suffix_of_no_separator h htext

section Digits

variable {sku : String} (hdigits : ∀ c ∈ sku.toList, c.isDigit = true)

include hdigits

theorem hyphen_not_mem_digits : '-' ∉ sku.toList := by
  intro hmem
  exact absurd (hdigits '-' hmem) (by decide)

/-- A digit is a token character. -/
theorem isTokenChar_of_digits : ∀ c ∈ sku.toList, isTokenChar c = true := by
  intro c hc
  obtain ⟨hlow, hhigh⟩ := Char.isDigit_iff_toNat.1 (hdigits c hc)
  have hrange : '0' ≤ c ∧ c ≤ '9' := ⟨hlow, hhigh⟩
  simp [isTokenChar, hrange]

theorem lower_digits (lang : Language) : lang.lower sku = sku := by
  have hascii : ∀ c ∈ sku.toList, c.toNat < 128 :=
    fun c hc => toNat_lt_of_isDigit (hdigits c hc)
  have hlower : ∀ c ∈ sku.toList, c.toLower = id c :=
    fun c hc => toLower_of_isDigit (hdigits c hc)
  have hspell := @spell_ascii lang _ hascii [] []
  rw [List.append_nil] at hspell
  rw [lang.lower_eq, hspell, spell, List.append_nil, List.map_congr_left hlower, List.map_id,
    String.ofList_toList]

/-- A number is a token. -/
theorem hyphenated_digits (hne : sku ≠ "") : hyphenated sku = sku.toList := by
  have hlist : sku.toList ≠ [] := by simpa using hne
  rw [hyphenated_eq, findTokens_eq, runs_of_inside hlist (isTokenChar_of_digits hdigits),
    List.intercalate_singleton]

end Digits

/-! ## The slug -/

/-- The mark and the SKU behind the words of a title part. -/
theorem isSlug_parts {front : List (List Char)} {sku : List Char}
    (hfront : AreWords isTokenChar front) (hsku : AreWords isTokenChar [sku]) :
    IsSlug ((if ['-'].intercalate front = [] then [] else ['-'].intercalate front ++ ['-']) ++
      mark ++ sku) := by
  have hmark : ∀ y ∈ "bestbuy".toList, isTokenChar y = true :=
    List.all_iff_forall_prop.1 (by decide +kernel)
  have htail : AreWords isTokenChar ["bestbuy".toList, sku] := by
    intro w hw
    rcases List.mem_cons.1 hw with rfl | hw
    · exact ⟨by decide, hmark⟩
    · exact hsku w hw
  have hjoined : ['-'].intercalate ["bestbuy".toList, sku] = mark ++ sku := by
    rw [List.intercalate_cons_cons, List.intercalate_singleton]
    rfl
  refine ⟨front ++ ["bestbuy".toList, sku], by simp, ?_, ?_⟩
  · intro w hw
    rcases List.mem_append.1 hw with hw | hw
    · exact hfront w hw
    · exact htail w hw
  · cases front with
    | nil =>
        rw [List.nil_append, hjoined]
        rfl
    | cons w front =>
        obtain ⟨c, rest, hcons, -⟩ := exists_cons_joined (x := '-') hfront (by simp)
        have hne : ['-'].intercalate (w :: front) ≠ [] := by
          rw [hcons]
          simp
        rw [if_neg hne, joined_append (by simp) (by simp), hjoined]
        simp

/-- What a slug says of the words of a title and a SKU. -/
structure Identifies (words : List (List Char)) (sku slug : String) : Prop where
  clean : IsSlug slug.toList
  ends : (mark ++ sku.toList) <:+ slug.toList
  behind : BehindLastMark slug.toList sku.toList
  title : ∃ part, IsTitlePart words part ∧ part.length ≤ 60 ∧
    slug.toList = (if part = [] then [] else part ++ ['-']) ++ mark ++ sku.toList

section OfferSlug

variable (lang : Language) (services : Services) {sku : String}

/-- The services of the shop, in a language. -/
def Services.speaking : Services := { services with lower := lang.lower }

/-- The words of a title, once it is folded. -/
def titleWords (title : String) : List (List Char) :=
  findTokens (lang.lower (services.asciiFold title))

theorem offerSlug_eq (title : String) (hne : sku ≠ "")
    (hdigits : ∀ c ∈ sku.toList, c.isDigit = true) :
    ∃ slug, offerSlug (services.speaking lang) title (some sku) = some slug ∧
      slug.toList = (if cutWords (['-'].intercalate (titleWords lang services title)) = [] then []
        else cutWords (['-'].intercalate (titleWords lang services title)) ++ ['-']) ++ mark ++
          sku.toList := by
  have hlower : (services.speaking lang).lower sku = sku := lower_digits hdigits lang
  have hwords : hyphenated ((services.speaking lang).lower
      ((services.speaking lang).asciiFold title)) =
      ['-'].intercalate (titleWords lang services title) := hyphenated_eq _
  have hslug : offerSlug (services.speaking lang) title (some sku) =
      if sku = "" then none
      else
        let words := cutWords (hyphenated ((services.speaking lang).lower
          ((services.speaking lang).asciiFold title)))
        let tail := "bestbuy-" ++ String.ofList (hyphenated ((services.speaking lang).lower sku))
        some (if words = [] then tail else String.ofList words ++ "-" ++ tail) := rfl
  have hmark : "bestbuy-".toList = mark := rfl
  rw [hslug, if_neg hne, hlower, hwords, hyphenated_digits hdigits hne]
  refine ⟨_, rfl, ?_⟩
  split_ifs with hpart
  · rw [String.toList_append, hmark, String.toList_ofList, List.nil_append]
  · rw [String.toList_append, String.toList_append, String.toList_append, hmark,
      String.toList_ofList, String.ofList_toList, List.append_assoc _ mark]
    rfl

/-- Whatever the title and its folding, the slug identifies the SKU. -/
theorem offerSlug_identifies (title : String) (hne : sku ≠ "")
    (hdigits : ∀ c ∈ sku.toList, c.isDigit = true) :
    ∃ slug, offerSlug (services.speaking lang) title (some sku) = some slug ∧
      Identifies (titleWords lang services title) sku slug := by
  obtain ⟨slug, hslug, hparts⟩ := offerSlug_eq lang services title hne hdigits
  have hwords : AreWords isTokenChar (titleWords lang services title) := areWords_findTokens _
  obtain ⟨hlength, htitle⟩ := cutWords_spec hwords
  obtain ⟨front, hfront, hjoined⟩ := htitle.joined hwords
  have hsku : AreWords isTokenChar [sku.toList] := by
    intro w hw
    rw [List.mem_singleton.1 hw]
    exact ⟨by simpa using hne, isTokenChar_of_digits hdigits⟩
  refine ⟨slug, hslug, ?_, ?_, ?_, ?_⟩
  · rw [hparts, hjoined]
    exact isSlug_parts hfront hsku
  · rw [hparts, List.append_assoc]
    exact List.suffix_append _ _
  · rw [hparts]
    exact behindLastMark_of_no_hyphen (hyphen_not_mem_digits hdigits)
  · exact ⟨_, htitle, hlength, hparts⟩

/-- A slug of a SKU is clean and identifies it: no other SKU has the same slug, whatever the
titles. -/
theorem offerSlug_exact (title : String) (hne : sku ≠ "")
    (hdigits : ∀ c ∈ sku.toList, c.isDigit = true) :
    (∃ slug, offerSlug (services.speaking lang) title (some sku) = some slug ∧
      Identifies (titleWords lang services title) sku slug) ∧
    ∀ title' sku', sku' ≠ "" → (∀ c ∈ sku'.toList, c.isDigit = true) → sku' ≠ sku →
      offerSlug (services.speaking lang) title' (some sku') ≠
        offerSlug (services.speaking lang) title (some sku) := by
  constructor
  · exact offerSlug_identifies lang services title hne hdigits
  · intro title' sku' hne' hdigits' hother hsame
    obtain ⟨slug, hslug, hidentifies⟩ := offerSlug_identifies lang services title hne hdigits
    obtain ⟨slug', hslug', hidentifies'⟩ := offerSlug_identifies lang services title' hne' hdigits'
    rw [hslug, hslug', Option.some.injEq] at hsame
    rw [hsame] at hidentifies'
    have hbehind := hidentifies'.behind.unique hidentifies.behind
    exact hother (String.toList_inj.1 hbehind)

end OfferSlug

theorem offerSlug_exact_headphones :
    (∃ slug, offerSlug (plainServices.speaking plainLanguage) "Sony WH-1000XM5 / Black!"
        (some "6505727") = some slug ∧
      Identifies (titleWords plainLanguage plainServices "Sony WH-1000XM5 / Black!") "6505727"
        slug) ∧
    offerSlug (plainServices.speaking plainLanguage) "Sony WH-1000XM5 / Black!" (some "6505727") =
      some "sony-wh-1000xm5-black-bestbuy-6505727" := by
  have hdigits : ∀ c ∈ "6505727".toList, c.isDigit = true :=
    List.all_iff_forall_prop.1 (by decide +kernel)
  exact ⟨(offerSlug_exact plainLanguage plainServices "Sony WH-1000XM5 / Black!" (by decide)
    hdigits).1, by decide +kernel⟩

end DealFinder.Shop
