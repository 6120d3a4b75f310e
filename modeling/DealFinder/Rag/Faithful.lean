/-
# The deterministic answer is grounded

The answer names items of the list, each by its title and its price. In the sentences and in
the context a title stands between a space and other text, so its tokens stay whole and no
amount of it goes on. The sentences themselves have no digits but those of prices and
percentages, which have no letters. So whatever the titles are, the amounts of the answer
are in the context and its codes in the titles (`deterministicAnswer_grounded`).
-/

import DealFinder.Rag.Synthesis

namespace DealFinder.Rag

open DealFinder.Math DealFinder.Features

variable {lang : Language}

/-! ## Amounts -/

/-- What stands between a title and its price: a space and a character that is no digit, and
no dollar sign. -/
structure Between (lang : Language) (sep : List Char) : Prop where
  starts : ∃ x rest, sep = ' ' :: x :: rest ∧ isDigit lang x = false
  free : '$' ∉ sep

theorem between_at : Between lang " at ".toList := by
  refine ⟨⟨'a', "t ".toList, rfl, ?_⟩, by decide⟩
  rw [isDigit_ascii (by decide)]
  decide

theorem between_dash : Between lang " — ".toList := by
  refine ⟨⟨'—', " ".toList, rfl, ?_⟩, by decide⟩
  rw [isDigit, lang.decimal_dash]
  rfl

theorem Between.closes {sep : List Char} (h : Between lang sep) (rest : List Char) :
    Closes lang (sep ++ rest) := by
  obtain ⟨y, more, rfl, hy⟩ := h.starts
  intro x hx
  obtain rfl := Option.some.inj hx
  refine ⟨?_, by decide, fun _ z hz => ?_⟩
  · rw [inNumber, isDigit_of_isSpace (by decide)]
    decide
  · obtain rfl := Option.some.inj hz
    exact hy

/-- The amounts of a title and its price are theirs. -/
theorem amounts_titled {sep : List Char} (h : Between lang sep) (title : List Char) (price : ℚ)
    (rest : List Char) :
    amounts lang (title ++ (sep ++ '$' :: ((Shop.fixed 2 price).toList ++ rest))) =
      amounts lang title ++ (shown price ++ amounts lang rest) := by
  rw [amounts_append (h.closes _), amounts_of_no_dollar h.free, amounts_price]

theorem mem_amounts_append {number text : List Char} (front : List Char)
    (h : number ∈ amounts lang text) : number ∈ amounts lang (front ++ text) := by
  obtain ⟨before, after, rfl, hafter⟩ := mem_amounts.1 h
  exact mem_amounts.2 ⟨front ++ before, after, by rw [List.append_assoc], hafter⟩

/-- The amounts that naming an item brings in. -/
def amountsOf (lang : Language) (it : RetrievedItem) : List (List Char) :=
  amounts lang it.title.toList ++ shown it.price

/-- The amounts of an item are in the context. -/
theorem amountsOf_subset {items : List RetrievedItem} {it : RetrievedItem} (h : it ∈ items) :
    amountsOf lang it ⊆ amounts lang (buildContext items).toList := by
  obtain ⟨i, before, after, hcontext⟩ := infix_buildContext h
  have hline : (buildContext items).toList =
      (before ++ ("[" ++ toString i ++ "] ").toList) ++ (it.title.toList ++ (" — ".toList ++
        '$' :: ((Shop.fixed 2 it.price).toList ++
          ((" (" ++ it.source ++ ") [" ++ upper it.verdict ++ "] — " ++ it.reason).toList ++
            after)))) := by
    rw [hcontext, contextLine]
    simp
  intro number hnumber
  rw [hline]
  apply mem_amounts_append
  rw [amounts_titled between_dash, ← List.append_assoc]
  exact List.mem_append_left _ hnumber

/-! ## Codes -/

/-- The codes of a text, as lowercasing leaves them. -/
def codesOf (lang : Language) (text : List Char) : List (List Char) :=
  (runs Shop.isTokenChar (text.flatMap (lowered lang))).filter (isCode lang)

theorem codes_eq (s : String) : (tokens lang s).filter (isCode lang) = codesOf lang s.toList := by
  rw [tokens_eq, codesOf]

/-- A character that no token goes over. -/
def Separates (lang : Language) (x : Char) : Prop :=
  ∃ y, lowered lang x = [y] ∧ Shop.isTokenChar y = false

theorem lowered_ascii {x : Char} (h : x.toNat < 128) : lowered lang x = [x.toLower] := by
  have hsigma : x ≠ 'Σ' := by
    rintro rfl
    exact absurd h (by decide)
  rw [lowered, if_neg hsigma, lang.lowerChar_ascii x h]

theorem lowered_dash : lowered lang '—' = ['—'] := by
  rw [lowered, if_neg (by decide), lang.lowerChar_dash]

theorem separates_ascii {x : Char} (h : x.toNat < 128)
    (htoken : Shop.isTokenChar x.toLower = false) : Separates lang x :=
  ⟨x.toLower, lowered_ascii h, htoken⟩

theorem codesOf_append_of_head {front : List Char} {x : Char} (h : Separates lang x)
    (rest : List Char) :
    codesOf lang (front ++ x :: rest) = codesOf lang front ++ codesOf lang (x :: rest) := by
  obtain ⟨y, hy, htoken⟩ := h
  unfold codesOf
  rw [List.flatMap_append, List.flatMap_cons, hy, List.singleton_append,
    runs_append _ _ htoken, runs_cons _ htoken, List.filter_append]

theorem codesOf_append_of_last {front : List Char} {x : Char} (h : Separates lang x)
    (rest : List Char) :
    codesOf lang (front ++ x :: rest) = codesOf lang (front ++ [x]) ++ codesOf lang rest := by
  obtain ⟨y, hy, htoken⟩ := h
  unfold codesOf
  rw [List.flatMap_append, List.flatMap_cons, hy, List.flatMap_append, List.flatMap_singleton, hy,
    List.singleton_append, runs_append _ _ htoken, runs_append _ _ htoken, runs_nil,
    List.append_nil, List.filter_append]

/-- Text whose characters in lowercase are no digits has no code. -/
theorem codesOf_of_no_digit {text : List Char}
    (h : ∀ x ∈ text, ∀ y ∈ lowered lang x, isDigit lang y = false) : codesOf lang text = [] := by
  rw [codesOf, List.filter_eq_nil_iff]
  intro t ht hcode
  rw [isCode, Bool.and_eq_true, List.any_eq_true, List.any_eq_true] at hcode
  obtain ⟨-, y, hy, hdigit⟩ := hcode
  obtain ⟨x, hx, hy⟩ := List.mem_flatMap.1 ((mem_runs ht).2 y hy).1
  rw [h x hx y hy] at hdigit
  cases hdigit

theorem codesOf_of_no_letter {text : List Char}
    (h : ∀ x ∈ text, ∀ y ∈ lowered lang x, isLetter y = false) : codesOf lang text = [] := by
  rw [codesOf, List.filter_eq_nil_iff]
  intro t ht hcode
  rw [isCode, Bool.and_eq_true, List.any_eq_true, List.any_eq_true] at hcode
  obtain ⟨⟨y, hy, hletter⟩, -⟩ := hcode
  obtain ⟨x, hx, hy⟩ := List.mem_flatMap.1 ((mem_runs ht).2 y hy).1
  rw [h x hx y hy] at hletter
  cases hletter

/-- A character of the sentences: no digit, and of ASCII but for the dash. -/
def isProse (x : Char) : Bool :=
  (x.toNat < 128 && x.toLower.toNat < 128 && !x.toLower.isDigit) || x = '—'

theorem codesOf_of_prose {text : List Char} (h : text.all isProse = true) :
    codesOf lang text = [] := by
  apply codesOf_of_no_digit
  intro x hx y hy
  have hprose := List.all_eq_true.1 h x hx
  simp only [isProse, Bool.or_eq_true, Bool.and_eq_true, decide_eq_true_eq] at hprose
  rcases hprose with ⟨⟨hascii, hlow⟩, hdigit⟩ | rfl
  · rw [lowered_ascii hascii, List.mem_singleton] at hy
    rw [hy, isDigit_ascii hlow]
    simpa using hdigit
  · rw [lowered_dash, List.mem_singleton] at hy
    rw [hy, isDigit, lang.decimal_dash]
    rfl

/-- A number in the sentences has no letter. -/
theorem codesOf_fixed (digits : ℕ) (x : ℚ) :
    codesOf lang (Shop.fixed digits x).toList = [] := by
  apply codesOf_of_no_letter
  intro c hc y hy
  rcases mem_fixed hc with hdigit | rfl | rfl
  · rw [lowered_ascii (toNat_lt_of_isDigit hdigit), toLower_of_isDigit hdigit,
      List.mem_singleton] at hy
    rw [hy, isLetter_of_isDigit hdigit]
  · rw [lowered_ascii (by decide), List.mem_singleton] at hy
    rw [hy]
    decide
  · rw [lowered_ascii (by decide), List.mem_singleton] at hy
    rw [hy]
    decide

theorem dollar_not_mem_fixed (digits : ℕ) (x : ℚ) : '$' ∉ (Shop.fixed digits x).toList :=
  fun h => absurd (mem_fixed h) (by decide)

/-! ## Sentences -/

/-- A sentence that names an item by its title and its price, among text without digits,
numbers without letters, and no other dollar sign. -/
structure IsSentence (lang : Language) (it : RetrievedItem) (text : List Char) : Prop where
  split : ∃ front tail x, text = front ++ ' ' :: (it.title.toList ++ (" at ".toList ++
      '$' :: ((Shop.fixed 2 it.price).toList ++ x :: tail))) ∧
    front.all isProse = true ∧ '$' ∉ front ∧ Separates lang x ∧
    codesOf lang (x :: tail) = [] ∧ '$' ∉ x :: tail

theorem separates_space : Separates lang ' ' := separates_ascii (by decide) (by decide)

/-- The codes of a sentence are those of the title in it. -/
theorem IsSentence.codes {it : RetrievedItem} {text : List Char} (h : IsSentence lang it text) :
    codesOf lang text = codesOf lang it.title.toList := by
  obtain ⟨front, tail, x, rfl, hfront, -, hx, htail, -⟩ := h.split
  have hlabel : codesOf lang (front ++ [' ']) = [] := by
    rw [codesOf_of_prose]
    rw [List.all_append, hfront]
    decide
  have hsep : codesOf lang (" at ".toList ++ ['$']) = [] := codesOf_of_prose (by decide)
  have hdollar : Separates lang '$' := separates_ascii (by decide) (by decide)
  have hat : " at ".toList ++ '$' :: ((Shop.fixed 2 it.price).toList ++ x :: tail) =
      ' ' :: ("at ".toList ++ '$' :: ((Shop.fixed 2 it.price).toList ++ x :: tail)) := rfl
  rw [codesOf_append_of_last separates_space, hlabel, List.nil_append, hat,
    codesOf_append_of_head separates_space, ← hat, codesOf_append_of_last hdollar, hsep,
    List.nil_append, codesOf_append_of_head hx, codesOf_fixed, List.nil_append, htail,
    List.append_nil]

/-- The amounts of a text that starts with a sentence are those of its item, and the rest. -/
theorem IsSentence.amounts {it : RetrievedItem} {text : List Char} (h : IsSentence lang it text)
    (rest : List Char) :
    amounts lang (text ++ rest) = amountsOf lang it ++ amounts lang rest := by
  obtain ⟨front, tail, x, rfl, -, hfree, -, -, hend⟩ := h.split
  have hlabel : '$' ∉ front ++ [' '] := by
    rw [List.mem_append, not_or]
    exact ⟨hfree, by decide⟩
  have htext : (front ++ ' ' :: (it.title.toList ++ (" at ".toList ++
      '$' :: ((Shop.fixed 2 it.price).toList ++ x :: tail)))) ++ rest =
        (front ++ [' ']) ++ (it.title.toList ++ (" at ".toList ++
          '$' :: ((Shop.fixed 2 it.price).toList ++ ((x :: tail) ++ rest)))) := by
    simp
  rw [htext, amounts_of_no_dollar hlabel, amounts_titled between_at, amounts_of_no_dollar hend,
    amountsOf, List.append_assoc]

/-- A number among text without digits brings in no code. -/
theorem codesOf_figure {front back : List Char} {x y : Char} (digits : ℕ) (figure : ℚ)
    (hx : Separates lang x) (hy : Separates lang y) (hfront : (front ++ [x]).all isProse = true)
    (hback : (y :: back).all isProse = true) :
    codesOf lang (front ++ x :: ((Shop.fixed digits figure).toList ++ y :: back)) = [] := by
  rw [codesOf_append_of_last hx, codesOf_of_prose hfront, List.nil_append,
    codesOf_append_of_head hy, codesOf_fixed, codesOf_of_prose hback, List.append_nil]

/-- The sentence of an item, by what stands in front of the title and behind the price. -/
theorem isSentence_intro {it : RetrievedItem} {front tail : List Char} {x : Char}
    (hfront : front.all isProse = true) (hfree : '$' ∉ front) (hx : Separates lang x)
    (hcodes : codesOf lang (x :: tail) = []) (hend : '$' ∉ x :: tail) :
    IsSentence lang it (front ++ ' ' :: (it.title.toList ++ (" at ".toList ++
      '$' :: ((Shop.fixed 2 it.price).toList ++ x :: tail)))) :=
  ⟨front, tail, x, rfl, hfront, hfree, hx, hcodes, hend⟩

theorem at_dollar : " at $".toList = " at ".toList ++ ['$'] := by decide +kernel

theorem separates_percent : Separates lang '%' := separates_ascii (by decide) (by decide)

/-- What the sentence about the best value says after the number. -/
def heroReason : List Char := " under the same-query median).".toList

/-- What the sentence about the trap says before the number. -/
def trapFlag : List Char := "— flagged SUSPICIOUS: it reads".toList

/-- What the sentence about the trap says after the number. -/
def trapReason : List Char :=
  (" under median but sits far below its " ++
    "modeled fair price, the signature of a refurb/mislisting rather than " ++
    "a real bargain.").toList

theorem isSentence_heroPart (it : RetrievedItem) : IsSentence lang it (heroPart it).toList := by
  have htext : (heroPart it).toList = "Best value:".toList ++ ' ' :: (it.title.toList ++
      (" at ".toList ++ '$' :: ((Shop.fixed 2 it.price).toList ++ ' ' :: '(' ::
        ((Shop.fixed 0 (it.medianSignal * 100)).toList ++ '%' :: heroReason)))) := by
    have hopen : "Best value: ".toList = "Best value:".toList ++ [' '] := by decide +kernel
    have hfigure : " (".toList = [' ', '('] := by decide +kernel
    have hreason : "% under the same-query median).".toList = '%' :: heroReason := by
      decide +kernel
    unfold heroPart
    generalize Shop.fixed 2 it.price = price
    generalize Shop.fixed 0 (it.medianSignal * 100) = figure
    simp only [String.toList_append, hopen, at_dollar, hfigure, hreason, List.append_assoc,
      List.cons_append, List.nil_append]
  have hparen : Separates lang '(' := separates_ascii (by decide) (by decide)
  have hprose : ('%' :: heroReason).all isProse = true := by decide +kernel
  have hfree : '$' ∉ '%' :: heroReason := by decide +kernel
  rw [htext]
  apply isSentence_intro (by decide +kernel) (by decide +kernel) separates_space
  · exact @codesOf_figure lang [' '] heroReason '(' '%' 0 (it.medianSignal * 100) hparen
      separates_percent (by decide) hprose
  · rw [List.mem_cons, List.mem_cons, List.mem_append, not_or, not_or, not_or]
    exact ⟨by decide, by decide, dollar_not_mem_fixed _ _, hfree⟩

theorem isSentence_runnerPart (it : RetrievedItem) :
    IsSentence lang it (runnerPart it).toList := by
  have htext : (runnerPart it).toList = "Also consider:".toList ++ ' ' :: (it.title.toList ++
      (" at ".toList ++ '$' :: ((Shop.fixed 2 it.price).toList ++ '.' :: []))) := by
    have hopen : "Also consider: ".toList = "Also consider:".toList ++ [' '] := by decide +kernel
    have hstop : ".".toList = ['.'] := by decide +kernel
    unfold runnerPart
    generalize Shop.fixed 2 it.price = price
    simp only [String.toList_append, hopen, at_dollar, hstop, List.append_assoc, List.cons_append,
      List.nil_append]
  have hpoint : Separates lang '.' := separates_ascii (by decide) (by decide)
  rw [htext]
  exact isSentence_intro (by decide +kernel) (by decide +kernel) hpoint
    (codesOf_of_prose (by decide)) (by decide)

theorem isSentence_trapPart (it : RetrievedItem) : IsSentence lang it (trapPart it).toList := by
  have htext : (trapPart it).toList = "Avoid:".toList ++ ' ' :: (it.title.toList ++
      (" at ".toList ++ '$' :: ((Shop.fixed 2 it.price).toList ++ ' ' :: (trapFlag ++ ' ' ::
        ((Shop.fixed 0 (it.medianSignal * 100)).toList ++ '%' :: trapReason))))) := by
    have hopen : "Avoid: ".toList = "Avoid:".toList ++ [' '] := by decide +kernel
    have hflag : " — flagged SUSPICIOUS: it reads ".toList = ' ' :: (trapFlag ++ [' ']) := by
      decide +kernel
    have hreason : ("% under median but sits far below its " ++
        "modeled fair price, the signature of a refurb/mislisting rather than " ++
        "a real bargain.").toList = '%' :: trapReason := by
      decide +kernel
    unfold trapPart
    generalize "% under median but sits far below its " ++
        "modeled fair price, the signature of a refurb/mislisting rather than " ++
        "a real bargain." = reason at hreason
    generalize Shop.fixed 2 it.price = price
    generalize Shop.fixed 0 (it.medianSignal * 100) = figure
    simp only [String.toList_append, hopen, at_dollar, hflag, hreason, List.append_assoc,
      List.cons_append, List.nil_append]
  have hflag : (' ' :: trapFlag ++ [' ']).all isProse = true := by decide +kernel
  have hfree : '$' ∉ ' ' :: trapFlag := by decide +kernel
  have hprose : ('%' :: trapReason).all isProse = true := by decide +kernel
  have hend : '$' ∉ ' ' :: '%' :: trapReason := by decide +kernel
  rw [htext]
  apply isSentence_intro (by decide +kernel) (by decide +kernel) separates_space
  · exact codesOf_figure 0 _ separates_space separates_percent hflag hprose
  · rw [← List.cons_append, List.mem_append, not_or]
    refine ⟨hfree, ?_⟩
    rw [List.mem_cons, not_or] at hend
    rw [List.mem_cons, not_or, List.mem_append, not_or]
    exact ⟨hend.1, dollar_not_mem_fixed _ _, hend.2⟩

/-! ## The answer -/

/-- The items that the answer names, each with its sentence. -/
def named (items : List RetrievedItem) (hero : RetrievedItem) : List (RetrievedItem × String) :=
  [(hero, heroPart hero)] ++ (runners items hero).head?.toList.map (fun it => (it, runnerPart it)) ++
    (suspicious items).head?.toList.map fun it => (it, trapPart it)

theorem answerText_eq (items : List RetrievedItem) (hero : RetrievedItem) :
    answerText items hero = " ".intercalate ((named items hero).map fun n => n.2) := by
  rw [answerText, named, List.map_append, List.map_append, List.map_map, List.map_map]
  rfl

theorem isSentence_of_mem_named {items : List RetrievedItem} {it : RetrievedItem}
    (h : hero items = some it) {n : RetrievedItem × String} (hn : n ∈ named items it) :
    n.1 ∈ items ∧ IsSentence lang n.1 n.2.toList := by
  rw [named, List.mem_append, List.mem_append, List.mem_singleton, List.mem_map, List.mem_map] at hn
  rcases hn with (rfl | ⟨r, hr, rfl⟩) | ⟨t, ht, rfl⟩
  · exact ⟨hero_mem h, isSentence_heroPart it⟩
  · exact ⟨(mem_runners (Option.mem_toList.1 hr)).1, isSentence_runnerPart r⟩
  · exact ⟨(mem_suspicious (Option.mem_toList.1 ht)).1, isSentence_trapPart t⟩

/-- The amounts of sentences are those of the items they name. -/
theorem amounts_sentences {ns : List (RetrievedItem × String)}
    (h : ∀ n ∈ ns, IsSentence lang n.1 n.2.toList) :
    amounts lang (" ".intercalate (ns.map fun n => n.2)).toList =
      ns.flatMap fun n => amountsOf lang n.1 := by
  induction ns with
  | nil => rfl
  | cons n ns ih =>
      obtain ⟨hn, hns⟩ := List.forall_mem_cons.1 h
      rw [List.map_cons, List.flatMap_cons, ← ih hns]
      cases ns with
      | nil =>
          have hlast := hn.amounts []
          rw [List.append_nil] at hlast
          simpa using hlast
      | cons n' ns =>
          have hspace : '$' ∉ " ".toList := by decide
          rw [String.intercalate_cons_of_ne_nil (by simp), String.toList_append,
            String.toList_append, List.append_assoc, hn.amounts, amounts_of_no_dollar hspace]

/-- Every amount of the answer is in the context. -/
theorem pricesIn_answerText {items : List RetrievedItem} {it : RetrievedItem}
    (h : hero items = some it) :
    pricesIn lang (answerText items it) ⊆ pricesIn lang (buildContext items) := by
  intro price hprice
  rw [pricesIn, List.mem_toFinset, pricesFound_eq] at hprice ⊢
  refine List.map_subset _ ?_ hprice
  rw [answerText_eq, amounts_sentences fun n hn => (isSentence_of_mem_named h hn).2]
  intro number hnumber
  obtain ⟨n, hn, hnumber⟩ := List.mem_flatMap.1 hnumber
  exact amountsOf_subset (@isSentence_of_mem_named lang items it h n hn).1 hnumber

/-- Every code of the answer is a token of a title. -/
theorem codes_answerText {items : List RetrievedItem} {it : RetrievedItem}
    (h : hero items = some it) {t : List Char} (ht : t ∈ tokens lang (answerText items it))
    (hcode : isCode lang t = true) : ∃ x ∈ items, t ∈ tokens lang x.title := by
  rw [answerText_eq, tokens_intercalate, List.mem_flatMap] at ht
  obtain ⟨text, htext, ht⟩ := ht
  obtain ⟨n, hn, rfl⟩ := List.mem_map.1 htext
  obtain ⟨hmem, hsentence⟩ := @isSentence_of_mem_named lang items it h n hn
  have hmine : t ∈ codesOf lang n.2.toList := by
    rw [← codes_eq]
    exact List.mem_filter.2 ⟨ht, hcode⟩
  rw [hsentence.codes, ← codes_eq] at hmine
  exact ⟨n.1, hmem, (List.mem_filter.1 hmine).1⟩

theorem isGrounded_answerText {items : List RetrievedItem} {it : RetrievedItem}
    (h : hero items = some it) : isGrounded lang (answerText items it) items = true := by
  refine isGrounded_iff.2 ⟨?_, pricesIn_answerText h,
    fun t ht hcode _ => codes_answerText h ht hcode⟩
  rintro rfl
  cases h

/-- **The deterministic answer is grounded**, whatever the titles and the prices are: every
amount of it is found in the context, and every token of it with letters and digits is a
token of a title. -/
theorem deterministicAnswer_grounded (lang : Language) (query : String)
    (items : List RetrievedItem) (h : items ≠ []) :
    isGrounded lang (deterministicAnswer lang query items).answer items = true ∧
      pricesIn lang (deterministicAnswer lang query items).answer ⊆
        pricesIn lang (buildContext items) ∧
      ∀ tok ∈ codesFound lang (norm lang (deterministicAnswer lang query items).answer),
        ∃ it ∈ items, tok ∈ tokens lang it.title := by
  obtain ⟨it, hit⟩ := exists_hero h
  rw [deterministicAnswer_of_hero hit]
  refine ⟨isGrounded_answerText hit, pricesIn_answerText hit, fun tok htok => ?_⟩
  rw [codesFound_norm] at htok
  obtain ⟨htoken, hcode⟩ := List.mem_filter.1 htok
  exact codes_answerText hit htoken hcode

theorem deterministicAnswer_grounded_earbuds :
    isGrounded plainLanguage (deterministicAnswer plainLanguage "earbuds" [earbuds]).answer
        [earbuds] = true ∧
      pricesIn plainLanguage (deterministicAnswer plainLanguage "earbuds" [earbuds]).answer ⊆
        pricesIn plainLanguage (buildContext [earbuds]) ∧
      ∀ tok ∈ codesFound plainLanguage
          (norm plainLanguage (deterministicAnswer plainLanguage "earbuds" [earbuds]).answer),
        ∃ it ∈ [earbuds], tok ∈ tokens plainLanguage it.title :=
  deterministicAnswer_grounded plainLanguage "earbuds" [earbuds] (by simp)

end DealFinder.Rag
