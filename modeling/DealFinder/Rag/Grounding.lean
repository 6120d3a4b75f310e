/-
# Grounding

`is_grounded` accepts an answer whose dollar amounts are in the context and whose tokens
with letters and digits are tokens of the titles. It has no test for brands, so an
accepted answer may name a known brand of no listing (`sound_iff`).
-/

import DealFinder.Rag.Prices

namespace DealFinder.Rag

open DealFinder.Math DealFinder.Features

/-- `[a-z]`. -/
def isLetter (x : Char) : Bool := 'a' ≤ x && x ≤ 'z'

section Guard

variable (lang : Language)

/-- `_norm`: the tokens joined by spaces. -/
def norm (s : String) : List Char := [' '].intercalate (tokens lang s)

/-- `[a-z]+\d[a-z0-9]*`. -/
def lettersFirst : Regex :=
  .inOrder [.atLeastOne isLetter, .one (isDigit lang), .many Shop.isTokenChar]

/-- `\d+[a-z]+[a-z0-9]*`. -/
def digitsFirst : Regex :=
  .inOrder [.atLeastOne (isDigit lang), .atLeastOne isLetter, .many Shop.isTokenChar]

/-- The pattern of the model codes. -/
def codeRe : Grouped where
  before := .plain .empty
  group := (lettersFirst lang).alt (digitsFirst lang)
  after := .plain .empty

/-- `re.findall`, of the model codes. -/
def codesFound (text : List Char) : List (List Char) :=
  scan ((codeRe lang).matchAt (isWord lang.toUnicode)) 0 none text

/-- `is_grounded`. -/
def isGrounded (answer : String) (retrieved : List RetrievedItem) : Bool :=
  let haystack := norm lang (" ".intercalate (retrieved.map fun it => it.title))
  !retrieved.isEmpty &&
    decide (pricesIn lang answer ⊆ pricesIn lang (buildContext retrieved)) &&
    (codesFound lang (norm lang answer)).all fun tok =>
      tok.length < 3 || decide (' ' :: (tok ++ [' ']) <:+: ' ' :: (haystack ++ [' ']))

/-- A token with a letter and a digit. -/
def isCode (t : List Char) : Bool := t.any isLetter && t.any (isDigit lang)

end Guard

variable {lang : Language} {last : Option Char}

/-! ## Tokens -/

theorem isTokenChar_eq (x : Char) : Shop.isTokenChar x = (isLetter x || x.isDigit) := by
  rw [Shop.isTokenChar, isLetter, Char.isDigit]
  rfl

theorem toNat_lt_of_isTokenChar {x : Char} (h : Shop.isTokenChar x = true) : x.toNat < 128 := by
  rw [isTokenChar_eq, Bool.or_eq_true] at h
  rcases h with hletter | hdigit
  · rw [isLetter, Bool.and_eq_true, decide_eq_true_eq, decide_eq_true_eq] at hletter
    have hle : x.toNat ≤ 'z'.toNat := hletter.2
    exact lt_of_le_of_lt hle (by decide)
  · exact toNat_lt_of_isDigit hdigit

theorem isLetter_of_isDigit {x : Char} (h : x.isDigit = true) : isLetter x = false := by
  have hle := (Char.isDigit_iff_toNat.1 h).2
  have hlow : ¬ 'a' ≤ x := fun hge => by
    have hge' : 'a'.toNat ≤ x.toNat := hge
    exact absurd (hge'.trans hle) (by decide)
  rw [isLetter, decide_eq_false hlow, Bool.false_and]

/-- A token character is a letter or a digit, and not both. -/
theorem isTokenChar_cases {x : Char} (h : Shop.isTokenChar x = true) :
    (isLetter x = true ∧ isDigit lang x = false) ∨ (isLetter x = false ∧ isDigit lang x = true) := by
  rw [isDigit_ascii (toNat_lt_of_isTokenChar h)]
  rw [isTokenChar_eq, Bool.or_eq_true] at h
  by_cases hdigit : x.isDigit = true
  · exact Or.inr ⟨isLetter_of_isDigit hdigit, hdigit⟩
  · exact Or.inl ⟨h.resolve_right hdigit, by simpa using hdigit⟩

theorem mem_tokens {s : String} {t : List Char} (h : t ∈ tokens lang s) :
    t ≠ [] ∧ ∀ x ∈ t, Shop.isTokenChar x = true := by
  rw [tokens, findTokens_eq] at h
  exact ⟨(mem_runs h).1, fun x hx => ((mem_runs h).2 x hx).2⟩

/-! ## The codes that are found -/

section Codes

variable {w : Char → Bool} {t rest : List Char}

/-- After a run of one class inside text without the other, none of the other follows. -/
theorem next_of_run {p q : Char → Bool} (ht : ∀ x ∈ t, q x = false)
    (hrest : ∀ x ∈ rest.head?, p x = false ∧ q x = false) {taken after : List Char} {y : Char}
    (htaken : ∀ x ∈ taken, p x = true) (htext : t ++ rest = taken ++ y :: after) : q y = false := by
  induction taken generalizing t with
  | nil =>
      cases t with
      | nil =>
          rw [List.nil_append, List.nil_append] at htext
          exact (hrest y (by rw [htext]; rfl)).2
      | cons x t =>
          obtain ⟨rfl, -⟩ := List.cons.inj htext
          exact ht x List.mem_cons_self
  | cons z taken ih =>
      obtain ⟨hz, htaken⟩ := List.forall_mem_cons.1 htaken
      cases t with
      | nil =>
          rw [List.nil_append, List.cons_append] at htext
          rw [(hrest z (by rw [htext]; rfl)).1] at hz
          cases hz
      | cons x t =>
          obtain ⟨-, htext⟩ := List.cons.inj htext
          exact ih (fun x hx => ht x (List.mem_cons_of_mem _ hx)) htaken htext

/-- A text that ends a token: nothing, or a space and more. -/
def EndsToken (rest : List Char) : Prop := ∀ x ∈ rest.head?, x = ' '

theorem EndsToken.isTokenChar (h : EndsToken rest) :
    ∀ x ∈ rest.head?, Shop.isTokenChar x = false := by
  intro x hx
  rw [h x hx]
  decide

theorem isDigit_space : isDigit lang ' ' = false := isDigit_of_isSpace (by decide)

theorem matchAt_of_ends {text : List Char}
    (h : (codeRe lang).group.ends w ⟨last, text⟩ = []) :
    (codeRe lang).matchAt w ⟨last, text⟩ = none := by
  have hempty : (codeRe lang).groupAt w ⟨last, text⟩ = none := by
    rw [Grouped.groupAt, h]
    rfl
  rw [Grouped.matchAt]
  show List.findSome? _ [_] = none
  rw [List.findSome?_singleton, hempty]

theorem matchAt_of_space : (codeRe lang).matchAt w ⟨last, ' ' :: rest⟩ = none :=
  matchAt_of_ends (Regex.ends_alt_of_none
    (Regex.ends_seq_of_none (Regex.ends_seq_of_none (Regex.ends_one_of_not (by decide))))
    (Regex.ends_seq_of_none (Regex.ends_seq_of_none (Regex.ends_one_of_not isDigit_space))))

/-- Inside a token of one kind of character no code starts. -/
theorem matchAt_of_plain {x : Char} (hplain : isCode lang (x :: t) = false)
    (hrest : EndsToken rest) :
    (codeRe lang).matchAt w ⟨last, x :: (t ++ rest)⟩ = none := by
  have hspace : ∀ p q : Char → Bool, p ' ' = false → q ' ' = false →
      ∀ y ∈ rest.head?, p y = false ∧ q y = false := by
    intro p q hp hq y hy
    rw [hrest y hy]
    exact ⟨hp, hq⟩
  -- A run of `p` with a `q` after it would make the token a code.
  have hrun : ∀ p q : Char → Bool, p ' ' = false → q ' ' = false → (∀ y ∈ x :: t, q y = false) →
      ∀ r : Regex, ((Regex.atLeastOne p).seq ((Regex.one q).seq r)).ends w
        ⟨last, x :: (t ++ rest)⟩ = [] := by
    intro p q hp hq hq' r
    rw [List.eq_nil_iff_forall_not_mem]
    intro d hd
    obtain ⟨m, hm, hd⟩ := Regex.mem_ends_seq.1 hd
    obtain ⟨m', hm', hm⟩ := Regex.mem_ends_seq.1 hm
    obtain ⟨y, more, hmore, hy, rfl⟩ := Regex.mem_ends_one.1 hm'
    obtain ⟨rfl, rfl⟩ := List.cons.inj hmore
    obtain ⟨taken, after, htext, htaken, rfl⟩ := Regex.mem_ends_many.1 hm
    obtain ⟨m, hm, -⟩ := Regex.mem_ends_seq.1 hd
    obtain ⟨z, after', rfl, hz, -⟩ := Regex.mem_ends_one.1 hm
    rw [next_of_run (fun y hy => hq' y (List.mem_cons_of_mem _ hy)) (hspace p q hp hq) htaken
      htext] at hz
    cases hz
  have hkinds : (∀ y ∈ x :: t, isLetter y = false) ∨ ∀ y ∈ x :: t, isDigit lang y = false := by
    rw [isCode, Bool.and_eq_false_iff, List.any_eq_false, List.any_eq_false] at hplain
    simpa using hplain
  apply matchAt_of_ends
  rcases hkinds with hdigits | hletters
  · apply Regex.ends_alt_of_none
    · exact Regex.ends_seq_of_none (Regex.ends_seq_of_none
        (Regex.ends_one_of_not (hdigits x List.mem_cons_self)))
    · rw [List.eq_nil_iff_forall_not_mem]
      intro d hd
      obtain ⟨m, hm, hd⟩ := Regex.mem_ends_seq.1 hd
      obtain ⟨m', hm', -⟩ := Regex.mem_ends_seq.1 hd
      obtain ⟨e, he, -⟩ := Regex.mem_ends_seq.1 hm'
      have hnone := hrun (isDigit lang) isLetter isDigit_space (by decide) hdigits (.plain .empty)
      rw [List.eq_nil_iff_forall_not_mem] at hnone
      exact hnone e (Regex.mem_ends_seq.2 ⟨m, hm, Regex.mem_ends_seq.2 ⟨e, he, by simp⟩⟩)
  · apply Regex.ends_alt_of_none
    · exact hrun isLetter (isDigit lang) (by decide) isDigit_space hletters _
    · exact Regex.ends_seq_of_none (Regex.ends_seq_of_none
        (Regex.ends_one_of_not (hletters x List.mem_cons_self)))

/-- A code is a run of one kind, a character of the other kind, and more. -/
theorem exists_run {p : Char → Bool} {x : Char} (hx : p x = true)
    (hother : ∃ y ∈ x :: t, p y = false) :
    ∃ taken y more, x :: t = x :: (taken ++ y :: more) ∧ (∀ z ∈ taken, p z = true) ∧
      p y = false := by
  induction t generalizing x with
  | nil =>
      obtain ⟨y, hy, hne⟩ := hother
      obtain rfl := List.mem_singleton.1 hy
      rw [hx] at hne
      cases hne
  | cons z t ih =>
      by_cases hz : p z = true
      · obtain ⟨y, hy, hne⟩ := hother
        have hmore : ∃ y ∈ z :: t, p y = false := by
          rcases List.mem_cons.1 hy with rfl | hy
          · rw [hx] at hne
            cases hne
          · exact ⟨y, hy, hne⟩
        obtain ⟨taken, y, more, htext, htaken, hy⟩ := ih hz hmore
        exact ⟨z :: taken, y, more, by rw [htext]; rfl, List.forall_mem_cons.2 ⟨hz, htaken⟩, hy⟩
      · exact ⟨[], z, t, rfl, by simp, by simpa using hz⟩

theorem prefers_lettersFirst {x y : Char} {taken more : List Char} (hx : isLetter x = true)
    (htaken : ∀ z ∈ taken, isLetter z = true) (hyl : isLetter y = false)
    (hyd : isDigit lang y = true) (hmore : ∀ z ∈ more, Shop.isTokenChar z = true)
    (hrest : EndsToken rest) :
    ∃ stop, (lettersFirst lang).Prefers w ⟨last, x :: ((taken ++ y :: more) ++ rest)⟩
      ⟨stop, rest⟩ := by
  have hrun := @Regex.prefers_atLeastOne w isLetter last taken (y :: (more ++ rest)) x hx htaken
    fun z hz => by
      obtain rfl := Option.some.inj hz
      exact hyl
  have hend := @Regex.prefers_many w Shop.isTokenChar (some y) more rest hmore hrest.isTokenChar
  rw [List.append_assoc, List.cons_append]
  exact ⟨_, hrun.seq ((Regex.prefers_one hyd).seq hend)⟩

theorem prefers_digitsFirst {x y : Char} {taken more : List Char} (hx : isDigit lang x = true)
    (htaken : ∀ z ∈ taken, isDigit lang z = true) (hyd : isDigit lang y = false)
    (hyl : isLetter y = true) (hmore : ∀ z ∈ more, Shop.isTokenChar z = true)
    (hrest : EndsToken rest) :
    ∃ stop, (digitsFirst lang).Prefers w ⟨last, x :: ((taken ++ y :: more) ++ rest)⟩
      ⟨stop, rest⟩ := by
  have hrun := @Regex.prefers_atLeastOne w (isDigit lang) last taken (y :: (more ++ rest)) x hx
    htaken fun z hz => by
      obtain rfl := Option.some.inj hz
      exact hyd
  have hstop : ∀ z ∈ (more.dropWhile isLetter ++ rest).head?, isLetter z = false := by
    intro z hz
    have hdrop := List.head?_dropWhile_not isLetter more
    cases htail : more.dropWhile isLetter with
    | nil =>
        rw [htail, List.nil_append] at hz
        rw [hrest z hz]
        decide
    | cons u tail =>
        rw [htail] at hz hdrop
        obtain rfl := Option.some.inj hz
        exact hdrop
  have hletters := @Regex.prefers_atLeastOne w isLetter ((x :: taken).getLast?.or last)
    (more.takeWhile isLetter) (more.dropWhile isLetter ++ rest) y hyl
    (fun z hz => List.mem_takeWhile_imp hz) hstop
  have hend := @Regex.prefers_many w Shop.isTokenChar
    ((y :: more.takeWhile isLetter).getLast?.or ((x :: taken).getLast?.or last))
    (more.dropWhile isLetter) rest
    (fun z hz => hmore z ((List.dropWhile_suffix _).subset hz)) hrest.isTokenChar
  rw [← List.append_assoc, List.takeWhile_append_dropWhile] at hletters
  rw [List.append_assoc, List.cons_append]
  exact ⟨_, hrun.seq (hletters.seq hend)⟩

/-- At the start of a code the whole of it is read. -/
theorem matchAt_of_code {x : Char} (ht : ∀ y ∈ x :: t, Shop.isTokenChar y = true)
    (hcode : isCode lang (x :: t) = true) (hrest : EndsToken rest) :
    ∃ stop, (codeRe lang).matchAt w ⟨last, x :: (t ++ rest)⟩ =
      some (x :: t, ⟨stop, rest⟩) := by
  rw [isCode, Bool.and_eq_true, List.any_eq_true, List.any_eq_true] at hcode
  obtain ⟨⟨l, hl, hletter⟩, d, hd, hdigit⟩ := hcode
  have hkind : ∀ y ∈ x :: t, (isLetter y = true ∧ isDigit lang y = false) ∨
      (isLetter y = false ∧ isDigit lang y = true) := fun y hy => isTokenChar_cases (ht y hy)
  have hgroup : ∃ stop, (codeRe lang).group.Prefers w ⟨last, x :: (t ++ rest)⟩ ⟨stop, rest⟩ := by
    rcases hkind x List.mem_cons_self with ⟨hx, -⟩ | ⟨hx, hxd⟩
    · have hother : isLetter d = false :=
        ((hkind d hd).resolve_left fun h => by simp [h.2] at hdigit).1
      obtain ⟨taken, y, more, htext, htaken, hy⟩ := exists_run hx ⟨d, hd, hother⟩
      obtain ⟨-, rfl⟩ := List.cons.inj htext
      have hyd : isDigit lang y = true :=
        ((hkind y (by simp)).resolve_left fun h => by simp [h.1] at hy).2
      obtain ⟨stop, hall⟩ := @prefers_lettersFirst lang last w rest x y taken more hx htaken hy hyd
        (fun z hz => ht z (by simp [hz])) hrest
      exact ⟨stop, hall.alt_left (digitsFirst lang)⟩
    · have hother : isDigit lang l = false :=
        ((hkind l hl).resolve_right fun h => by simp [h.1] at hletter).2
      obtain ⟨taken, y, more, htext, htaken, hy⟩ := exists_run hxd ⟨l, hl, hother⟩
      obtain ⟨-, rfl⟩ := List.cons.inj htext
      have hyl : isLetter y = true :=
        ((hkind y (by simp)).resolve_right fun h => by simp [h.2] at hy).1
      obtain ⟨stop, hall⟩ := @prefers_digitsFirst lang last w rest x y taken more hxd htaken hy hyl
        (fun z hz => ht z (by simp [hz])) hrest
      have hnone : (lettersFirst lang).ends w ⟨last, x :: ((taken ++ y :: more) ++ rest)⟩ = [] :=
        Regex.ends_seq_of_none (Regex.ends_seq_of_none (Regex.ends_one_of_not hx))
      exact ⟨stop, Regex.Prefers.alt_right hnone hall⟩
  obtain ⟨stop, hgroup⟩ := hgroup
  refine ⟨stop, Grouped.matchAt_of_prefers Regex.prefers_empty ?_⟩
  exact @Grouped.groupAt_of_prefers w (codeRe lang) ⟨stop, rest⟩ _ (x :: t) last hgroup
    Regex.prefers_empty

/-- A token gives its one code, or none, and the scan goes on behind it. -/
theorem scan_token (ht : ∀ y ∈ t, Shop.isTokenChar y = true) (hrest : EndsToken rest)
    (last : Option Char) :
    ∃ last', scan ((codeRe lang).matchAt w) 0 last (t ++ rest) =
      (if isCode lang t then [t] else []) ++ scan ((codeRe lang).matchAt w) 0 last' rest := by
  by_cases hcode : isCode lang t = true
  · rw [if_pos hcode]
    cases t with
    | nil => cases hcode
    | cons x t =>
        obtain ⟨stop, hmatch⟩ := @matchAt_of_code lang last w t rest x ht hcode hrest
        exact ⟨_, scan_of_some hmatch⟩
  · rw [if_neg hcode]
    induction t generalizing last with
    | nil => exact ⟨last, rfl⟩
    | cons x t ih =>
        have hplain : isCode lang (x :: t) = false := by simpa using hcode
        have hmore : ¬ isCode lang t = true := by
          intro h
          rw [isCode, Bool.and_eq_true] at h
          rw [isCode, List.any_cons, List.any_cons, h.1, h.2, Bool.or_true, Bool.or_true] at hplain
          cases hplain
        obtain ⟨last', hscan⟩ := ih (fun y hy => ht y (List.mem_cons_of_mem x hy)) (some x) hmore
        exact ⟨last', (scan_of_none (matchAt_of_plain hplain hrest)).trans hscan⟩

/-- The codes of a text are its tokens with letters and digits. -/
theorem codesFound_norm (s : String) :
    codesFound lang (norm lang s) = (tokens lang s).filter (isCode lang) := by
  have htokens : ∀ t ∈ tokens lang s, ∀ y ∈ t, Shop.isTokenChar y = true :=
    fun t ht => (mem_tokens ht).2
  rw [codesFound, norm]
  generalize tokens lang s = ts at htokens
  suffices hall : ∀ last, scan ((codeRe lang).matchAt (isWord lang.toUnicode)) 0 last
      ([' '].intercalate ts) = ts.filter (isCode lang) from hall none
  induction ts with
  | nil => exact fun last => rfl
  | cons t ts ih =>
      intro last
      obtain ⟨ht, hts⟩ := List.forall_mem_cons.1 htokens
      -- A last token ends with the text, any other with a space.
      have hscan : ∃ last', scan ((codeRe lang).matchAt (isWord lang.toUnicode)) 0 last
          ([' '].intercalate (t :: ts)) = (if isCode lang t then [t] else []) ++
            scan ((codeRe lang).matchAt (isWord lang.toUnicode)) 0 last'
              ([' '].intercalate ts) := by
        cases ts with
        | nil =>
            have hlast :=
              @scan_token lang (isWord lang.toUnicode) t [] ht (by simp [EndsToken]) last
            simpa using hlast
        | cons t' ts =>
            obtain ⟨last', hnext⟩ := @scan_token lang (isWord lang.toUnicode) t
              (' ' :: [' '].intercalate (t' :: ts)) ht (by simp [EndsToken]) last
            rw [scan_of_none matchAt_of_space] at hnext
            rw [List.intercalate_cons_cons, List.append_assoc, List.singleton_append]
            exact ⟨some ' ', hnext⟩
      obtain ⟨last', hscan⟩ := hscan
      rw [hscan, ih hts]
      by_cases hcode : isCode lang t = true
      · rw [if_pos hcode, List.filter_cons_of_pos hcode]
        rfl
      · rw [if_neg hcode, List.filter_cons_of_neg hcode]
        rfl

end Codes

/-! ## What is accepted -/

section Accepted

variable {answer : String} {items : List RetrievedItem}

theorem lowered_space : lowered lang ' ' = [' '] := by
  rw [lowered, if_neg (by decide), lang.lowerChar_ascii ' ' (by decide)]
  rfl

/-- The tokens of the joined titles are those of the titles. -/
theorem tokens_intercalate (titles : List String) :
    tokens lang (" ".intercalate titles) = titles.flatMap (tokens lang) := by
  induction titles with
  | nil => rw [tokens_eq]; rfl
  | cons title titles ih =>
      cases titles with
      | nil => simp
      | cons title' titles =>
          have hseparates : Shop.isTokenChar ' ' = false := by decide
          rw [List.flatMap_cons, ← ih, tokens_eq, tokens_eq, tokens_eq,
            String.intercalate_cons_of_ne_nil (by simp), String.toList_append,
            String.toList_append, List.append_assoc]
          have hspace : " ".toList ++ (" ".intercalate (title' :: titles)).toList =
              ' ' :: (" ".intercalate (title' :: titles)).toList := rfl
          rw [hspace, List.flatMap_append, List.flatMap_cons, lowered_space,
            List.singleton_append, runs_append _ _ hseparates]

/-- A code stands between spaces in the joined titles exactly when it is a token of one. -/
theorem infix_norm_iff {t : List Char} (ht : t ∈ tokens lang answer) :
    ' ' :: (t ++ [' ']) <:+:
        ' ' :: (norm lang (" ".intercalate (items.map fun it => it.title)) ++ [' ']) ↔
      ∃ it ∈ items, t ∈ tokens lang it.title := by
  rw [norm, @infix_intercalate_iff Char Shop.isTokenChar ' ' (by decide) _ _
    (fun w hw => mem_tokens hw) (mem_tokens ht), tokens_intercalate, List.mem_flatMap]
  simp

/-- An answer is accepted when its amounts are in the context and its codes in the titles. -/
theorem isGrounded_iff : isGrounded lang answer items = true ↔
    items ≠ [] ∧ pricesIn lang answer ⊆ pricesIn lang (buildContext items) ∧
      ∀ t ∈ tokens lang answer, isCode lang t = true → 3 ≤ t.length →
        ∃ it ∈ items, t ∈ tokens lang it.title := by
  unfold isGrounded
  dsimp only
  rw [Bool.and_eq_true, Bool.and_eq_true, codesFound_norm, List.all_eq_true, and_assoc,
    Bool.not_eq_true', List.isEmpty_eq_false_iff, decide_eq_true_eq]
  apply and_congr_right
  intro _
  apply and_congr_right
  intro _
  constructor
  · intro hall t ht hcode hlong
    have htoken := hall t (List.mem_filter.2 ⟨ht, hcode⟩)
    rw [Bool.or_eq_true, decide_eq_true_eq, decide_eq_true_eq] at htoken
    exact (infix_norm_iff ht).1 (htoken.resolve_left (by omega))
  · intro hall t ht
    obtain ⟨ht, hcode⟩ := List.mem_filter.1 ht
    rw [Bool.or_eq_true, decide_eq_true_eq, decide_eq_true_eq]
    by_cases hlong : 3 ≤ t.length
    · exact Or.inr ((infix_norm_iff ht).2 (hall t ht hcode hlong))
    · exact Or.inl (by omega)

/-! ## What an accepted answer may say -/

/-- A dollar amount as a text writes it: spaces after the dollar sign, the digits and commas
before the point, and the point with the digits after it. The number goes on as far as it
can. -/
structure Writes (lang : Language) (text space whole cents : List Char) : Prop where
  spaces : ∀ x ∈ space, isSpace x = true
  numbers : ∀ x ∈ whole, inNumber lang x = true
  starts : ∀ x ∈ whole.head?, isDigit lang x = true
  fraction : cents = [] ∨
    ∃ x more, cents = '.' :: x :: more ∧ ∀ y ∈ x :: more, isDigit lang y = true
  nonempty : whole ≠ [] ∨ cents ≠ []
  place : ∃ before after, text = before ++ '$' :: (space ++ (whole ++ (cents ++ after))) ∧
    (∀ x ∈ after.head?, isDigit lang x = false) ∧
    (cents = [] → (∀ x ∈ after.head?, inNumber lang x = false) ∧ centsAt lang after = [])

/-- An amount as prices are usually written: at most one space, a digit before the point,
and at most two after it. -/
def Plain (space whole cents : List Char) : Prop :=
  space.length ≤ 1 ∧ whole ≠ [] ∧ cents.length ≤ 3

/-- A known brand is named: in any case, between word boundaries. -/
def Names (lang : Language) (brand text : String) : Prop :=
  search lang.toUnicode (whole (letters brand)) text = true

/-- Every known brand of the answer is in some title. -/
def BrandsKnown (lang : Language) (answer : String) (items : List RetrievedItem) : Prop :=
  ∀ brand ∈ knownBrands, Names lang brand answer → ∃ it ∈ items, Names lang brand it.title

/-- The documented guarantee: the amounts of the answer are in the context, and its codes and
brands in the titles. -/
structure Sound (lang : Language) (answer : String) (items : List RetrievedItem) : Prop where
  amounts : ∀ space whole cents, Writes lang answer.toList space whole cents →
    Shop.fixed 2 (groupValue lang (whole ++ cents)) ∈ pricesIn lang (buildContext items)
  codes : ∀ t ∈ tokens lang answer, isCode lang t = true → 3 ≤ t.length →
    ∃ it ∈ items, t ∈ tokens lang it.title
  brands : BrandsKnown lang answer items

theorem centsAt_of_digits {x : Char} {more after : List Char}
    (hdigits : ∀ y ∈ x :: more, isDigit lang y = true) (hlength : more.length ≤ 1)
    (hafter : ∀ y ∈ after.head?, isDigit lang y = false) :
    centsAt lang ('.' :: x :: (more ++ after)) = '.' :: x :: more := by
  rw [centsAt, if_pos (hdigits x List.mem_cons_self)]
  cases more with
  | nil =>
      cases after with
      | nil => rfl
      | cons y after => simp [hafter y rfl]
  | cons y more =>
      have hnil : more = [] := by
        rw [List.length_cons] at hlength
        exact List.eq_nil_of_length_eq_zero (by omega)
      rw [hnil]
      simp [hdigits y (by simp)]

/-- The pattern reads an amount that is plainly written as it stands. -/
theorem amountAt_of_plain {space whole cents after : List Char}
    (hspace : ∀ x ∈ space, isSpace x = true) (hwhole : ∀ x ∈ whole, inNumber lang x = true)
    (hstarts : ∀ x ∈ whole.head?, isDigit lang x = true)
    (hcents : cents = [] ∨
      ∃ x more, cents = '.' :: x :: more ∧ ∀ y ∈ x :: more, isDigit lang y = true)
    (hafter : ∀ x ∈ after.head?, isDigit lang x = false)
    (hend : cents = [] → (∀ x ∈ after.head?, inNumber lang x = false) ∧ centsAt lang after = [])
    (hplain : Plain space whole cents) :
    amountAt lang (space ++ (whole ++ (cents ++ after))) = some (whole ++ cents) := by
  obtain ⟨hone, hsome, hshort⟩ := hplain
  obtain ⟨first, whole, rfl⟩ := List.exists_cons_of_ne_nil hsome
  have hfirst : isDigit lang first = true := hstarts first rfl
  have hskip : skipSpace (space ++ (first :: whole ++ (cents ++ after))) =
      first :: (whole ++ (cents ++ after)) := by
    match space with
    | [] =>
        refine if_neg fun h => ?_
        rw [isDigit_of_isSpace h] at hfirst
        cases hfirst
    | [x] => exact if_pos (hspace x (by simp))
  have hrest : ∀ x ∈ whole, inNumber lang x = true :=
    fun x hx => hwhole x (List.mem_cons_of_mem _ hx)
  have hpoint : ¬ inNumber lang '.' = true := by
    rw [inNumber, isDigit_ascii (by decide)]
    decide
  have htail : (cents ++ after).takeWhile (inNumber lang) ++
      centsAt lang ((cents ++ after).dropWhile (inNumber lang)) = cents := by
    rcases hcents with rfl | ⟨x, more, rfl, hdigits⟩
    · obtain ⟨hstop, hnone⟩ := hend rfl
      cases after with
      | nil => rfl
      | cons y after =>
          have hy : ¬ inNumber lang y = true := by simp [hstop y rfl]
          rw [List.nil_append, List.takeWhile_cons_of_neg hy, List.dropWhile_cons_of_neg hy, hnone]
          rfl
    · rw [List.cons_append, List.cons_append, List.takeWhile_cons_of_neg hpoint,
        List.dropWhile_cons_of_neg hpoint, List.nil_append]
      have hlength : more.length ≤ 1 := by
        rw [List.length_cons, List.length_cons] at hshort
        omega
      exact centsAt_of_digits hdigits hlength hafter
  rw [amountAt, hskip, numberAt, if_pos hfirst, List.takeWhile_append_of_pos hrest,
    List.dropWhile_append_of_pos hrest, List.append_assoc, htail]
  rfl

/-- **What acceptance guarantees.** An accepted answer meets the documented guarantee exactly
when each known brand it names is in some title, and each amount that is not plainly written
is in the context. -/
theorem sound_iff (lang : Language) (answer : String) (items : List RetrievedItem)
    (haccepted : isGrounded lang answer items = true) :
    Sound lang answer items ↔
      BrandsKnown lang answer items ∧
        ∀ space whole cents, Writes lang answer.toList space whole cents →
          Plain space whole cents ∨
            Shop.fixed 2 (groupValue lang (whole ++ cents)) ∈
              pricesIn lang (buildContext items) := by
  obtain ⟨-, hprices, hcodes⟩ := isGrounded_iff.1 haccepted
  constructor
  · intro hsound
    exact ⟨hsound.brands, fun space whole cents h => Or.inr (hsound.amounts space whole cents h)⟩
  · rintro ⟨hbrands, hamounts⟩
    refine ⟨?_, hcodes, hbrands⟩
    intro space whole cents h
    refine (hamounts space whole cents h).elim (fun hplain => ?_) id
    obtain ⟨before, after, htext, hafter, hend⟩ := h.place
    have hread := amountAt_of_plain h.spaces h.numbers h.starts h.fraction hafter hend hplain
    have hfound : whole ++ cents ∈ pricesFound lang answer.toList := by
      rw [pricesFound_eq]
      exact mem_amounts.2 ⟨before, _, htext, hread⟩
    exact hprices (List.mem_toFinset.2 (List.mem_map.2 ⟨_, hfound, rfl⟩))

end Accepted

/-! ## A brand of no listing -/

/-- One pair of earbuds. -/
def earbuds : RetrievedItem where
  id := "a"
  title := "Anker Q20i"
  price := 40
  source := "BestBuy"
  category := "audio"
  similarity := 1
  verdict := .deal
  medianSignal := 1 / 2
  fairPrice := 60
  residualFrac := 1 / 3
  reason := "priced near the market median."

/-- An answer that names another brand. -/
def boseAnswer : String := "Get the Bose."

theorem isGrounded_boseAnswer : isGrounded plainLanguage boseAnswer [earbuds] = true := by
  decide +kernel

theorem sound_iff_earbuds :
    Sound plainLanguage boseAnswer [earbuds] ↔
      BrandsKnown plainLanguage boseAnswer [earbuds] ∧
        ∀ space whole cents, Writes plainLanguage boseAnswer.toList space whole cents →
          Plain space whole cents ∨
            Shop.fixed 2 (groupValue plainLanguage (whole ++ cents)) ∈
              pricesIn plainLanguage (buildContext [earbuds]) :=
  sound_iff plainLanguage boseAnswer [earbuds] isGrounded_boseAnswer

/-- An answer that recommends a brand of no listing is accepted. -/
theorem unknown_brand_accepted :
    isGrounded plainLanguage boseAnswer [earbuds] = true ∧
      ¬ Sound plainLanguage boseAnswer [earbuds] := by
  refine ⟨isGrounded_boseAnswer, fun hsound => ?_⟩
  have hnamed : Names plainLanguage "Bose" boseAnswer := by
    unfold Names
    decide +kernel
  have hunnamed : ¬ Names plainLanguage "Bose" earbuds.title := by
    unfold Names
    decide +kernel
  obtain ⟨it, hit, hname⟩ := hsound.brands "Bose" (by decide +kernel) hnamed
  obtain rfl := List.mem_singleton.1 hit
  exact hunnamed hname

end DealFinder.Rag
