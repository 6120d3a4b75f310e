/-
# The lead of an answer

`_lead_title` finds the cue "Best value" or "Best pick" in an answer without its markup and
takes the shortest text behind it that a price follows. In the deterministic answer the
title of the best value stands there, so what is found is the title up to the first place in
it that reads as the start of a price (`leadTitle_answerText`).
-/

import DealFinder.Rag.Synthesis

namespace DealFinder.Rag

open DealFinder.Math DealFinder.Features

/-! ## The pattern -/

/-- `[*_`#]`. -/
def isMarkup (x : Char) : Bool := ['*', '_', '\x60', '#'].contains x

/-- A text without its markup. -/
def clean (text : List Char) : List Char := text.filter fun x => !isMarkup x

/-- `[-*•]`. -/
def isBullet (x : Char) : Bool := ['-', '*', '•'].contains x

/-- `[-–—]`. -/
def isDash (x : Char) : Bool := ['-', '–', '—'].contains x

/-- `[:.\-]`. -/
def isColon (x : Char) : Bool := [':', '.', '-'].contains x

/-- What `_lead_title` strips from both sides. -/
def isTrimming (x : Char) : Bool := [' ', '-', '–', '—', ':', '*'].contains x

/-- `str.strip`, of those characters. -/
def trim (text : List Char) : List Char :=
  ((text.dropWhile isTrimming).reverse.dropWhile isTrimming).reverse

/-- `\s*(?:\bat\s+\$|[-–—]\s*\$|\(\$|\$)`. -/
def priceMark : Regex :=
  (Regex.many isSpace).seq
    ((Regex.inOrder [.plain .boundary, .one (sameLetter 'a'), .one (sameLetter 't'),
        .atLeastOne isSpace, .one fun x => x = '$']).alt
      ((Regex.inOrder [.one isDash, .many isSpace, .one fun x => x = '$']).alt
        ((Regex.inOrder [.one fun x => x = '(', .one fun x => x = '$']).alt
          (.one fun x => x = '$'))))

/-- The cue, and what may stand between it and the title. -/
def cue : Regex :=
  .inOrder [.plain (letters "Best"), .atLeastOne isSpace,
    .plain ((letters "value").alt (letters "pick")), .many isSpace, (Regex.one isColon).opt,
    .many isSpace, (Regex.one fun x => x = '\n').opt, .many isSpace, (Regex.one isBullet).opt,
    .many isSpace]

/-- The pattern of `_lead_title`. -/
def leadRe : Grouped where
  before := cue
  group := .fewestAtLeastOne fun x => x ≠ '\n'
  after := priceMark

/-- `_lead_title`. -/
def leadTitle (lang : Language) (answer : String) : String :=
  match leadRe.search (isWord lang.toUnicode) (clean answer.toList) with
  | some (group, _) => String.ofList (trim group)
  | none => ""

/-! ## The lead that a title gives -/

/-- A price can start after a character. -/
def priceFollows (lang : Language) (x : Char) (rest : List Char) : Bool :=
  !(priceMark.ends (isWord lang.toUnicode) ⟨some x, rest⟩).isEmpty

/-- A text without the bullet in front and the spaces behind it. -/
def pastBullet : List Char → List Char
  | [] => []
  | x :: rest => if isBullet x then rest.dropWhile isSpace else x :: rest

/-- A text without the spaces and the bullet in front. -/
def withoutBullet (text : List Char) : List Char := pastBullet (text.dropWhile isSpace)

/-- A title, cut at the first place in it that reads as the start of a price. -/
def cut (lang : Language) (title : String) : List Char :=
  Grouped.shortest (priceFollows lang) (withoutBullet (clean title.toList ++ " at $".toList))

/-! ## A price that follows -/

section Price

variable {lang : Language} {w : Char → Bool} {last : Option Char}

/-- What can stand between the lead and the dollar sign. -/
def IsMark (w : Char → Bool) (last : Option Char) (mark : List Char) : Prop :=
  ∃ spaces rest, mark = spaces ++ rest ∧ (∀ x ∈ spaces, isSpace x = true) ∧
    (rest = [] ∨ rest = ['('] ∨
      (∃ x gap, rest = x :: gap ∧ isDash x = true ∧ ∀ y ∈ gap, isSpace y = true) ∨
      ∃ x y z gap, rest = x :: y :: z :: gap ∧
        (spaces.getLast?.or last).any w ≠ w x ∧ sameLetter 'a' x = true ∧
        sameLetter 't' y = true ∧ ∀ u ∈ z :: gap, isSpace u = true)

theorem dollar_not_mem_of_isMark {mark : List Char} (h : IsMark w last mark) : '$' ∉ mark := by
  have hspaces : ∀ l : List Char, (∀ x ∈ l, isSpace x = true) → '$' ∉ l :=
    fun l hl hmem => absurd (hl _ hmem) (by decide)
  obtain ⟨spaces, rest, rfl, hs, hrest⟩ := h
  rw [List.mem_append, not_or]
  refine ⟨hspaces spaces hs, ?_⟩
  rcases hrest with rfl | rfl | ⟨x, gap, rfl, hx, hgap⟩ | ⟨x, y, z, gap, rfl, -, hx, hy, hgap⟩
  · simp
  · decide
  · rw [List.mem_cons, not_or]
    refine ⟨?_, hspaces gap hgap⟩
    rintro rfl
    exact absurd hx (by decide)
  · rw [List.mem_cons, List.mem_cons, not_or, not_or]
    refine ⟨?_, ?_, hspaces (z :: gap) hgap⟩
    · rintro rfl
      exact absurd hx (by decide)
    · rintro rfl
      exact absurd hy (by decide)

/-- Where a price can be read, a mark and a dollar sign stand. -/
theorem exists_isMark {text : List Char} {d : Cursor} (hd : d ∈ priceMark.ends w ⟨last, text⟩) :
    ∃ mark after, text = mark ++ '$' :: after ∧ IsMark w last mark := by
  obtain ⟨m, hm, hd⟩ := Regex.mem_ends_seq.1 hd
  obtain ⟨spaces, rest, htext, hspaces, rfl⟩ := Regex.mem_ends_many.1 hm
  obtain rfl : text = spaces ++ rest := htext
  rcases Regex.mem_ends_alt.1 hd with hd | hd
  · obtain ⟨m, hm, hd⟩ := Regex.mem_ends_seq.1 hd
    obtain ⟨hboundary, rfl⟩ := Pattern.mem_ends_boundary.1 (Regex.mem_ends_plain.1 hm)
    obtain ⟨m, hm, hd⟩ := Regex.mem_ends_seq.1 hd
    obtain ⟨x, rest, rfl, hx, rfl⟩ := Regex.mem_ends_one.1 hm
    obtain ⟨m, hm, hd⟩ := Regex.mem_ends_seq.1 hd
    obtain ⟨y, rest, rfl, hy, rfl⟩ := Regex.mem_ends_one.1 hm
    obtain ⟨m, hm, hd⟩ := Regex.mem_ends_seq.1 hd
    obtain ⟨m', hm', hm⟩ := Regex.mem_ends_seq.1 hm
    obtain ⟨z, rest, rfl, hz, rfl⟩ := Regex.mem_ends_one.1 hm'
    obtain ⟨gap, rest, rfl, hgap, rfl⟩ := Regex.mem_ends_many.1 hm
    obtain ⟨u, after, rfl, hu, -⟩ := Regex.mem_ends_one.1 hd
    obtain rfl := of_decide_eq_true hu
    refine ⟨spaces ++ x :: y :: z :: gap, after, by simp, spaces, _, rfl, hspaces, ?_⟩
    refine Or.inr (Or.inr (Or.inr ⟨x, y, z, gap, rfl, ?_, hx, hy,
      List.forall_mem_cons.2 ⟨hz, hgap⟩⟩))
    simpa [Pattern.atBoundary] using hboundary
  rcases Regex.mem_ends_alt.1 hd with hd | hd
  · obtain ⟨m, hm, hd⟩ := Regex.mem_ends_seq.1 hd
    obtain ⟨x, rest, rfl, hx, rfl⟩ := Regex.mem_ends_one.1 hm
    obtain ⟨m, hm, hd⟩ := Regex.mem_ends_seq.1 hd
    obtain ⟨gap, rest, rfl, hgap, rfl⟩ := Regex.mem_ends_many.1 hm
    obtain ⟨u, after, rfl, hu, -⟩ := Regex.mem_ends_one.1 hd
    obtain rfl := of_decide_eq_true hu
    exact ⟨spaces ++ x :: gap, after, by simp, spaces, _, rfl, hspaces,
      Or.inr (Or.inr (Or.inl ⟨x, gap, rfl, hx, hgap⟩))⟩
  rcases Regex.mem_ends_alt.1 hd with hd | hd
  · obtain ⟨m, hm, hd⟩ := Regex.mem_ends_seq.1 hd
    obtain ⟨x, rest, rfl, hx, rfl⟩ := Regex.mem_ends_one.1 hm
    obtain rfl := of_decide_eq_true hx
    obtain ⟨u, after, rfl, hu, -⟩ := Regex.mem_ends_one.1 hd
    obtain rfl := of_decide_eq_true hu
    exact ⟨spaces ++ ['('], after, by simp, spaces, _, rfl, hspaces, Or.inr (Or.inl rfl)⟩
  · obtain ⟨u, after, rfl, hu, -⟩ := Regex.mem_ends_one.1 hd
    obtain rfl := of_decide_eq_true hu
    exact ⟨spaces, after, rfl, spaces, [], by simp, hspaces, Or.inl rfl⟩

/-- After a mark and a dollar sign a price can be read. -/
theorem exists_mem_of_isMark {mark : List Char} (h : IsMark w last mark) (after : List Char) :
    ∃ d, d ∈ priceMark.ends w ⟨last, mark ++ '$' :: after⟩ := by
  obtain ⟨spaces, rest, rfl, hspaces, hrest⟩ := h
  have hread : ∀ r : Regex, (∃ d, d ∈ r.ends w ⟨spaces.getLast?.or last, rest ++ '$' :: after⟩) →
      ∃ d, d ∈ ((Regex.many isSpace).seq r).ends w ⟨last, (spaces ++ rest) ++ '$' :: after⟩ := by
    rintro r ⟨d, hd⟩
    exact ⟨d, Regex.mem_ends_seq.2 ⟨_, Regex.mem_ends_many.2
      ⟨spaces, rest ++ '$' :: after, by simp, hspaces, rfl⟩, hd⟩⟩
  have hdollar : ∀ last : Option Char, (⟨some '$', after⟩ : Cursor) ∈
      (Regex.one fun x => x = '$').ends w ⟨last, '$' :: after⟩ :=
    fun last => Regex.mem_ends_one.2 ⟨'$', after, rfl, rfl, rfl⟩
  have hone : ∀ {p : Char → Bool} {x : Char} (last : Option Char) (rest : List Char), p x = true →
      (⟨some x, rest⟩ : Cursor) ∈ (Regex.one p).ends w ⟨last, x :: rest⟩ :=
    fun last rest hx => Regex.mem_ends_one.2 ⟨_, rest, rfl, hx, rfl⟩
  have hmany : ∀ {gap : List Char} (last : Option Char), (∀ x ∈ gap, isSpace x = true) →
      (⟨gap.getLast?.or last, '$' :: after⟩ : Cursor) ∈
        (Regex.many isSpace).ends w ⟨last, gap ++ '$' :: after⟩ :=
    fun last hgap => Regex.mem_ends_many.2 ⟨_, _, rfl, hgap, rfl⟩
  apply hread
  refine ⟨⟨some '$', after⟩, Regex.mem_ends_alt.2 ?_⟩
  rcases hrest with rfl | rfl | ⟨x, gap, rfl, hx, hgap⟩ | ⟨x, y, z, gap, rfl, hw, hx, hy, hgap⟩
  · exact Or.inr (Regex.mem_ends_alt.2 (Or.inr (Regex.mem_ends_alt.2 (Or.inr (hdollar _)))))
  · refine Or.inr (Regex.mem_ends_alt.2 (Or.inr (Regex.mem_ends_alt.2 (Or.inl ?_))))
    exact Regex.mem_ends_seq.2 ⟨_, hone _ _ rfl, hdollar _⟩
  · refine Or.inr (Regex.mem_ends_alt.2 (Or.inl ?_))
    exact Regex.mem_ends_seq.2 ⟨_, hone _ _ hx,
      Regex.mem_ends_seq.2 ⟨_, hmany _ hgap, hdollar _⟩⟩
  · obtain ⟨hz, hgap⟩ := List.forall_mem_cons.1 hgap
    refine Or.inl (Regex.mem_ends_seq.2 ⟨_, Regex.mem_ends_plain.2
      (Pattern.mem_ends_boundary.2 ⟨?_, rfl⟩), ?_⟩)
    · simpa [Pattern.atBoundary] using hw
    · exact Regex.mem_ends_seq.2 ⟨_, hone _ _ hx, Regex.mem_ends_seq.2 ⟨_, hone _ _ hy,
        Regex.mem_ends_seq.2 ⟨_, Regex.mem_ends_seq.2 ⟨_, hone _ _ hz, hmany _ hgap⟩, hdollar _⟩⟩⟩

theorem exists_mem_priceMark {text : List Char} :
    (∃ d, d ∈ priceMark.ends w ⟨last, text⟩) ↔
      ∃ mark after, text = mark ++ '$' :: after ∧ IsMark w last mark := by
  constructor
  · rintro ⟨d, hd⟩
    exact exists_isMark hd
  · rintro ⟨mark, after, rfl, hmark⟩
    exact exists_mem_of_isMark hmark after

/-- Whether a price follows depends on the text up to the next dollar sign. -/
theorem priceFollows_append {x : Char} {rest : List Char} (h : '$' ∈ rest) (more : List Char) :
    priceFollows lang x (rest ++ more) = priceFollows lang x rest := by
  have hiff : (∃ d, d ∈ priceMark.ends (isWord lang.toUnicode) ⟨some x, rest ++ more⟩) ↔
      ∃ d, d ∈ priceMark.ends (isWord lang.toUnicode) ⟨some x, rest⟩ := by
    rw [exists_mem_priceMark, exists_mem_priceMark]
    constructor
    · rintro ⟨mark, after, htext, hmark⟩
      obtain ⟨front, tail, rfl, hfront⟩ := List.eq_append_cons_of_mem h
      rw [List.append_assoc, List.cons_append] at htext
      have hfirst := congrArg (List.takeWhile fun x => x ≠ '$') htext
      rw [takeWhile_ne_append hfront,
        takeWhile_ne_append (dollar_not_mem_of_isMark hmark)] at hfirst
      exact ⟨front, tail, rfl, hfirst ▸ hmark⟩
    · rintro ⟨mark, after, rfl, hmark⟩
      exact ⟨mark, after ++ more, by simp, hmark⟩
  rw [priceFollows, priceFollows, Bool.eq_iff_iff]
  simpa [List.isEmpty_iff, List.eq_nil_iff_forall_not_mem] using hiff

theorem priceFollows_at : priceFollows lang 't' " $".toList = true := by
  have hread : ∃ d, d ∈ priceMark.ends (isWord lang.toUnicode) ⟨some 't', " $".toList⟩ :=
    exists_mem_priceMark.2 ⟨[' '], [], rfl, [' '], [], rfl, by simp [isSpace], Or.inl rfl⟩
  obtain ⟨d, hd⟩ := hread
  rw [priceFollows, Bool.not_eq_true', List.isEmpty_eq_false_iff]
  exact List.ne_nil_of_mem hd

/-- The cut of a text that ends before a price does not depend on what follows the price. -/
theorem shortest_append (front more : List Char) :
    Grouped.shortest (priceFollows lang) (front ++ 't' :: (" $".toList ++ more)) =
      Grouped.shortest (priceFollows lang) (front ++ 't' :: " $".toList) := by
  have hdollar : '$' ∈ " $".toList := by decide
  induction front with
  | nil =>
      rw [List.nil_append, List.nil_append, Grouped.shortest, Grouped.shortest,
        priceFollows_append hdollar, if_pos priceFollows_at, if_pos priceFollows_at]
  | cons x front ih =>
      have hmem : '$' ∈ front ++ 't' :: " $".toList :=
        List.mem_append_right _ (List.mem_cons_of_mem _ hdollar)
      have htext : front ++ 't' :: (" $".toList ++ more) =
          (front ++ 't' :: " $".toList) ++ more := by
        rw [List.append_assoc, List.cons_append]
      rw [List.cons_append, List.cons_append, Grouped.shortest, Grouped.shortest, ih, htext,
        priceFollows_append hmem]

end Price

/-! ## The cue -/

section Cue

variable {lang : Language} {w : Char → Bool} {last : Option Char}

/-- Without its bullet, a text goes on as before from a character that is none. -/
theorem exists_withoutBullet (text : List Char) :
    ∃ front, ∀ rest, withoutBullet (text ++ 'a' :: rest) = front ++ 'a' :: rest := by
  have hdrop : ∀ text rest : List Char,
      (text ++ 'a' :: rest).dropWhile isSpace = text.dropWhile isSpace ++ 'a' :: rest := by
    intro text rest
    rw [List.dropWhile_append, List.dropWhile_cons_of_neg (by decide)]
    cases text.dropWhile isSpace with
    | nil => rfl
    | cons x front => rfl
  cases hfront : text.dropWhile isSpace with
  | nil => exact ⟨[], fun rest => by rw [withoutBullet, hdrop, hfront]; rfl⟩
  | cons x front =>
      by_cases hx : isBullet x = true
      · refine ⟨front.dropWhile isSpace, fun rest => ?_⟩
        rw [withoutBullet, hdrop, hfront]
        exact (if_pos hx).trans (hdrop front rest)
      · refine ⟨x :: front, fun rest => ?_⟩
        rw [withoutBullet, hdrop, hfront]
        exact if_neg hx

theorem head?_dropWhile (text : List Char) :
    ∀ x ∈ (text.dropWhile isSpace).head?, isSpace x = false := by
  intro x hx
  have hdrop := List.head?_dropWhile_not isSpace text
  rw [Option.mem_def.1 hx] at hdrop
  exact hdrop

/-- Spaces are passed over, as many as there are. -/
theorem prefers_spaces (text : List Char) :
    ∃ last', (Regex.many isSpace).Prefers w ⟨last, text⟩ ⟨last', text.dropWhile isSpace⟩ := by
  have hmany := @Regex.prefers_many w isSpace last (text.takeWhile isSpace)
    (text.dropWhile isSpace) (fun x hx => List.mem_takeWhile_imp hx) (head?_dropWhile text)
  rw [List.takeWhile_append_dropWhile] at hmany
  exact ⟨_, hmany⟩

/-- A bullet is passed over, with the spaces behind it. -/
theorem prefers_bullet {text : List Char} (h : ∀ x ∈ text.head?, isSpace x = false) :
    ∃ last', ((Regex.one isBullet).opt.seq (.many isSpace)).Prefers w ⟨last, text⟩
      ⟨last', pastBullet text⟩ := by
  cases text with
  | nil =>
      obtain ⟨last', hspaces⟩ := @prefers_spaces w last []
      exact ⟨last', (Regex.prefers_opt_of_none Regex.ends_one_nil).seq hspaces⟩
  | cons x rest =>
      by_cases hx : isBullet x = true
      · obtain ⟨last', hspaces⟩ := @prefers_spaces w (some x) rest
        refine ⟨last', ?_⟩
        rw [pastBullet, if_pos hx]
        exact (Regex.prefers_one hx).opt.seq hspaces
      · obtain ⟨last', hspaces⟩ := @prefers_spaces w last (x :: rest)
        refine ⟨last', ?_⟩
        rw [List.dropWhile_cons_of_neg (by simp [h x rfl])] at hspaces
        rw [pastBullet, if_neg hx]
        exact (Regex.prefers_opt_of_none (Regex.ends_one_of_not (by simpa using hx))).seq hspaces

theorem sameLetter_self (c : Char) : sameLetter c c = true := by simp [sameLetter]

/-- Behind "Best value:" the cue passes over spaces and a bullet. -/
theorem prefers_cue (text : List Char) :
    ∃ last', cue.Prefers w ⟨none, "Best value:".toList ++ text⟩ ⟨last', withoutBullet text⟩ := by
  have hbest : (Regex.plain (letters "Best")).Prefers w ⟨none, "Best value:".toList ++ text⟩
      ⟨some 't', " value:".toList ++ text⟩ :=
    Regex.prefers_literal sameLetter_self "Best".toList (" value:".toList ++ text) none
  have hspace : (Regex.atLeastOne isSpace).Prefers w ⟨some 't', " value:".toList ++ text⟩
      ⟨some ' ', "value:".toList ++ text⟩ := by
    exact @Regex.prefers_atLeastOne w isSpace (some 't') [] ("value:".toList ++ text) ' '
      (by decide) (by simp) (by simp [isSpace])
  have hvalue : (Regex.plain ((letters "value").alt (letters "pick"))).Prefers w
      ⟨some ' ', "value:".toList ++ text⟩ ⟨some 'e', ':' :: text⟩ :=
    (Regex.prefers_literal sameLetter_self "value".toList (':' :: text) (some ' ')).alt_left
      (.plain (letters "pick"))
  have hcolon : (Regex.one isColon).opt.Prefers w ⟨some 'e', ':' :: text⟩ ⟨some ':', text⟩ :=
    (Regex.prefers_one rfl).opt
  have hnone : (Regex.many isSpace).Prefers w ⟨some 'e', ':' :: text⟩ ⟨some 'e', ':' :: text⟩ :=
    @Regex.prefers_many w isSpace (some 'e') [] (':' :: text) (by simp) (by simp [isSpace])
  obtain ⟨l, hspaces⟩ := @prefers_spaces w (some ':') text
  have hhead := head?_dropWhile text
  have hline : (Regex.one fun x => x = '\n').opt.Prefers w ⟨l, text.dropWhile isSpace⟩
      ⟨l, text.dropWhile isSpace⟩ := by
    apply Regex.prefers_opt_of_none
    cases htext : text.dropWhile isSpace with
    | nil => rfl
    | cons x rest =>
        refine Regex.ends_one_of_not (decide_eq_false ?_)
        rintro rfl
        rw [htext] at hhead
        exact absurd (hhead '\n' rfl) (by decide)
  have hmore : (Regex.many isSpace).Prefers w ⟨l, text.dropWhile isSpace⟩
      ⟨l, text.dropWhile isSpace⟩ :=
    @Regex.prefers_many w isSpace l [] (text.dropWhile isSpace) (by simp) hhead
  obtain ⟨last', hbullet⟩ := @prefers_bullet w l _ hhead
  exact ⟨last', hbest.seq (hspace.seq (hvalue.seq (hnone.seq (hcolon.seq (hspaces.seq
    (hline.seq (hmore.seq hbullet)))))))⟩

/-- The answer without its markup: the cue, the title, and a price. -/
theorem clean_answerText (items : List RetrievedItem) (it : RetrievedItem) :
    ∃ more, clean (answerText items it).toList = "Best value:".toList ++
      ' ' :: ((clean it.title.toList ++ [' ']) ++ 'a' :: 't' :: (" $".toList ++ more)) := by
  have hanswer : (heroPart it).toList <+: (answerText items it).toList := by
    rw [answerText, List.append_assoc, List.singleton_append]
    cases (runners items it).head?.toList.map runnerPart ++
        (suspicious items).head?.toList.map trapPart with
    | nil => simp
    | cons part parts =>
        rw [String.intercalate_cons_of_ne_nil (by simp), String.toList_append,
          String.toList_append, List.append_assoc]
        exact List.prefix_append _ _
  have hhero : "Best value: ".toList ++ (it.title.toList ++ " at $".toList) <+:
      (heroPart it).toList := by
    unfold heroPart
    rw [String.toList_append, String.toList_append, String.toList_append,
      String.toList_append, List.append_assoc, List.append_assoc, List.append_assoc]
    exact List.prefix_append_right_inj _ |>.2 (by simp)
  obtain ⟨more, hmore⟩ := hhero.trans hanswer
  refine ⟨clean more, ?_⟩
  have hlabel : clean "Best value: ".toList = "Best value:".toList ++ [' '] := by decide +kernel
  have hat : clean " at $".toList = ' ' :: 'a' :: 't' :: " $".toList := by decide +kernel
  unfold clean at hlabel hat ⊢
  rw [← hmore, List.filter_append, List.filter_append, List.filter_append, hlabel, hat]
  simp only [List.append_assoc, List.cons_append, List.nil_append]

/-- The lead of the deterministic answer is its title, cut and trimmed. -/
theorem leadTitle_answerText {items : List RetrievedItem} {it : RetrievedItem}
    (hline : '\n' ∉ cut lang it.title) :
    leadTitle lang (answerText items it) = String.ofList (trim (cut lang it.title)) := by
  obtain ⟨more, htext⟩ := clean_answerText items it
  obtain ⟨front, hfront⟩ := exists_withoutBullet (clean it.title.toList ++ [' '])
  have hat : clean it.title.toList ++ " at $".toList =
      (clean it.title.toList ++ [' ']) ++ 'a' :: 't' :: " $".toList := by
    rw [List.append_assoc]
    rfl
  have hcut : cut lang it.title =
      Grouped.shortest (priceFollows lang) ((front ++ ['a']) ++ 't' :: (" $".toList ++ more)) := by
    rw [shortest_append, cut, hat, hfront, List.append_assoc]
    rfl
  have hstop : priceFollows lang 't' (" $".toList ++ more) = true := by
    rw [priceFollows_append (by decide)]
    exact priceFollows_at
  rw [hcut] at hline ⊢
  obtain ⟨last', hcue⟩ := @prefers_cue (isWord lang.toUnicode)
    (' ' :: ((clean it.title.toList ++ [' ']) ++ 'a' :: 't' :: (" $".toList ++ more)))
  obtain ⟨finish, hgroup⟩ := @Grouped.groupAt_of_fewest (isWord lang.toUnicode) leadRe
    (fun x => x ≠ '\n') (priceFollows lang) rfl (fun _ _ => rfl) last' (front ++ ['a'])
    (" $".toList ++ more) 't' hstop fun y hy => decide_eq_true fun h => hline (h ▸ hy)
  have hstart : withoutBullet (' ' :: ((clean it.title.toList ++ [' ']) ++
      'a' :: 't' :: (" $".toList ++ more))) =
        (front ++ ['a']) ++ 't' :: (" $".toList ++ more) := by
    rw [List.append_assoc front, List.singleton_append, ← hfront]
    rfl
  rw [hstart] at hcue
  have hmatch := @Grouped.matchAt_of_prefers (isWord lang.toUnicode) leadRe _ _ _ hcue hgroup
  have hsearch : leadRe.search (isWord lang.toUnicode) (clean (answerText items it).toList) =
      some (Grouped.shortest (priceFollows lang)
        ((front ++ ['a']) ++ 't' :: (" $".toList ++ more)), finish) := by
    rw [htext]
    exact Grouped.search_of_matchAt hmatch
  rw [leadTitle, hsearch]

end Cue

end DealFinder.Rag
