/-
# Replacing what an expression matches

`re.sub`, from left to right: each match is replaced by a name in brackets. The brackets are no
word characters and no match reads one, so a match of the new text lies in a stretch that was kept,
and `Replaced` says what of the old text can be told from the new one there: a kept word character
has the same boundaries as before. So what can be read of the new text could be read of the old one
(`Replaced.carry`). A pass therefore leaves no match of its own (`Replaced.clear`), brings none of
another expression back, and one pass after another replaces matches of the first text only
(`Replaced.trans`, `passed_passes`).
-/

import DealFinder.Math.Reads
import Mathlib.Data.List.Induction

namespace DealFinder.Math

universe u

/-- A name in brackets. -/
def tag (name : List Char) : List Char := '[' :: (name ++ [']'])

theorem tag_ne_nil (name : List Char) : tag name ≠ [] := List.cons_ne_nil _ _

theorem getLast?_tag (name : List Char) : (tag name).getLast? = some ']' :=
  List.getLast?_concat (l := '[' :: name)

/-! ## The function -/

namespace Regex

variable (isWord : Char → Bool) (r : Regex) (label : List Char)

/-- `re.sub` of the text after some character, when a match reads at least one character. The number
is of the characters that the last match has still to pass over. -/
def subFrom : ℕ → Option Char → List Char → List Char
  | _, _, [] => []
  | 0, last, x :: rest =>
      match (r.ends isWord ⟨last, x :: rest⟩).head? with
      | some stop => label ++ subFrom (rest.length - stop.rest.length) (some x) rest
      | none => x :: subFrom 0 (some x) rest
  | skip + 1, _, x :: rest => subFrom skip (some x) rest

/-- `re.sub`. -/
def sub (text : List Char) : List Char := subFrom isWord r label 0 none text

variable {isWord r label} {last : Option Char} {d : Cursor}

theorem subFrom_skip (taken after : List Char) :
    subFrom isWord r label taken.length last (taken ++ after) =
      subFrom isWord r label 0 (taken.getLast?.or last) after := by
  induction taken generalizing last with
  | nil => rfl
  | cons x taken ih =>
      rw [getLast?_or_cons]
      exact ih

theorem subFrom_of_none {x : Char} {rest : List Char} (h : r.ends isWord ⟨last, x :: rest⟩ = []) :
    subFrom isWord r label 0 last (x :: rest) = x :: subFrom isWord r label 0 (some x) rest := by
  rw [subFrom, h]
  rfl

theorem subFrom_of_prefers {text rest : List Char} (h : r.Prefers isWord ⟨last, rest⟩ d)
    (hmoves : Moves text ⟨last, rest⟩ d) (hne : text ≠ []) :
    subFrom isWord r label 0 last rest = label ++ subFrom isWord r label 0 d.last d.rest := by
  obtain ⟨x, taken, rfl⟩ := List.exists_cons_of_ne_nil hne
  obtain rfl : rest = x :: (taken ++ d.rest) := hmoves.rest_eq
  have hskip : (taken ++ d.rest).length - d.rest.length = taken.length := by
    rw [List.length_append, Nat.add_sub_cancel]
  rw [subFrom, h]
  dsimp only
  rw [hskip, subFrom_skip, hmoves.last_eq, getLast?_or_cons]

/-- Where nothing can be read nothing is replaced. -/
theorem subFrom_of_clear {text : List Char}
    (h : ∀ c ∈ Pattern.cursors last text, r.ends isWord c = []) :
    subFrom isWord r label 0 last text = text := by
  induction text generalizing last with
  | nil => rfl
  | cons x text ih =>
      obtain ⟨hfirst, hrest⟩ := List.forall_mem_cons.1 h
      rw [subFrom_of_none hfirst, ih hrest]

end Regex

/-! ## What is kept and what is replaced -/

section Relations

variable {ι : Type u} (isWord : Char → Bool) (pattern : ι → Regex) (name : ι → List Char)

/-- A text, and what it becomes if some matches are replaced. -/
inductive Redacted : Cursor → List Char → Prop
  | done (last : Option Char) : Redacted ⟨last, []⟩ []
  | keep {last : Option Char} {x : Char} {rest out : List Char}
      (hrest : Redacted ⟨some x, rest⟩ out) : Redacted ⟨last, x :: rest⟩ (x :: out)
  | replace {c d : Cursor} {out : List Char} (i : ι) (hmatch : d ∈ (pattern i).ends isWord c)
      (hrest : Redacted d out) : Redacted c (tag (name i) ++ out)

/-- The same, with what is known of a place that is kept, and the boundaries of word characters at
both ends of the step. -/
inductive Replaced (kept : Cursor → Prop) : Cursor → Cursor → Prop
  | done (last last' : Option Char) : Replaced kept ⟨last, []⟩ ⟨last', []⟩
  | keep {last last' : Option Char} {x : Char} {rest rest' : List Char}
      (hkept : kept ⟨last, x :: rest⟩)
      (hbefore : isWord x = true → last.any isWord = last'.any isWord)
      (hbehind : isWord x = true → rest.head?.any isWord = rest'.head?.any isWord)
      (hrest : Replaced kept ⟨some x, rest⟩ ⟨some x, rest'⟩) :
      Replaced kept ⟨last, x :: rest⟩ ⟨last', x :: rest'⟩
  | replace {c d : Cursor} {last' : Option Char} {rest' : List Char} (i : ι)
      (hmatch : d ∈ (pattern i).ends isWord c) (hrest : Replaced kept d ⟨some ']', rest'⟩) :
      Replaced kept c ⟨last', tag (name i) ++ rest'⟩

/-- A text as it stands in two places, with the boundaries of its word characters. -/
structure SameSides (text : List Char) (c c' d d' : Cursor) : Prop where
  before : ∀ x ∈ text.head?, isWord x = true → c.last.any isWord = c'.last.any isWord
  behind : ∀ x ∈ text.getLast?, isWord x = true →
    d.rest.head?.any isWord = d'.rest.head?.any isWord
  next : d'.rest.head?.any isWord = true → d.rest.head? = d'.rest.head?

/-- Expressions whose matches can be replaced by names in brackets: they read no bracket, and
something that no name holds; to be read in another place they need no more than the same
boundaries; and no word character stands where a match could have been longer. -/
structure Taggable : Prop where
  opening : isWord '[' = false
  closing : isWord ']' = false
  reads : ∀ {i c d}, d ∈ (pattern i).ends isWord c →
    ∃ text, Moves text c d ∧ '[' ∉ text ∧ ']' ∉ text ∧ ∃ x ∈ text, ∀ j, x ∉ name j
  moved : ∀ {i text c c' d d'}, d' ∈ (pattern i).ends isWord c' → Moves text c' d' →
    Moves text c d → SameSides isWord text c c' d d' → d ∈ (pattern i).ends isWord c
  front : ∀ {i x last rest}, isWord x = true → (pattern i).ends isWord ⟨some x, rest⟩ ≠ [] →
    (pattern i).ends isWord ⟨last, x :: rest⟩ ≠ []
  back : ∀ {i c d}, (pattern i).Prefers isWord c d →
    ∀ x ∈ d.rest.head?, isWord x = true → d.last.any isWord = false

end Relations

section Replacing

variable {ι : Type u} {isWord : Char → Bool} {pattern : ι → Regex} {name : ι → List Char}
  {kept kept' : Cursor → Prop} {c c' c'' d d' : Cursor} {i : ι}

theorem Replaced.redacted (h : Replaced isWord pattern name kept c c') :
    Redacted isWord pattern name c c'.rest := by
  induction h with
  | done last last' => exact .done last
  | keep _ _ _ _ ih => exact .keep ih
  | replace i hmatch _ ih => exact .replace i hmatch ih

/-- A match reads something. -/
theorem Taggable.reads_some (ht : Taggable isWord pattern name)
    (h : d ∈ (pattern i).ends isWord c) :
    ∃ text, Moves text c d ∧ '[' ∉ text ∧ text ≠ [] := by
  obtain ⟨text, hmoves, hopening, -, x, hx, -⟩ := ht.reads h
  exact ⟨text, hmoves, hopening, List.ne_nil_of_mem hx⟩

theorem Taggable.ends_nil (ht : Taggable isWord pattern name) (last : Option Char) :
    (pattern i).ends isWord ⟨last, []⟩ = [] := by
  rw [List.eq_nil_iff_forall_not_mem]
  intro d hd
  obtain ⟨text, hmoves, -, hne⟩ := ht.reads_some hd
  exact hne (List.append_eq_nil_iff.1 hmoves.rest_eq.symm).1

/-- No match starts in a name in brackets. -/
theorem Taggable.ends_in_tag (ht : Taggable isWord pattern name) {j : ι} {u v rest : List Char}
    (htag : tag (name j) = u ++ v) (hv : v ≠ []) (last : Option Char) :
    (pattern i).ends isWord ⟨last, v ++ rest⟩ = [] := by
  rw [List.eq_nil_iff_forall_not_mem]
  intro d hd
  obtain ⟨text, hmoves, hopening, hclosing, x, hx, hnames⟩ := ht.reads hd
  obtain ⟨w, rfl⟩ : ∃ w, v = w ++ [']'] := by
    have hlast : v.getLast? = some ']' := by
      rw [← List.getLast?_append_of_ne_nil u hv, ← htag, getLast?_tag]
    exact List.getLast?_eq_some_iff.1 hlast
  -- the match cannot pass the closing bracket
  have hstart : text <+: w := by
    have hrest : w ++ (']' :: rest) = text ++ d.rest := by
      rw [← hmoves.rest_eq, List.append_assoc, List.singleton_append]
    rcases List.append_eq_append_iff.1 hrest with ⟨more, rfl, hmore⟩ | ⟨more, rfl, -⟩
    · cases more with
      | nil => exact ⟨[], by rw [List.append_nil, List.append_nil]⟩
      | cons y more =>
          obtain ⟨rfl, -⟩ := List.cons.inj hmore
          exact absurd (List.mem_append_right w List.mem_cons_self) hclosing
    · exact List.prefix_append text more
  have hmem : x ∈ '[' :: name j := by
    have hsplit : '[' :: name j = u ++ w := by
      have hconcat : ('[' :: name j) ++ [']'] = (u ++ w) ++ [']'] := by
        rw [List.append_assoc]
        exact htag
      exact List.append_cancel_right hconcat
    rw [hsplit]
    exact List.mem_append_right u (hstart.subset hx)
  rcases List.mem_cons.1 hmem with rfl | hname
  · exact hopening hx
  · exact hnames j hname

/-- A word character at the start of the new text was kept. -/
theorem Replaced.head? (ht : Taggable isWord pattern name)
    (h : Replaced isWord pattern name kept c c') (hword : c'.rest.head?.any isWord = true) :
    c.rest.head? = c'.rest.head? := by
  cases h with
  | done => rfl
  | keep => rfl
  | replace i hmatch hrest =>
      rw [tag, List.cons_append, List.head?_cons, Option.any_some, ht.opening] at hword
      cases hword

/-- A text without an opening bracket that stands in the new text was kept. -/
theorem Replaced.follow (ht : Taggable isWord pattern name) {text : List Char}
    (h : Replaced isWord pattern name kept c c') (hmoves : Moves text c' d')
    (hopening : '[' ∉ text) (hne : text ≠ []) :
    ∃ d, Moves text c d ∧ Replaced isWord pattern name kept d d' ∧
      SameSides isWord text c c' d d' := by
  induction text generalizing c c' with
  | nil => exact absurd rfl hne
  | cons x text ih =>
      obtain ⟨hx, hclean⟩ : '[' ≠ x ∧ '[' ∉ text := by
        rw [List.mem_cons, not_or] at hopening
        exact hopening
      cases h with
      | done => cases hmoves.rest_eq
      | replace i hmatch hrest =>
          obtain ⟨rfl, -⟩ := List.cons.inj hmoves.rest_eq
          exact absurd rfl hx
      | @keep last last' y rest rest' hkept hbefore hbehind hrest =>
          obtain ⟨rfl, htail⟩ := List.cons.inj hmoves.rest_eq
          have hfirst : Moves [y] ⟨last, y :: rest⟩ ⟨some y, rest⟩ := ⟨rfl, rfl⟩
          have hbefore' : ∀ z ∈ (y :: text).head?, isWord z = true →
              last.any isWord = last'.any isWord := by
            intro z hz
            obtain rfl := Option.some_inj.1 hz
            exact hbefore
          have hmoves' : Moves text ⟨some y, rest'⟩ d' := by
            refine ⟨htail, ?_⟩
            rw [hmoves.last_eq, Regex.getLast?_or_cons]
          cases text with
          | nil =>
              obtain rfl := hmoves'.eq_of_nil
              refine ⟨⟨some y, rest⟩, hfirst, hrest, hbefore', ?_, hrest.head? ht⟩
              intro z hz
              obtain rfl := Option.some_inj.1 hz
              exact hbehind
          | cons z text =>
              obtain ⟨d, hmoves'', hreplaced, hsides⟩ := ih hrest hmoves' hclean (by simp)
              exact ⟨d, hfirst.trans hmoves'', hreplaced, hbefore', hsides.behind, hsides.next⟩

/-- What can be read of the new text could be read of the old one. -/
theorem Replaced.carry (ht : Taggable isWord pattern name)
    (h : Replaced isWord pattern name kept c c') (hmatch : d' ∈ (pattern i).ends isWord c') :
    ∃ d ∈ (pattern i).ends isWord c, Replaced isWord pattern name kept d d' := by
  obtain ⟨text, hmoves, hopening, hne⟩ := ht.reads_some hmatch
  obtain ⟨d, hmoves', hreplaced, hsides⟩ := h.follow ht hmoves hopening hne
  exact ⟨d, ht.moved hmatch hmoves hmoves' hsides, hreplaced⟩

/-- The places of a text and what follows it: in the text, or behind it. -/
theorem mem_cursors_append {last : Option Char} {u v : List Char}
    (h : c ∈ Pattern.cursors last (u ++ v)) :
    (∃ before after, u = before ++ after ∧ after ≠ [] ∧ c.rest = after ++ v) ∨
      c ∈ Pattern.cursors (u.getLast?.or last) v := by
  induction u generalizing last with
  | nil => exact .inr h
  | cons x u ih =>
      rcases List.mem_cons.1 h with rfl | hrest
      · exact .inl ⟨[], x :: u, rfl, List.cons_ne_nil x u, rfl⟩
      · rw [Regex.getLast?_or_cons]
        rcases ih hrest with ⟨before, after, rfl, hne, hafter⟩ | hbehind
        · exact .inl ⟨x :: before, after, rfl, hne, hafter⟩
        · exact .inr hbehind

/-- The places behind a match are places of the text. -/
theorem Moves.cursors_subset {text : List Char} (h : Moves text c d) :
    Pattern.cursors d.last d.rest ⊆ Pattern.cursors c.last c.rest := by
  induction text generalizing c with
  | nil =>
      rw [h.eq_of_nil]
      exact List.Subset.refl _
  | cons x text ih =>
      have hrest : Moves text ⟨some x, text ++ d.rest⟩ d := by
        refine ⟨rfl, ?_⟩
        rw [h.last_eq, Regex.getLast?_or_cons]
      rw [h.rest_eq]
      exact List.Subset.trans (ih hrest) (List.subset_cons_self _ _)

/-- An expression that cannot be read at the places that are kept cannot be read of the new
text. -/
theorem Replaced.clear (ht : Taggable isWord pattern name)
    (h : Replaced isWord pattern name kept c c')
    (hkept : ∀ e ∈ Pattern.cursors c.last c.rest, kept e → (pattern i).ends isWord e = []) :
    ∀ e ∈ Pattern.cursors c'.last c'.rest, (pattern i).ends isWord e = [] := by
  induction h with
  | done last last' =>
      intro e he
      rw [List.mem_singleton.1 he]
      exact ht.ends_nil last'
  | @keep last last' x rest rest' hhere hbefore hbehind hrest ih =>
      intro e he
      rcases List.mem_cons.1 he with rfl | he
      · rw [List.eq_nil_iff_forall_not_mem]
        intro d' hd'
        obtain ⟨d, hd, -⟩ := (Replaced.keep hhere hbefore hbehind hrest).carry ht hd'
        rw [hkept _ List.mem_cons_self hhere] at hd
        cases hd
      · exact ih (fun e he => hkept e (List.mem_cons_of_mem _ he)) e he
  | replace j hmatch hrest ih =>
      intro e he
      rcases mem_cursors_append he with ⟨before, after, htag, hne, hafter⟩ | he
      · obtain ⟨last, rest⟩ := e
        obtain rfl := hafter
        exact ht.ends_in_tag htag hne last
      · rw [getLast?_tag] at he
        obtain ⟨text, hmoves, -⟩ := ht.reads_some hmatch
        exact ih (fun e he => hkept e (hmoves.cursors_subset he)) e he

/-- Characters at which no match starts are kept. -/
theorem Replaced.of_append {word rest : List Char} {last : Option Char}
    (h : Replaced isWord pattern name kept ⟨last, word ++ rest⟩ c')
    (hnone : ∀ u v, word = u ++ v → v ≠ [] → ∀ i last,
      (pattern i).ends isWord ⟨last, v ++ rest⟩ = []) :
    ∃ rest', c'.rest = word ++ rest' ∧
      Replaced isWord pattern name kept ⟨word.getLast?.or last, rest⟩
        ⟨word.getLast?.or c'.last, rest'⟩ := by
  induction word generalizing last c' with
  | nil => exact ⟨c'.rest, rfl, h⟩
  | cons x word ih =>
      cases h with
      | @keep _ last' _ _ rest' _ _ _ hrest =>
          have hnone' : ∀ u v, word = u ++ v → v ≠ [] → ∀ i last,
              (pattern i).ends isWord ⟨last, v ++ rest⟩ = [] := by
            intro u v hword
            exact hnone (x :: u) v (by rw [hword, List.cons_append])
          obtain ⟨after, hafter, hreplaced⟩ := ih hrest hnone'
          refine ⟨after, ?_, ?_⟩
          · rw [List.cons_append, ← hafter]
          · rw [Regex.getLast?_or_cons, Regex.getLast?_or_cons]
            exact hreplaced
      | replace j hmatch _ =>
          rw [hnone [] (x :: word) rfl (List.cons_ne_nil x word)] at hmatch
          cases hmatch

/-- Names in brackets stay. -/
theorem Replaced.of_tag (ht : Taggable isWord pattern name) {j : ι} {rest : List Char}
    {last : Option Char}
    (h : Replaced isWord pattern name kept ⟨last, tag (name j) ++ rest⟩ c') :
    ∃ rest', c'.rest = tag (name j) ++ rest' ∧
      Replaced isWord pattern name kept ⟨some ']', rest⟩ ⟨some ']', rest'⟩ := by
  obtain ⟨rest', hrest, hreplaced⟩ :=
    h.of_append fun u v htag hv i last => ht.ends_in_tag htag hv last
  rw [getLast?_tag] at hreplaced
  exact ⟨rest', hrest, hreplaced⟩

/-- What is replaced in the new text was there in the old one. -/
theorem Replaced.trans (ht : Taggable isWord pattern name)
    (h : Replaced isWord pattern name kept c c') (h' : Replaced isWord pattern name kept' c' c'') :
    Replaced isWord pattern name (fun _ => True) c c'' := by
  induction hlength : c'.rest.length using Nat.strongRecOn generalizing c c' c'' with
  | ind n ih =>
      cases h with
      | done last last' =>
          cases h' with
          | done _ last'' => exact .done last last''
          | replace j hmatch _ =>
              rw [ht.ends_nil] at hmatch
              cases hmatch
      | @keep last last' x rest rest' hkept hbefore hbehind hrest =>
          cases h' with
          | @keep _ last'' _ _ rest'' _ hbefore' hbehind' hrest' =>
              rw [List.length_cons] at hlength
              exact .keep trivial (fun hx => (hbefore hx).trans (hbefore' hx))
                (fun hx => (hbehind hx).trans (hbehind' hx))
                (ih rest'.length (by omega) hrest hrest' rfl)
          | @replace _ e _ _ j hmatch hrest' =>
              obtain ⟨d, hd, hreplaced⟩ :=
                (Replaced.keep hkept hbefore hbehind hrest).carry ht hmatch
              obtain ⟨text, hmoves, -, hne⟩ := ht.reads_some hmatch
              have hshorter : e.rest.length < n := by
                have hpos := List.length_pos_iff.2 hne
                rw [← hlength, hmoves.rest_eq, List.length_append]
                omega
              exact .replace j hd (ih e.rest.length hshorter hreplaced hrest' rfl)
      | @replace _ d last' rest' j hmatch hrest =>
          obtain ⟨last'', text⟩ := c''
          obtain ⟨rest'', htext, hreplaced⟩ := h'.of_tag ht
          obtain rfl : text = tag (name j) ++ rest'' := htext
          have hshorter : rest'.length < n := by
            have hpos := List.length_pos_iff.2 (tag_ne_nil (name j))
            rw [← hlength, List.length_append]
            omega
          exact .replace j hmatch (ih rest'.length hshorter hrest hreplaced rfl)

/-- A pass replaces matches, and keeps what none starts at. -/
theorem replaced_subFrom (ht : Taggable isWord pattern name) (i : ι) {last last' : Option Char}
    {text : List Char}
    (hlast : ∀ x ∈ text.head?, isWord x = true → last.any isWord = last'.any isWord) :
    Replaced isWord pattern name (fun e => (pattern i).ends isWord e = []) ⟨last, text⟩
      ⟨last', Regex.subFrom isWord (pattern i) (tag (name i)) 0 last text⟩ := by
  induction hlength : text.length using Nat.strongRecOn generalizing text last last' with
  | ind n ih =>
      cases text with
      | nil => exact .done last last'
      | cons x rest =>
          cases hends : (pattern i).ends isWord ⟨last, x :: rest⟩ with
          | nil =>
              rw [Regex.subFrom_of_none hends]
              refine .keep hends (hlast x rfl) ?_
                (ih rest.length (by rw [← hlength]; simp) (fun _ _ _ => rfl) rfl)
              intro hx
              cases rest with
              | nil => rfl
              | cons y rest =>
                  cases hnext : (pattern i).ends isWord ⟨some x, y :: rest⟩ with
                  | nil =>
                      rw [Regex.subFrom_of_none hnext]
                      rfl
                  | cons e others =>
                      have hread : (pattern i).ends isWord ⟨last, x :: y :: rest⟩ ≠ [] :=
                        ht.front hx (hnext ▸ List.cons_ne_nil e others)
                      exact absurd hends hread
          | cons d others =>
              have hprefers : (pattern i).Prefers isWord ⟨last, x :: rest⟩ d := by
                rw [Regex.Prefers, hends]
                rfl
              have hmatch : d ∈ (pattern i).ends isWord ⟨last, x :: rest⟩ := by
                rw [hends]
                exact List.mem_cons_self
              obtain ⟨taken, hmoves, -, hne⟩ := ht.reads_some hmatch
              have hshorter : d.rest.length < n := by
                have hpos := List.length_pos_iff.2 hne
                have hrest : x :: rest = taken ++ d.rest := hmoves.rest_eq
                rw [← hlength, hrest, List.length_append]
                omega
              have hlast' : ∀ y ∈ d.rest.head?, isWord y = true →
                  d.last.any isWord = (some ']').any isWord := by
                intro y hy hword
                rw [ht.back hprefers y hy hword, Option.any_some, ht.closing]
              rw [Regex.subFrom_of_prefers hprefers hmoves hne]
              exact .replace i hmatch (ih d.rest.length hshorter hlast' rfl)

/-! ## Expressions that can be replaced -/

section Expressions

variable {within : Char → Prop} {r s : Regex} {accepts : Char → Bool} {text : List Char}

/-- A cursor moves over one text to a place. -/
theorem Moves.unique {u v : List Char} (hu : Moves u c d) (hv : Moves v c d) : u = v :=
  List.append_cancel_right (hu.rest_eq.symm.trans hv.rest_eq)

/-- Without boundaries an expression can be read in any place. -/
theorem moved_of_over (h : r.Over within) (hmatch : d' ∈ r.ends isWord c')
    (hmoves' : Moves text c' d') (hmoves : Moves text c d) : d ∈ r.ends isWord c := by
  obtain ⟨text', hreads, hmoves''⟩ := (Regex.mem_ends_iff_reads h).1 hmatch
  obtain rfl := hmoves''.unique hmoves'
  exact (Regex.mem_ends_iff_reads h).2 ⟨text', hreads, hmoves⟩

/-- A repetition at the start of an expression can begin one character earlier. -/
theorem front_of_over (h : ((Regex.atLeastOne accepts).seq s).Over within) {x : Char}
    (hx : accepts x = true) {last : Option Char} {rest : List Char}
    (hne : ((Regex.atLeastOne accepts).seq s).ends isWord ⟨some x, rest⟩ ≠ []) :
    ((Regex.atLeastOne accepts).seq s).ends isWord ⟨last, x :: rest⟩ ≠ [] := by
  obtain ⟨d, hd⟩ := List.exists_mem_of_ne_nil _ hne
  obtain ⟨_, ⟨_, v, ⟨_, w, ⟨y, hy, rfl⟩, hw, rfl⟩, hv, rfl⟩, hmoves⟩ :=
    (Regex.mem_ends_iff_reads h).1 hd
  have hlonger : ∀ z ∈ y :: w, accepts z = true := List.forall_mem_cons.2 ⟨hy, hw⟩
  have hfirst : Moves [x] ⟨last, x :: rest⟩ ⟨some x, rest⟩ := ⟨rfl, rfl⟩
  refine List.ne_nil_of_mem ((Regex.mem_ends_iff_reads h).2 ⟨_, ?_, hfirst.trans hmoves⟩)
  exact ⟨_, v, ⟨[x], y :: w, ⟨x, hx, rfl⟩, hlonger, rfl⟩, hv, rfl⟩

/-- An expression whose texts start with a word character. -/
def StartsWord (isWord : Char → Bool) (r : Regex) : Prop :=
  ∀ text, r.Reads text → text.head?.any isWord = true

theorem head?_of_moves {c d : Cursor} (h : Moves text c d)
    (hword : text.head?.any isWord = true) : c.rest.head? = text.head? := by
  cases text with
  | nil => cases hword
  | cons x text =>
      rw [h.rest_eq]
      rfl

/-- A boundary at a word character is one where the character before is of the same kind. -/
theorem atBoundary_congr (hlast : c.last.any isWord = c'.last.any isWord)
    (hrest : c.rest.head?.any isWord = c'.rest.head?.any isWord) :
    Pattern.atBoundary isWord c = Pattern.atBoundary isWord c' := by
  rw [Pattern.atBoundary, Pattern.atBoundary, hlast, hrest]

/-- With the same boundaries an expression between boundaries can be read in another place. -/
theorem moved_bounded (h : r.Over within) (hstarts : StartsWord isWord r)
    (hmatch : d' ∈ r.bounded.ends isWord c') (hmoves' : Moves text c' d') (hmoves : Moves text c d)
    (hsides : SameSides isWord text c c' d d') : d ∈ r.bounded.ends isWord c := by
  obtain ⟨text', hreads, hmoves'', hc, hd⟩ := (Regex.mem_ends_bounded h).1 hmatch
  obtain rfl := hmoves''.unique hmoves'
  have hword := hstarts text' hreads
  refine (Regex.mem_ends_bounded h).2 ⟨text', hreads, hmoves, ?_, ?_⟩
  · obtain ⟨x, hx, hwordx⟩ := Option.any_eq_true _ _ |>.1 hword
    rw [← hc]
    refine atBoundary_congr (hsides.before x hx hwordx) ?_
    rw [head?_of_moves hmoves hword, head?_of_moves hmoves' hword]
  · rw [← hd]
    have hne : text' ≠ [] := by
      rintro rfl
      cases hword
    have hlast : d.last = text'.getLast? ∧ d'.last = text'.getLast? := by
      rw [hmoves.last_eq, hmoves'.last_eq, List.getLast?_eq_some_getLast hne]
      exact ⟨rfl, rfl⟩
    refine atBoundary_congr (by rw [hlast.1, hlast.2]) ?_
    cases hbefore : d'.last.any isWord with
    | true =>
        rw [hlast.2] at hbefore
        obtain ⟨x, hx, hwordx⟩ := Option.any_eq_true _ _ |>.1 hbefore
        exact hsides.behind x hx hwordx
    | false =>
        have hnext : d'.rest.head?.any isWord = true := by
          rw [Pattern.atBoundary, hbefore] at hd
          simpa using hd
        rw [hsides.next hnext]

/-- A word character before a word character is no boundary. -/
theorem front_bounded (h : r.Over within) (hstarts : StartsWord isWord r) {x : Char}
    (hx : isWord x = true) {rest : List Char} :
    r.bounded.ends isWord ⟨some x, rest⟩ = [] := by
  rw [List.eq_nil_iff_forall_not_mem]
  intro d hd
  obtain ⟨text, hreads, hmoves, hc, -⟩ := (Regex.mem_ends_bounded h).1 hd
  have hword := hstarts text hreads
  rw [Pattern.atBoundary, head?_of_moves hmoves hword, hword, Option.any_some, hx] at hc
  cases hc

theorem back_bounded (h : r.Over within) (hmatch : d ∈ r.bounded.ends isWord c) {x : Char}
    (hx : x ∈ d.rest.head?) (hword : isWord x = true) : d.last.any isWord = false := by
  obtain ⟨-, -, -, -, hd⟩ := (Regex.mem_ends_bounded h).1 hmatch
  rw [Pattern.atBoundary, Option.mem_def.1 hx, Option.any_some, hword] at hd
  simpa using hd

end Expressions

/-! ## One pass after another -/

/-- The matches of several expressions, replaced in this order. -/
def passes (isWord : Char → Bool) (pattern : ι → Regex) (name : ι → List Char) (order : List ι)
    (text : List Char) : List Char :=
  order.foldl (fun text i => (pattern i).sub isWord (tag (name i)) text) text

/-- Nothing of an expression can be read of a text. -/
def Clear (isWord : Char → Bool) (r : Regex) (text : List Char) : Prop :=
  ∀ e ∈ Pattern.cursors none text, r.ends isWord e = []

theorem sub_of_clear {r : Regex} {label text : List Char} (h : Clear isWord r text) :
    r.sub isWord label text = text := Regex.subFrom_of_clear h

theorem replaced_sub (ht : Taggable isWord pattern name) (i : ι) (text : List Char) :
    Replaced isWord pattern name (fun e => (pattern i).ends isWord e = []) ⟨none, text⟩
      ⟨none, (pattern i).sub isWord (tag (name i)) text⟩ :=
  replaced_subFrom ht i fun _ _ _ => rfl

/-- A pass leaves nothing of its expression, and brings nothing of another one back. -/
theorem clear_sub (ht : Taggable isWord pattern name) {j : ι} {text : List Char}
    (h : j = i ∨ Clear isWord (pattern j) text) :
    Clear isWord (pattern j) ((pattern i).sub isWord (tag (name i)) text) := by
  refine (replaced_sub ht i text).clear ht ?_
  intro e he hkept
  rcases h with rfl | hclear
  · exact hkept
  · exact hclear e he

/-- What the passes have done so far: nothing is left of their expressions, and matches of the
first text were replaced. -/
structure Passed (isWord : Char → Bool) (pattern : ι → Regex) (name : ι → List Char)
    (order : List ι) (text out : List Char) : Prop where
  clear : ∀ i ∈ order, Clear isWord (pattern i) out
  replaced : Replaced isWord pattern name (fun _ => True) ⟨none, text⟩ ⟨none, out⟩

theorem Replaced.refl (last : Option Char) (text : List Char) :
    Replaced isWord pattern name (fun _ => True) ⟨last, text⟩ ⟨last, text⟩ := by
  induction text generalizing last with
  | nil => exact .done last last
  | cons x text ih => exact .keep trivial (fun _ => rfl) (fun _ => rfl) (ih (some x))

theorem Passed.sub (ht : Taggable isWord pattern name) {order : List ι} {text out : List Char}
    (h : Passed isWord pattern name order text out) (i : ι) :
    Passed isWord pattern name (order ++ [i]) text
      ((pattern i).sub isWord (tag (name i)) out) := by
  constructor
  · intro j hj
    refine clear_sub ht ?_
    rcases List.mem_append.1 hj with hj | hj
    · exact .inr (h.clear j hj)
    · exact .inl (List.mem_singleton.1 hj)
  · exact h.replaced.trans ht (replaced_sub ht i out)

theorem passed_passes (ht : Taggable isWord pattern name) (order : List ι) (text : List Char) :
    Passed isWord pattern name order text (passes isWord pattern name order text) := by
  induction order using List.reverseRecOn with
  | nil => exact ⟨fun i hi => absurd hi List.not_mem_nil, .refl none text⟩
  | append_singleton order i ih =>
      rw [passes, List.foldl_append]
      exact ih.sub ht i

/-- Passes over a text in which their expressions cannot be read leave it as it is. -/
theorem passes_of_clear {order : List ι} {text : List Char}
    (h : ∀ i ∈ order, Clear isWord (pattern i) text) :
    passes isWord pattern name order text = text := by
  induction order with
  | nil => rfl
  | cons i order ih =>
      obtain ⟨hi, hrest⟩ := List.forall_mem_cons.1 h
      rw [passes, List.foldl_cons, sub_of_clear hi]
      exact ih hrest

end Replacing

end DealFinder.Math
