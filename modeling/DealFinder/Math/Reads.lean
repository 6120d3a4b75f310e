/-
# What an expression reads

The texts that a regular expression reads, whatever stands around them. An expression without
boundaries can be read at a cursor exactly if the rest of the text starts with one of them
(`mem_ends_iff_reads`); between two word boundaries it also asks that both lie there.
-/

import DealFinder.Math.Regex

namespace DealFinder.Math

variable {isWord : Char → Bool} {within : Char → Prop} {c d : Cursor} {text : List Char}

namespace Pattern

/-- The texts that a pattern reads, its boundaries left out. -/
def Reads : Pattern → List Char → Prop
  | empty, text => text = []
  | one accepts, text => ∃ x, accepts x = true ∧ text = [x]
  | boundary, text => text = []
  | seq p q, text => ∃ u v, p.Reads u ∧ q.Reads v ∧ text = u ++ v
  | alt p q, text => p.Reads text ∨ q.Reads text

/-- A pattern without boundaries, all of whose characters are of one kind. -/
def Over (within : Char → Prop) : Pattern → Prop
  | empty => True
  | one accepts => ∀ x, accepts x = true → within x
  | boundary => False
  | seq p q => p.Over within ∧ q.Over within
  | alt p q => p.Over within ∧ q.Over within

end Pattern

/-- A cursor moves over a text. -/
structure Moves (text : List Char) (c d : Cursor) : Prop where
  rest_eq : c.rest = text ++ d.rest
  last_eq : d.last = text.getLast?.or c.last

theorem moves_nil (c : Cursor) : Moves [] c c := ⟨rfl, rfl⟩

theorem Moves.eq_of_nil (h : Moves [] c d) : d = c := by
  obtain ⟨last, rest⟩ := c
  obtain ⟨last', rest'⟩ := d
  obtain ⟨hrest, hlast⟩ := h
  rw [Cursor.mk.injEq]
  exact ⟨hlast, hrest.symm⟩

theorem Moves.eq_mk (h : Moves text c d) : d = ⟨text.getLast?.or c.last, d.rest⟩ := by
  rw [← h.last_eq]

/-- What stands before a cursor once two texts are read. -/
theorem getLast?_append_or (u v : List Char) (last : Option Char) :
    (u ++ v).getLast?.or last = v.getLast?.or (u.getLast?.or last) := by
  rw [List.getLast?_append]
  cases v.getLast? with
  | none => rfl
  | some y => rfl

theorem Moves.trans {u v : List Char} {m : Cursor} (hu : Moves u c m) (hv : Moves v m d) :
    Moves (u ++ v) c d := by
  constructor
  · rw [hu.rest_eq, hv.rest_eq, List.append_assoc]
  · rw [hv.last_eq, hu.last_eq, getLast?_append_or]

/-- A cursor that moves over two texts stops between them. -/
theorem Moves.exists_between {u v : List Char} (h : Moves (u ++ v) c d) :
    ∃ m, Moves u c m ∧ Moves v m d := by
  obtain ⟨hrest, hlast⟩ := h
  rw [List.append_assoc] at hrest
  rw [getLast?_append_or] at hlast
  exact ⟨⟨u.getLast?.or c.last, v ++ d.rest⟩, ⟨hrest, rfl⟩, ⟨rfl, hlast⟩⟩

namespace Pattern

variable {p : Pattern}

theorem mem_ends_one_iff {accepts : Char → Bool} :
    d ∈ (one accepts).ends isWord c ↔ ∃ x, accepts x = true ∧ Moves [x] c d := by
  obtain ⟨last, rest⟩ := c
  cases rest with
  | nil =>
      constructor
      · intro h
        cases h
      · rintro ⟨x, -, hmoves⟩
        cases hmoves.rest_eq
  | cons x rest =>
      rw [mem_ends_one]
      constructor
      · rintro ⟨hx, rfl⟩
        exact ⟨x, hx, rfl, rfl⟩
      · rintro ⟨y, hy, hmoves⟩
        obtain ⟨rfl, hrest⟩ := List.cons.inj hmoves.rest_eq
        refine ⟨hy, ?_⟩
        rw [hmoves.eq_mk, hrest]
        rfl

/-- A pattern without boundaries is read wherever one of its texts stands. -/
theorem mem_ends_iff_reads (h : p.Over within) :
    d ∈ p.ends isWord c ↔ ∃ text, p.Reads text ∧ Moves text c d := by
  induction p generalizing c d with
  | empty =>
      rw [mem_ends_empty]
      constructor
      · rintro rfl
        exact ⟨[], rfl, moves_nil d⟩
      · rintro ⟨text, rfl, hmoves⟩
        exact hmoves.eq_of_nil
  | one accepts =>
      rw [mem_ends_one_iff]
      constructor
      · rintro ⟨x, hx, hmoves⟩
        exact ⟨[x], ⟨x, hx, rfl⟩, hmoves⟩
      · rintro ⟨text, ⟨x, hx, rfl⟩, hmoves⟩
        exact ⟨x, hx, hmoves⟩
  | boundary => exact h.elim
  | seq p q ihp ihq =>
      rw [mem_ends_seq]
      constructor
      · rintro ⟨m, hm, hd⟩
        obtain ⟨u, hu, hcm⟩ := (ihp h.1).1 hm
        obtain ⟨v, hv, hmd⟩ := (ihq h.2).1 hd
        exact ⟨u ++ v, ⟨u, v, hu, hv, rfl⟩, hcm.trans hmd⟩
      · rintro ⟨text, ⟨u, v, hu, hv, rfl⟩, hmoves⟩
        obtain ⟨m, hcm, hmd⟩ := hmoves.exists_between
        exact ⟨m, (ihp h.1).2 ⟨u, hu, hcm⟩, (ihq h.2).2 ⟨v, hv, hmd⟩⟩
  | alt p q ihp ihq =>
      rw [mem_ends_alt, ihp h.1, ihq h.2, ← exists_or]
      simp only [Reads, or_and_right]

/-- The characters of what a pattern reads. -/
theorem Over.forall_mem (h : p.Over within) (hreads : p.Reads text) : ∀ x ∈ text, within x := by
  induction p generalizing text with
  | empty =>
      rw [show text = [] from hreads]
      exact fun x hx => absurd hx List.not_mem_nil
  | one accepts =>
      obtain ⟨x, hx, rfl⟩ := hreads
      exact List.forall_mem_singleton.2 (h x hx)
  | boundary => exact h.elim
  | seq p q ihp ihq =>
      obtain ⟨u, v, hu, hv, rfl⟩ := hreads
      exact List.forall_mem_append.2 ⟨ihp h.1 hu, ihq h.2 hv⟩
  | alt p q ihp ihq =>
      rcases hreads with hp | hq
      · exact ihp h.1 hp
      · exact ihq h.2 hq

end Pattern

namespace Regex

/-- An expression so many times. -/
def times : ℕ → Regex → Regex
  | 0, _ => plain .empty
  | n + 1, r => r.seq (times n r)

/-- An expression up to so many times, as many as possible. -/
def atMost : ℕ → Regex → Regex
  | 0, _ => plain .empty
  | n + 1, r => (r.seq (atMost n r)).opt

/-- An expression between so and so many times, as many as possible. -/
def between (low high : ℕ) (r : Regex) : Regex := (times low r).seq (atMost (high - low) r)

/-- An expression between word boundaries. -/
def bounded (r : Regex) : Regex := (plain .boundary).seq (r.seq (plain .boundary))

/-- The texts that an expression reads, its boundaries left out. -/
def Reads : Regex → List Char → Prop
  | plain p, text => p.Reads text
  | many accepts, text => ∀ x ∈ text, accepts x = true
  | fewest accepts, text => ∀ x ∈ text, accepts x = true
  | seq r s, text => ∃ u v, r.Reads u ∧ s.Reads v ∧ text = u ++ v
  | alt r s, text => r.Reads text ∨ s.Reads text

/-- An expression without boundaries, all of whose characters are of one kind. -/
def Over (within : Char → Prop) : Regex → Prop
  | plain p => p.Over within
  | many accepts => ∀ x, accepts x = true → within x
  | fewest accepts => ∀ x, accepts x = true → within x
  | seq r s => r.Over within ∧ s.Over within
  | alt r s => r.Over within ∧ s.Over within

variable {r s : Regex} {accepts : Char → Bool}

theorem mem_many_iff_moves : d ∈ (many accepts).ends isWord c ↔
    ∃ text, (∀ x ∈ text, accepts x = true) ∧ Moves text c d := by
  rw [mem_ends_many]
  constructor
  · rintro ⟨taken, after, hrest, htaken, rfl⟩
    exact ⟨taken, htaken, hrest, rfl⟩
  · rintro ⟨text, htext, hmoves⟩
    exact ⟨text, d.rest, hmoves.rest_eq, htext, hmoves.eq_mk⟩

theorem mem_fewestEnds {last : Option Char} {rest : List Char} :
    d ∈ fewestEnds accepts last rest ↔
      ∃ text, (∀ x ∈ text, accepts x = true) ∧ Moves text ⟨last, rest⟩ d := by
  have hnone : ∀ x ∈ ([] : List Char), accepts x = true := fun x hx => absurd hx List.not_mem_nil
  induction rest generalizing last with
  | nil =>
      rw [fewestEnds, List.mem_singleton]
      constructor
      · rintro rfl
        exact ⟨[], hnone, moves_nil _⟩
      · rintro ⟨text, -, hmoves⟩
        obtain ⟨rfl, -⟩ := List.append_eq_nil_iff.1 hmoves.rest_eq.symm
        exact hmoves.eq_of_nil
  | cons x rest ih =>
      have hfirst : Moves [x] ⟨last, x :: rest⟩ ⟨some x, rest⟩ := ⟨rfl, rfl⟩
      rw [fewestEnds, List.mem_cons]
      constructor
      · rintro (rfl | hmore)
        · exact ⟨[], hnone, moves_nil _⟩
        · split_ifs at hmore with hx
          · obtain ⟨text, htext, hmoves⟩ := ih.1 hmore
            exact ⟨x :: text, List.forall_mem_cons.2 ⟨hx, htext⟩, hfirst.trans hmoves⟩
          · cases hmore
      · rintro ⟨text, htext, hmoves⟩
        cases text with
        | nil => exact .inl hmoves.eq_of_nil
        | cons y text =>
            obtain ⟨rfl, hrest⟩ := List.cons.inj hmoves.rest_eq
            obtain ⟨hx, htext⟩ := List.forall_mem_cons.1 htext
            rw [if_pos hx]
            refine .inr (ih.2 ⟨text, htext, hrest, ?_⟩)
            rw [hmoves.last_eq, getLast?_or_cons]

/-- An expression without boundaries is read wherever one of its texts stands. -/
theorem mem_ends_iff_reads (h : r.Over within) :
    d ∈ r.ends isWord c ↔ ∃ text, r.Reads text ∧ Moves text c d := by
  induction r generalizing c d with
  | plain p => exact Pattern.mem_ends_iff_reads h
  | many accepts => exact mem_many_iff_moves
  | fewest accepts => exact mem_fewestEnds
  | seq r s ihr ihs =>
      rw [mem_ends_seq]
      constructor
      · rintro ⟨m, hm, hd⟩
        obtain ⟨u, hu, hcm⟩ := (ihr h.1).1 hm
        obtain ⟨v, hv, hmd⟩ := (ihs h.2).1 hd
        exact ⟨u ++ v, ⟨u, v, hu, hv, rfl⟩, hcm.trans hmd⟩
      · rintro ⟨text, ⟨u, v, hu, hv, rfl⟩, hmoves⟩
        obtain ⟨m, hcm, hmd⟩ := hmoves.exists_between
        exact ⟨m, (ihr h.1).2 ⟨u, hu, hcm⟩, (ihs h.2).2 ⟨v, hv, hmd⟩⟩
  | alt r s ihr ihs =>
      rw [mem_ends_alt, ihr h.1, ihs h.2, ← exists_or]
      simp only [Reads, or_and_right]

/-- Between word boundaries, both must lie there too. -/
theorem mem_ends_bounded (h : r.Over within) :
    d ∈ r.bounded.ends isWord c ↔ ∃ text, r.Reads text ∧ Moves text c d ∧
      Pattern.atBoundary isWord c = true ∧ Pattern.atBoundary isWord d = true := by
  simp only [bounded, mem_ends_seq, mem_ends_plain, Pattern.mem_ends_boundary,
    mem_ends_iff_reads h]
  constructor
  · rintro ⟨_, ⟨hc, rfl⟩, m, ⟨text, htext, hmoves⟩, hm, rfl⟩
    exact ⟨text, htext, hmoves, hc, hm⟩
  · rintro ⟨text, htext, hmoves, hc, hd⟩
    exact ⟨c, ⟨hc, rfl⟩, d, ⟨text, htext, hmoves⟩, hd, rfl⟩

/-- The characters of what an expression reads. -/
theorem Over.forall_mem (h : r.Over within) (hreads : r.Reads text) : ∀ x ∈ text, within x := by
  induction r generalizing text with
  | plain p => exact Pattern.Over.forall_mem h hreads
  | many accepts => exact fun x hx => h x (hreads x hx)
  | fewest accepts => exact fun x hx => h x (hreads x hx)
  | seq r s ihr ihs =>
      obtain ⟨u, v, hu, hv, rfl⟩ := hreads
      exact List.forall_mem_append.2 ⟨ihr h.1 hu, ihs h.2 hv⟩
  | alt r s ihr ihs =>
      rcases hreads with hr | hs
      · exact ihr h.1 hr
      · exact ihs h.2 hs

theorem over_times (h : r.Over within) (n : ℕ) : (times n r).Over within := by
  induction n with
  | zero => trivial
  | succ n ih => exact ⟨h, ih⟩

theorem over_atMost (h : r.Over within) (n : ℕ) : (atMost n r).Over within := by
  induction n with
  | zero => trivial
  | succ n ih => exact ⟨⟨h, ih⟩, trivial⟩

theorem over_between (h : r.Over within) (low high : ℕ) : (between low high r).Over within :=
  ⟨over_times h low, over_atMost h (high - low)⟩

/-- A greedy repetition that ends an expression stops where its class does. -/
theorem Prefers.stops_many (h : (many accepts).Prefers isWord c d) :
    ∀ x ∈ d.rest.head?, accepts x = false := by
  obtain ⟨last, rest⟩ := c
  rw [Prefers, ends] at h
  dsimp only at h
  induction rest generalizing last with
  | nil =>
      obtain rfl := Option.some_inj.1 h
      exact fun x hx => by cases hx
  | cons x rest ih =>
      rw [manyEnds] at h
      split_ifs at h with hx
      · obtain ⟨e, others, hends⟩ : ∃ e others, manyEnds accepts (some x) rest = e :: others := by
          cases rest with
          | nil => exact ⟨_, _, rfl⟩
          | cons y rest =>
              rw [manyEnds]
              split_ifs
              · exact List.exists_cons_of_ne_nil (List.append_ne_nil_of_right_ne_nil _ (by simp))
              · exact ⟨_, _, rfl⟩
        rw [hends, List.cons_append] at h
        refine ih (some x) ?_
        rw [hends]
        exact h
      · obtain rfl := Option.some_inj.1 h
        intro y hy
        obtain rfl := Option.some_inj.1 hy
        exact Bool.eq_false_iff.2 hx

/-- The preferred end of a sequence is one that its second part prefers. -/
theorem Prefers.exists_second (h : (r.seq s).Prefers isWord c d) :
    ∃ m ∈ r.ends isWord c, s.Prefers isWord m d := by
  rw [Prefers, ends, List.head?_flatMap] at h
  exact List.exists_of_findSome?_eq_some h

end Regex

end DealFinder.Math
