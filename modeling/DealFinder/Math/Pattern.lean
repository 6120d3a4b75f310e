/-
# Searching for a pattern

Regular expressions without repetition: characters of a class, sequences,
alternatives, and word boundaries. A pattern is read at a cursor, the place
between what stands before it and the rest of the text, and leaves the cursors at
which it can end. A search tries every cursor of a text.
-/

import Mathlib.Data.List.Basic

namespace DealFinder.Math

/-- A place in a text: the character before it and the rest. -/
structure Cursor where
  last : Option Char
  rest : List Char
  deriving DecidableEq

/-- A regular expression without repetition. -/
inductive Pattern
  | empty
  | one (accepts : Char → Bool)
  | boundary
  | seq (first second : Pattern)
  | alt (left right : Pattern)

namespace Pattern

/-- A pattern or nothing. -/
def opt (p : Pattern) : Pattern := p.alt empty

/-- Some characters in order, each as `same` compares it. -/
def literal (same : Char → Char → Bool) (text : List Char) : Pattern :=
  text.foldr (fun c rest => (one (same c)).seq rest) empty

/-- One of several patterns. -/
def oneOf : List Pattern → Pattern
  | [] => one fun _ => false
  | [p] => p
  | p :: rest => p.alt (oneOf rest)

variable (isWord : Char → Bool)

/-- A word character stands on just one side. -/
def atBoundary (c : Cursor) : Bool := c.last.any isWord != c.rest.head?.any isWord

/-- Where a pattern read at a cursor can end, the preferred end first. -/
def ends : Pattern → Cursor → List Cursor
  | empty, c => [c]
  | one accepts, c =>
      match c.rest with
      | [] => []
      | x :: rest => if accepts x then [⟨some x, rest⟩] else []
  | boundary, c => if atBoundary isWord c then [c] else []
  | seq p q, c => (p.ends c).flatMap q.ends
  | alt p q, c => p.ends c ++ q.ends c

/-- The cursors of a text after some character. -/
def cursors (last : Option Char) : List Char → List Cursor
  | [] => [⟨last, []⟩]
  | x :: rest => ⟨last, x :: rest⟩ :: cursors (some x) rest

/-- `search`: the pattern can be read somewhere. -/
def found (p : Pattern) (text : List Char) : Bool :=
  (cursors none text).any fun c => !(p.ends isWord c).isEmpty

variable {isWord}

@[simp]
theorem mem_ends_empty {c d : Cursor} : d ∈ empty.ends isWord c ↔ d = c := List.mem_singleton

@[simp]
theorem mem_ends_boundary {c d : Cursor} :
    d ∈ boundary.ends isWord c ↔ atBoundary isWord c = true ∧ d = c := by
  rw [ends]
  split_ifs with h
  · simp [h]
  · simp [h]

@[simp]
theorem mem_ends_one {accepts : Char → Bool} {last : Option Char} {x : Char} {rest : List Char}
    {d : Cursor} :
    d ∈ (one accepts).ends isWord ⟨last, x :: rest⟩ ↔ accepts x = true ∧ d = ⟨some x, rest⟩ := by
  simp only [ends]
  split_ifs with h
  · simp [h]
  · simp [h]

@[simp]
theorem mem_ends_seq {p q : Pattern} {c d : Cursor} :
    d ∈ (p.seq q).ends isWord c ↔ ∃ m ∈ p.ends isWord c, d ∈ q.ends isWord m := by
  rw [ends]
  exact List.mem_flatMap

@[simp]
theorem mem_ends_alt {p q : Pattern} {c d : Cursor} :
    d ∈ (p.alt q).ends isWord c ↔ d ∈ p.ends isWord c ∨ d ∈ q.ends isWord c := by
  rw [ends]
  exact List.mem_append

theorem mem_cursors (last : Option Char) (before after : List Char) :
    ⟨before.getLast?.or last, after⟩ ∈ cursors last (before ++ after) := by
  induction before generalizing last with
  | nil =>
      cases after with
      | nil => simp [cursors]
      | cons x rest => simp [cursors]
  | cons x before ih =>
      have hlast : (x :: before).getLast?.or last = before.getLast?.or (some x) := by
        rw [List.getLast?_cons]
        cases before.getLast? with
        | none => rfl
        | some y => rfl
      rw [hlast, List.cons_append, cursors]
      exact List.mem_cons_of_mem _ (ih (some x))

/-- What stands behind a cursor ends the text. -/
theorem suffix_of_mem_cursors {last : Option Char} {text : List Char} {c : Cursor}
    (h : c ∈ cursors last text) : c.rest <:+ text := by
  induction text generalizing last with
  | nil =>
      obtain rfl := List.mem_singleton.1 h
      exact List.suffix_refl []
  | cons x rest ih =>
      rcases List.mem_cons.1 h with rfl | hrest
      · exact List.suffix_refl (x :: rest)
      · exact (ih hrest).trans (List.suffix_cons x rest)

/-- A pattern that can be read after some text is found. -/
theorem found_of_mem_ends {p : Pattern} {before after : List Char} {d : Cursor}
    (h : d ∈ p.ends isWord ⟨before.getLast?, after⟩) : p.found isWord (before ++ after) = true := by
  refine List.any_eq_true.2 ⟨_, mem_cursors none before after, ?_⟩
  rw [Option.or_none, Bool.not_eq_true', List.isEmpty_eq_false_iff]
  exact List.ne_nil_of_mem h

end Pattern

end DealFinder.Math
