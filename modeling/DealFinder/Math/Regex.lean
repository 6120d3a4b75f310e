/-
# Searching with repetition

Regular expressions that repeat a class of characters, as many times as possible or as
few. As for a pattern, reading one at a cursor lists the cursors where it can end, in
the order in which a backtracking matcher tries them, so what the matcher returns is the
first. An expression with a group returns the text of the group. A scan collects the
matches of a text from left to right, and each starts where the one before it ended.
-/

import DealFinder.Math.Pattern

namespace DealFinder.Math

universe u

/-- A regular expression that repeats single characters only. -/
inductive Regex
  | plain (p : Pattern)
  | many (accepts : Char → Bool)
  | fewest (accepts : Char → Bool)
  | seq (first second : Regex)
  | alt (left right : Regex)

namespace Regex

/-- One character of a class. -/
def one (accepts : Char → Bool) : Regex := plain (.one accepts)

/-- An expression or nothing. -/
def opt (r : Regex) : Regex := r.alt (plain .empty)

/-- One or more, as many as possible. -/
def atLeastOne (accepts : Char → Bool) : Regex := (one accepts).seq (many accepts)

/-- One or more, as few as possible. -/
def fewestAtLeastOne (accepts : Char → Bool) : Regex := (one accepts).seq (fewest accepts)

/-- Several expressions in order. -/
def inOrder : List Regex → Regex
  | [] => plain .empty
  | [r] => r
  | r :: rest => r.seq (inOrder rest)

/-- The ends of a greedy repetition: the longest first. -/
def manyEnds (accepts : Char → Bool) (last : Option Char) : List Char → List Cursor
  | [] => [⟨last, []⟩]
  | x :: rest =>
      if accepts x then manyEnds accepts (some x) rest ++ [⟨last, x :: rest⟩]
      else [⟨last, x :: rest⟩]

/-- The ends of a reluctant repetition: the shortest first. -/
def fewestEnds (accepts : Char → Bool) (last : Option Char) : List Char → List Cursor
  | [] => [⟨last, []⟩]
  | x :: rest =>
      ⟨last, x :: rest⟩ :: if accepts x then fewestEnds accepts (some x) rest else []

variable (isWord : Char → Bool)

/-- Where an expression read at a cursor can end, the preferred end first. -/
def ends : Regex → Cursor → List Cursor
  | plain p, c => p.ends isWord c
  | many accepts, c => manyEnds accepts c.last c.rest
  | fewest accepts, c => fewestEnds accepts c.last c.rest
  | seq r s, c => (r.ends c).flatMap s.ends
  | alt r s, c => r.ends c ++ s.ends c

/-- `search`: the expression can be read somewhere. -/
def found (r : Regex) (text : List Char) : Bool :=
  (Pattern.cursors none text).any fun c => !(r.ends isWord c).isEmpty

variable {isWord} {r s : Regex} {c d e : Cursor} {accepts : Char → Bool} {last : Option Char}
  {taken after : List Char}

@[simp]
theorem mem_ends_plain {p : Pattern} : d ∈ (plain p).ends isWord c ↔ d ∈ p.ends isWord c := Iff.rfl

@[simp]
theorem mem_ends_seq :
    d ∈ (r.seq s).ends isWord c ↔ ∃ m ∈ r.ends isWord c, d ∈ s.ends isWord m := by
  rw [ends]
  exact List.mem_flatMap

@[simp]
theorem mem_ends_alt :
    d ∈ (r.alt s).ends isWord c ↔ d ∈ r.ends isWord c ∨ d ∈ s.ends isWord c := by
  rw [ends]
  exact List.mem_append

@[simp]
theorem mem_ends_one : d ∈ (one accepts).ends isWord c ↔
    ∃ x rest, c.rest = x :: rest ∧ accepts x = true ∧ d = ⟨some x, rest⟩ := by
  obtain ⟨last, text⟩ := c
  cases text with
  | nil => simp [one, Pattern.ends]
  | cons x rest => simp [one]

/-- What stands before a cursor once some text is read. -/
theorem getLast?_or_cons (x : Char) (taken : List Char) (last : Option Char) :
    (x :: taken).getLast?.or last = taken.getLast?.or (some x) := by
  rw [List.getLast?_cons]
  cases taken.getLast? with
  | none => rfl
  | some y => rfl

theorem mem_manyEnds {text : List Char} :
    d ∈ manyEnds accepts last text ↔ ∃ taken after, text = taken ++ after ∧
      (∀ x ∈ taken, accepts x = true) ∧ d = ⟨taken.getLast?.or last, after⟩ := by
  induction text generalizing last with
  | nil =>
      rw [manyEnds, List.mem_singleton]
      constructor
      · rintro rfl
        exact ⟨[], [], rfl, by simp, rfl⟩
      · rintro ⟨taken, after, htext, -, rfl⟩
        obtain ⟨rfl, rfl⟩ := List.append_eq_nil_iff.1 htext.symm
        rfl
  | cons x rest ih =>
      constructor
      · intro h
        rw [manyEnds] at h
        split_ifs at h with hx
        · rcases List.mem_append.1 h with hmore | hhere
          · obtain ⟨taken, after, rfl, htaken, rfl⟩ := ih.1 hmore
            refine ⟨x :: taken, after, rfl, List.forall_mem_cons.2 ⟨hx, htaken⟩, ?_⟩
            rw [getLast?_or_cons]
          · obtain rfl := List.mem_singleton.1 hhere
            exact ⟨[], x :: rest, rfl, by simp, rfl⟩
        · obtain rfl := List.mem_singleton.1 h
          exact ⟨[], x :: rest, rfl, by simp, rfl⟩
      · rintro ⟨taken, after, htext, htaken, rfl⟩
        rw [manyEnds]
        cases taken with
        | nil =>
            obtain rfl : x :: rest = after := htext
            split_ifs
            · exact List.mem_append_right _ (List.mem_singleton.2 rfl)
            · exact List.mem_singleton.2 rfl
        | cons y taken =>
            obtain ⟨rfl, rfl⟩ := List.cons.inj htext
            obtain ⟨hx, hrest⟩ := List.forall_mem_cons.1 htaken
            rw [if_pos hx]
            exact List.mem_append_left _
              ((@ih (some x)).2 ⟨taken, after, rfl, hrest, by rw [getLast?_or_cons]⟩)

@[simp]
theorem mem_ends_many :
    d ∈ (many accepts).ends isWord c ↔ ∃ taken after, c.rest = taken ++ after ∧
      (∀ x ∈ taken, accepts x = true) ∧ d = ⟨taken.getLast?.or c.last, after⟩ := mem_manyEnds

/-! ## The preferred end -/

/-- The end that the matcher tries first. -/
def Prefers (isWord : Char → Bool) (r : Regex) (c d : Cursor) : Prop :=
  (r.ends isWord c).head? = some d

theorem Prefers.seq (hr : r.Prefers isWord c d) (hs : s.Prefers isWord d e) :
    (r.seq s).Prefers isWord c e := by
  obtain ⟨others, hends⟩ := List.head?_eq_some_iff.1 hr
  rw [Prefers, ends, hends, List.flatMap_cons, List.head?_append, hs]
  rfl

theorem Prefers.alt_left (s : Regex) (hr : r.Prefers isWord c d) :
    (r.alt s).Prefers isWord c d := by
  rw [Prefers, ends, List.head?_append, hr]
  rfl

theorem Prefers.alt_right (hr : r.ends isWord c = []) (hs : s.Prefers isWord c d) :
    (r.alt s).Prefers isWord c d := by
  rw [Prefers, ends, hr, List.nil_append]
  exact hs

theorem prefers_one {x : Char} (h : accepts x = true) :
    (one accepts).Prefers isWord ⟨last, x :: after⟩ ⟨some x, after⟩ := by
  simp [Prefers, one, ends, Pattern.ends, h]

/-- A literal reads itself. -/
theorem prefers_literal {same : Char → Char → Bool} (hsame : ∀ c, same c c = true)
    (word after : List Char) (last : Option Char) :
    (plain (Pattern.literal same word)).Prefers isWord ⟨last, word ++ after⟩
      ⟨word.getLast?.or last, after⟩ := by
  induction word generalizing last with
  | nil => rfl
  | cons x word ih =>
      rw [getLast?_or_cons]
      exact (prefers_one (hsame x)).seq (ih (some x))

theorem prefers_empty : (plain .empty).Prefers isWord c c := rfl

theorem Prefers.opt (hr : r.Prefers isWord c d) : r.opt.Prefers isWord c d := hr.alt_left _

theorem prefers_opt_of_none (hr : r.ends isWord c = []) : r.opt.Prefers isWord c c :=
  prefers_empty.alt_right hr

/-- A greedy repetition prefers to read all that its class accepts. -/
theorem prefers_many (htaken : ∀ x ∈ taken, accepts x = true)
    (hstop : ∀ x ∈ after.head?, accepts x = false) :
    (many accepts).Prefers isWord ⟨last, taken ++ after⟩ ⟨taken.getLast?.or last, after⟩ := by
  show (manyEnds accepts last (taken ++ after)).head? = _
  induction taken generalizing last with
  | nil =>
      cases after with
      | nil => rfl
      | cons x after =>
          rw [List.nil_append, manyEnds, if_neg (by simp [hstop x rfl])]
          rfl
  | cons x taken ih =>
      obtain ⟨hx, hrest⟩ := List.forall_mem_cons.1 htaken
      rw [List.cons_append, manyEnds, if_pos hx, List.head?_append, ih hrest, getLast?_or_cons]
      rfl

theorem prefers_atLeastOne {x : Char} (hx : accepts x = true)
    (htaken : ∀ y ∈ taken, accepts y = true) (hstop : ∀ y ∈ after.head?, accepts y = false) :
    (atLeastOne accepts).Prefers isWord ⟨last, x :: (taken ++ after)⟩
      ⟨(x :: taken).getLast?.or last, after⟩ := by
  rw [getLast?_or_cons]
  exact (prefers_one hx).seq (prefers_many htaken hstop)

theorem ends_one_of_not {x : Char} (h : accepts x = false) :
    (one accepts).ends isWord ⟨last, x :: after⟩ = [] := by
  simp [one, ends, Pattern.ends, h]

theorem ends_one_nil : (one accepts).ends isWord ⟨last, []⟩ = [] := rfl

theorem ends_seq_of_none (h : r.ends isWord c = []) : (r.seq s).ends isWord c = [] := by
  rw [ends, h, List.flatMap_nil]

theorem ends_alt_of_none (hr : r.ends isWord c = []) (hs : s.ends isWord c = []) :
    (r.alt s).ends isWord c = [] := by
  rw [ends, hr, hs, List.nil_append]

end Regex

/-! ## Groups -/

/-- A regular expression with one group. -/
structure Grouped where
  before : Regex
  group : Regex
  after : Regex

namespace Grouped

variable (isWord : Char → Bool)

/-- The text of the group and the end of the match, from where the group starts. -/
def groupAt (g : Grouped) (start : Cursor) : Option (List Char × Cursor) :=
  (g.group.ends isWord start).findSome? fun stop =>
    (g.after.ends isWord stop).head?.map fun finish =>
      (start.rest.take (start.rest.length - stop.rest.length), finish)

/-- `m.group(1)` and `m.end()`, of a match at a cursor. -/
def matchAt (g : Grouped) (c : Cursor) : Option (List Char × Cursor) :=
  (g.before.ends isWord c).findSome? (g.groupAt isWord)

/-- `search`: the first match of a text. -/
def search (g : Grouped) (text : List Char) : Option (List Char × Cursor) :=
  (Pattern.cursors none text).findSome? (g.matchAt isWord)

variable {isWord} {g : Grouped} {c start stop finish : Cursor}

/-- Once the group can be read from the preferred end of what is before it, it is. -/
theorem matchAt_of_prefers {found : List Char × Cursor} (hbefore : g.before.Prefers isWord c start)
    (hgroup : g.groupAt isWord start = some found) : g.matchAt isWord c = some found := by
  obtain ⟨others, hends⟩ := List.head?_eq_some_iff.1 hbefore
  rw [matchAt, hends, List.findSome?_cons, hgroup]

theorem groupAt_of_prefers {taken : List Char} {last : Option Char}
    (hgroup : g.group.Prefers isWord ⟨last, taken ++ stop.rest⟩ stop)
    (hafter : g.after.Prefers isWord stop finish) :
    g.groupAt isWord ⟨last, taken ++ stop.rest⟩ = some (taken, finish) := by
  obtain ⟨others, hends⟩ := List.head?_eq_some_iff.1 hgroup
  have htaken : (taken ++ stop.rest).take ((taken ++ stop.rest).length - stop.rest.length) =
      taken := by
    rw [List.length_append, Nat.add_sub_cancel]
    exact List.take_left
  rw [groupAt, hends, List.findSome?_cons, hafter, Option.map_some, htaken]

/-- The shortest nonempty beginning of a text behind which `stops` holds, of the last character
of it and the rest. -/
def shortest (stops : Char → List Char → Bool) : List Char → List Char
  | [] => []
  | x :: rest => x :: if stops x rest then [] else shortest stops rest

/-- The text up to the end of a group, and the end of the match, once the group has ended. -/
def finishAt (isWord : Char → Bool) (g : Grouped) (text : List Char) (stop : Cursor) :
    Option (List Char × Cursor) :=
  (g.after.ends isWord stop).head?.map fun finish =>
    (text.take (text.length - stop.rest.length), finish)

theorem finishAt_eq_none (text : List Char) (h : (g.after.ends isWord stop).isEmpty = true) :
    g.finishAt isWord text stop = none := by
  rw [finishAt, List.isEmpty_iff.1 h]
  rfl

theorem finishAt_eq_some {taken rest : List Char} {last : Option Char}
    (h : (g.after.ends isWord ⟨last, rest⟩).isEmpty = false) :
    ∃ finish, g.finishAt isWord (taken ++ rest) ⟨last, rest⟩ = some (taken, finish) := by
  obtain ⟨finish, others, hends⟩ := List.exists_cons_of_ne_nil (List.isEmpty_eq_false_iff.1 h)
  refine ⟨finish, ?_⟩
  rw [finishAt, hends, List.length_append, Nat.add_sub_cancel, List.take_left]
  rfl

/-- A group that can end now does. -/
theorem findSome?_fewestEnds_of_stops {accepts : Char → Bool} {taken text : List Char} {y : Char}
    (h : (g.after.ends isWord ⟨some y, text⟩).isEmpty = false) :
    ∃ finish, (Regex.fewestEnds accepts (some y) text).findSome?
        (g.finishAt isWord (taken ++ y :: text)) = some (taken ++ [y], finish) := by
  have hends : ∃ others, Regex.fewestEnds accepts (some y) text = ⟨some y, text⟩ :: others := by
    cases text with
    | nil => exact ⟨[], rfl⟩
    | cons z text => exact ⟨_, rfl⟩
  obtain ⟨others, hends⟩ := hends
  obtain ⟨finish, hfinish⟩ := @finishAt_eq_some isWord g (taken ++ [y]) text (some y) h
  rw [List.append_assoc, List.singleton_append] at hfinish
  exact ⟨finish, by rw [hends, List.findSome?_cons, hfinish]⟩

/-- The ends of a reluctant repetition are tried from the shortest on. -/
theorem findSome?_fewestEnds {accepts : Char → Bool} {stops : Char → List Char → Bool}
    (hstops : ∀ x rest, stops x rest = !(g.after.ends isWord ⟨some x, rest⟩).isEmpty)
    {rest : List Char} {x : Char} (hstop : stops x rest = true) (front taken : List Char)
    (y : Char) (text : List Char) (htext : front ++ x :: rest = y :: text)
    (haccepts : ∀ z ∈ shortest stops (y :: text), accepts z = true) :
    ∃ finish, (Regex.fewestEnds accepts (some y) text).findSome?
        (g.finishAt isWord (taken ++ y :: text)) =
      some (taken ++ shortest stops (y :: text), finish) := by
  induction front generalizing taken y text with
  | nil =>
      obtain ⟨rfl, rfl⟩ := List.cons.inj htext
      rw [shortest, if_pos hstop]
      rw [hstops] at hstop
      exact findSome?_fewestEnds_of_stops (by simpa using hstop)
  | cons z front ih =>
      rw [List.cons_append] at htext
      obtain ⟨rfl, htail⟩ := List.cons.inj htext
      cases hhere : stops z text with
      | true =>
          rw [shortest, if_pos hhere]
          rw [hstops] at hhere
          exact findSome?_fewestEnds_of_stops (by simpa using hhere)
      | false =>
          obtain ⟨u, more, rfl⟩ : ∃ u more, text = u :: more := by
            rw [← htail]
            cases front with
            | nil => exact ⟨_, _, rfl⟩
            | cons u front => exact ⟨_, _, rfl⟩
          rw [shortest, if_neg (by simp [hhere])] at haccepts ⊢
          rw [hstops] at hhere
          obtain ⟨-, hmore⟩ := List.forall_mem_cons.1 haccepts
          obtain ⟨finish, hrest⟩ := ih (taken ++ [z]) u more htail hmore
          rw [List.append_assoc, List.singleton_append, List.append_assoc,
            List.singleton_append] at hrest
          refine ⟨finish, ?_⟩
          rw [Regex.fewestEnds, List.findSome?_cons, finishAt_eq_none _ (by simpa using hhere),
            if_pos (hmore u (by rw [shortest]; exact List.mem_cons_self)), hrest]

/-- A reluctant group ends at the first place from which the rest of the expression can be
read. -/
theorem groupAt_of_fewest {accepts : Char → Bool} {stops : Char → List Char → Bool}
    (hgroup : g.group = .fewestAtLeastOne accepts)
    (hstops : ∀ x rest, stops x rest = !(g.after.ends isWord ⟨some x, rest⟩).isEmpty)
    {last : Option Char} {front rest : List Char} {x : Char} (hstop : stops x rest = true)
    (haccepts : ∀ y ∈ shortest stops (front ++ x :: rest), accepts y = true) :
    ∃ finish, g.groupAt isWord ⟨last, front ++ x :: rest⟩ =
      some (shortest stops (front ++ x :: rest), finish) := by
  obtain ⟨y, text, htext⟩ : ∃ y text, front ++ x :: rest = y :: text := by
    cases front with
    | nil => exact ⟨_, _, rfl⟩
    | cons y front => exact ⟨_, _, rfl⟩
  rw [htext] at haccepts ⊢
  have hy : accepts y = true := haccepts y (by rw [shortest]; exact List.mem_cons_self)
  obtain ⟨finish, hfind⟩ := findSome?_fewestEnds hstops hstop front [] y text htext haccepts
  refine ⟨finish, ?_⟩
  have hends : (Regex.fewestAtLeastOne accepts).ends isWord ⟨last, y :: text⟩ =
      Regex.fewestEnds accepts (some y) text := by
    simp [Regex.fewestAtLeastOne, Regex.ends, Regex.one, Pattern.ends, hy]
  rw [groupAt, hgroup, hends]
  exact hfind

theorem matchAt_of_none (h : g.before.ends isWord c = []) : g.matchAt isWord c = none := by
  rw [matchAt, h]
  rfl

/-- A match at the start of a text is the one that is found. -/
theorem search_of_matchAt {text : List Char} {found : List Char × Cursor}
    (h : g.matchAt isWord ⟨none, text⟩ = some found) : g.search isWord text = some found := by
  cases text with
  | nil => rw [search, Pattern.cursors, List.findSome?_cons, h]
  | cons x rest => rw [search, Pattern.cursors, List.findSome?_cons, h]

end Grouped

/-! ## Scanning -/

/-- The matches of a text from left to right, when a match reads at least one character.
The first number is of the characters that the last match has still to pass over. -/
def scan {α : Type u} (matchAt : Cursor → Option (α × Cursor)) :
    ℕ → Option Char → List Char → List α
  | _, _, [] => []
  | 0, last, x :: rest =>
      match matchAt ⟨last, x :: rest⟩ with
      | some (found, stop) =>
          found :: scan matchAt (rest.length - stop.rest.length) (some x) rest
      | none => scan matchAt 0 (some x) rest
  | skip + 1, _, x :: rest => scan matchAt skip (some x) rest

section Scan

variable {α : Type u} {matchAt : Cursor → Option (α × Cursor)} {last : Option Char}

/-- What a match has read is passed over. -/
theorem scan_skip (taken after : List Char) :
    scan matchAt taken.length last (taken ++ after) =
      scan matchAt 0 (taken.getLast?.or last) after := by
  induction taken generalizing last with
  | nil => rfl
  | cons x taken ih =>
      rw [Regex.getLast?_or_cons]
      exact ih

theorem scan_of_none {x : Char} {rest : List Char} (h : matchAt ⟨last, x :: rest⟩ = none) :
    scan matchAt 0 last (x :: rest) = scan matchAt 0 (some x) rest := by
  rw [scan, h]

theorem scan_of_some {x : Char} {taken after : List Char} {found : α} {end' : Option Char}
    (h : matchAt ⟨last, x :: (taken ++ after)⟩ = some (found, ⟨end', after⟩)) :
    scan matchAt 0 last (x :: (taken ++ after)) =
      found :: scan matchAt 0 (taken.getLast?.or (some x)) after := by
  have hskip : (taken ++ after).length - after.length = taken.length := by
    rw [List.length_append, Nat.add_sub_cancel]
  rw [scan, h]
  show found :: scan matchAt ((taken ++ after).length - after.length) (some x) (taken ++ after) = _
  rw [hskip, scan_skip]

end Scan

end DealFinder.Math
