/-
# Runs joined by a separator

What a text is once everything outside a class has become single separators, and those at its ends
are gone: the runs of the class, joined (`trim_collapse`). Wherever such a text is cut at a
separator, both parts are runs joined again (`cut_joined`).
-/

import DealFinder.Math.Runs

namespace DealFinder.Math

universe u

variable {α : Type u} {inside : α → Bool} {x : α}

/-- Each stretch of what is outside the class becomes one separator. The flag says that a stretch
has begun before. -/
def collapse (inside : α → Bool) (x : α) : Bool → List α → List α
  | _, [] => []
  | began, c :: rest =>
      if inside c then c :: collapse inside x false rest
      else if began then collapse inside x true rest
      else x :: collapse inside x true rest

/-- A list without an element at its ends. -/
def trim [DecidableEq α] (x : α) (l : List α) : List α :=
  ((l.dropWhile (· = x)).reverse.dropWhile (· = x)).reverse

/-- Words of members of the class. -/
def AreWords (inside : α → Bool) (words : List (List α)) : Prop :=
  ∀ w ∈ words, w ≠ [] ∧ ∀ y ∈ w, inside y = true

theorem areWords_runs (inside : α → Bool) (l : List α) : AreWords inside (runs inside l) := by
  intro w hw
  obtain ⟨hne, hin⟩ := mem_runs hw
  exact ⟨hne, fun y hy => (hin y hy).2⟩

section Ends

variable {words : List (List α)}

/-- Joined words begin inside the class. -/
theorem exists_cons_joined (hwords : AreWords inside words) (hne : words ≠ []) :
    ∃ c rest, [x].intercalate words = c :: rest ∧ inside c = true := by
  cases words with
  | nil => exact absurd rfl hne
  | cons w words =>
      obtain ⟨hw, hin⟩ := hwords w List.mem_cons_self
      obtain ⟨c, w, rfl⟩ := List.exists_cons_of_ne_nil hw
      cases words with
      | nil => exact ⟨c, w, by simp, hin c List.mem_cons_self⟩
      | cons v words =>
          rw [List.intercalate_cons_cons]
          exact ⟨c, _, rfl, hin c List.mem_cons_self⟩

/-- Joined words end inside the class. -/
theorem exists_concat_joined (hwords : AreWords inside words) (hne : words ≠ []) :
    ∃ front c, [x].intercalate words = front ++ [c] ∧ inside c = true := by
  induction words with
  | nil => exact absurd rfl hne
  | cons w words ih =>
      obtain ⟨hw, hin⟩ := hwords w List.mem_cons_self
      cases words with
      | nil =>
          obtain ⟨front, c, rfl⟩ := List.eq_nil_or_concat w |>.resolve_left hw
          exact ⟨front, c, by simp, hin c (by simp)⟩
      | cons v words =>
          have hrest : AreWords inside (v :: words) :=
            fun u hu => hwords u (List.mem_cons_of_mem w hu)
          obtain ⟨front, c, hjoined, hc⟩ := ih hrest (by simp)
          rw [List.intercalate_cons_cons, hjoined]
          exact ⟨w ++ [x] ++ front, c, by simp, hc⟩

section Trim

variable [DecidableEq α]

/-- Nothing but separators is trimmed off a list that begins and ends inside the class. -/
theorem trim_of_inside {l : List α} (hx : inside x = false)
    (hfirst : ∃ c rest, l = c :: rest ∧ inside c = true)
    (hlast : ∃ front c, l = front ++ [c] ∧ inside c = true) {lead trail : List α}
    (hlead : ∀ y ∈ lead, y = x) (htrail : ∀ y ∈ trail, y = x) :
    trim x (lead ++ l ++ trail) = l := by
  have hne : ∀ c, inside c = true → c ≠ x := by
    rintro c hc rfl
    rw [hx] at hc
    cases hc
  have hdropLead : (lead ++ l ++ trail).dropWhile (· = x) = l ++ trail := by
    obtain ⟨c, rest, rfl, hc⟩ := hfirst
    rw [List.append_assoc, List.dropWhile_append_of_pos fun y hy => decide_eq_true (hlead y hy),
      List.cons_append, List.dropWhile_cons_of_neg (by simpa using hne c hc)]
  have hdropTrail : (l ++ trail).reverse.dropWhile (· = x) = l.reverse := by
    obtain ⟨front, c, rfl, hc⟩ := hlast
    have hall : ∀ y ∈ trail.reverse, decide (y = x) = true :=
      fun y hy => decide_eq_true (htrail y (List.mem_reverse.1 hy))
    rw [List.reverse_append, List.dropWhile_append_of_pos hall, List.reverse_append,
      List.reverse_singleton, List.singleton_append,
      List.dropWhile_cons_of_neg (by simpa using hne c hc)]
  rw [trim, hdropLead, hdropTrail, List.reverse_reverse]

/-- Nothing but separators is trimmed off joined words. -/
theorem trim_joined (hx : inside x = false) (hwords : AreWords inside words) {lead trail : List α}
    (hlead : ∀ y ∈ lead, y = x) (htrail : ∀ y ∈ trail, y = x) :
    trim x (lead ++ [x].intercalate words ++ trail) = [x].intercalate words := by
  cases words with
  | nil =>
      have hall : ∀ y ∈ lead ++ trail, decide (y = x) = true := by
        intro y hy
        rcases List.mem_append.1 hy with hy | hy
        · exact decide_eq_true (hlead y hy)
        · exact decide_eq_true (htrail y hy)
      have hnone : (lead ++ trail).dropWhile (· = x) = [] := by
        rw [← List.append_nil (lead ++ trail), List.dropWhile_append_of_pos hall]
        rfl
      rw [List.intercalate_nil, List.append_nil, trim, hnone]
      rfl
  | cons w words =>
      exact trim_of_inside hx (exists_cons_joined hwords (by simp))
        (exists_concat_joined hwords (by simp)) hlead htrail

/-- Nothing is trimmed off joined words alone. -/
theorem trim_joined_self (hx : inside x = false) (hwords : AreWords inside words) :
    trim x ([x].intercalate words) = [x].intercalate words := by
  have htrim := @trim_joined _ inside x words _ hx hwords [] [] (by simp) (by simp)
  simpa using htrim

end Trim

end Ends

/-! ## What is collapsed -/

/-- A member before members joins their first run. -/
theorem joined_runs_cons {c d : α} (l : List α) (hc : inside c = true) (hd : inside d = true) :
    [x].intercalate (runs inside (c :: d :: l)) = c :: [x].intercalate (runs inside (d :: l)) := by
  obtain ⟨first, others, hparts⟩ :=
    List.exists_cons_of_ne_nil (List.splitOnP_ne_nil (fun x => !inside x) l)
  have hsecond : (d :: l).splitOnP (fun x => !inside x) = (d :: first) :: others := by
    rw [List.splitOnP_cons_eq_if_modifyHead, hparts]
    simp [hd]
  have hboth : (c :: d :: l).splitOnP (fun x => !inside x) = (c :: d :: first) :: others := by
    rw [List.splitOnP_cons_eq_if_modifyHead, hsecond]
    simp [hc]
  rw [runs, runs, hboth, hsecond, List.filter_cons_of_pos (by simp),
    List.filter_cons_of_pos (by simp)]
  cases others.filter fun run => !run.isEmpty with
  | nil => simp
  | cons w words =>
      rw [List.intercalate_cons_cons, List.intercalate_cons_cons]
      rfl

variable (inside x) in
/-- Once a stretch has begun, what is left is the runs, joined, and at most one separator. -/
theorem collapse_began (l : List α) :
    ∃ trail, collapse inside x true l = [x].intercalate (runs inside l) ++ trail ∧
      (∀ y ∈ trail, y = x) ∧ (runs inside l = [] → trail = []) := by
  induction l with
  | nil => exact ⟨[], by simp [collapse], by simp, fun _ => rfl⟩
  | cons c rest ih =>
      obtain ⟨trail, hrest, htrail, hnone⟩ := ih
      rw [collapse]
      cases hc : inside c with
      | false =>
          rw [runs_cons rest hc]
          exact ⟨trail, hrest, htrail, hnone⟩
      | true =>
          rw [if_pos rfl]
          cases rest with
          | nil =>
              have hrun : runs inside [c] = [[c]] := runs_of_inside (by simp) (by simpa using hc)
              rw [hrun]
              exact ⟨[], by simp [collapse], by simp, fun _ => rfl⟩
          | cons d rest =>
              cases hd : inside d with
              | true =>
                  have hsame : collapse inside x false (d :: rest) =
                      collapse inside x true (d :: rest) := by
                    rw [collapse, collapse, hd, if_pos rfl, if_pos rfl]
                  rw [joined_runs_cons rest hc hd, hsame, hrest]
                  have hsome : runs inside (c :: d :: rest) ≠ [] := by
                    intro hnil
                    have hjoined := joined_runs_cons (x := x) rest hc hd
                    rw [hnil] at hjoined
                    cases hjoined
                  exact ⟨trail, rfl, htrail, fun hnil => absurd hnil hsome⟩
              | false =>
                  have hone : runs inside [c] = [[c]] :=
                    runs_of_inside (by simp) (by simpa using hc)
                  have hruns : runs inside (c :: d :: rest) = [c] :: runs inside rest := by
                    have happend := runs_append [c] rest hd
                    rw [hone] at happend
                    exact happend
                  have hbegun : collapse inside x false (d :: rest) =
                      x :: collapse inside x true rest := by
                    rw [collapse, hd]
                    rfl
                  have hon : collapse inside x true (d :: rest) = collapse inside x true rest := by
                    rw [collapse, hd]
                    rfl
                  rw [runs_cons rest hd] at hrest hnone
                  rw [hon] at hrest
                  rw [hruns, hbegun, hrest]
                  cases hmore : runs inside rest with
                  | nil =>
                      rw [hnone hmore]
                      exact ⟨[x], by simp, by simp, fun h => by cases h⟩
                  | cons w words =>
                      rw [List.intercalate_cons_cons]
                      exact ⟨trail, by simp, htrail, fun h => by cases h⟩

/-- A collapsed text without separators at its ends is its runs, joined. -/
theorem trim_collapse [DecidableEq α] (hx : inside x = false) (l : List α) :
    trim x (collapse inside x false l) = [x].intercalate (runs inside l) := by
  have hlead : ∃ lead trail, collapse inside x false l =
      lead ++ [x].intercalate (runs inside l) ++ trail ∧
      (∀ y ∈ lead, y = x) ∧ ∀ y ∈ trail, y = x := by
    cases l with
    | nil => exact ⟨[], [], by simp [collapse], by simp, by simp⟩
    | cons c rest =>
        cases hc : inside c with
        | true =>
            obtain ⟨trail, hall, htrail, -⟩ := collapse_began inside x (c :: rest)
            have hsame : collapse inside x false (c :: rest) =
                collapse inside x true (c :: rest) := by
              rw [collapse, collapse, hc, if_pos rfl, if_pos rfl]
            exact ⟨[], trail, by simpa using hsame.trans hall, by simp, htrail⟩
        | false =>
            obtain ⟨trail, hall, htrail, -⟩ := collapse_began inside x rest
            have hbegun : collapse inside x false (c :: rest) =
                x :: collapse inside x true rest := by
              rw [collapse, hc]
              rfl
            rw [runs_cons rest hc]
            exact ⟨[x], trail, by simp [hbegun, hall], by simp, htrail⟩
  obtain ⟨lead, trail, hall, hlead, htrail⟩ := hlead
  rw [hall, trim_joined hx (areWords_runs inside l) hlead htrail]

/-! ## Cuts -/

theorem joined_append {front back : List (List α)} (hfront : front ≠ []) (hback : back ≠ []) :
    [x].intercalate (front ++ back) = [x].intercalate front ++ x :: [x].intercalate back := by
  induction front with
  | nil => exact absurd rfl hfront
  | cons w front ih =>
      cases front with
      | nil =>
          obtain ⟨v, back, rfl⟩ := List.exists_cons_of_ne_nil hback
          rw [List.singleton_append, List.intercalate_cons_cons, List.intercalate_singleton,
            List.append_assoc, List.singleton_append]
      | cons v front =>
          rw [List.cons_append, List.cons_append, List.intercalate_cons_cons,
            List.intercalate_cons_cons, ← List.cons_append, ih (by simp), List.append_assoc _ _
            (x :: _)]

/-- A cut at a separator is a cut between two words. -/
theorem cut_joined (hx : inside x = false) {words : List (List α)} (hwords : AreWords inside words)
    {before after : List α} (hcut : [x].intercalate words = before ++ x :: after) :
    ∃ front back, words = front ++ back ∧ front ≠ [] ∧ back ≠ [] ∧
      before = [x].intercalate front ∧ after = [x].intercalate back := by
  induction words generalizing before with
  | nil => simp at hcut
  | cons w words ih =>
      have hno : x ∉ w := by
        intro hmem
        have hin := (hwords w List.mem_cons_self).2 x hmem
        rw [hx] at hin
        cases hin
      have hrest : AreWords inside words := fun u hu => hwords u (List.mem_cons_of_mem w hu)
      cases words with
      | nil =>
          rw [List.intercalate_singleton] at hcut
          exact absurd (by simp [hcut]) hno
      | cons v words =>
          rw [List.intercalate_cons_cons, List.append_assoc, List.singleton_append,
            List.append_eq_append_iff] at hcut
          rcases hcut with ⟨more, hbefore, hmore⟩ | ⟨more, hw, hmore⟩
          · cases more with
            | nil =>
                have hafter := (List.cons.inj hmore).2
                exact ⟨[w], v :: words, rfl, by simp, by simp, by simpa using hbefore, hafter.symm⟩
            | cons y more =>
                obtain ⟨rfl, hlater⟩ := List.cons.inj hmore
                obtain ⟨front, back, hparts, hfront, hback, hmore, hafter⟩ := ih hrest hlater
                obtain ⟨u, front, rfl⟩ := List.exists_cons_of_ne_nil hfront
                refine ⟨w :: u :: front, back, by rw [hparts]; rfl, by simp, hback, ?_, hafter⟩
                rw [hbefore, hmore, List.intercalate_cons_cons, List.append_assoc,
                  List.singleton_append]
          · cases more with
            | nil =>
                have hafter := (List.cons.inj hmore).2
                exact ⟨[w], v :: words, rfl, by simp, by simp, by simpa using hw.symm, hafter⟩
            | cons y more =>
                obtain ⟨rfl, -⟩ := List.cons.inj hmore
                exact absurd (by simp [hw]) hno

end DealFinder.Math
