/-
# The grouped split

`grouped_split` draws some of the queries and gives all rows of these to the test side, so no query
stands on both sides. With two queries or more neither side is empty, whatever fraction is asked
for (`groupedSplit_splits`).
-/

import DealFinder.Feeds.Float
import DealFinder.Math.Dict
import Mathlib.Data.Finset.Card
import Mathlib.Data.List.Perm.Basic

namespace DealFinder.Pipeline

open DealFinder.Math DealFinder.Feeds

/-! ## The split -/

/-- `x * y`. -/
def times : Double → Double → Double
  | .nan, _ => .nan
  | _, .nan => .nan
  | .inf negative, .inf negative' => .inf (negative ^^ negative')
  | .inf negative, .finite y => if y = 0 then .nan else .inf (negative ^^ decide (y < 0))
  | .finite x, .inf negative => if x = 0 then .nan else .inf (negative ^^ decide (x < 0))
  | .finite x, .finite y => .nearest (x * y)

/-- `int(round(x))`. What is no number raises. -/
def roundInt : Double → Option ℤ
  | .finite x => some (Shop.roundHalfEven x)
  | _ => none

/-- `list(dict.fromkeys(queries))`. -/
def groupsOf (queries : List String) : List String :=
  (Dict.ofPairs (queries.map fun q => (q, ()))).keys

/-- What an array of texts keeps of a text: NULs at its end are padding. -/
def unpadded (s : String) : String :=
  String.ofList (s.toList.reverse.dropWhile (· = '\x00')).reverse

/-- `np.isin`, of arrays of texts. -/
def isin (q values : List String) : List Bool :=
  q.map fun s => decide (unpadded s ∈ values.map unpadded)

/-- `np.where(mask)[0]`. -/
def whereTrue (mask : List Bool) : List ℕ :=
  (List.range mask.length).filter fun i => mask.getD i false

/-- `grouped_split`, by the permutation that is drawn: the places of the training rows and of the
test rows. -/
def groupedSplit (order : List ℕ) (queries : List String) (testFrac : Double) :
    Option (List ℕ × List ℕ) := do
  let groups := groupsOf queries
  let rounded ← roundInt (times (.nearest groups.length) testFrac)
  let drawn := max 1 rounded
  -- Keep the training side non-empty.
  let nTestGroups := if 2 ≤ groups.length then min drawn (groups.length - 1) else drawn
  let testGroups := (order.take nTestGroups.toNat).filterMap fun i => groups[i]?
  let inTest := isin queries testGroups
  return (whereTrue (inTest.map not), whereTrue inTest)

/-- What a split of rows by their queries guarantees, of the number that the fraction rounds to. -/
structure SplitsQueries (queries : List String) (rounded : ℤ) (train test : List ℕ) : Prop where
  trainIncreasing : train.Pairwise (· < ·)
  testIncreasing : test.Pairwise (· < ·)
  partition : (train ++ test).Perm (List.range queries.length)
  apart : ∀ i ∈ train, ∀ j ∈ test, queries[i]? ≠ queries[j]?
  nonempty : 2 ≤ queries.toFinset.card → train ≠ [] ∧ test ≠ []
  testQueries : 2 ≤ queries.toFinset.card →
    ((test.filterMap fun i => queries[i]?).toFinset.card : ℤ) =
      max 1 (min rounded (queries.toFinset.card - 1))

/-! ## Groups -/

theorem mem_groupsOf {queries : List String} {q : String} :
    q ∈ groupsOf queries ↔ q ∈ queries := by
  have hmem : q ∈ groupsOf queries ↔ ∃ v, (q, v) ∈ queries.map fun q => (q, ()) :=
    Dict.mem_ofPairs
  rw [hmem]
  simp

theorem nodup_groupsOf (queries : List String) : (groupsOf queries).Nodup := Dict.nodup_keys _

theorem length_groupsOf (queries : List String) :
    (groupsOf queries).length = queries.toFinset.card := by
  have hsame : (groupsOf queries).toFinset = queries.toFinset := by
    ext q
    rw [List.mem_toFinset, List.mem_toFinset, mem_groupsOf]
  rw [← hsame, List.toFinset_card_of_nodup (nodup_groupsOf queries)]

section Drawn

variable {groups : List String} {order : List ℕ} (n : ℕ)

/-- The groups that are drawn. -/
def drawnGroups (order : List ℕ) (groups : List String) (n : ℕ) : List String :=
  (order.take n).filterMap fun i => groups[i]?

theorem mem_of_mem_drawnGroups {q : String} (h : q ∈ drawnGroups order groups n) : q ∈ groups := by
  obtain ⟨i, -, hi⟩ := List.mem_filterMap.1 h
  exact List.mem_of_getElem? hi

/-- Different places draw different groups. -/
theorem nodup_drawnGroups (hgroups : groups.Nodup)
    (horder : order.Perm (List.range groups.length)) : (drawnGroups order groups n).Nodup := by
  have hnodup : (order.take n).Nodup :=
    (horder.nodup_iff.2 List.nodup_range).sublist (List.take_sublist n order)
  refine hnodup.filterMap fun i j q hi hj => ?_
  have hi : groups[i]? = some q := hi
  have hj : groups[j]? = some q := hj
  exact (List.getElem?_inj (List.getElem?_eq_some_iff.1 hi).1 hgroups).1 (hi.trans hj.symm)

/-- As many groups are drawn as there are places for them. -/
theorem length_drawnGroups (horder : order.Perm (List.range groups.length)) :
    (drawnGroups order groups n).length = min n groups.length := by
  have hsome : ∀ i ∈ order.take n, (groups[i]?).isSome = true := by
    intro i hi
    have hlt : i < groups.length :=
      List.mem_range.1 (horder.mem_iff.1 (List.mem_of_mem_take hi))
    simp [hlt]
  have hlength : order.length = groups.length := by rw [horder.length_eq, List.length_range]
  rw [drawnGroups, List.length_filterMap_eq_countP, List.countP_eq_length.2 hsome,
    List.length_take, hlength]

end Drawn

/-! ## Places -/

/-- A text that does not end in a NUL is kept as it is. -/
theorem unpadded_eq {s : String} (h : s.toList.getLast? ≠ some '\x00') : unpadded s = s := by
  have hnone : s.toList.reverse.dropWhile (· = '\x00') = s.toList.reverse := by
    cases hrev : s.toList.reverse with
    | nil => rfl
    | cons c rest =>
        rw [← List.head?_reverse, hrev, List.head?_cons] at h
        exact List.dropWhile_cons_of_neg (by simpa using h)
  rw [unpadded, hnone, List.reverse_reverse, String.ofList_toList]

/-- The places of the rows of some queries. -/
def placesOf (queries : List String) (p : String → Bool) : List ℕ :=
  (List.range queries.length).filter fun i => (queries[i]?).any p

theorem whereTrue_map (queries : List String) (p : String → Bool) :
    whereTrue (queries.map p) = placesOf queries p := by
  rw [whereTrue, placesOf, List.length_map]
  apply List.filter_congr
  intro i hi
  rw [List.getD_eq_getElem?_getD, List.getElem?_map]
  cases queries[i]? <;> rfl

theorem isin_eq {queries values : List String}
    (hqueries : ∀ q ∈ queries, q.toList.getLast? ≠ some '\x00')
    (hvalues : ∀ q ∈ values, q ∈ queries) :
    isin queries values = queries.map fun q => decide (q ∈ values) := by
  have hkept : values.map unpadded = values := by
    rw [List.map_congr_left fun q hq => unpadded_eq (hqueries q (hvalues q hq)), List.map_id']
  rw [isin, hkept]
  exact List.map_congr_left fun q hq => by rw [unpadded_eq (hqueries q hq)]

section Places

variable {queries : List String} {p : String → Bool}

theorem mem_placesOf {i : ℕ} : i ∈ placesOf queries p ↔ ∃ q, queries[i]? = some q ∧ p q = true := by
  rw [placesOf, List.mem_filter, List.mem_range, Option.any_eq_true]
  constructor
  · exact fun h => h.2
  · intro ⟨q, hq, hp⟩
    exact ⟨(List.getElem?_eq_some_iff.1 hq).1, q, hq, hp⟩

theorem increasing_placesOf : (placesOf queries p).Pairwise (· < ·) :=
  List.pairwise_lt_range.filter _

/-- Every row has its place on one side. -/
theorem perm_placesOf :
    (placesOf queries (fun q => !p q) ++ placesOf queries p).Perm (List.range queries.length) := by
  have hnot : placesOf queries (fun q => !p q) =
      (List.range queries.length).filter fun i => !(queries[i]?).any p := by
    apply List.filter_congr
    intro i hi
    rw [List.getElem?_eq_getElem (List.mem_range.1 hi)]
    rfl
  rw [hnot]
  exact List.perm_append_comm.trans (List.filter_append_perm _ _)

/-- The queries at the places are those that were asked for. -/
theorem queries_placesOf :
    ((placesOf queries p).filterMap fun i => queries[i]?).toFinset =
      queries.toFinset.filter fun q => p q = true := by
  ext q
  simp only [List.mem_toFinset, List.mem_filterMap, mem_placesOf, Finset.mem_filter]
  constructor
  · intro ⟨i, ⟨q', hq', hp⟩, hq⟩
    rw [hq'] at hq
    obtain rfl := Option.some_inj.1 hq
    exact ⟨List.mem_of_getElem? hq', hp⟩
  · intro ⟨hq, hp⟩
    obtain ⟨i, hi⟩ := List.mem_iff_getElem?.1 hq
    exact ⟨i, ⟨q, hi, hp⟩, hi⟩

theorem ne_nil_of_card_pos (h : 0 < (queries.toFinset.filter fun q => p q = true).card) :
    placesOf queries p ≠ [] := by
  intro hnil
  rw [← queries_placesOf, hnil] at h
  exact absurd h (by simp)

end Places

/-! ## What the split guarantees -/

/-- How many groups the test side gets. -/
def testCount (g : ℕ) (rounded : ℤ) : ℕ :=
  (if 2 ≤ g then min (max 1 rounded) ((g : ℤ) - 1) else max 1 rounded).toNat

theorem testCount_of_two_le {g : ℕ} (hg : 2 ≤ g) (rounded : ℤ) :
    (testCount g rounded : ℤ) = max 1 (min rounded (g - 1)) := by
  rw [testCount, if_pos hg]
  omega

/-- The sides are the places of the groups that are drawn, and of the others. -/
theorem groupedSplit_eq {order : List ℕ} {queries : List String} {testFrac : Double} {x : ℚ}
    (hnul : ∀ q ∈ queries, q.toList.getLast? ≠ some '\x00')
    (hproduct : times (.nearest queries.toFinset.card) testFrac = .finite x) :
    groupedSplit order queries testFrac =
      (let drawn := drawnGroups order (groupsOf queries)
        (testCount queries.toFinset.card (Shop.roundHalfEven x))
       some (placesOf queries (fun q => !decide (q ∈ drawn)),
        placesOf queries fun q => decide (q ∈ drawn))) := by
  have hin : ∀ n, isin queries (drawnGroups order (groupsOf queries) n) =
      queries.map fun q => decide (q ∈ drawnGroups order (groupsOf queries) n) := fun n =>
    isin_eq hnul fun q hq => mem_groupsOf.1 (mem_of_mem_drawnGroups n hq)
  rw [groupedSplit]
  simp only [length_groupsOf, hproduct, roundInt, Option.bind_eq_bind, Option.bind_some]
  rw [← testCount, ← drawnGroups, hin, List.map_map, whereTrue_map, whereTrue_map]
  rfl

/-- The places of some of the queries, and of the others, make a split. -/
theorem splitsQueries_placesOf {queries drawn : List String} {rounded : ℤ} (hnodup : drawn.Nodup)
    (hdrawn : ∀ q ∈ drawn, q ∈ queries)
    (hlength : 2 ≤ queries.toFinset.card →
      (drawn.length : ℤ) = max 1 (min rounded (queries.toFinset.card - 1))) :
    SplitsQueries queries rounded (placesOf queries fun q => !decide (q ∈ drawn))
      (placesOf queries fun q => decide (q ∈ drawn)) := by
  have htest : (queries.toFinset.filter fun q => decide (q ∈ drawn) = true) = drawn.toFinset := by
    ext q
    rw [Finset.mem_filter, List.mem_toFinset, List.mem_toFinset, decide_eq_true_iff]
    exact ⟨fun h => h.2, fun h => ⟨hdrawn q h, h⟩⟩
  have htrain : (queries.toFinset.filter fun q => (!decide (q ∈ drawn)) = true) =
      queries.toFinset \ drawn.toFinset := by
    ext q
    simp
  have hcard : drawn.toFinset.card = drawn.length := List.toFinset_card_of_nodup hnodup
  have hsub : drawn.toFinset ⊆ queries.toFinset := fun q hq =>
    List.mem_toFinset.2 (hdrawn q (List.mem_toFinset.1 hq))
  exact {
    trainIncreasing := increasing_placesOf
    testIncreasing := increasing_placesOf
    partition := perm_placesOf
    apart := by
      intro i hi j hj heq
      obtain ⟨q, hq, hout⟩ := mem_placesOf.1 hi
      obtain ⟨q', hq', hin⟩ := mem_placesOf.1 hj
      rw [hq, hq'] at heq
      rw [Option.some_inj.1 heq, hin] at hout
      cases hout
    nonempty := by
      intro htwo
      have hlength := hlength htwo
      constructor
      · apply ne_nil_of_card_pos
        rw [htrain, Finset.card_sdiff_of_subset hsub, hcard]
        omega
      · apply ne_nil_of_card_pos
        rw [htest, hcard]
        omega
    testQueries := by
      intro htwo
      rw [queries_placesOf, htest, hcard]
      exact hlength htwo }

/-- The split raises when the queries asked for are no number. -/
theorem groupedSplit_eq_none_iff (order : List ℕ) (queries : List String) (testFrac : Double) :
    groupedSplit order queries testFrac = none ↔
      ∀ x, times (.nearest queries.toFinset.card) testFrac ≠ .finite x := by
  rw [groupedSplit]
  simp only [length_groupsOf]
  cases times (.nearest queries.toFinset.card) testFrac <;> simp [roundInt]

/-- When the queries asked for are a number, the rows are split. -/
theorem splits_of_finite {order : List ℕ} {queries : List String} {testFrac : Double} {x : ℚ}
    (hnul : ∀ q ∈ queries, q.toList.getLast? ≠ some '\x00')
    (horder : order.Perm (List.range queries.toFinset.card))
    (hproduct : times (.nearest queries.toFinset.card) testFrac = .finite x) :
    ∃ train test, groupedSplit order queries testFrac = some (train, test) ∧
      SplitsQueries queries (Shop.roundHalfEven x) train test := by
  have hgroups := length_groupsOf queries
  rw [← hgroups] at horder
  have hnodup := nodup_drawnGroups (testCount queries.toFinset.card (Shop.roundHalfEven x))
    (nodup_groupsOf queries) horder
  have hlength := length_drawnGroups (testCount queries.toFinset.card (Shop.roundHalfEven x)) horder
  refine ⟨_, _, groupedSplit_eq hnul hproduct, splitsQueries_placesOf hnodup
    (fun q hq => mem_groupsOf.1 (mem_of_mem_drawnGroups _ hq)) fun htwo => ?_⟩
  have hcount := testCount_of_two_le htwo (Shop.roundHalfEven x)
  rw [hlength, hgroups]
  omega

/-- **A grouped split never leaks.** Whatever fraction of the queries is asked for, the sides part
the rows, no query stands on both, and with two queries or more neither is empty and the test side
has the queries asked for. It raises only when that is no number. -/
theorem groupedSplit_splits {order : List ℕ} {queries : List String}
    (hnul : ∀ q ∈ queries, q.toList.getLast? ≠ some '\x00')
    (horder : order.Perm (List.range queries.toFinset.card)) (testFrac : Double) :
    (groupedSplit order queries testFrac = none ↔
        ∀ x, times (.nearest queries.toFinset.card) testFrac ≠ .finite x) ∧
      ∀ x, times (.nearest queries.toFinset.card) testFrac = .finite x →
        ∃ train test, groupedSplit order queries testFrac = some (train, test) ∧
          SplitsQueries queries (Shop.roundHalfEven x) train test :=
  ⟨groupedSplit_eq_none_iff order queries testFrac,
    fun _ hproduct => splits_of_finite hnul horder hproduct⟩

/-- A quarter of two queries rounds to none, and one is tested. -/
theorem groupedSplit_splits_quarter :
    ∃ train test, groupedSplit [1, 0] ["tv", "radio", "tv"] (.finite (1 / 4)) = some (train, test) ∧
      SplitsQueries ["tv", "radio", "tv"] (Shop.roundHalfEven (1 / 2)) train test :=
  (groupedSplit_splits (by decide +kernel) (by decide +kernel) (.finite (1 / 4))).2 (1 / 2)
    (by decide +kernel)

end DealFinder.Pipeline
