/-
# The shopping agent

The agent loop with the two tools of the demo and its policy: turn the goal into SQL and filter
the catalog, rank the matches by how good a deal each is, answer with the best.

Whatever the catalog, the medians, the price models and the goal: when something matches, the
answer is a match that no other beats, and where the goal is understood it is what was asked for
(`runAgent_recommends`). When nothing matches the policy raises, and so does SQL that cannot be
read (`runAgent_of_empty`, `runAgent_of_unread`).

Prices are exact rationals. A product without a model has no fair price.
-/

import DealFinder.Agent.Meaning
import DealFinder.Agent.React
import DealFinder.Worker.TrapGate

namespace DealFinder.RunAgent

open DealFinder.Math DealFinder.Agent DealFinder.React

/-- A product of the catalog. -/
structure Item where
  id : String
  title : String
  brand : Option String
  category : String
  price : ℚ
  condition : String
  source : String

/-- What `build_db` reads of it. -/
def Item.product (p : Item) : Product where
  id := p.id
  title := p.title
  brand := p.brand
  category := p.category
  price := .finite p.price
  condition := p.condition
  source := p.source

/-- A match and its score. -/
structure Scored where
  id : String
  price : ℚ
  deal : ℚ

/-- The values of the demo. -/
inductive Value
  | none
  | text (s : String)
  | found (sql : String) (rows : List Row)
  | ids (ids : List String)
  | ranking (scored : List Scored)

/-- Its exceptions. -/
inductive PyError
  | operationalError
  | keyError
  | indexError
  | typeError
  deriving DecidableEq

/-- `None` and the texts among them. -/
def values : Values Value := ⟨.none, .text⟩

section Demo

variable (lang : Rag.Language) (catalog : List Item) (medians : Dict String ℚ)
  (fair : Item → Option ℚ)

/-- `by_id`. -/
def byId : Dict String Item := .ofPairs (catalog.map fun p => (p.id, p))

/-- The median signal of a product. -/
def signal (p : Item) : ℚ := Shop.medianSignal p.price (medians.getD p.id 0)

/-- A price too good to be true. -/
def isTrap (p : Item) : Bool :=
  (fair p).any fun fair =>
    15 / 100 ≤ signal medians p && 70 / 100 < Shop.residualFraction p.price fair

/-- `deal_of`, of a product. -/
def dealOf (p : Item) : ℚ :=
  if isTrap medians fair p then signal medians p - 1 else signal medians p

/-- `sql_search`. -/
def sqlSearch (args : Args Value) : Effect Unit PyError Value :=
  match args with
  | [(name, .text question)] =>
      if name = "question" then
        let sql := nlToSql lang question
        match runSql (buildDb (catalog.map Item.product)) sql with
        | some rows => pure (.found sql rows)
        | none => Effect.raise .operationalError
      else Effect.raise .typeError
  | _ => Effect.raise .typeError

/-- The score of an id. -/
def score (id : String) : Option Scored :=
  ((byId catalog).get? id).map fun p => ⟨id, p.price, dealOf medians fair p⟩

/-- Best deal first. -/
def ranked (scored : List Scored) : List Scored :=
  scored.insertionSort fun first second => second.deal ≤ first.deal

/-- `rank_deals`. -/
def rankDeals (args : Args Value) : Effect Unit PyError Value :=
  match args with
  | [(name, .ids ids)] =>
      if name = "ids" then
        match ids.mapM (score catalog medians fair) with
        | some scored => pure (.ranking (ranked scored))
        | none => Effect.raise .keyError
      else Effect.raise .typeError
  | _ => Effect.raise .typeError

/-- The answer. -/
def answerText (p : Item) (deal : ℚ) : String :=
  p.title ++ " at $" ++ Shop.fixed 2 p.price ++ " (" ++ Shop.fixed 0 (deal * 100) ++
    "% under median)"

/-- `policy`. -/
def policy (goal : String) (trace : List (Step Value)) : Effect Unit PyError (Action Value) :=
  match trace with
  | [] =>
      pure ⟨"Translate the request into SQL and filter the catalog", some "sql_search",
        [("question", .text goal)], .none⟩
  | [first] =>
      match first.observation with
      | .found _ rows =>
          pure ⟨"Rank those matches by how good a deal each is", some "rank_deals",
            [("ids", .ids (rows.map Row.id))], .none⟩
      | _ => Effect.raise .typeError
  | _ :: second :: _ =>
      match second.observation with
      | .ranking [] => Effect.raise .indexError
      | .ranking (best :: _) =>
          match (byId catalog).get? best.id with
          | some p =>
              pure ⟨"Pick the best-value match and answer", none, [],
                .text (answerText p best.deal)⟩
          | none => Effect.raise .keyError
      | _ => Effect.raise .typeError

/-- The first tool. -/
def searchTool : Tool Unit Value PyError :=
  ⟨"sql_search", sqlSearch lang catalog, "NL → SQL over the catalog", false⟩

/-- The second tool. -/
def rankTool : Tool Unit Value PyError :=
  ⟨"rank_deals", rankDeals catalog medians fair, "rank ids by two-signal deal score", false⟩

/-- The agent of `main`. -/
def agent : React.Agent Unit Value PyError :=
  .new [searchTool lang catalog, rankTool catalog medians fair] (policy catalog) none 8

/-- What `main` makes of a goal. -/
def runAgent (goal : String) : Except (AgentError PyError) (Value × List (Step Value)) :=
  ((agent lang catalog medians fair).run values goal ⟨(), []⟩).1

end Demo

/-! ## What the loop does -/

section Runs

variable {lang : Rag.Language} {catalog : List Item} {medians : Dict String ℚ}
  {fair : Item → Option ℚ} {goal : String} {rows : List Row}

theorem sqlSearch_of_unread
    (h : runSql (buildDb (catalog.map Item.product)) (nlToSql lang goal) = none) :
    (searchTool lang catalog).fn [("question", .text goal)] () =
      (.error .operationalError, ()) := by
  simp only [searchTool, sqlSearch, h, if_true]
  rfl

theorem sqlSearch_of_rows
    (h : runSql (buildDb (catalog.map Item.product)) (nlToSql lang goal) = some rows) :
    (searchTool lang catalog).fn [("question", .text goal)] () =
      (.ok (.found (nlToSql lang goal) rows), ()) := by
  simp only [searchTool, sqlSearch, h, if_true]
  rfl

theorem rankDeals_of_scored {ids : List String} {scored : List Scored}
    (h : ids.mapM (score catalog medians fair) = some scored) :
    (rankTool catalog medians fair).fn [("ids", .ids ids)] () =
      (.ok (.ranking (ranked scored)), ()) := by
  simp only [rankTool, rankDeals, h, if_true]
  rfl

theorem get?_sqlSearch : (agent lang catalog medians fair).tools.get? "sql_search" =
    some (searchTool lang catalog) :=
  (Dict.get?_set_of_ne _ _ (show "sql_search" ≠ "rank_deals" by decide)).trans
    (Dict.get?_set_self _ _ _)

theorem get?_rankDeals : (agent lang catalog medians fair).tools.get? "rank_deals" =
    some (rankTool catalog medians fair) :=
  Dict.get?_set_self _ _ _

theorem runAgent_eq_loop : runAgent lang catalog medians fair goal =
    ((agent lang catalog medians fair).loop values goal 8 [] ⟨(), []⟩).1 := rfl

theorem policy_agent (trace : List (Step Value)) :
    (agent lang catalog medians fair).policy goal trace = policy catalog goal trace := rfl

/-- The policy begins with a search. -/
theorem policy_nil (medians : Dict String ℚ) (fair : Item → Option ℚ) :
    (agent lang catalog medians fair).policy goal [] () =
    (.ok ⟨"Translate the request into SQL and filter the catalog", some "sql_search",
      [("question", .text goal)], .none⟩, ()) := rfl

/-- SQL that cannot be read raises. -/
theorem runAgent_of_unread
    (h : runSql (buildDb (catalog.map Item.product)) (nlToSql lang goal) = none) :
    runAgent lang catalog medians fair goal = .error (.raised .operationalError) := by
  rw [runAgent_eq_loop]
  exact loop_call_error ⟨(), []⟩ (policy_nil medians fair) rfl get?_sqlSearch rfl
    (sqlSearch_of_unread h)

/-- The first step. -/
def searched (lang : Rag.Language) (goal : String) (rows : List Row) : Step Value :=
  ⟨"Translate the request into SQL and filter the catalog", some "sql_search",
    [("question", .text goal)], .found (nlToSql lang goal) rows⟩

/-- The second step. -/
def rankedStep (rows : List Row) (scored : List Scored) : Step Value :=
  ⟨"Rank those matches by how good a deal each is", some "rank_deals",
    [("ids", .ids (rows.map Row.id))], .ranking (ranked scored)⟩

/-- It goes on with what was found. -/
theorem policy_searched (medians : Dict String ℚ) (fair : Item → Option ℚ) :
    (agent lang catalog medians fair).policy goal [searched lang goal rows] () =
      (.ok ⟨"Rank those matches by how good a deal each is", some "rank_deals",
        [("ids", .ids (rows.map Row.id))], .none⟩, ()) := by
  rw [policy_agent]
  simp only [policy, searched]
  rfl

/-- Rows are filtered and ranked, and the policy is asked once more. -/
theorem runAgent_of_scored {scored : List Scored}
    (h : runSql (buildDb (catalog.map Item.product)) (nlToSql lang goal) = some rows)
    (hscored : (rows.map Row.id).mapM (score catalog medians fair) = some scored) :
    ∃ s, runAgent lang catalog medians fair goal =
      ((agent lang catalog medians fair).loop values goal 6
        [searched lang goal rows, rankedStep rows scored] s).1 := by
  have hfirst := loop_call values [] 7 ⟨(), []⟩
    (policy_nil medians fair) rfl get?_sqlSearch rfl (sqlSearch_of_rows h)
  have hsecond := loop_call values [searched lang goal rows] 6
    ⟨(), [.called "sql_search" [("question", .text goal)]
      (.ok (.found (nlToSql lang goal) rows))]⟩
    (policy_searched medians fair) rfl get?_rankDeals rfl
    (rankDeals_of_scored hscored)
  rw [runAgent_eq_loop]
  exact ⟨_, congrArg Prod.fst (hfirst.trans hsecond)⟩

/-- Nothing matches. -/
theorem runAgent_of_empty
    (h : runSql (buildDb (catalog.map Item.product)) (nlToSql lang goal) = some []) :
    runAgent lang catalog medians fair goal = .error (.raised .indexError) := by
  have hscored : (([] : List Row).map Row.id).mapM (score catalog medians fair) = some [] := rfl
  obtain ⟨s, hrun⟩ := runAgent_of_scored h hscored
  rw [hrun]
  exact loop_policy_error () rfl

/-- Something does. -/
theorem runAgent_of_best {scored rest : List Scored} {best : Scored} {p : Item}
    (h : runSql (buildDb (catalog.map Item.product)) (nlToSql lang goal) = some rows)
    (hscored : (rows.map Row.id).mapM (score catalog medians fair) = some scored)
    (hbest : ranked scored = best :: rest) (hp : (byId catalog).get? best.id = some p) :
    runAgent lang catalog medians fair goal =
      .ok (.text (answerText p best.deal), [searched lang goal rows, rankedStep rows scored,
        ⟨"Pick the best-value match and answer", none, [], .text (answerText p best.deal)⟩]) := by
  obtain ⟨s, hrun⟩ := runAgent_of_scored h hscored
  have hpolicy : (agent lang catalog medians fair).policy goal
      [searched lang goal rows, rankedStep rows scored] s.world =
        (.ok ⟨"Pick the best-value match and answer", none, [],
          .text (answerText p best.deal)⟩, ()) := by
    show policy catalog goal [searched lang goal rows, rankedStep rows scored] () = _
    simp only [policy, rankedStep, hbest, hp]
    rfl
  rw [hrun]
  exact loop_finish hpolicy rfl

/-! ## What it recommends -/

theorem get?_byId_of_mem (hids : (catalog.map Item.id).Nodup) {p : Item} (hp : p ∈ catalog) :
    (byId catalog).get? p.id = some p := by
  refine Dict.get?_ofPairs_of_mem ?_ (List.mem_map.2 ⟨p, hp, rfl⟩)
  rwa [List.map_map]

/-- A row is a product's, and has its id. -/
theorem exists_item (h : runSql (buildDb (catalog.map Item.product)) (nlToSql lang goal) =
    some rows) {row : Row} (hrow : row ∈ rows) : ∃ p ∈ catalog, rowOf p.product = row := by
  obtain ⟨conds, -, rfl⟩ := Option.map_eq_some_iff.1 h
  obtain ⟨product, hproduct, rfl⟩ := List.mem_map.1 (List.mem_filter.1 hrow).1
  obtain ⟨p, hp, rfl⟩ := List.mem_map.1 hproduct
  exact ⟨p, hp, rfl⟩

/-- The best deals come first. -/
theorem ranked_head {scored rest : List Scored} {best : Scored}
    (h : ranked scored = best :: rest) : best ∈ scored ∧ ∀ other ∈ scored, other.deal ≤ best.deal := by
  have hperm : (ranked scored).Perm scored := List.perm_insertionSort _ _
  have hsorted : (ranked scored).Pairwise fun first second => second.deal ≤ first.deal :=
    haveI : Std.Total fun first second : Scored => second.deal ≤ first.deal :=
      ⟨fun first second => le_total second.deal first.deal⟩
    haveI : IsTrans Scored fun first second => second.deal ≤ first.deal :=
      ⟨fun _ _ _ hfirst hsecond => hsecond.trans hfirst⟩
    List.pairwise_insertionSort _ _
  rw [h] at hperm hsorted
  refine ⟨hperm.subset List.mem_cons_self, fun other hother => ?_⟩
  rcases List.mem_cons.1 (hperm.symm.subset hother) with rfl | hrest
  · exact le_rfl
  · exact List.rel_of_pairwise_cons hsorted hrest

theorem ranked_ne_nil {scored : List Scored} (h : scored ≠ []) : ranked scored ≠ [] := by
  have hlength : (ranked scored).length = scored.length := List.length_insertionSort ..
  intro hnil
  rw [hnil] at hlength
  exact h (List.length_eq_zero_iff.1 hlength.symm)

theorem score_of_mem (hids : (catalog.map Item.id).Nodup) {p : Item} (hp : p ∈ catalog) :
    score catalog medians fair p.id = some ⟨p.id, p.price, dealOf medians fair p⟩ := by
  rw [score, get?_byId_of_mem hids hp, Option.map_some]

/-- The scores of the rows are those of products that match. -/
theorem mem_scored (hids : (catalog.map Item.id).Nodup)
    (hrows : runSql (buildDb (catalog.map Item.product)) (nlToSql lang goal) = some rows)
    {scored : List Scored}
    (hscored : (rows.map Row.id).mapM (score catalog medians fair) = some scored) {best : Scored}
    (hbest : best ∈ scored) :
    ∃ p ∈ catalog, rowOf p.product ∈ rows ∧ best = ⟨p.id, p.price, dealOf medians fair p⟩ := by
  obtain ⟨id, hid, hread⟩ := source_of_mapM hscored hbest
  obtain ⟨row, hrow, hrowId⟩ := List.mem_map.1 hid
  obtain ⟨p, hp, hproduct⟩ := exists_item hrows hrow
  have hidp : id = p.id := by rw [← hrowId, ← hproduct]; rfl
  rw [hidp, score_of_mem hids hp] at hread
  exact ⟨p, hp, hproduct ▸ hrow, (Option.some.inj hread).symm⟩

/-- The score of a product that matches is among them. -/
theorem scored_of_mem (hids : (catalog.map Item.id).Nodup) {scored : List Scored}
    (hscored : (rows.map Row.id).mapM (score catalog medians fair) = some scored) {q : Item}
    (hq : q ∈ catalog) (hrow : rowOf q.product ∈ rows) :
    ⟨q.id, q.price, dealOf medians fair q⟩ ∈ scored := by
  have hid : q.id ∈ rows.map Row.id := List.mem_map.2 ⟨_, hrow, rfl⟩
  obtain ⟨other, hother, hread⟩ := read_of_mapM hscored hid
  rw [score_of_mem hids hq] at hread
  rwa [Option.some.inj hread]

theorem exists_scored (medians : Dict String ℚ) (fair : Item → Option ℚ)
    (hids : (catalog.map Item.id).Nodup)
    (hrows : runSql (buildDb (catalog.map Item.product)) (nlToSql lang goal) = some rows) :
    ∃ scored, (rows.map Row.id).mapM (score catalog medians fair) = some scored := by
  refine exists_mapM fun id hid => ?_
  obtain ⟨row, hrow, hrowId⟩ := List.mem_map.1 hid
  obtain ⟨p, hp, hproduct⟩ := exists_item hrows hrow
  have hidp : id = p.id := by rw [← hrowId, ← hproduct]; rfl
  exact ⟨_, hidp ▸ score_of_mem hids hp⟩

/-- A product that a goal's statement returns and that no other such product beats. Should it be
a trap, no honest one is below its median. -/
structure Recommended (catalog : List Item) (medians : Dict String ℚ) (fair : Item → Option ℚ)
    (rows : List Row) (p : Item) : Prop where
  listed : p ∈ catalog
  matched : rowOf p.product ∈ rows
  best : ∀ q ∈ catalog, rowOf q.product ∈ rows → dealOf medians fair q ≤ dealOf medians fair p
  trap : isTrap medians fair p = true → 0 ≤ p.price → ∀ q ∈ catalog, rowOf q.product ∈ rows →
    isTrap medians fair q = false → signal medians q ≤ 0

/-- A price is at most all of its median below it. -/
theorem signal_le_one {p : Item} (hprice : 0 ≤ p.price) : signal medians p ≤ 1 := by
  rw [signal, Shop.medianSignal]
  split
  · exact zero_le_one
  · next hmedian =>
      rw [div_le_one (not_le.1 hmedian)]
      exact sub_le_self _ hprice

theorem trap_of_best {p q : Item} (hbest : dealOf medians fair q ≤ dealOf medians fair p)
    (hp : isTrap medians fair p = true) (hprice : 0 ≤ p.price)
    (hq : isTrap medians fair q = false) : signal medians q ≤ 0 := by
  rw [dealOf, dealOf, if_pos hp, if_neg (by rw [hq]; exact Bool.false_ne_true)] at hbest
  exact hbest.trans (sub_nonpos.2 (signal_le_one hprice))

end Runs

/-- **The recommendation.** Whatever the catalog, the medians, the models and the goal: when the
goal's statement returns something, the agent answers with a product that it returns and that no
other such product beats; and where the goal asks for a price and is understood, the product is
what was asked for. -/
theorem runAgent_recommends (lang : Rag.Language) (catalog : List Item) (medians : Dict String ℚ)
    (fair : Item → Option ℚ) (goal : String) (rows : List Row)
    (hids : (catalog.map Item.id).Nodup)
    (hrows : runSql (buildDb (catalog.map Item.product)) (nlToSql lang goal) = some rows)
    (hsome : rows ≠ []) :
    ∃ p trace, runAgent lang catalog medians fair goal =
        .ok (.text (answerText p (dealOf medians fair p)), trace) ∧
      Recommended catalog medians fair rows p ∧
      ∀ bound amount condition, Asks lang goal bound amount condition →
        Understood lang goal bound amount condition →
          (rowOf p.product).Asked bound amount condition := by
  obtain ⟨scored, hscored⟩ := exists_scored medians fair hids hrows
  have hnonempty : scored ≠ [] := by
    intro hnil
    have hlength := length_of_mapM hscored
    rw [hnil, List.length_map] at hlength
    exact hsome (List.length_eq_zero_iff.1 hlength.symm)
  obtain ⟨best, rest, hbest⟩ := List.exists_cons_of_ne_nil (ranked_ne_nil hnonempty)
  obtain ⟨hmem, hmax⟩ := ranked_head hbest
  obtain ⟨p, hp, hrow, hbestEq⟩ := mem_scored hids hrows hscored hmem
  have hbeats : ∀ q ∈ catalog, rowOf q.product ∈ rows →
      dealOf medians fair q ≤ dealOf medians fair p := by
    intro q hq hqrow
    have hle := hmax _ (scored_of_mem hids hscored hq hqrow)
    rwa [hbestEq] at hle
  have hfound : (byId catalog).get? best.id = some p := by
    rw [hbestEq]
    exact get?_byId_of_mem hids hp
  have hanswer := runAgent_of_best hrows hscored hbest hfound
  rw [hbestEq] at hanswer
  refine ⟨p, _, hanswer, ⟨hp, hrow, hbeats, fun htrap hprice q hq hqrow hhonest =>
    trap_of_best (hbeats q hq hqrow) htrap hprice hhonest⟩, ?_⟩
  intro bound amount condition hasks hunderstood
  obtain ⟨conds, rows', -, hrun, hsound, -⟩ :=
    means_of_understood hasks hunderstood (catalog.map Item.product)
  rw [Option.some.inj (hrows.symm.trans hrun)] at hrow
  exact hsound _ hrow

/-- Two used monitors, one of them too dear. -/
def monitors : List Item :=
  [⟨"m1", "Dell monitor", none, "displays", 80, "used", "shop"⟩,
    ⟨"m2", "LG monitor", none, "displays", 160, "used", "shop"⟩]

/-- The row that is asked for. -/
def cheapRow : Row := ⟨"m1", "Dell monitor", none, "displays", some (.finite 80), "used", "shop"⟩

theorem runSql_monitors : runSql (buildDb (monitors.map Item.product))
    (nlToSql Rag.plainLanguage "used monitor under $100") = some [cheapRow] := by
  have hclauses : clausesOf Rag.plainLanguage "used monitor under $100" =
      [.below "100", .category "displays", .condition "used", .productType "monitor"] := by
    decide +kernel
  have hread : readSql (nlToSql Rag.plainLanguage "used monitor under $100") =
      some [.below 100, .equals .category "displays", .equals .condition "used",
        .like .title "%monitor%"] := by
    rw [readSql_nlToSql, hclauses]
    decide +kernel
  rw [runSql_of_readSql hread]
  decide +kernel

theorem runAgent_recommends_monitor :
    ∃ p trace, runAgent Rag.plainLanguage monitors .empty (fun _ => none)
        "used monitor under $100" =
          .ok (.text (answerText p (dealOf .empty (fun _ => none) p)), trace) ∧
      Recommended monitors .empty (fun _ => none) [cheapRow] p ∧
      ∀ bound amount condition,
        Asks Rag.plainLanguage "used monitor under $100" bound amount condition →
        Understood Rag.plainLanguage "used monitor under $100" bound amount condition →
          (rowOf p.product).Asked bound amount condition :=
  runAgent_recommends Rag.plainLanguage monitors .empty (fun _ => none)
    "used monitor under $100" [cheapRow] (by decide +kernel) runSql_monitors (by simp)

end DealFinder.RunAgent
