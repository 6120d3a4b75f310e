/-
# The components of `same_product`

`dedup_by_embedding` on objects of any kind that have a title and a price, with its
parents in an array and its loops on fuel. With more fuel than there are pairs of places
it ends, and what it keeps is the first cheapest object of each component of
`same_product` (`dedup_components`), whichever way the union-find walks.
-/

import DealFinder.Math.ParentArray
import DealFinder.Shop.Search

namespace DealFinder.Shop

open DealFinder.Math

universe u

variable {α : Type u}

/-! ## The code -/

/-- The list a call is given, and the variables of the call. -/
structure Frame (α : Type u) where
  items : List α
  parent : List ℕ
  clusters : Dict ℕ (List α)

section Code

variable (services : Services) (title : α → String) (price : α → ℚ)

/-- `same_product(i, j)`. -/
def sameAt (items : List α) (place : ℕ × ℕ) : Bool :=
  match items[place.1]?, items[place.2]? with
  | some p, some q => sameProduct services (title p) (title q)
  | _, _ => false

/-- The body of the loops over pairs. -/
def uniteStep (fuel : ℕ) (frame : Frame α) (place : ℕ × ℕ) : Option (Frame α) :=
  if sameAt services title frame.items place then
    (unionIn fuel frame.parent place.1 place.2).map fun parent => { frame with parent := parent }
  else some frame

/-- The body of the loop that fills `clusters`. -/
def clusterStep (fuel : ℕ) (frame : Frame α) (entry : α × ℕ) : Option (Frame α) :=
  (findIn fuel frame.parent entry.2).map fun found =>
    { frame with
      parent := found.2
      clusters := frame.clusters.set found.1 (frame.clusters.getD found.1 [] ++ [entry.1]) }

/-- `min(cluster, key=lambda p: p.price)`. -/
def cheapestIn : List α → Option α
  | [] => none
  | p :: rest => some (cheapest price (p, rest))

/-- `dedup_by_embedding`: what it keeps, and its argument when it returns. -/
def dedupItems (fuel : ℕ) (items : List α) : Option (List α × List α) :=
  if items.isEmpty then some ([], items)
  else do
    let start : Frame α := ⟨items, List.range items.length, Dict.empty⟩
    let frame ← (places items.length).foldlM (uniteStep services title fuel) start
    let frame ← frame.items.zipIdx.foldlM (clusterStep fuel) frame
    some (frame.clusters.values.filterMap (cheapestIn price), frame.items)

/-- The root of each place after the unions. -/
def rootAt (items : List α) : ℕ → ℕ :=
  ((Forest.discrete ℕ).unions
    ((places items.length).filter (sameAt services title items))).root

/-- The first cheapest object of each root. -/
def survivors (items : List α) : List α :=
  ((groupsBy (fun entry => rootAt services title items entry.2) items.zipIdx).map
    (cheapest fun entry => price entry.1)).map Prod.fst

end Code

/-! ## The loops end -/

section Loops

variable {services : Services} {title : α → String} {price : α → ℚ}

/-- The pairs united so far, in the array and in a forest. -/
theorem unite_spec (services : Services) (title : α → String) {n fuel : ℕ} {pairs : List (ℕ × ℕ)}
    (hpairs : ∀ pair ∈ pairs, pair.1 < n ∧ pair.2 < n) {frame : Frame α} {f : Forest ℕ}
    (hrep : Represents n frame.parent f) (hfuel : f.height + pairs.length < fuel) :
    ∃ parent f', pairs.foldlM (uniteStep services title fuel) frame =
        some { frame with parent := parent } ∧
      Represents n parent f' ∧
      f'.root = (f.unions (pairs.filter (sameAt services title frame.items))).root ∧
      f'.height ≤ f.height + pairs.length := by
  induction pairs generalizing frame f with
  | nil => exact ⟨frame.parent, f, rfl, hrep, rfl, le_rfl⟩
  | cons pair rest ih =>
      obtain ⟨hpair, hrest⟩ := List.forall_mem_cons.1 hpairs
      rw [List.length_cons] at hfuel
      rw [List.foldlM_cons, uniteStep]
      by_cases hsame : sameAt services title frame.items pair = true
      · obtain ⟨parent₁, f₁, hunion, hrep₁, hroot₁, hheight₁⟩ :=
          hrep.unionIn_spec hpair.1 hpair.2 (show f.height < fuel by omega)
        have hframe : Represents n { frame with parent := parent₁ }.parent f₁ := hrep₁
        obtain ⟨parent₂, f₂, hfold, hrep₂, hroot₂, hheight₂⟩ :=
          ih hrest hframe (by rw [hheight₁]; omega)
        refine ⟨parent₂, f₂, ?_, hrep₂, ?_, ?_⟩
        · rw [if_pos hsame, hunion]
          exact hfold
        · rw [hroot₂, List.filter_cons_of_pos hsame, Forest.unions, Forest.unions,
            List.foldl_cons]
          exact Forest.root_unions_congr hroot₁ _
        · rw [List.length_cons]
          omega
      · obtain ⟨parent₁, f₁, hfold, hrep₁, hroot₁, hheight₁⟩ := ih hrest hrep (by omega)
        refine ⟨parent₁, f₁, ?_, hrep₁, ?_, ?_⟩
        · rw [if_neg hsame]
          exact hfold
        · rw [hroot₁, List.filter_cons_of_neg hsame]
        · rw [List.length_cons]
          omega

/-- Filling the clusters groups the objects by their roots. -/
theorem cluster_spec {n fuel : ℕ} {entries : List (α × ℕ)}
    (hentries : ∀ entry ∈ entries, entry.2 < n) {frame : Frame α} {f : Forest ℕ}
    (hrep : Represents n frame.parent f) (hfuel : f.height < fuel) :
    ∃ parent, entries.foldlM (clusterStep fuel) frame =
      some ⟨frame.items, parent, entries.foldl (gather (fun entry => f.root entry.2)
        (fun entry => [entry.1]) fun members entry => members ++ [entry.1]) frame.clusters⟩ := by
  induction entries generalizing frame f with
  | nil => exact ⟨frame.parent, rfl⟩
  | cons entry rest ih =>
      obtain ⟨hentry, hrest⟩ := List.forall_mem_cons.1 hentries
      obtain ⟨parent₁, f₁, hfind, hrep₁, hroot₁, hheight₁⟩ := hrep.findIn_spec hentry hfuel
      have hset : frame.clusters.set (f.root entry.2)
          (frame.clusters.getD (f.root entry.2) [] ++ [entry.1]) =
            gather (fun entry : α × ℕ => f.root entry.2) (fun entry => [entry.1])
              (fun members entry => members ++ [entry.1]) frame.clusters entry := by
        unfold gather
        cases hget : frame.clusters.get? (f.root entry.2) with
        | none => simp [Dict.getD, hget]
        | some members => simp [Dict.getD, hget]
      have hframe : Represents n (Frame.mk frame.items parent₁ (gather
          (fun entry : α × ℕ => f.root entry.2) (fun entry => [entry.1])
            (fun members entry => members ++ [entry.1]) frame.clusters entry)).parent f₁ := hrep₁
      obtain ⟨parent₂, hfold⟩ := ih hrest hframe (hheight₁ ▸ hfuel)
      refine ⟨parent₂, ?_⟩
      rw [List.foldlM_cons, clusterStep, hfind, List.foldl_cons, ← hroot₁]
      rw [← hroot₁] at hset
      simp only [Option.map_some, hroot₁] at hset hfold ⊢
      rw [hset]
      exact hfold

theorem values_clusters (root : ℕ → ℕ) (entries : List (α × ℕ)) :
    ((entries.foldl (gather (fun entry => root entry.2) (fun entry => [entry.1])
        fun members entry => members ++ [entry.1]) Dict.empty).values.filterMap
          (cheapestIn price)) =
      ((groupsBy (fun entry => root entry.2) entries).map
        (cheapest fun entry => price entry.1)).map Prod.fst := by
  have hmembers : ∀ (rest : List (α × ℕ)) (members : List α),
      rest.foldl (fun members entry => members ++ [entry.1]) members =
        members ++ rest.map Prod.fst := by
    intro rest
    induction rest with
    | nil => simp
    | cons entry rest ih => intro members; simp [ih]
  rw [values_gather, List.filterMap_map, List.map_map]
  rw [← List.filterMap_eq_map]
  apply List.filterMap_congr
  intro group _
  rw [Function.comp_apply, hmembers]
  exact congrArg some (cheapest_map price Prod.fst group)

/-- With more fuel than pairs of places the loops end, and the argument is as before. -/
theorem dedupItems_eq {fuel : ℕ} {items : List α} (hfuel : (places items.length).length < fuel) :
    dedupItems services title price fuel items =
      some (survivors services title price items, items) := by
  unfold dedupItems
  split_ifs with hempty
  · rw [List.isEmpty_iff.1 hempty]
    simp [survivors]
  · have hplaces : ∀ pair ∈ places items.length,
        pair.1 < items.length ∧ pair.2 < items.length := by
      intro pair hpair
      obtain ⟨hlt, hle⟩ := mem_places.1 (show (pair.1, pair.2) ∈ _ from hpair)
      exact ⟨hlt.trans hle, hle⟩
    have hstart : Represents items.length
        (Frame.mk items (List.range items.length) Dict.empty).parent (Forest.discrete ℕ) :=
      represents_range items.length
    have hfuel : (Forest.discrete ℕ).height + (places items.length).length < fuel := by
      simpa [Forest.discrete] using hfuel
    obtain ⟨parent, f, hunite, hrep, hroot, hheight⟩ :=
      unite_spec services title hplaces hstart hfuel
    have hentries : ∀ entry ∈ items.zipIdx, entry.2 < items.length := by
      intro entry hentry
      exact List.snd_lt_of_mem_zipIdx hentry
    have hframe : Represents items.length (Frame.mk items parent Dict.empty).parent f := hrep
    obtain ⟨parent', hcluster⟩ := cluster_spec hentries hframe (hheight.trans_lt hfuel)
    simp only [hunite, Option.bind_eq_bind, Option.bind_some, hcluster, values_clusters, hroot]
    rfl

end Loops

/-! ## What the roots are -/

section Roots

variable {services : Services} {title : α → String} {items : List α}

/-- The objects at two places are the same product. -/
def LinkedAt (services : Services) (title : α → String) (items : List α) (i j : ℕ) : Prop :=
  ∃ p q, items[i]? = some p ∧ items[j]? = some q ∧
    sameProduct services (title p) (title q) = true

/-- Two places are in one component of `same_product`. -/
def Connected (services : Services) (title : α → String) (items : List α) (i j : ℕ) : Prop :=
  Relation.EqvGen (LinkedAt services title items) i j

theorem sameAt_iff {i j : ℕ} :
    sameAt services title items (i, j) = true ↔ LinkedAt services title items i j := by
  unfold sameAt LinkedAt
  cases hp : items[i]? with
  | none => simp
  | some p => cases hq : items[j]? with
    | none => simp
    | some q => simp

/-- The same product has the same leading token and the same model tokens. -/
theorem tokens_of_sameProduct {s t : String} (h : sameProduct services s t = true) :
    firstToken services s = firstToken services t ∧
      modelTokens services s = modelTokens services t := by
  unfold sameProduct at h
  split_ifs at h with hfirst hboth hnone
  · simp only [Bool.and_eq_true, decide_eq_true_eq] at h
    exact ⟨not_not.1 hfirst, h.1⟩
  · exact ⟨not_not.1 hfirst, hnone.1.trans hnone.2.symm⟩

theorem sameProduct_comm (hsym : ∀ s t, services.cosine s t = services.cosine t s) (s t : String) :
    sameProduct services s t = sameProduct services t s := by
  unfold sameProduct
  rw [hsym s t]
  simp only [ne_eq, eq_comm (a := firstToken services s),
    and_comm (a := modelTokens services s ≠ ∅),
    eq_comm (a := modelTokens services s) (b := modelTokens services t),
    and_comm (a := modelTokens services s = ∅)]

/-- Two places with one root are in one component. -/
theorem connected_of_rootAt_eq {i j : ℕ}
    (h : rootAt services title items i = rootAt services title items j) :
    Connected services title items i j := by
  rw [rootAt, Forest.root_unions_eq_iff] at h
  unfold Connected
  refine Relation.EqvGen.eqvGen_le (fun u v huv => ?_) _ _ h
  rcases huv with huv | huv
  · rw [Forest.discrete_root, Forest.discrete_root] at huv
    exact huv ▸ .refl u
  · exact .rel _ _ (sameAt_iff.1 (List.mem_filter.1 huv).2)

/-- Two places have one root when they are in one component. -/
theorem rootAt_eq_iff (hsym : ∀ s t, services.cosine s t = services.cosine t s) (i j : ℕ) :
    rootAt services title items i = rootAt services title items j ↔
      Connected services title items i j := by
  refine ⟨connected_of_rootAt_eq, fun h => ?_⟩
  rw [rootAt, Forest.root_unions_eq_iff]
  unfold Connected at h
  refine Relation.EqvGen.eqvGen_le (fun u v huv => ?_) _ _ h
  obtain ⟨p, q, hp, hq, hsame⟩ := huv
  have hearlier : ∀ {u v : ℕ} {p q : α}, items[u]? = some p → items[v]? = some q → u < v →
      sameProduct services (title p) (title q) = true →
        (u, v) ∈ (places items.length).filter (sameAt services title items) := by
    intro u v p q hp hq hlt hsame
    have hv := (List.getElem?_eq_some_iff.1 hq).1
    exact List.mem_filter.2 ⟨mem_places.2 ⟨hlt, hv⟩, sameAt_iff.2 ⟨p, q, hp, hq, hsame⟩⟩
  rcases lt_trichotomy u v with hlt | rfl | hlt
  · exact .rel _ _ (Or.inr (hearlier hp hq hlt hsame))
  · exact .refl u
  · rw [sameProduct_comm hsym] at hsame
    exact .symm _ _ (.rel _ _ (Or.inr (hearlier hq hp hlt hsame)))

/-- A chain of places is a chain of what stands there. -/
theorem eqvGen_of_connected {S : α → α → Prop}
    (hS : ∀ p ∈ items, ∀ q ∈ items, sameProduct services (title p) (title q) = true → S p q)
    {i j : ℕ} (h : Connected services title items i j) {p q : α} (hp : items[i]? = some p)
    (hq : items[j]? = some q) : Relation.EqvGen S p q := by
  have hall : i = j ∨ ∃ p q, items[i]? = some p ∧ items[j]? = some q ∧
      Relation.EqvGen S p q := by
    clear hp hq
    induction h with
    | rel i j hij =>
        obtain ⟨p, q, hp, hq, hsame⟩ := hij
        exact Or.inr ⟨p, q, hp, hq,
          .rel _ _ (hS p (List.mem_of_getElem? hp) q (List.mem_of_getElem? hq) hsame)⟩
    | refl => exact Or.inl rfl
    | symm _ _ _ ih =>
        rcases ih with rfl | ⟨p, q, hp, hq, hpq⟩
        · exact Or.inl rfl
        · exact Or.inr ⟨q, p, hq, hp, hpq.symm _ _⟩
    | trans _ _ _ _ _ ih ih' =>
        rcases ih with rfl | ⟨p, q, hp, hq, hpq⟩
        · exact ih'
        · rcases ih' with rfl | ⟨q', r, hq', hr, hqr⟩
          · exact Or.inr ⟨p, q, hp, hq, hpq⟩
          · obtain rfl := Option.some.inj (hq.symm.trans hq')
            exact Or.inr ⟨p, r, hp, hr, hpq.trans _ _ _ hqr⟩
  rcases hall with rfl | ⟨p', q', hp', hq', hpq⟩
  · exact Option.some.inj (hp.symm.trans hq) ▸ .refl p
  · obtain rfl := Option.some.inj (hp.symm.trans hp')
    obtain rfl := Option.some.inj (hq.symm.trans hq')
    exact hpq

/-- A component has one leading token and one set of model tokens. -/
theorem tokens_of_connected {i j : ℕ} (h : Connected services title items i j) {p q : α}
    (hp : items[i]? = some p) (hq : items[j]? = some q) :
    firstToken services (title p) = firstToken services (title q) ∧
      modelTokens services (title p) = modelTokens services (title q) := by
  have hequiv : Equivalence fun p q : α => firstToken services (title p) =
      firstToken services (title q) ∧ modelTokens services (title p) =
        modelTokens services (title q) :=
    ⟨fun _ => ⟨rfl, rfl⟩, fun h => ⟨h.1.symm, h.2.symm⟩,
      fun h h' => ⟨h.1.trans h'.1, h.2.trans h'.2⟩⟩
  exact hequiv.eqvGen_iff.1
    (eqvGen_of_connected (fun _ _ _ _ hsame => tokens_of_sameProduct hsame) h hp hq)

end Roots

/-! ## What is kept -/

section Kept

variable {services : Services} {title : α → String} {price : α → ℚ} {items : List α}

/-- The place holds the first cheapest object of its component. -/
def FirstCheapest (services : Services) (title : α → String) (price : α → ℚ) (items : List α)
    (c : ℕ) : Prop :=
  ∀ j p q, Connected services title items c j → items[c]? = some p → items[j]? = some q →
    price p < price q ∨ price p = price q ∧ c ≤ j

/-- The places of what is kept. -/
def chosen (services : Services) (title : α → String) (price : α → ℚ) (items : List α) : List ℕ :=
  ((groupsBy (fun entry => rootAt services title items entry.2) items.zipIdx).map
    (cheapest fun entry => price entry.1)).map Prod.snd

theorem pairwise_zipIdx (items : List α) : items.zipIdx.Pairwise fun e e' => e.2 < e'.2 := by
  rw [← List.pairwise_map, List.zipIdx_map_snd]
  exact List.pairwise_lt_range'

theorem getElem?_chosen :
    (chosen services title price items).map (fun c => items[c]?) =
      (survivors services title price items).map some := by
  unfold chosen survivors
  simp only [List.map_map]
  apply List.map_congr_left
  intro group hgroup
  exact List.mem_zipIdx_iff_getElem?.1 (mem_of_mem_group hgroup (cheapest_mem group)).1

/-- No component has two places kept. -/
theorem pairwise_chosen (hsym : ∀ s t, services.cosine s t = services.cosine t s) :
    (chosen services title price items).Pairwise fun c c' =>
      ¬ Connected services title items c c' := by
  have hnodup := nodup_cheapest_keys
    (fun entry : α × ℕ => rootAt services title items entry.2) (fun entry => price entry.1)
    items.zipIdx
  rw [chosen, List.pairwise_map]
  apply (List.pairwise_map.1 hnodup).imp
  intro entry entry' hroots hconnected
  exact hroots ((rootAt_eq_iff hsym _ _).2 hconnected)

/-- Every root has a place kept, which holds the first cheapest object of the root. -/
theorem exists_chosen_root (services : Services) (title : α → String) (price : α → ℚ) {i : ℕ}
    (hi : i < items.length) :
    ∃ c ∈ chosen services title price items,
      rootAt services title items c = rootAt services title items i ∧
      ∀ j p q, rootAt services title items j = rootAt services title items c →
        items[c]? = some p → items[j]? = some q →
          price p < price q ∨ price p = price q ∧ c ≤ j := by
  have hentry : (items[i], i) ∈ items.zipIdx :=
    List.mem_zipIdx_iff_getElem?.2 (List.getElem?_eq_getElem hi)
  obtain ⟨group, hgroup, hkey⟩ :=
    exists_group (fun entry : α × ℕ => rootAt services title items entry.2) hentry
  set best := cheapest (fun entry : α × ℕ => price entry.1) group
  have hroot : rootAt services title items best.2 = rootAt services title items group.1.2 :=
    key_cheapest (fun entry : α × ℕ => price entry.1) hgroup
  refine ⟨best.2, List.mem_map_of_mem (List.mem_map_of_mem hgroup), hroot.trans hkey, ?_⟩
  intro j p q hsame hp hq
  have hbestMem : best ∈ group.1 :: group.2 := cheapest_mem group
  obtain ⟨hbestItem, -⟩ := mem_of_mem_group hgroup hbestMem
  obtain rfl := Option.some.inj ((List.mem_zipIdx_iff_getElem?.1 hbestItem).symm.trans hp)
  have hmembers := members_eq hgroup
  have hmember : (q, j) ∈ group.1 :: group.2 := by
    rw [hmembers]
    exact List.mem_filter.2 ⟨List.mem_zipIdx_iff_getElem?.2 hq,
      decide_eq_true (hsame.trans hroot)⟩
  have hsorted : (group.1 :: group.2).Pairwise fun e e' => e.2 < e'.2 := by
    rw [hmembers]
    exact (pairwise_zipIdx items).sublist List.filter_sublist
  rcases cheapest_lt_or_first (fun entry : α × ℕ => price entry.1) hsorted hmember with
    hlt | ⟨hprice, heq | hplace⟩
  · exact Or.inl hlt
  · exact Or.inr ⟨hprice, (congrArg Prod.snd heq).le⟩
  · exact Or.inr ⟨hprice, hplace.le⟩

/-- Every component has a place kept, which holds its first cheapest object. -/
theorem exists_chosen (price : α → ℚ) (hsym : ∀ s t, services.cosine s t = services.cosine t s)
    {i : ℕ} (hi : i < items.length) :
    ∃ c ∈ chosen services title price items, Connected services title items c i ∧
      FirstCheapest services title price items c := by
  obtain ⟨c, hc, hroot, hfirst⟩ := exists_chosen_root services title price hi
  refine ⟨c, hc, connected_of_rootAt_eq hroot, ?_⟩
  intro j p q hconnected hp hq
  exact hfirst j p q ((rootAt_eq_iff hsym _ _).2 hconnected).symm hp hq

/-- The object at a place kept. -/
theorem exists_survivor {c : ℕ} (hc : c ∈ chosen services title price items) :
    ∃ p ∈ survivors services title price items, items[c]? = some p := by
  have hkept : items[c]? ∈ (survivors services title price items).map some := by
    rw [← getElem?_chosen]
    exact List.mem_map_of_mem hc
  obtain ⟨p, hp, heq⟩ := List.mem_map.1 hkept
  exact ⟨p, hp, heq.symm⟩

/-- No place is kept twice. -/
theorem survivors_subperm (services : Services) (title : α → String) (price : α → ℚ)
    (items : List α) : (survivors services title price items).Subperm items := by
  set entries := (groupsBy (fun entry : α × ℕ => rootAt services title items entry.2)
    items.zipIdx).map (cheapest fun entry => price entry.1) with hentries
  have hnodup : entries.Nodup :=
    (nodup_cheapest_keys (fun entry : α × ℕ => rootAt services title items entry.2) _ _).of_map _
  have hsubset : entries ⊆ items.zipIdx := by
    intro entry hentry
    obtain ⟨group, hgroup, rfl⟩ := List.mem_map.1 hentry
    exact (mem_of_mem_group hgroup (cheapest_mem group)).1
  obtain ⟨l, hperm, hsublist⟩ := List.subperm_of_subset hnodup hsubset
  have hitems := hsublist.map Prod.fst
  rw [List.zipIdx_map_fst] at hitems
  exact ⟨l.map Prod.fst, hperm.map Prod.fst, hitems⟩

/-- What is kept of images is the images of what is kept. -/
theorem survivors_map {β : Type*} (f : β → α) (l : List β) :
    survivors services title price (l.map f) =
      (survivors services (fun x => title (f x)) (fun x => price (f x)) l).map f := by
  have hsame : sameAt services title (l.map f) = sameAt services (fun x => title (f x)) l := by
    funext place
    unfold sameAt
    rw [List.getElem?_map, List.getElem?_map]
    cases l[place.1]? with
    | none => rfl
    | some p => cases l[place.2]? with
      | none => rfl
      | some q => rfl
  have hroot : rootAt services title (l.map f) = rootAt services (fun x => title (f x)) l := by
    rw [rootAt, rootAt, hsame, List.length_map]
  rw [survivors, survivors, hroot, List.zipIdx_map, groupsBy_map]
  simp only [List.map_map]
  apply List.map_congr_left
  intro group _
  have hcheapest := cheapest_map (fun entry : α × ℕ => price entry.1) (Prod.map f id) group
  simp only [Function.comp_apply, hcheapest, Prod.map_fst]

/-! ## The order of the list -/

/-- Two objects of a list with tags are the same product. -/
def LinkedIn (services : Services) (title : α → String) (tagged : List (α × ℕ))
    (x y : α × ℕ) : Prop :=
  x ∈ tagged ∧ y ∈ tagged ∧ sameProduct services (title x.1) (title y.1) = true

/-- The tags of a list follow its order. -/
theorem exists_perm_of_map {β : Type*} {f : β → α} {l l' : List α} (h : l.Perm l') {tagged : List β}
    (htagged : tagged.map f = l) : ∃ tagged', tagged.Perm tagged' ∧ tagged'.map f = l' := by
  induction h generalizing tagged with
  | nil => exact ⟨tagged, .refl _, htagged⟩
  | cons x _ ih =>
      obtain ⟨y, rest, rfl, rfl, hrest⟩ := List.map_eq_cons_iff.1 htagged
      obtain ⟨rest', hperm, hmap⟩ := ih hrest
      exact ⟨y :: rest', hperm.cons y, by rw [List.map_cons, hmap]⟩
  | swap x y _ =>
      obtain ⟨a, rest, rfl, rfl, hrest⟩ := List.map_eq_cons_iff.1 htagged
      obtain ⟨b, rest, rfl, rfl, rfl⟩ := List.map_eq_cons_iff.1 hrest
      exact ⟨b :: a :: rest, .swap .., rfl⟩
  | trans _ _ ih ih' =>
      obtain ⟨middle, hperm, hmiddle⟩ := ih htagged
      obtain ⟨tagged', hperm', hmap⟩ := ih' hmiddle
      exact ⟨tagged', hperm.trans hperm', hmap⟩

/-- The place of each object with a tag. -/
theorem exists_places {tagged : List (α × ℕ)} (h : tagged.Nodup) :
    ∃ place : α × ℕ → ℕ, (tagged.map Prod.fst).zipIdx =
        tagged.map (fun entry => (entry.1, place entry)) ∧
      ∀ entry ∈ tagged, tagged[place entry]? = some entry := by
  classical
  refine ⟨fun entry => tagged.idxOf entry, ?_, fun entry hentry => List.getElem?_idxOf hentry⟩
  apply List.ext_getElem
  · simp
  · intro i hi hi'
    simp [h.idxOf_getElem]

/-- The components of images are those of the originals. -/
theorem connected_map {β : Type*} {f : β → α} {l : List β} {i j : ℕ} :
    Connected services title (l.map f) i j ↔ Connected services (fun x => title (f x)) l i j := by
  have hlinked : LinkedAt services title (l.map f) =
      LinkedAt services (fun x => title (f x)) l := by
    funext i j
    simp only [LinkedAt, List.getElem?_map, Option.map_eq_some_iff, eq_iff_iff]
    constructor
    · rintro ⟨_, _, ⟨x, hx, rfl⟩, ⟨y, hy, rfl⟩, hsame⟩
      exact ⟨x, y, hx, hy, hsame⟩
    · rintro ⟨x, y, hx, hy, hsame⟩
      exact ⟨_, _, ⟨x, hx, rfl⟩, ⟨y, hy, rfl⟩, hsame⟩
  rw [Connected, Connected, hlinked]

/-- A component is a chain of objects, wherever they stand. -/
theorem connected_iff_linkedIn (services : Services) (title : α → String)
    {tagged : List (α × ℕ)} {place : α × ℕ → ℕ}
    (hplace : ∀ entry ∈ tagged, tagged[place entry]? = some entry) {x y : α × ℕ}
    (hx : x ∈ tagged) (hy : y ∈ tagged) :
    Connected services title (tagged.map Prod.fst) (place x) (place y) ↔
      Relation.EqvGen (LinkedIn services title tagged) x y := by
  rw [connected_map]
  constructor
  · intro h
    exact eqvGen_of_connected (fun p hp q hq hsame => ⟨hp, hq, hsame⟩) h (hplace x hx)
      (hplace y hy)
  · intro h
    clear hx hy
    induction h with
    | rel x y hxy =>
        obtain ⟨hx, hy, hsame⟩ := hxy
        exact .rel _ _ ⟨x, y, hplace x hx, hplace y hy, hsame⟩
    | refl => exact .refl _
    | symm _ _ _ ih => exact .symm _ _ ih
    | trans _ _ _ _ _ ih ih' => exact .trans _ _ _ ih ih'

/-- The prices kept, of a list whose objects have places. -/
theorem prices_survivors (services : Services) (title : α → String) (price : α → ℚ)
    {tagged : List (α × ℕ)} {place : α × ℕ → ℕ}
    (hplaces : (tagged.map Prod.fst).zipIdx = tagged.map fun entry => (entry.1, place entry)) :
    (survivors services title price (tagged.map Prod.fst)).map price =
      (groupsBy (fun entry => rootAt services title (tagged.map Prod.fst) (place entry))
        tagged).map fun group => price (cheapest (fun entry => price entry.1) group).1 := by
  rw [survivors, hplaces, groupsBy_map, List.map_map, List.map_map, List.map_map]
  apply List.map_congr_left
  intro group _
  have hcheapest := cheapest_map (fun entry : α × ℕ => price entry.1)
    (fun entry => (entry.1, place entry)) group
  simp only [Function.comp_apply, hcheapest]

/-- Another order of the list keeps the same prices. -/
theorem perm_prices_survivors (hsym : ∀ s t, services.cosine s t = services.cosine t s)
    {items' : List α} (hperm : items.Perm items') :
    ((survivors services title price items).map price).Perm
      ((survivors services title price items').map price) := by
  have hnodup : items.zipIdx.Nodup :=
    (pairwise_zipIdx items).imp fun hlt heq => hlt.ne (congrArg Prod.snd heq)
  obtain ⟨tagged, htagged, rfl⟩ := exists_perm_of_map hperm (List.zipIdx_map_fst 0 items)
  obtain ⟨place, hzip, hplace⟩ := exists_places hnodup
  obtain ⟨place', hzip', hplace'⟩ := exists_places (htagged.nodup_iff.1 hnodup)
  have hitems := prices_survivors services title price hzip
  rw [prices_survivors services title price hzip']
  rw [List.zipIdx_map_fst] at hitems
  rw [hitems]
  apply perm_cheapest_costs (fun entry : α × ℕ => price entry.1) htagged
  intro x hx y hy
  have hlinked : LinkedIn services title items.zipIdx = LinkedIn services title tagged := by
    funext u v
    rw [LinkedIn, LinkedIn, htagged.mem_iff, htagged.mem_iff]
  have hplaces := connected_iff_linkedIn services title hplace hx hy
  rw [List.zipIdx_map_fst] at hplaces
  rw [rootAt_eq_iff hsym, rootAt_eq_iff hsym, hplaces, hlinked,
    connected_iff_linkedIn services title hplace' (htagged.subset hx) (htagged.subset hy)]

/-- The rows of the pipeline are deduplicated by this function. -/
theorem dedupItems_listings (services : Services) {fuel : ℕ} {rows : List Listing}
    (hfuel : (places rows.length).length < fuel) :
    dedupItems services (fun p : Listing => p.title) (fun p : Listing => p.price) fuel rows =
      some ((dedupByEmbedding services rows).1, rows) := by
  rw [dedupItems_eq hfuel]
  unfold dedupByEmbedding
  split_ifs with hempty
  · rw [hempty]
    simp [survivors]
  · have hcheapest : cheapestOf = cheapestIn fun p : Listing => p.price := by
      funext members
      cases members with
      | nil => rfl
      | cons p rest => rfl
    have hroot : rootAt services (fun p : Listing => p.title) rows =
        (unitedForest services rows).root := by
      have hsame : sameAt services (fun p : Listing => p.title) rows = samePlace services rows := by
        funext place
        unfold sameAt samePlace
        cases rows[place.1]? with
        | none => rfl
        | some p => cases rows[place.2]? with
          | none => rfl
          | some q => rfl
      rw [rootAt, hsame, unitedForest]
    simp only [clusterLoop_eq, hcheapest, values_clusters, survivors, hroot]

/-- **Deduplication computes components.** With enough fuel the loops end, and the argument is
unchanged. What is kept stands at places that meet every component of `same_product` once,
each the first cheapest of its component; a component has one leading token and one set of
model tokens; and another order of the list keeps the same prices. -/
theorem dedup_components (services : Services) (title : α → String) (price : α → ℚ)
    (hsym : ∀ s t, services.cosine s t = services.cosine t s) (items : List α) :
    ∃ kept,
      (∀ fuel, (places items.length).length < fuel →
        dedupItems services title price fuel items = some (kept, items)) ∧
      (∃ indices : List ℕ, indices.map (fun c => items[c]?) = kept.map some ∧
        indices.Pairwise (fun c c' => ¬ Connected services title items c c') ∧
        ∀ i < items.length, ∃ c ∈ indices, Connected services title items c i ∧
          FirstCheapest services title price items c) ∧
      (∀ i j p q, Connected services title items i j → items[i]? = some p → items[j]? = some q →
        firstToken services (title p) = firstToken services (title q) ∧
          modelTokens services (title p) = modelTokens services (title q)) ∧
      ∀ items', items.Perm items' → ∃ kept',
        (∀ fuel, (places items'.length).length < fuel →
          dedupItems services title price fuel items' = some (kept', items')) ∧
        (kept.map price).Perm (kept'.map price) := by
  refine ⟨survivors services title price items, fun fuel hfuel => dedupItems_eq hfuel, ?_, ?_, ?_⟩
  · exact ⟨chosen services title price items, getElem?_chosen, pairwise_chosen hsym,
      fun i hi => exists_chosen price hsym hi⟩
  · exact fun i j p q hconnected hp hq => tokens_of_connected hconnected hp hq
  · intro items' hperm
    exact ⟨survivors services title price items', fun fuel hfuel => dedupItems_eq hfuel,
      perm_prices_survivors hsym hperm⟩

/-- Two offers of one product and one of another, as titles with prices. -/
def threeOffers : List (String × ℚ) := [("sony x1", 20), ("bose q2", 30), ("sony x1", 10)]

theorem plainServices_cosine_comm (s t : String) :
    plainServices.cosine s t = plainServices.cosine t s := by
  simp only [plainServices, eq_comm]

theorem dedupItems_threeOffers : dedupItems plainServices Prod.fst Prod.snd 4 threeOffers =
    some ([("sony x1", 10), ("bose q2", 30)], threeOffers) := by decide +kernel

theorem dedup_components_three : ∃ kept,
    dedupItems plainServices Prod.fst Prod.snd 4 threeOffers = some (kept, threeOffers) ∧
      kept = [("sony x1", 10), ("bose q2", 30)] := by
  obtain ⟨kept, hrun, -⟩ := dedup_components plainServices Prod.fst Prod.snd
    plainServices_cosine_comm threeOffers
  have hrun := hrun 4 (by decide)
  refine ⟨kept, hrun, ?_⟩
  rw [dedupItems_threeOffers] at hrun
  exact (congrArg Prod.fst (Option.some.inj hrun)).symm

end Kept

/-! ## Chains -/

section Chains

/-- The cosine that two titles with these model tokens must reach. -/
def threshold (services : Services) (t : String) : ℚ :=
  if modelTokens services t = ∅ then noModelThreshold else simThreshold

/-- Two places hold titles with one leading token, equal model tokens and a cosine of at least
`least`. -/
def CloseAt (services : Services) (title : α → String) (items : List α) (least : ℚ) (i j : ℕ) :
    Prop :=
  ∃ p q, items[i]? = some p ∧ items[j]? = some q ∧
    firstToken services (title p) = firstToken services (title q) ∧
    modelTokens services (title p) = modelTokens services (title q) ∧
    least ≤ services.cosine (title p) (title q)

variable {services : Services} {title : α → String} {price : α → ℚ} {items : List α}

/-- `same_product` says which titles are close. -/
theorem sameProduct_iff {s t : String} :
    sameProduct services s t = true ↔ firstToken services s = firstToken services t ∧
      modelTokens services s = modelTokens services t ∧
      threshold services t ≤ services.cosine s t := by
  unfold sameProduct threshold
  by_cases hfirst : firstToken services s = firstToken services t
  · by_cases hmodels : modelTokens services s = modelTokens services t
    · by_cases hnone : modelTokens services t = ∅
      · simp [hfirst, hmodels, hnone]
      · simp [hfirst, hmodels, hnone]
    · have hsome : ¬ (modelTokens services s = ∅ ∧ modelTokens services t = ∅) :=
        fun hnone => hmodels (hnone.1.trans hnone.2.symm)
      simp [hfirst, hmodels, hsome]
  · simp [hfirst]

/-- A component is a chain of links. -/
theorem connected_eq_chain (hsym : ∀ s t, services.cosine s t = services.cosine t s) :
    Connected services title items = Relation.ReflTransGen (LinkedAt services title items) := by
  have hsymm : Std.Symm (LinkedAt services title items) := by
    refine ⟨?_⟩
    rintro i j ⟨p, q, hp, hq, hsame⟩
    exact ⟨q, p, hq, hp, (sameProduct_comm hsym _ _).trans hsame⟩
  funext i j
  rw [Connected, Relation.EqvGen.eqvGen_eq_reflTransGen]

/-- The links to a place are as close as its title demands. -/
theorem chain_of_connected (hsym : ∀ s t, services.cosine s t = services.cosine t s) {c i : ℕ}
    (h : Connected services title items c i) {q : α} (hq : items[i]? = some q) :
    Relation.ReflTransGen (CloseAt services title items (threshold services (title q))) c i := by
  rw [connected_eq_chain hsym] at h
  induction h using Relation.ReflTransGen.head_induction_on with
  | refl => exact .refl
  | head huv hvi ih =>
      have hconnected := Relation.ReflTransGen.head huv hvi
      rw [← connected_eq_chain hsym] at hconnected
      obtain ⟨p, r, hp, hr, hsame⟩ := huv
      obtain ⟨hfirst, hmodels, hcosine⟩ := sameProduct_iff.1 hsame
      have htokens := (tokens_of_connected hconnected hp hq).2
      refine .head ⟨p, r, hp, hr, hfirst, hmodels, ?_⟩ ih
      rwa [threshold, ← htokens, hmodels, ← threshold]

/-- **A dropped offer is a chain away from the one shown in its place.** The survivor costs no
more, has the same leading token and model tokens, and is joined to it by links between such
titles whose cosines reach the threshold. -/
theorem dropped_joined (services : Services) (title : α → String) (price : α → ℚ)
    (hsym : ∀ s t, services.cosine s t = services.cosine t s) (items : List α) :
    ∃ (kept : List α) (indices : List ℕ),
      (∀ fuel, (places items.length).length < fuel →
        dedupItems services title price fuel items = some (kept, items)) ∧
      indices.map (fun c => items[c]?) = kept.map some ∧
      ∀ i q, i ∉ indices → items[i]? = some q → ∃ c ∈ indices, ∃ p, items[c]? = some p ∧
        price p ≤ price q ∧
        firstToken services (title p) = firstToken services (title q) ∧
        modelTokens services (title p) = modelTokens services (title q) ∧
        Relation.ReflTransGen
          (CloseAt services title items (threshold services (title q))) c i := by
  refine ⟨survivors services title price items, chosen services title price items,
    fun fuel hfuel => dedupItems_eq hfuel, getElem?_chosen, ?_⟩
  intro i q _ hq
  obtain ⟨c, hc, hconnected, hfirst⟩ :=
    exists_chosen price hsym (List.getElem?_eq_some_iff.1 hq).1
  obtain ⟨p, -, hp⟩ := exists_survivor hc
  obtain ⟨htoken, hmodels⟩ := tokens_of_connected hconnected hp hq
  refine ⟨c, hc, p, hp, ?_, htoken, hmodels, chain_of_connected hsym hconnected hq⟩
  rcases hfirst i p q hconnected hp hq with hlt | ⟨heq, -⟩
  · exact hlt.le
  · exact heq.le

/-- The dearer of two equal titles is joined to the cheaper one. -/
theorem dropped_joined_three : ∃ (c : ℕ) (p : String × ℚ), threeOffers[c]? = some p ∧ p.2 ≤ 20 ∧
    Relation.ReflTransGen (CloseAt plainServices Prod.fst threeOffers
      (threshold plainServices "sony x1")) c 0 := by
  obtain ⟨kept, indices, hrun, hindices, hdropped⟩ :=
    dropped_joined plainServices Prod.fst Prod.snd plainServices_cosine_comm threeOffers
  have hkept := congrArg Prod.fst (Option.some.inj ((hrun 4 (by decide)).symm.trans
    dedupItems_threeOffers))
  subst hkept
  have hzero : 0 ∉ indices := by
    intro hmem
    have hplace := List.mem_map_of_mem (f := fun c => threeOffers[c]?) hmem
    rw [hindices] at hplace
    revert hplace
    decide +kernel
  obtain ⟨c, -, p, hp, hprice, -, -, hchain⟩ := hdropped 0 ("sony x1", 20) hzero rfl
  exact ⟨c, p, hp, hprice, hchain⟩

/-- Titles of which the first and the last are close to the middle one only. -/
def chainServices : Services where
  __ := plainServices
  cosine := fun s t =>
    if s = t then 1
    else if s = "sony x1 a" ∧ t = "sony x1 c" ∨ s = "sony x1 c" ∧ t = "sony x1 a" then 7 / 10
    else 23 / 25

/-- Three offers, the cheapest first. -/
def chainOffers : List (String × ℚ) := [("sony x1 a", 10), ("sony x1 b", 20), ("sony x1 c", 30)]

/-- The last of a chain is dropped for the first, which is not the same product. -/
theorem dropped_for_another : (∀ s t, chainServices.cosine s t = chainServices.cosine t s) ∧
    dedupItems chainServices Prod.fst Prod.snd 4 chainOffers =
      some ([("sony x1 a", 10)], chainOffers) ∧
    sameProduct chainServices "sony x1 a" "sony x1 c" = false := by
  refine ⟨?_, by decide +kernel, by decide +kernel⟩
  intro s t
  have hpair : (s = "sony x1 a" ∧ t = "sony x1 c" ∨ s = "sony x1 c" ∧ t = "sony x1 a") ↔
      (t = "sony x1 a" ∧ s = "sony x1 c" ∨ t = "sony x1 c" ∧ s = "sony x1 a") := by
    tauto
  simp only [chainServices, eq_comm (a := s) (b := t), hpair]

end Chains

end DealFinder.Shop
