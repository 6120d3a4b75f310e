/-
# What is embedded

Titles reach the embedding model when rows are deduplicated, when peers are
compared and when offers are remembered. The last two ask the licence and the
mode; the first hands over every row the exact-key pass keeps, before anything is
asked. So a request embeds only what it may exactly when that pass keeps nothing,
or in live mode keeps only rows that may be embedded (`handedBy_permitted_iff`).
-/

import DealFinder.Shop.Search

namespace DealFinder.Shop

open DealFinder.Math

/-- All that was handed over may be embedded, and in check mode nothing was. -/
def Permitted (mode : Mode) (handed : List Handed) : Prop :=
  (∀ title ∈ handed, mayEmbed title.source = true) ∧ (mode = .check → handed = [])

/-- A row is the first of the cheapest rows of its exact key. -/
def LeadsKey (services : Services) (products : List Listing) (p : Listing) : Prop :=
  IsCheapest (fun q : Listing => q.price)
    (products.filter fun q => dedupKey services q.toProduct = dedupKey services p.toProduct) p

section Embedded

variable {services : Services}

/-- The exact-key pass keeps the rows that lead their key. -/
theorem mem_bestByKey_iff {products : List Listing} {p : Listing} :
    p ∈ bestByKey services products ↔ LeadsKey services products p := by
  rw [bestByKey_eq]
  constructor
  · intro h
    obtain ⟨group, hgroup, rfl⟩ := List.mem_map.1 h
    have hcheapest := isCheapest_cheapest (fun q : Listing => q.price) group
    rw [members_eq hgroup, ← key_cheapest (fun q : Listing => q.price) hgroup] at hcheapest
    exact hcheapest
  · intro h
    have hp : p ∈ products := (List.mem_filter.1 h.mem).1
    obtain ⟨group, hgroup, hkey⟩ :=
      exists_group (fun q : Listing => dedupKey services q.toProduct) hp
    have hcheapest := isCheapest_cheapest (fun q : Listing => q.price) group
    rw [members_eq hgroup, hkey] at hcheapest
    exact List.mem_map.2 ⟨group, hgroup, hcheapest.unique h⟩

/-- Fetched rows leave something to keep. -/
theorem bestByKey_eq_nil_iff {products : List Listing} :
    bestByKey services products = [] ↔ products = [] := by
  rw [bestByKey_eq]
  cases products with
  | nil => simp
  | cons p rest => simp [groupsBy_cons]

variable {mode : Mode}

theorem permitted_nil : Permitted mode [] := ⟨by simp, fun _ => rfl⟩

/-- Rows are permitted when there are none, or in live mode each may be embedded. -/
theorem permitted_rows_iff {rows : List Listing} :
    Permitted mode (rows.map fun p => p.handed) ↔
      rows = [] ∨ (mode = .live ∧ ∀ p ∈ rows, mayEmbed p.source = true) := by
  have htitles : (∀ title ∈ rows.map fun p => p.handed, mayEmbed title.source = true) ↔
      ∀ p ∈ rows, mayEmbed p.source = true := List.forall_mem_map
  cases mode with
  | live =>
      constructor
      · exact fun h => Or.inr ⟨rfl, htitles.1 h.1⟩
      · intro h
        rcases h with rfl | h
        · exact permitted_nil
        · exact ⟨htitles.2 h.2, fun hcheck => nomatch hcheck⟩
  | check =>
      constructor
      · exact fun h => Or.inl (List.map_eq_nil_iff.1 (h.2 rfl))
      · intro h
        rcases h with rfl | h
        · exact permitted_nil
        · exact nomatch h.1

/-- What the licence and the mode allow may be handed over besides. -/
theorem permitted_append_iff {handed more : List Handed}
    (hmore : ∀ title ∈ more, mode = .live ∧ mayEmbed title.source = true) :
    Permitted mode (handed ++ more) ↔ Permitted mode handed := by
  constructor
  · intro h
    constructor
    · exact fun title htitle => h.1 title (List.mem_append_left more htitle)
    · exact fun hcheck => (List.append_eq_nil_iff.1 (h.2 hcheck)).1
  · intro h
    constructor
    · intro title htitle
      rcases List.mem_append.1 htitle with hfirst | hsecond
      · exact h.1 title hfirst
      · exact (hmore title hsecond).2
    · intro hcheck
      have hnone : more = [] := List.eq_nil_iff_forall_not_mem.2 fun title htitle =>
        Mode.noConfusion ((hmore title htitle).1.symm.trans hcheck)
      rw [hnone, h.2 hcheck]
      rfl

/-- A request, with its background task, embeds only what the licence and the mode
allow exactly when it fetches no row, or runs in live mode and every row that leads
its exact key may be embedded. -/
theorem handedBy_permitted_iff (services : Services) (settings : Settings) (raw : Option String)
    (endpoint : Endpoint) (db : Bool) (now : String) (k : ℕ) (query : String)
    (sources : List Source) :
    Permitted (verdictMode raw)
        (handedBy services settings (verdictMode raw) endpoint db now k query sources) ↔
      (fetch services settings query sources).products = [] ∨
        (verdictMode raw = .live ∧
          ∀ p, LeadsKey services (fetch services settings query sources).products p →
            mayEmbed p.source = true) := by
  obtain ⟨more, hhanded, hmore⟩ :=
    handedBy_eq services settings (verdictMode raw) endpoint db now k query sources
  rw [hhanded, permitted_append_iff hmore, aggregate_handed, permitted_rows_iff,
    bestByKey_eq_nil_iff]
  simp only [mem_bestByKey_iff]

end Embedded

/-- In check mode Best Buy's row is embedded all the same, to be deduplicated. -/
theorem check_mode_embeds :
    ¬ ∀ (services : Services) (settings : Settings) (raw : Option String) (endpoint : Endpoint)
        (db : Bool) (now : String) (k : ℕ) (query : String) (sources : List Source),
      Permitted (verdictMode raw)
        (handedBy services settings (verdictMode raw) endpoint db now k query sources) := by
  intro hall
  have hpermitted := hall plainServices usual (some "check") .search true "now" 12 "q"
    [steady "BestBuy" [row "BestBuy" "tv" 100]]
  exact absurd (hpermitted.2 rfl) (by decide +kernel)

end DealFinder.Shop
