/-
# The catalog

`ingest` keeps the cheapest product of each brand and title, and `save` stores what it
keeps under the id that a source gave it. Two products that the one keeps apart may share
an id, and then the other replaces the first with the second; and a price that is no
number is neither compared nor stored (`kept_iff`).
-/

import DealFinder.Math.FirstLeast
import DealFinder.Math.Lru
import DealFinder.Pipeline.Catalog

namespace DealFinder.Pipeline

open DealFinder.Math DealFinder.Feeds

section Ingest

variable (runtime : Runtime)

/-- `dedup_key`. -/
def dedupKey (p : CatalogProduct) : String :=
  runtime.lower (strip (p.brand.getD "")) ++ "|" ++ runtime.lower (strip p.title)

/-- The body of the loops of `ingest`. -/
def ingestStep (best : Dict String CatalogProduct) (p : CatalogProduct) :
    Dict String CatalogProduct :=
  let k := dedupKey runtime p
  if k ∉ best ∨ (best.get? k).any (fun q => p.price.less q.price) = true then best.set k p
  else best

/-- `ingest`, of the products that each source yields. -/
def ingest (sources : List (List CatalogProduct)) : List CatalogProduct :=
  (sources.foldl (fun best src => src.foldl (ingestStep runtime) best) Dict.empty).values

/-- `save`: the number of rows written, and the table by id. A row that replaces one is a new
row, behind the others. -/
def save (products : List CatalogProduct) (table : Dict String Json) : ℕ × Dict String Json :=
  (products.length, products.foldl (fun table p => table.put p.id (dump p)) table)

/-- `load`. -/
def load (table : Dict String Json) : Option (List CatalogProduct) :=
  table.values.mapM (validate runtime)

/-! ## What should be kept -/

/-- A product of a lower price. -/
def cheaper (p q : CatalogProduct) : Bool := p.price.less q.price

/-- A product of a price that is no higher. -/
def noDearer (p q : CatalogProduct) : Bool := p.price.atMost q.price

/-- The first of the cheapest products of its key. -/
def Cheapest (sources : List (List CatalogProduct)) (p : CatalogProduct) : Prop :=
  FirstLeast (dedupKey runtime) cheaper noDearer sources.flatten p

/-- The list that `ingest` returns: one product for each key, the first of the cheapest. -/
structure OnePerKey (sources : List (List CatalogProduct)) (products : List CatalogProduct) :
    Prop where
  different : (products.map (dedupKey runtime)).Nodup
  covered : ∀ p ∈ sources.flatten, ∃ q ∈ products, dedupKey runtime q = dedupKey runtime p
  cheapest : ∀ p ∈ products, Cheapest runtime sources p

/-- What is loaded after a save into a fresh table is what `ingest` returned. -/
def Kept (sources : List (List CatalogProduct)) : Prop :=
  OnePerKey runtime sources (ingest runtime sources) ∧
    ∃ loaded, load runtime (save (ingest runtime sources) Dict.empty).2 = some loaded ∧
      loaded.Perm (ingest runtime sources)

/-- The floats of a product are numbers. -/
structure FiniteFloats (p : CatalogProduct) : Prop where
  price : isFinite p.price = true
  regularPrice : ∀ x, p.regularPrice = some x → isFinite x = true
  history : ∀ point ∈ p.priceHistory, isFinite point.price = true

/-- No price is a NaN, and the cheapest products have numbers for their floats, and different
ids where they have different keys. -/
structure Storable (sources : List (List CatalogProduct)) : Prop where
  comparable : ∀ p ∈ sources.flatten, p.price ≠ .nan
  finite : ∀ p, Cheapest runtime sources p → FiniteFloats p
  ids : ∀ p q, Cheapest runtime sources p → Cheapest runtime sources q → p.id = q.id →
    dedupKey runtime p = dedupKey runtime q

end Ingest

section Stored

variable {runtime : Runtime}

/-! ## Comparing prices -/

theorem cheaper_of_noDearer (p q r : CatalogProduct) (h : cheaper p q = true)
    (hle : noDearer q r = true) : cheaper p r = true := by
  unfold noDearer Double.atMost at hle
  unfold cheaper at h ⊢
  rw [Bool.and_eq_true, Bool.and_eq_true] at hle
  obtain ⟨⟨-, hr⟩, hnot⟩ := hle
  generalize p.price = x at *
  generalize q.price = y at *
  generalize r.price = z at *
  cases x <;> cases y <;> cases z <;> simp_all [Double.less]
  linarith

theorem noDearer_of_cheaper (p q : CatalogProduct) (h : cheaper p q = true) :
    noDearer p q = true := by
  unfold noDearer Double.atMost
  unfold cheaper at h
  generalize p.price = x at *
  generalize q.price = y at *
  cases x <;> cases y <;> simp_all [Double.less]
  linarith

theorem noDearer_of_not_cheaper {p q : CatalogProduct} (hp : p.price ≠ .nan) (hq : q.price ≠ .nan)
    (h : cheaper p q = false) : noDearer q p = true := by
  have hless : p.price.less q.price = false := h
  simp [noDearer, Double.atMost, hp, hq, hless]

theorem not_noDearer_of_cheaper (p q : CatalogProduct) (h : cheaper p q = true)
    (hle : noDearer q p = true) : False := by
  have hless : p.price.less q.price = true := h
  simp [noDearer, Double.atMost, hless] at hle

/-! ## What is kept -/

theorem ingest_eq (sources : List (List CatalogProduct)) :
    ingest runtime sources =
      (keepFirst (dedupKey runtime) cheaper sources.flatten).values := by
  unfold ingest keepFirst
  rw [List.foldl_flatten]
  rfl

/-- A product is returned under its key. -/
theorem mem_ingest_iff {sources : List (List CatalogProduct)} {p : CatalogProduct} :
    p ∈ ingest runtime sources ↔
      (keepFirst (dedupKey runtime) cheaper sources.flatten).get?
        (dedupKey runtime p) = some p := by
  rw [ingest_eq, Dict.mem_values_iff]
  constructor
  · intro ⟨k, hk⟩
    rw [key_of_keepFirst hk]
    exact hk
  · exact fun h => ⟨_, h⟩

theorem ingest_keys (sources : List (List CatalogProduct)) :
    (ingest runtime sources).map (dedupKey runtime) =
      (keepFirst (dedupKey runtime) cheaper sources.flatten).keys := by
  rw [ingest_eq, Dict.values, Dict.keys, List.map_map]
  apply List.map_congr_left
  intro entry hentry
  have hget := Dict.get?_eq_some_iff.2 (show (entry.1, entry.2) ∈ _ from hentry)
  have hkey := key_of_keepFirst hget
  exact hkey

/-- With prices that compare, one product is returned for each key, the first of the
cheapest. -/
theorem onePerKey_of_comparable {sources : List (List CatalogProduct)}
    (h : ∀ p ∈ sources.flatten, p.price ≠ .nan) :
    OnePerKey runtime sources (ingest runtime sources) where
  different := by
    rw [ingest_keys]
    exact Dict.nodup_keys _
  covered p hp := by
    have hin : dedupKey runtime p ∈ (ingest runtime sources).map (dedupKey runtime) := by
      rw [ingest_keys, ← Dict.mem_def, mem_keepFirst]
      exact ⟨p, hp, rfl⟩
    exact List.mem_map.1 hin
  cheapest p hp :=
    firstLeast_of_keepFirst cheaper_of_noDearer noDearer_of_cheaper
      (fun x hx y hy => noDearer_of_not_cheaper (h x hx) (h y hy)) (mem_ingest_iff.1 hp)

/-- The cheapest products are those that were returned. -/
theorem mem_of_cheapest {sources : List (List CatalogProduct)} {products : List CatalogProduct}
    (h : OnePerKey runtime sources products) {p : CatalogProduct}
    (hp : Cheapest runtime sources p) : p ∈ products := by
  obtain ⟨q, hq, hkey⟩ := h.covered p hp.mem
  have hsame := FirstLeast.unique not_noDearer_of_cheaper (h.cheapest q hq) hp hkey
  exact hsame ▸ hq

/-! ## What is stored -/

theorem save_eq (products : List CatalogProduct) :
    (save products Dict.empty).2 = Dict.ofPuts (products.map fun p => (p.id, dump p)) := by
  rw [Dict.ofPuts, List.foldl_map]
  rfl

/-- What is read of a row. -/
def reread (p : CatalogProduct) : CatalogProduct :=
  { p with regularPrice := p.regularPrice.filter isFinite }

theorem validate_dump_eq_some {p q : CatalogProduct} (h : validate runtime (dump p) = some q) :
    isFinite p.price = true ∧ (∀ point ∈ p.priceHistory, isFinite point.price = true) ∧
      q = reread p := by
  rw [validate_dump] at h
  split_ifs at h with hfinite
  obtain ⟨hprice, hhistory⟩ := Bool.and_eq_true_iff.1 hfinite
  exact ⟨hprice, List.all_eq_true.1 hhistory, (Option.some_inj.1 h).symm⟩

theorem validate_dump_of_finite {p : CatalogProduct} (h : FiniteFloats p) :
    validate runtime (dump p) = some p := by
  have hhistory : p.priceHistory.all (fun point => isFinite point.price) = true :=
    List.all_eq_true.2 h.history
  have hregular : p.regularPrice.filter isFinite = p.regularPrice := by
    cases hx : p.regularPrice with
    | none => rfl
    | some x => rw [Option.filter_some, if_pos (h.regularPrice x hx)]
  rw [validate_dump, h.price, hhistory, Bool.and_self, if_pos rfl, hregular]

/-- Products of different ids with numbers for their floats are loaded as they were saved. -/
theorem load_save {products : List CatalogProduct} (hids : (products.map fun p => p.id).Nodup)
    (hfinite : ∀ p ∈ products, FiniteFloats p) :
    load runtime (save products Dict.empty).2 = some products := by
  have hkeys : ((products.map fun p => (p.id, dump p)).map Prod.fst).Nodup := by
    rwa [List.map_map]
  have hread : ∀ l : List CatalogProduct, (∀ p ∈ l, FiniteFloats p) →
      (l.map dump).mapM (validate runtime) = some l := by
    intro l hl
    rw [mapM_map fun p hp => validate_dump_of_finite (hl p hp), List.map_id']
  rw [load, save_eq, Dict.values, Dict.entries_ofPuts hkeys, List.map_map]
  exact hread products hfinite

/-- A load that returns as many products has lost none to an id, and read every one. -/
theorem of_load_save {products loaded : List CatalogProduct}
    (h : load runtime (save products Dict.empty).2 = some loaded)
    (hlength : loaded.length = products.length) :
    (products.map fun p => p.id).Nodup ∧
      ∀ p ∈ products, ∃ q ∈ loaded, validate runtime (dump p) = some q := by
  rw [load, save_eq] at h
  have hsize : (Dict.ofPuts (products.map fun p => (p.id, dump p))).size =
      (products.map fun p => (p.id, dump p)).length := by
    rw [List.length_map, ← hlength, length_of_mapM h, Dict.values, List.length_map]
    rfl
  have hkeys := Dict.nodup_of_size_ofPuts hsize
  rw [Dict.values, Dict.entries_ofPuts hkeys, List.map_map] at h
  rw [List.map_map] at hkeys
  exact ⟨hkeys, fun p hp => read_of_mapM h (List.mem_map_of_mem hp)⟩

/-- A NaN is never the cheapest, nor beside a cheapest that is a number. -/
theorem comparable_of_onePerKey {sources : List (List CatalogProduct)}
    (hone : OnePerKey runtime sources (ingest runtime sources))
    (hfinite : ∀ p ∈ ingest runtime sources, FiniteFloats p) :
    ∀ p ∈ sources.flatten, p.price ≠ .nan := by
  intro p hp hnan
  obtain ⟨q, hq, hkey⟩ := hone.covered p hp
  obtain ⟨before, after, hsplit, hbefore, hafter⟩ := hone.cheapest q hq
  rw [hsplit] at hp
  rcases List.mem_append.1 hp with hp | hp
  · have hless : q.price.less p.price = true := hbefore p hp hkey.symm
    rw [hnan] at hless
    cases hprice : q.price <;> simp [hprice, Double.less] at hless
  · rcases List.mem_cons.1 hp with rfl | hp
    · have hprice := (hfinite p hq).price
      rw [hnan] at hprice
      cases hprice
    · have hmost : q.price.atMost p.price = true := hafter p hp hkey.symm
      rw [hnan] at hmost
      simp [Double.atMost] at hmost

/-- Nothing is lost between the sources and the load exactly if no price is a NaN, and the
cheapest products have numbers for their floats and do not share their ids. -/
theorem kept_iff (sources : List (List CatalogProduct)) :
    Kept runtime sources ↔ Storable runtime sources := by
  constructor
  · intro ⟨hone, loaded, hload, hperm⟩
    obtain ⟨hids, hread⟩ := of_load_save hload hperm.length_eq
    have hfinite : ∀ p ∈ ingest runtime sources, FiniteFloats p := by
      intro p hp
      obtain ⟨q, hq, hvalid⟩ := hread p hp
      obtain ⟨hprice, hhistory, rfl⟩ := validate_dump_eq_some hvalid
      -- Only the product itself has its id, so it was read back unchanged.
      have hsame : reread p = p :=
        List.inj_on_of_nodup_map hids (hperm.subset hq) hp rfl
      refine ⟨hprice, fun x hx => ?_, hhistory⟩
      have hregular : p.regularPrice.filter isFinite = some x := by
        rw [← hx]
        exact congrArg (fun p => p.regularPrice) hsame
      rw [hx, Option.filter_some] at hregular
      exact (Option.ite_none_right_eq_some.1 hregular).1
    have hcheapest : ∀ p, Cheapest runtime sources p → p ∈ ingest runtime sources :=
      fun p hp => mem_of_cheapest hone hp
    have hshared : ∀ p q, Cheapest runtime sources p → Cheapest runtime sources q →
        p.id = q.id → dedupKey runtime p = dedupKey runtime q := fun p q hp hq hid =>
      congrArg _ (List.inj_on_of_nodup_map hids (hcheapest p hp) (hcheapest q hq) hid)
    exact ⟨comparable_of_onePerKey hone hfinite, fun p hp => hfinite p (hcheapest p hp), hshared⟩
  · intro h
    have hone : OnePerKey runtime sources (ingest runtime sources) :=
      onePerKey_of_comparable h.comparable
    have hids : ((ingest runtime sources).map fun p => p.id).Nodup := by
      have hkeys := hone.different
      rw [List.nodup_map_iff_inj_on (List.Nodup.of_map _ hkeys)]
      intro p hp q hq hid
      exact List.inj_on_of_nodup_map hkeys hp hq
        (h.ids p q (hone.cheapest p hp) (hone.cheapest q hq) hid)
    exact ⟨hone, _, load_save hids fun p hp => h.finite p (hone.cheapest p hp), List.Perm.refl _⟩

end Stored

/-! ## Two products with one id -/

/-- A product of a source. -/
def product (id title source : String) (price : Double) : CatalogProduct where
  id := id
  title := title
  brand := none
  category := "audio"
  price := price
  url := ""
  source := source
  marketplace := none
  condition := "new"
  specs := Dict.empty
  priceHistory := []

/-- Two sources number their products alike, and the second replaces the first. -/
theorem same_id_lost :
    ¬ ∀ (runtime : Runtime) (sources : List (List CatalogProduct)), Kept runtime sources := by
  intro hall
  obtain ⟨-, loaded, hload, hperm⟩ := hall plainRuntime
    [[product "1" "Bose QC45" "dataset" (.finite 199)],
      [product "1" "Sony XM5" "api" (.finite 248)]]
  have hlengths : (load plainRuntime (save (ingest plainRuntime
      [[product "1" "Bose QC45" "dataset" (.finite 199)],
        [product "1" "Sony XM5" "api" (.finite 248)]]) Dict.empty).2).map List.length =
          some 1 := by
    decide +kernel
  have hkept : (ingest plainRuntime [[product "1" "Bose QC45" "dataset" (.finite 199)],
      [product "1" "Sony XM5" "api" (.finite 248)]]).length = 2 := by
    decide +kernel
  rw [hload, Option.map_some, Option.some_inj, hperm.length_eq, hkept] at hlengths
  cases hlengths

end DealFinder.Pipeline
