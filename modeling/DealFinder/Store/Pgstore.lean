/-
# The catalog

Offers of a tenant: inserted or refreshed as their licence allows, searched by the
distance of their embeddings, and counted.
-/

import DealFinder.Shop.Licensing
import DealFinder.Shop.Product
import DealFinder.Store.Database

namespace DealFinder.Store

open DealFinder.Math DealFinder.Shop

/-- `EMBED_DIM`. -/
def embedDim : ℕ := 384

/-- A product handed to `upsert`. A source that is missing is empty. -/
structure Row where
  id : String
  title : String
  brand : Option String
  source : String
  price : ℚ
  currency : Option String
  url : Option String
  imageUrl : Option String
  sku : Option String
  regularPrice : Option ℚ
  fetchedAt : Option ℚ
  deriving DecidableEq

/-- `_vec`: the numerals of an embedding, with six decimals. -/
def vec (embedding : List ℚ) : List ℚ := embedding.map (roundTo 6)

section Bodies

variable (postgres : Postgres)

/-- `%s::vector`. -/
def asVector (numerals : List ℚ) : Except Error (List ℚ) :=
  if numerals.length = 0 then .error (.dataError "vector must have at least 1 dimension")
  else if 16000 < numerals.length then
    .error (.dataError "vector cannot have more than 16000 dimensions")
  else .ok (numerals.map postgres.single)

/-- The value of a `vector(384)` column. -/
def asEmbedding (embedding : List ℚ) : Except Error (List ℚ) := do
  let vector ← asVector postgres (vec embedding)
  if vector.length = embedDim then pure vector
  else throw (.dataError
    ("expected 384 dimensions, not " ++ toString vector.length))

variable (settings : Settings) (tenant : String) (now : ℚ)

/-- The row that `upsert` proposes. An empty currency is none. -/
def offerOf (p : Row) (embedding : Option (List ℚ)) : Offer where
  title := p.title
  brand := p.brand
  source := p.source
  price := p.price
  currency := (p.currency.filter (· ≠ "")).getD "USD"
  url := p.url
  imageUrl := p.imageUrl
  embedding := embedding
  sku := p.sku
  regularPrice := p.regularPrice
  fetchedAt := p.fetchedAt.getD now

/-- `DO UPDATE SET` of an offer: everything, but an embedding only when there is one. -/
def Offer.refresh (old excluded : Offer) : Offer :=
  { excluded with embedding := excluded.embedding.or old.embedding }

/-- The embedding that the licence lets `upsert` store. -/
def storedEmbedding (p : Row) (emb : Option (List ℚ)) : Except Error (Option (List ℚ)) :=
  match if mayEmbed p.source then emb else none with
  | some embedding => (asEmbedding postgres embedding).map some
  | none => .ok none

/-- `INSERT INTO offers ... ON CONFLICT (tenant_id, id) DO UPDATE`. -/
def upsertOffer (p : Row) (emb : Option (List ℚ)) (db : Database) :
    Except Error (Unit × Database) := do
  let embedding ← storedEmbedding postgres p emb
  let (_, offers) ← orRowSecurity "offers"
    ((offersPolicy settings).upsert ⟨tenant, p.id⟩ (offerOf now p embedding)
      (fun old => old.refresh (offerOf now p embedding)) db.offers)
  pure ((), { db with offers })

variable {settings tenant} in
/-- An offer of the tenant is inserted or refreshed, unless its embedding is malformed. -/
theorem upsertOffer_eq {userId : String} (h : settings.Scopes tenant userId) (p : Row)
    (emb : Option (List ℚ)) (db : Database) :
    upsertOffer postgres settings tenant now p emb db =
      (storedEmbedding postgres p emb).map fun embedding =>
        let left := Policy.left (offerOf now p embedding)
          (fun old => old.refresh (offerOf now p embedding)) (db.offers.get? ⟨tenant, p.id⟩)
        ((), { db with offers := db.offers.set ⟨tenant, p.id⟩ left }) := by
  rw [upsertOffer]
  cases storedEmbedding postgres p emb with
  | error e => rfl
  | ok embedding =>
      show (do
        let (_, offers) ← orRowSecurity "offers" ((offersPolicy settings).upsert ⟨tenant, p.id⟩
          (offerOf now p embedding) (fun old => old.refresh (offerOf now p embedding)) db.offers)
        pure ((), { db with offers }) : Except Error (Unit × Database)) = _
      have hkey : OfferKey.ownedBy tenant ⟨tenant, p.id⟩ = true := decide_eq_true rfl
      rw [h.owns_offers.upsert_of_pos hkey]
      rfl

/-- The row that an offer's `INSERT` leaves. -/
def refreshed (offer : Offer) (old : Option Offer) : Offer :=
  Policy.left offer (fun old => old.refresh offer) old

variable {settings tenant} in
/-- What an offer's `INSERT` that succeeds has done. -/
theorem upsertOffer_ok {userId : String} (h : settings.Scopes tenant userId) {p : Row}
    {emb : Option (List ℚ)} {a : Unit} {db after : Database}
    (hrun : upsertOffer postgres settings tenant now p emb db = .ok (a, after)) :
    ∃ embedding, storedEmbedding postgres p emb = .ok embedding ∧
      after = { db with
        offers := db.offers.set ⟨tenant, p.id⟩
          (refreshed (offerOf now p embedding) (db.offers.get? ⟨tenant, p.id⟩)) } := by
  rw [upsertOffer_eq postgres now h] at hrun
  cases hstored : storedEmbedding postgres p emb with
  | error e =>
      rw [hstored] at hrun
      cases hrun
  | ok embedding =>
      rw [hstored] at hrun
      cases hrun
      exact ⟨embedding, rfl, rfl⟩

/-- The loop of `upsert`. -/
def upsertRows : List (Row × Option (List ℚ)) → ℕ → Txn ℕ
  | [], written => pure written
  | (p, emb) :: rest, written =>
      if !mayStore p.source then upsertRows rest written
      else do
        Effect.attempt (upsertOffer postgres settings tenant now p emb)
        upsertRows rest (written + 1)

/-- The rows that `upsert` goes through, each with its embedding. -/
def upsertPairs (products : List Row) (embeddings : Option (List (Option (List ℚ)))) :
    List (Row × Option (List ℚ)) :=
  products.zip (embeddings.getD (List.replicate products.length none))

/-- `upsert`. -/
def upsert (products : List Row) (embeddings : Option (List (Option (List ℚ)))) : Txn ℕ :=
  upsertRows postgres settings tenant now (upsertPairs products embeddings) 0

variable {postgres settings tenant now}

theorem upsertRows_cons (pair : Row × Option (List ℚ)) (rest : List (Row × Option (List ℚ)))
    (written : ℕ) :
    upsertRows postgres settings tenant now (pair :: rest) written =
      if !mayStore pair.1.source then upsertRows postgres settings tenant now rest written
      else Effect.attempt (upsertOffer postgres settings tenant now pair.1 pair.2) >>= fun _ =>
        upsertRows postgres settings tenant now rest (written + 1) := by
  obtain ⟨p, emb⟩ := pair
  rfl

/-- `upsert` respects what each of its statements respects. -/
theorem respects_upsert {R : Database → Database → Prop}
    (h : ∀ p emb, Effect.Respects R
      (Effect.attempt (upsertOffer postgres settings tenant now p emb)))
    (products : List Row) (embeddings : Option (List (Option (List ℚ)))) :
    Effect.Respects R (upsert postgres settings tenant now products embeddings) := by
  rw [upsert]
  generalize upsertPairs products embeddings = pairs
  generalize 0 = written
  induction pairs generalizing written with
  | nil => exact Effect.respects_pure _
  | cons pair rest ih =>
      rw [upsertRows_cons]
      split
      · exact ih written
      · exact (h pair.1 pair.2).bind fun _ => ih (written + 1)

/-- `upsert` keeps what the writes of its storable rows keep. -/
theorem maintains_upsert {P : Database → Prop} {products : List Row}
    {embeddings : Option (List (Option (List ℚ)))}
    (h : ∀ pair ∈ upsertPairs products embeddings, mayStore pair.1.source = true →
      Effect.Maintains P
        (Effect.attempt (upsertOffer postgres settings tenant now pair.1 pair.2))) :
    Effect.Maintains P (upsert postgres settings tenant now products embeddings) := by
  rw [upsert]
  generalize upsertPairs products embeddings = pairs at h ⊢
  generalize 0 = written
  induction pairs generalizing written with
  | nil => exact Effect.maintains_pure _
  | cons pair rest ih =>
      have hrest := fun written =>
        ih (fun other hother => h other (List.mem_cons_of_mem _ hother)) written
      rw [upsertRows_cons]
      by_cases hstore : mayStore pair.1.source = true
      · rw [hstore]
        exact (h pair List.mem_cons_self hstore).bind fun _ => hrest (written + 1)
      · rw [Bool.eq_false_of_not_eq_true hstore]
        exact hrest written

variable (postgres settings tenant now)

/-- A row of `semantic_search`. -/
structure Found where
  id : String
  title : String
  brand : Option String
  source : String
  price : ℚ
  url : Option String
  imageUrl : Option String
  similarity : WithTop ℚ
  deriving DecidableEq

/-- The columns of a row at a distance. -/
def foundCols (row : OfferKey × Offer) (distance : WithTop ℚ) : Found where
  id := row.1.id
  title := row.2.title
  brand := row.2.brand
  source := row.2.source
  price := row.2.price
  url := row.2.url
  imageUrl := row.2.imageUrl
  similarity := distance.map fun distance => 1 - distance

/-- The rows with an embedding, each with its distance. -/
def distances (query : List ℚ) (rows : List (OfferKey × Offer)) :
    List ((OfferKey × Offer) × WithTop ℚ) :=
  rows.filterMap fun row => row.2.embedding.map fun embedding =>
    (row, postgres.distance embedding query)

/-- `SELECT ... WHERE embedding IS NOT NULL ORDER BY embedding <=> %s LIMIT %s`. -/
def searchOffers (queryEmbedding : List ℚ) (k : ℤ) (db : Database) :
    Except Error (List Found) := do
  let query ← asVector postgres (vec queryEmbedding)
  if k < 0 then throw (.dataError "LIMIT must not be negative")
  let rows := distances postgres query ((offersPolicy settings).seen db.offers).entries
  if 0 < k ∧ query.length ≠ embedDim ∧ rows ≠ [] then
    throw (.dataError
      ("different vector dimensions 384 and " ++ toString query.length))
  let ranked := rows.insertionSort fun first second => first.2 ≤ second.2
  pure ((ranked.take k.toNat).map fun row => foundCols row.1 row.2)

/-- `semantic_search`. -/
def semanticSearch (queryEmbedding : List ℚ) (k : ℤ) : Txn (List Found) :=
  Effect.query (searchOffers postgres settings queryEmbedding k)

/-- `count`. -/
def count : Txn ℕ := Effect.read fun db => ((offersPolicy settings).seen db.offers).size

end Bodies

end DealFinder.Store
