/-
# Whose meaning a vector has

`upsert` replaces the title of a row and keeps its embedding when it is given none. So
the embedding of a row is that of the title which came with the last embedding
(`vector_of_last_embedded`), and of the stored title while that is the same.
-/

import DealFinder.Store.Writes

namespace DealFinder.Store

open DealFinder.Math DealFinder.Shop

section Vectors

variable (postgres : Postgres) (embed : String → List ℚ)

/-- Every embedding a request passes is that of its row's title. -/
def Honest (request : Request) : Prop :=
  ∀ products embeddings tenant, request.op = .upsert products embeddings tenant →
    ∀ p embedding, (p, some embedding) ∈ upsertPairs products embeddings →
      embedding = embed p.title

/-- The embedding is what is stored of a title's. -/
def IsVectorOf (title : String) (embedding : Option (List ℚ)) : Prop :=
  ∃ vector, asEmbedding postgres (embed title) = .ok vector ∧ embedding = some vector

/-- The row has no embedding, or the one that came last, with the title which it is of; and its
title came last. -/
structure Remembers (offers : List Offer) (offer : Offer) : Prop where
  title : ∃ last, offers.getLast? = some last ∧ offer.title = last.title
  embedding : offer.embedding = none ∨ ∃ earlier embedded later,
    offers = earlier ++ embedded :: later ∧ embedded.embedding = offer.embedding ∧
      (∀ other ∈ later, other.embedding = none) ∧
      IsVectorOf postgres embed embedded.title offer.embedding

end Vectors

section Run

variable {postgres : Postgres} {embed : String → List ℚ} {pool : Pool} {request : Request}
variable {key : OfferKey}

/-- A row is proposed with its title's embedding, or none. -/
theorem isVectorOf_proposed (h : Honest embed request) {offer : Offer}
    (hoffer : offer ∈ request.proposes postgres key) :
    offer.embedding = none ∨ IsVectorOf postgres embed offer.title offer.embedding := by
  rw [Request.proposes] at hoffer
  split at hoffer
  case h_2 => cases hoffer
  case h_1 products embeddings tenant hop =>
    split at hoffer
    case isFalse => cases hoffer
    case isTrue =>
      obtain ⟨⟨p, emb⟩, hpair, hmatch⟩ := List.mem_filterMap.1 hoffer
      split at hmatch
      case isFalse => cases hmatch
      case isTrue =>
        obtain rfl := Option.some.inj hmatch
        simp only [proposed, offerOf, storedEmbedding]
        cases hembed : mayEmbed p.source with
        | false => exact Or.inl rfl
        | true =>
            cases emb with
            | none => exact Or.inl rfl
            | some embedding =>
                obtain rfl := h _ _ _ hop p embedding hpair
                simp only [if_true]
                cases hvector : asEmbedding postgres (embed p.title) with
                | error e => exact Or.inl rfl
                | ok vector => exact Or.inr ⟨vector, hvector, rfl⟩

/-- One more write is remembered. -/
theorem remembers_refreshed {offers : List Offer} {old : Option Offer} {offer : Offer}
    (h : ∀ row, old = some row → Remembers postgres embed offers row)
    (hoffer : offer.embedding = none ∨ IsVectorOf postgres embed offer.title offer.embedding) :
    Remembers postgres embed (offers ++ [offer]) (refreshed offer old) := by
  have htitle : (refreshed offer old).title = offer.title := by cases old <;> rfl
  refine ⟨⟨offer, by simp, htitle⟩, ?_⟩
  rcases hoffer with hnone | ⟨vector, hvector, hsome⟩
  · cases old with
    | none => exact Or.inl hnone
    | some row =>
        have hkept : (refreshed offer (some row)).embedding = row.embedding := by
          simp only [refreshed, Policy.left, Option.elim_some, Offer.refresh, hnone, Option.none_or]
        rw [hkept]
        apply (h row rfl).embedding.imp_right
        intro ⟨earlier, embedded, later, hoffers, hsame, hlater, hvector⟩
        refine ⟨earlier, embedded, later ++ [offer], by simp [hoffers], hsame, ?_, hvector⟩
        intro other hother
        rcases List.mem_append.1 hother with hold | hnew
        · exact hlater other hold
        · rw [List.mem_singleton.1 hnew]
          exact hnone
  · have hkept : (refreshed offer old).embedding = some vector := by
      cases old with
      | none => exact hsome
      | some row =>
          simp only [refreshed, Policy.left, Option.elim_some, Offer.refresh, hsome,
            Option.some_or]
    exact Or.inr ⟨offers, offer, [], rfl, hsome.trans hkept.symm, by simp, vector, hvector, hkept⟩

/-- Writes are remembered one after the other. -/
theorem remembers_rewrite {offers written : List Offer} {old : Option Offer}
    (h : ∀ row, old = some row → Remembers postgres embed offers row)
    (hwritten : ∀ offer ∈ written,
      offer.embedding = none ∨ IsVectorOf postgres embed offer.title offer.embedding) :
    ∀ row, rewrite old written = some row → Remembers postgres embed (offers ++ written) row := by
  induction written generalizing offers old with
  | nil =>
      rw [List.append_nil]
      exact h
  | cons offer rest ih =>
      have hhead := remembers_refreshed h (hwritten offer List.mem_cons_self)
      rw [List.append_cons]
      refine ih (fun row hrow => ?_) fun other hother =>
        hwritten other (List.mem_cons_of_mem _ hother)
      exact Option.some.inj hrow ▸ hhead

/-- **Remembered along a run.** From an empty catalog, every row remembers the writes of its
offer. -/
theorem run_remembers (session : ℕ → Settings) (requests : List Request)
    (honest : ∀ request ∈ requests, Honest embed request) :
    ∀ offer, ((machine postgres).run ⟨.empty, session⟩ requests).db.offers.get? key = some offer →
      Remembers postgres embed (written postgres ⟨.empty, session⟩ requests key) offer := by
  induction requests using List.reverseRecOn with
  | nil =>
      intro offer hoffer
      cases hoffer
  | append_singleton past request ih =>
      have hpast := ih fun earlier hearlier => honest earlier (List.mem_append_left _ hearlier)
      intro offer hoffer
      rw [Machine.run_concat] at hoffer
      rw [written_concat]
      by_cases hop : request.op = .purgeExpired
      · have hnone : request.proposes postgres key = [] := by rw [Request.proposes, hop]
        have hstep := @step_purged postgres request hop
          ((machine postgres).run ⟨.empty, session⟩ past)
        rw [hnone, ite_self, List.append_nil]
        have hkept : (purged request.time retentionMarginS
            ((machine postgres).run ⟨.empty, session⟩ past).db).offers.get? key = some offer :=
          hstep ▸ hoffer
        exact hpast offer (Dict.get?_of_filter hkept)
      · have hstep := @get?_step postgres ((machine postgres).run ⟨.empty, session⟩ past) request
          key hop
        have hrow := hstep.symm.trans hoffer
        have hanswer : ((machine postgres).answerAfter ⟨.empty, session⟩ past request) =
            (((machine postgres).run ⟨.empty, session⟩ past).step postgres request).1 := rfl
        rw [hanswer]
        split at hrow
        · next hok =>
          rw [if_pos hok]
          exact remembers_rewrite hpast
            (fun other hother => isVectorOf_proposed (honest request (by simp)) hother) offer hrow
        · next hfailed =>
          rw [if_neg hfailed, List.append_nil]
          exact hpast offer hrow

end Run

/-- **Whose meaning a vector has.** In every state reached from an empty catalog by requests
that pass embeddings of titles only, a row has no embedding, or the one of the last write that
came with one, which is that of this write's title; and then that of its own title, if no title
came since but the same. -/
theorem vector_of_last_embedded (postgres : Postgres) (embed : String → List ℚ)
    (session : ℕ → Settings) (requests : List Request)
    (honest : ∀ request ∈ requests, Honest embed request) (key : OfferKey) (offer : Offer)
    (hoffer : ((machine postgres).run ⟨.empty, session⟩ requests).db.offers.get? key =
      some offer) :
    offer.embedding = none ∨ ∃ earlier embedded later,
      written postgres ⟨.empty, session⟩ requests key = earlier ++ embedded :: later ∧
        embedded.embedding = offer.embedding ∧ (∀ other ∈ later, other.embedding = none) ∧
        IsVectorOf postgres embed embedded.title offer.embedding ∧
        ((∀ other ∈ later, other.title = embedded.title) →
          IsVectorOf postgres embed offer.title offer.embedding) := by
  obtain ⟨⟨last, hlast, htitle⟩, hembedding⟩ := run_remembers session requests honest offer hoffer
  apply hembedding.imp_right
  intro ⟨earlier, embedded, later, hwritten, hkept, hlater, hvector⟩
  refine ⟨earlier, embedded, later, hwritten, hkept, hlater, hvector, fun hsame => ?_⟩
  have hstored : offer.title = embedded.title := by
    rw [hwritten] at hlast
    rcases List.eq_nil_or_concat' later with rfl | ⟨init, final, rfl⟩
    · rw [List.getLast?_concat] at hlast
      rw [htitle, ← Option.some.inj hlast]
    · rw [← List.cons_append, ← List.append_assoc, List.getLast?_concat] at hlast
      rw [htitle, ← Option.some.inj hlast]
      exact hsame final (by simp)
  rw [hstored]
  exact hvector

/-- A vector of equal components. -/
def constant (n : ℕ) : List ℚ := List.replicate embedDim n

/-- An embedding that tells the length of a title. -/
def lengths (title : String) : List ℚ := constant title.length

/-- A product of Best Buy's. -/
def titled (title : String) : Row :=
  ⟨"sku", title, none, "BestBuy", 40, none, none, none, none, none, none⟩

/-- A product is remembered with its vector, and renamed without one. -/
def renamed : List Request :=
  [⟨0, 10, 0, .upsert [titled "radio"] (some [some (lengths "radio")]) "public"⟩,
    ⟨0, 20, 0, .upsert [titled "television"] none "public"⟩]

theorem honest_renamed : ∀ request ∈ renamed, Honest lengths request := by
  intro request hrequest products embeddings tenant hop p embedding hpair
  rcases List.mem_pair.1 hrequest with rfl | rfl
  · cases hop
    obtain ⟨rfl, heq⟩ := Prod.mk.inj (List.mem_singleton.1 hpair)
    exact Option.some.inj heq
  · cases hop
    cases (Prod.mk.inj (List.mem_singleton.1 hpair)).2

/-- The television, with the vector of the radio. -/
def mistaken : Offer :=
  { offerOf 20 (titled "television") none with embedding := some (constant 5) }

set_option maxRecDepth 20000 in
theorem stored_renamed :
    ((machine plainPostgres).run ⟨.empty, emptyPool.session⟩ renamed).db.offers.get?
      ⟨"public", "sku"⟩ = some mistaken := by
  decide +kernel

/-- The television has the vector of the radio, which came with the last embedding. -/
theorem vector_of_last_embedded_renamed :
    ∃ earlier embedded later,
      written plainPostgres ⟨.empty, emptyPool.session⟩ renamed ⟨"public", "sku"⟩ =
          earlier ++ embedded :: later ∧
        embedded.embedding = mistaken.embedding ∧
        (∀ other ∈ later, other.embedding = none) ∧
        IsVectorOf plainPostgres lengths embedded.title mistaken.embedding ∧
        ((∀ other ∈ later, other.title = embedded.title) →
          IsVectorOf plainPostgres lengths mistaken.title mistaken.embedding) :=
  (vector_of_last_embedded plainPostgres lengths emptyPool.session renamed honest_renamed
    ⟨"public", "sku"⟩ mistaken stored_renamed).resolve_left (Option.some_ne_none _)

set_option maxRecDepth 4000 in
theorem asEmbedding_television :
    asEmbedding plainPostgres (lengths "television") = .ok (constant 10) := by
  decide +kernel

/-- A renamed row keeps the vector of its old title. -/
theorem renamed_keeps_vector :
    ¬ ∀ (postgres : Postgres) (embed : String → List ℚ) (session : ℕ → Settings)
      (requests : List Request), (∀ request ∈ requests, Honest embed request) →
        ∀ (key : OfferKey) (offer : Offer),
          ((machine postgres).run ⟨.empty, session⟩ requests).db.offers.get? key = some offer →
            offer.embedding = none ∨ IsVectorOf postgres embed offer.title offer.embedding := by
  intro hall
  obtain hnone | ⟨vector, hvector, hsome⟩ := hall plainPostgres lengths emptyPool.session renamed
    honest_renamed ⟨"public", "sku"⟩ mistaken stored_renamed
  · cases hnone
  · have hten : vector = constant 10 :=
      Except.ok.inj (hvector.symm.trans asEmbedding_television)
    have hfive : constant 5 = vector := Option.some.inj hsome
    exact absurd (hfive.trans hten) (by decide +kernel)

end DealFinder.Store
