/-
# The box of eBay's listings

`ebay_box` keeps what eBay answered to a query for fifteen minutes, or the failure to
answer for one, and at most 256 queries. A refusal (a status other than 200) makes
`EbaySource.search` return no products and raise nothing, so the box keeps it as an
answer; and an answer is kept without the limit it was asked with, so it is also served
to a call with a larger one. Apart from these two, what the box serves is what eBay
answered less than fifteen minutes before (`box_faithful`).
-/

import DealFinder.Math.Lru
import DealFinder.Math.Machine
import DealFinder.Shop.Features

namespace DealFinder.Cache

open DealFinder.Math DealFinder.Features

/-! ## The client -/

/-- A listing as eBay describes it, its price as `_f` reads it. -/
structure Summary where
  itemId : String
  title : Option String
  price : Option ℚ
  currency : Option String
  condition : Option String
  itemWebUrl : Option String
  imageUrl : Option String

/-- How a search at eBay ends: the token, the request or its decoding raises, or eBay
answers with a status and, when that is 200, listings. -/
inductive Response
  | raised
  | answered (status : ℕ) (summaries : List Summary)

/-- The variables of the environment the box reads. -/
structure EbayEnv where
  appId : Option String
  certId : Option String
  ebayEnv : Option String
  allowSandbox : Option String

/-- `s or default`. -/
def orDefault (s : Option String) (default : String) : String :=
  (s.filter fun text => text ≠ "").getD default

/-- `EbaySource.available`. -/
def EbayEnv.available (env : EbayEnv) : Bool :=
  orDefault env.appId "" ≠ "" && orDefault env.certId "" ≠ ""

/-- The product of one listing, unless it has no price. -/
def productOf (query : String) (summary : Summary) : Option Product :=
  (summary.price.filter fun price => price ≠ 0).map fun price =>
    { id := "ebay-" ++ String.ofList (summary.itemId.toList.drop (summary.itemId.length - 40))
      title := String.ofList ((orDefault summary.title query).toList.take 120)
      brand := none
      category := "product"
      price := price
      currency := summary.currency.getD "USD"
      url := orDefault summary.itemWebUrl ""
      source := "eBay:" ++ orDefault summary.condition "eBay"
      imageUrl := summary.imageUrl }

/-- `EbaySource.search`, or none when it raises. -/
def search (env : EbayEnv) (query : String) (response : Response) : Option (List Product) :=
  if env.available then
    match response with
    | .raised => none
    | .answered status summaries =>
        if status ≠ 200 then some [] else some (summaries.filterMap (productOf query))
  else some []

/-! ## The box -/

/-- `EBAY_NOTE`. -/
def ebayNote : String := "Listings from eBay. Not compared or rated."

/-- `EBAY_CACHE_TTL_S`. -/
def ebayCacheTtlS : ℚ := 900

/-- `EBAY_FAILURE_TTL_S`. -/
def ebayFailureTtlS : ℚ := 60

/-- `_EBAY_CACHE_MAX`. -/
def ebayCacheMax : ℕ := 256

/-- A row of the box. -/
structure Item where
  id : String
  title : String
  price : ℚ
  currency : String
  url : String
  condition : String
  imageUrl : Option String
  deriving DecidableEq

/-- What the box shows of a product. -/
def itemOf (p : Product) : Item where
  id := p.id
  title := p.title
  price := p.price
  currency := p.currency
  url := p.url
  condition := String.ofList (p.source.toList.dropWhile fun c => c ≠ ':').tail
  imageUrl := p.imageUrl

/-- What the cache holds of a query. -/
structure BoxEntry where
  storedAt : ℚ
  items : List Item
  ttl : ℚ

/-- `_ebay_cache`. -/
abbrev BoxCache := Dict String BoxEntry

/-- A call of the box: its query and limit, the clock, the environment, and how eBay would
end a search for the query with each limit at that time. -/
structure BoxCall where
  q : String
  limit : ℤ
  now : ℚ
  env : EbayEnv
  ebay : ℤ → Response

/-- What a call returns, and whether it asked eBay. -/
structure BoxReply where
  enabled : Bool
  note : String
  items : List Item
  asked : Bool

section Code

variable (lower : String → String)

/-- `EbaySource.is_sandbox`. -/
def EbayEnv.isSandbox (env : EbayEnv) : Bool :=
  lower (env.ebayEnv.getD "") = "sandbox" || "SBX".toList <:+: (env.appId.getD "").toList

/-- `_ebay_enabled`. -/
def EbayEnv.enabled (env : EbayEnv) : Bool :=
  if !env.available then false else !env.isSandbox lower || env.allowSandbox = some "1"

/-- The key of a query. -/
def BoxCall.key (call : BoxCall) : String := lower (strip call.q)

/-- The entry a call makes of its search. -/
def BoxCall.entry (call : BoxCall) : BoxEntry :=
  match search call.env (strip call.q) (call.ebay call.limit) with
  | some products => ⟨call.now, (upTo call.limit products).map itemOf, ebayCacheTtlS⟩
  | none => ⟨call.now, [], ebayFailureTtlS⟩

/-- The entry of a call's query, while it lasts. -/
def BoxCall.hit (call : BoxCall) (cache : BoxCache) : Option BoxEntry :=
  (cache.get? (call.key lower)).filter fun entry => call.now - entry.storedAt < entry.ttl

/-- `ebay_box`. -/
def ebayBox (call : BoxCall) (cache : BoxCache) : BoxReply × BoxCache :=
  if call.env.enabled lower then
    match call.hit lower cache with
    | some entry =>
        (⟨true, ebayNote, upTo call.limit entry.items, false⟩,
          cache.moveToEnd (call.key lower))
    | none =>
        (⟨true, ebayNote, call.entry.items, true⟩,
          (cache.put (call.key lower) call.entry).trim ebayCacheMax)
  else (⟨false, ebayNote, [], false⟩, cache)

/-- The process: one call after the other on the one cache. -/
def boxMachine : Machine BoxCache BoxCall BoxReply where
  step cache call := ebayBox lower call cache

end Code

/-! ## Answers and failures -/

/-- eBay answers with a status other than 200. -/
def Response.refused : Response → Bool
  | .raised => false
  | .answered status _ => status ≠ 200

/-- The products of what eBay answers to the call's query with a limit, when it does. -/
def BoxCall.answer (call : BoxCall) (limit : ℤ) : Option (List Product) :=
  match call.ebay limit with
  | .raised => none
  | .answered status summaries =>
      if status ≠ 200 then none else some (summaries.filterMap (productOf (strip call.q)))

/-- The answer with a limit is the first part of the answer with a larger one. -/
def BoxCall.Nested (call : BoxCall) : Prop :=
  ∀ limit larger : ℤ, 0 ≤ limit → limit ≤ larger → ∀ products,
    call.answer larger = some products → call.answer limit = some (products.take limit.toNat)

section Property

variable (lower : String → String)

/-- The calls that asked eBay, in a sequence of calls from the empty cache. -/
def askedOf (calls : List BoxCall) : List BoxCall :=
  (boxMachine lower).observe (fun call reply => if reply.asked then some call else none)
    Dict.empty calls

/-- The last call that asked eBay for a key. -/
def lastAsked (key : String) (calls : List BoxCall) : Option BoxCall :=
  ((askedOf lower calls).filter fun call => call.key lower = key).getLast?

/-- The items a call is served after others. -/
def served (past : List BoxCall) (call : BoxCall) : List Item :=
  ((boxMachine lower).answerAfter Dict.empty past call).items

/-- What a call is served are the first items of what eBay answered to its query less than
900 seconds before, or nothing because eBay failed to answer it less than 60 seconds before. -/
def Faithful (past : List BoxCall) (call : BoxCall) : Prop :=
  ∃ source ∈ askedOf lower (past ++ [call]), source.key lower = call.key lower ∧
    ((∃ products, source.answer call.limit = some products ∧ call.now - source.now < 900 ∧
        served lower past call = (upTo call.limit products).map itemOf) ∨
      (source.answer source.limit = none ∧ call.now - source.now < 60 ∧
        served lower past call = []))

/-- A call that finds an entry: the search that stored it was not refused 60 seconds before or
earlier, and when it was answered, the call's limit is no larger than the one it had, or eBay
had no more. -/
def Usable (past : List BoxCall) (call : BoxCall) : Prop :=
  (call.hit lower ((boxMachine lower).run Dict.empty past)).isSome →
    ∀ source, lastAsked lower (call.key lower) past = some source →
      ((source.ebay source.limit).refused = true → call.now - source.now < 60) ∧
      ∀ products, source.answer source.limit = some products →
        0 ≤ source.limit ∧ 0 ≤ call.limit ∧
          (call.limit ≤ source.limit ∨ source.answer call.limit = some products)

end Property

/-! ## What the cache holds -/

section Holds

variable {lower : String → String}

theorem available_of_enabled {env : EbayEnv} (h : env.enabled lower = true) :
    env.available = true := by
  by_contra hnone
  simp [EbayEnv.enabled, hnone] at h

theorem ebayBox_disabled {call : BoxCall} {cache : BoxCache} (h : ¬ call.env.enabled lower = true) :
    ebayBox lower call cache = (⟨false, ebayNote, [], false⟩, cache) := by
  rw [ebayBox, if_neg h]

theorem ebayBox_hit {call : BoxCall} {cache : BoxCache} {entry : BoxEntry}
    (h : call.env.enabled lower = true) (hhit : call.hit lower cache = some entry) :
    ebayBox lower call cache = (⟨true, ebayNote, upTo call.limit entry.items, false⟩,
      cache.moveToEnd (call.key lower)) := by
  rw [ebayBox, if_pos h, hhit]

theorem ebayBox_miss {call : BoxCall} {cache : BoxCache}
    (h : call.env.enabled lower = true) (hhit : call.hit lower cache = none) :
    ebayBox lower call cache = (⟨true, ebayNote, call.entry.items, true⟩,
      (cache.put (call.key lower) call.entry).trim ebayCacheMax) := by
  rw [ebayBox, if_pos h, hhit]

/-- The entry of a search that was answered, that raised, or that was refused. -/
theorem entry_cases {call : BoxCall} (h : call.env.available = true) :
    (∃ products, call.answer call.limit = some products ∧
      call.entry = ⟨call.now, (upTo call.limit products).map itemOf, ebayCacheTtlS⟩) ∨
    call.answer call.limit = none ∧
      (call.entry = ⟨call.now, [], ebayFailureTtlS⟩ ∨
        (call.ebay call.limit).refused = true ∧ call.entry = ⟨call.now, [], ebayCacheTtlS⟩) := by
  unfold BoxCall.answer BoxCall.entry search
  rw [if_pos h]
  cases call.ebay call.limit with
  | raised => exact Or.inr ⟨rfl, Or.inl rfl⟩
  | answered status summaries =>
      by_cases hstatus : status ≠ 200
      · refine Or.inr ⟨if_pos hstatus, Or.inr ⟨decide_eq_true hstatus, ?_⟩⟩
        simp [hstatus, upTo]
      · refine Or.inl ⟨_, if_neg hstatus, ?_⟩
        simp [hstatus]

theorem askedOf_concat (past : List BoxCall) (call : BoxCall) :
    askedOf lower (past ++ [call]) = askedOf lower past ++
      (if ((boxMachine lower).answerAfter Dict.empty past call).asked then [call] else []) := by
  rw [askedOf, Machine.observe_concat, ← askedOf]
  split_ifs
  · rfl
  · rfl

theorem mem_of_mem_askedOf {past : List BoxCall} {call : BoxCall}
    (h : call ∈ askedOf lower past) : call ∈ past := by
  induction past using List.reverseRecOn with
  | nil => cases h
  | append_singleton past next ih =>
      rw [askedOf_concat] at h
      rcases List.mem_append.1 h with hpast | hnext
      · exact List.mem_append_left _ (ih hpast)
      · split at hnext
        case isTrue => exact List.mem_append_right _ hnext
        case isFalse => cases hnext

theorem mem_of_lastAsked {key : String} {past : List BoxCall} {source : BoxCall}
    (h : lastAsked lower key past = some source) :
    source ∈ askedOf lower past ∧ source.key lower = key := by
  have hmem := List.mem_filter.1 (List.mem_of_getLast? h)
  exact ⟨hmem.1, of_decide_eq_true hmem.2⟩

theorem lastAsked_of_not_asked {key : String} {past : List BoxCall} {call : BoxCall}
    (h : ((boxMachine lower).answerAfter Dict.empty past call).asked = false) :
    lastAsked lower key (past ++ [call]) = lastAsked lower key past := by
  rw [lastAsked, askedOf_concat, h]
  simp [lastAsked]

theorem lastAsked_of_asked {key : String} {past : List BoxCall} {call : BoxCall}
    (h : ((boxMachine lower).answerAfter Dict.empty past call).asked = true) :
    lastAsked lower key (past ++ [call]) =
      if call.key lower = key then some call else lastAsked lower key past := by
  rw [lastAsked, askedOf_concat, h, if_pos rfl, List.filter_append]
  split_ifs with hkey
  · simp [hkey]
  · simp [hkey, lastAsked]

/-- What holds of the cache after a sequence of calls: an entry is that of the last call which
asked eBay for its key. -/
structure Boxed (lower : String → String) (calls : List BoxCall) (cache : BoxCache) : Prop where
  entry : ∀ key entry, cache.get? key = some entry → ∃ source,
    lastAsked lower key calls = some source ∧ source.env.available = true ∧ entry = source.entry
  size : cache.size ≤ ebayCacheMax

theorem boxed_run (lower : String → String) (calls : List BoxCall) :
    Boxed lower calls ((boxMachine lower).run Dict.empty calls) := by
  apply Machine.run_history
  · refine ⟨?_, Nat.zero_le _⟩
    intro key entry hentry
    cases hentry
  · intro past call ih
    set cache := (boxMachine lower).run Dict.empty past with hcache
    have hanswer : (boxMachine lower).answerAfter Dict.empty past call =
        (ebayBox lower call cache).1 := rfl
    change Boxed lower (past ++ [call]) (ebayBox lower call cache).2
    by_cases henabled : call.env.enabled lower = true
    · cases hhit : call.hit lower cache with
      | some found =>
          rw [ebayBox_hit henabled hhit] at hanswer ⊢
          refine ⟨?_, (Dict.size_moveToEnd ..).trans_le ih.size⟩
          intro key entry hentry
          rw [lastAsked_of_not_asked (congrArg BoxReply.asked hanswer)]
          exact ih.entry key entry ((Dict.get?_moveToEnd ..).symm.trans hentry)
      | none =>
          rw [ebayBox_miss henabled hhit] at hanswer ⊢
          dsimp only
          refine ⟨?_, Dict.size_trim_le _ _⟩
          intro key entry hentry
          have hput := Dict.get?_of_trim hentry
          rw [Dict.get?_put] at hput
          rw [lastAsked_of_asked (congrArg BoxReply.asked hanswer)]
          by_cases hkey : key = call.key lower
          · rw [if_pos hkey] at hput
            rw [if_pos hkey.symm]
            exact ⟨call, rfl, available_of_enabled henabled, (Option.some.inj hput).symm⟩
          · rw [if_neg hkey] at hput
            rw [if_neg (Ne.symm hkey)]
            exact ih.entry key entry hput
    · rw [ebayBox_disabled henabled] at hanswer ⊢
      refine ⟨?_, ih.size⟩
      intro key entry hentry
      rw [lastAsked_of_not_asked (congrArg BoxReply.asked hanswer)]
      exact ih.entry key entry hentry

/-- A call that asks eBay is served what it asked for. -/
theorem faithful_of_miss {past : List BoxCall} {call : BoxCall}
    (henabled : call.env.enabled lower = true)
    (hhit : call.hit lower ((boxMachine lower).run Dict.empty past) = none) :
    Faithful lower past call := by
  have hanswer : (boxMachine lower).answerAfter Dict.empty past call =
      ⟨true, ebayNote, call.entry.items, true⟩ := congrArg Prod.fst (ebayBox_miss henabled hhit)
  refine ⟨call, ?_, rfl, ?_⟩
  · rw [askedOf_concat, hanswer]
    exact List.mem_append_right _ (List.mem_singleton.2 rfl)
  · rw [served, hanswer, sub_self]
    rcases entry_cases (available_of_enabled henabled) with
      ⟨products, hproducts, hentry⟩ | ⟨hnone, hentry | ⟨-, hentry⟩⟩
    · exact Or.inl ⟨products, hproducts, by norm_num, congrArg BoxEntry.items hentry⟩
    · exact Or.inr ⟨hnone, by norm_num, congrArg BoxEntry.items hentry⟩
    · exact Or.inr ⟨hnone, by norm_num, congrArg BoxEntry.items hentry⟩

/-- The first items of an answer are those of the answer with the smaller limit. -/
theorem upTo_answer {source : BoxCall} (hnested : source.Nested) {limit : ℤ}
    {products : List Product} (hproducts : source.answer source.limit = some products)
    (hsource : 0 ≤ source.limit) (hlimit : 0 ≤ limit)
    (hle : limit ≤ source.limit ∨ source.answer limit = some products) :
    ∃ asked, source.answer limit = some asked ∧
      upTo limit (upTo source.limit products) = upTo limit asked := by
  have hself := hnested _ _ hsource le_rfl products hproducts
  have hall : upTo source.limit products = products := by
    rw [upTo_of_nonneg hsource]
    exact (Option.some.inj (hproducts.symm.trans hself)).symm
  rw [hall]
  rcases hle with hle | hsame
  · refine ⟨_, hnested _ _ hlimit hle products hproducts, ?_⟩
    rw [upTo_of_nonneg hlimit, upTo_of_nonneg hlimit, List.take_take, min_self]
  · exact ⟨products, hsame, rfl⟩

/-- A call that finds a usable entry is served what was asked for it. -/
theorem faithful_of_hit {past : List BoxCall} {call : BoxCall}
    (hnested : ∀ source ∈ past, source.Nested) (henabled : call.env.enabled lower = true)
    {entry : BoxEntry} (hhit : call.hit lower ((boxMachine lower).run Dict.empty past) = some entry)
    (husable : Usable lower past call) : Faithful lower past call := by
  have hanswer : (boxMachine lower).answerAfter Dict.empty past call =
      ⟨true, ebayNote, upTo call.limit entry.items, false⟩ :=
    congrArg Prod.fst (ebayBox_hit henabled hhit)
  obtain ⟨hget, hage⟩ := Option.filter_eq_some_iff.1 hhit
  obtain ⟨source, hlast, havailable, rfl⟩ := (boxed_run lower past).entry _ _ hget
  obtain ⟨hasked, hkey⟩ := mem_of_lastAsked hlast
  obtain ⟨hrefused, hlimit⟩ := husable (by rw [hhit]; rfl) source hlast
  refine ⟨source, ?_, hkey, ?_⟩
  · rw [askedOf_concat]
    exact List.mem_append_left _ hasked
  · rw [served, hanswer]
    have hage := of_decide_eq_true hage
    rcases entry_cases havailable with
      ⟨products, hproducts, hentry⟩ | ⟨hnone, hentry | ⟨hstatus, hentry⟩⟩
    · rw [hentry] at hage ⊢
      obtain ⟨hsource, hcall, hle⟩ := hlimit products hproducts
      obtain ⟨answered, hanswered, hequal⟩ :=
        upTo_answer (hnested _ (mem_of_mem_askedOf hasked)) hproducts hsource hcall hle
      exact Or.inl ⟨answered, hanswered, hage, by rw [upTo_map, hequal]⟩
    · rw [hentry] at hage ⊢
      exact Or.inr ⟨hnone, hage, by simp [upTo]⟩
    · rw [hentry]
      exact Or.inr ⟨hnone, hrefused hstatus, by simp [upTo]⟩

end Holds

/-! ## Every sequence of calls -/

section Runs

/-- **The box is a faithful short cache.** In a sequence of calls in which each that finds an
entry may use it, every call while eBay is enabled is served what eBay answered to its query
less than 900 seconds before, or nothing after a failure less than 60 seconds before; and
whatever the calls, the cache never holds more than 256 queries. -/
theorem box_faithful (lower : String → String) (calls : List BoxCall)
    (hnested : ∀ call ∈ calls, call.Nested) :
    ((∀ past call later, calls = past ++ call :: later → call.env.enabled lower = true →
        Usable lower past call) →
      ∀ past call later, calls = past ++ call :: later → call.env.enabled lower = true →
        Faithful lower past call) ∧
    ∀ past later, calls = past ++ later →
      ((boxMachine lower).run Dict.empty past).size ≤ ebayCacheMax := by
  constructor
  · intro husable past call later hcalls henabled
    cases hhit : call.hit lower ((boxMachine lower).run Dict.empty past) with
    | none => exact faithful_of_miss henabled hhit
    | some entry =>
        have hpast : ∀ source ∈ past, source.Nested := by
          intro source hsource
          exact hnested source (hcalls ▸ List.mem_append_left _ hsource)
        exact faithful_of_hit hpast henabled hhit (husable past call later hcalls henabled)
  · intro past later _
    exact (boxed_run lower past).size

/-- The environment of a production client. -/
def production : EbayEnv := ⟨some "shop-PRD", some "cert", none, none⟩

/-- A television at eBay. -/
def television : Summary :=
  ⟨"v1|9", some "OLED TV", some 500, none, some "Used", none, none⟩

/-- A call for televisions while eBay has this one. -/
def shelfCall (q : String) (limit : ℤ) (now : ℚ) : BoxCall :=
  ⟨q, limit, now, production, fun l => .answered 200 (if l ≤ 0 then [] else [television])⟩

/-- A call while eBay is down. -/
def downCall (q : String) (limit : ℤ) (now : ℚ) : BoxCall :=
  ⟨q, limit, now, production, fun _ => .answered 503 []⟩

theorem nested_shelfCall (q : String) (limit : ℤ) (now : ℚ) : (shelfCall q limit now).Nested := by
  intro l larger hl hle products hproducts
  by_cases hzero : l ≤ 0
  · have hl : l = 0 := le_antisymm hzero hl
    subst hl
    rfl
  · have hlarger : ¬ larger ≤ 0 := by omega
    have hone : 1 ≤ l.toNat := by omega
    simp only [BoxCall.answer, shelfCall, if_neg hzero, if_neg hlarger] at hproducts ⊢
    rw [List.take_of_length_le, hproducts]
    rw [← Option.some.inj hproducts]
    exact (List.length_filterMap_le _ _).trans hone

/-- Lowercasing of ASCII letters. -/
def asciiLower (s : String) : String := String.ofList (s.toList.map Char.toLower)

/-- A smaller limit is served from the box. -/
theorem box_faithful_smaller :
    Faithful asciiLower [shelfCall "TV" 6 0] (shelfCall " tv " 1 100) := by
  have hnested : ∀ call ∈ [shelfCall "TV" 6 0, shelfCall " tv " 1 100], call.Nested := by
    simp [nested_shelfCall]
  refine (box_faithful asciiLower [shelfCall "TV" 6 0, shelfCall " tv " 1 100] hnested).1 ?_
    [shelfCall "TV" 6 0] (shelfCall " tv " 1 100) [] rfl (by decide +kernel)
  intro past call later hcalls _ _ source hlast
  cases past with
  | nil => cases hlast
  | cons first past =>
      obtain ⟨hfirst, hrest⟩ := List.cons.inj hcalls
      subst hfirst
      cases past with
      | nil =>
          obtain ⟨hcall, -⟩ := List.cons.inj hrest
          subst hcall
          have hsource : source = shelfCall "TV" 6 0 := by
            have hmem := mem_of_mem_askedOf (mem_of_lastAsked hlast).1
            exact List.mem_singleton.1 hmem
          subst hsource
          constructor
          · intro hrefused
            cases hrefused
          · intro products _
            exact ⟨by decide, by decide, Or.inl (by decide)⟩
      | cons second past => simp at hrest

/-- Ten minutes after eBay refused a search the box is still empty, and eBay was not asked
again. -/
theorem empty_after_refusal : (downCall "tv" 6 0).Nested ∧ (shelfCall "TV" 6 600).Nested ∧
    production.enabled asciiLower = true ∧
    ¬ Faithful asciiLower [downCall "tv" 6 0] (shelfCall "TV" 6 600) := by
  refine ⟨?_, nested_shelfCall "TV" 6 600, by decide +kernel, ?_⟩
  · intro limit larger _ _ products hproducts
    cases hproducts
  · rintro ⟨source, hsource, -, hserved⟩
    have hfirst : ((boxMachine asciiLower).answerAfter Dict.empty [] (downCall "tv" 6 0)).asked =
        true := by decide +kernel
    have hsecond : ((boxMachine asciiLower).answerAfter Dict.empty [downCall "tv" 6 0]
        (shelfCall "TV" 6 600)).asked = false := by decide +kernel
    have hasked : askedOf asciiLower ([downCall "tv" 6 0] ++ [shelfCall "TV" 6 600]) =
        [downCall "tv" 6 0] := by
      rw [askedOf_concat, hsecond, ← List.nil_append [downCall "tv" 6 0], askedOf_concat, hfirst]
      rfl
    rw [hasked, List.mem_singleton] at hsource
    subst hsource
    rcases hserved with ⟨products, hproducts, -⟩ | ⟨-, hage, -⟩
    · cases hproducts
    · revert hage
      decide +kernel

end Runs

end DealFinder.Cache
