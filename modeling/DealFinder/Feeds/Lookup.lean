/-
# Looking SKUs up

`lookup_skus` asks for the distinct SKUs in batches of a hundred. A network error and a
status that is not 200 raise `RuntimeError`. A body that cannot be read raises something
else, and one that carries no list of products is taken for an answer without products
(`gone_or_failed_iff`).
-/

import DealFinder.Feeds.Sources

namespace DealFinder.Feeds

open DealFinder.Math DealFinder.Rag

/-- What `lookup_skus` raises. -/
inductive LookupError
  /-- The text that is no SKU. -/
  | valueError (bad : String)
  | runtimeError (text : String)
  /-- What the parsing of a body raises. -/
  | unconverted
  deriving DecidableEq

/-- A lookup: the batches it requested, and what it returned or raised. -/
structure Lookup where
  requests : List (List String)
  result : Except LookupError (Dict String LiveProduct)

section Batches

variable (runtime : Runtime)

/-- `list(dict.fromkeys(skus))`. -/
def wanted (skus : List String) : List String := (Dict.ofPairs (skus.map fun s => (s, ()))).keys

/-- `re.fullmatch(r"\d{1,12}", s)`. -/
def isSku (s : String) : Bool :=
  s.toList.all (isDigit runtime.toLanguage) && 1 ≤ s.toList.length && s.toList.length ≤ 12

/-- The batches: slices of a hundred. -/
def batches (skus : List String) : List (List String) :=
  (List.range ((skus.length + 99) / 100)).map fun i => (skus.drop (100 * i)).take 100

/-- The priced listings of a body, unless it raises. -/
def pricedProducts (body : Option Json) : Option (List LiveProduct) := do
  offersOf (bestBuyProduct runtime "") (← productsIn body)

/-- The answer to a batch. -/
def answerBatch : Outcome → Except LookupError (List LiveProduct)
  | .failed error => .error (.runtimeError ("bestbuy lookup failed: " ++ error))
  | .answered status body =>
      if status ≠ 200 then
        .error (.runtimeError ("bestbuy lookup failed: " ++ toString status))
      else
        match pricedProducts runtime body with
        | some products => .ok products
        | none => .error .unconverted

/-- `found[x.sku] = x`, for a product with an SKU. -/
def addFound (found : Dict String LiveProduct) (x : LiveProduct) : Dict String LiveProduct :=
  match x.sku with
  | some sku => if sku = "" then found else found.set sku x
  | none => found

/-- The loop over the batches, from the one with some number on. -/
def lookupLoop (outcomes : ℕ → Outcome) :
    ℕ → List (List String) → Dict String LiveProduct → Lookup
  | _, [], found => ⟨[], .ok found⟩
  | i, batch :: rest, found =>
      match answerBatch runtime (outcomes i) with
      | .error e => ⟨[batch], .error e⟩
      | .ok products =>
          let more := lookupLoop outcomes (i + 1) rest (products.foldl addFound found)
          ⟨batch :: more.requests, more.result⟩

/-- `BestBuySource.lookup_skus`, with what becomes of each request. -/
def lookupSkus (key : Option String) (outcomes : ℕ → Outcome) (skus : List String) : Lookup :=
  match (wanted skus).find? fun s => !isSku runtime s with
  | some bad => ⟨[], .error (.valueError bad)⟩
  | none =>
      if (wanted skus).isEmpty then ⟨[], .ok Dict.empty⟩
      else if key.all fun key => key = "" then
        ⟨[], .error (.runtimeError "bestbuy lookup failed: no key")⟩
      else lookupLoop runtime outcomes 0 (batches (wanted skus)) Dict.empty

end Batches

/-! ## The batches -/

theorem mem_wanted {skus : List String} {s : String} : s ∈ wanted skus ↔ s ∈ skus := by
  have hkeys : s ∈ wanted skus ↔ s ∈ Dict.ofPairs (skus.map fun s => (s, ())) := Iff.rfl
  rw [hkeys, Dict.mem_ofPairs]
  simp

theorem nodup_wanted (skus : List String) : (wanted skus).Nodup :=
  (Dict.ofPairs (skus.map fun s => (s, ()))).nodup_keys

theorem batches_of_ne_nil {skus : List String} (h : skus ≠ []) :
    batches skus = skus.take 100 :: batches (skus.drop 100) := by
  have hlength : 1 ≤ skus.length := List.length_pos_iff.2 h
  have hcount : (skus.length + 99) / 100 = ((skus.drop 100).length + 99) / 100 + 1 := by
    rw [List.length_drop]
    omega
  rw [batches, batches, hcount, List.range_succ_eq_map, List.map_cons, List.map_map]
  congr 1
  apply List.map_congr_left
  intro i _
  rw [Function.comp_apply, List.drop_drop]
  congr 2
  omega

/-- Every SKU is in one batch, and a batch holds a hundred at most. -/
structure InBatches (skus : List String) (bs : List (List String)) : Prop where
  nodup : bs.flatten.Nodup
  covers : ∀ s, s ∈ bs.flatten ↔ s ∈ skus
  small : ∀ batch ∈ bs, batch.length ≤ 100

theorem flatten_batches (skus : List String) : (batches skus).flatten = skus := by
  induction hlength : skus.length using Nat.strong_induction_on generalizing skus with
  | _ n ih =>
      by_cases hskus : skus = []
      · rw [hskus]
        rfl
      · have hpos : 1 ≤ skus.length := List.length_pos_iff.2 hskus
        have hrest : (skus.drop 100).length < n := by
          rw [List.length_drop]
          omega
        rw [batches_of_ne_nil hskus, List.flatten_cons, ih _ hrest _ rfl, List.take_append_drop]

theorem inBatches (skus : List String) : InBatches skus (batches (wanted skus)) where
  nodup := by
    rw [flatten_batches]
    exact nodup_wanted skus
  covers s := by
    rw [flatten_batches]
    exact mem_wanted
  small := by
    intro batch hbatch
    obtain ⟨i, -, rfl⟩ := List.mem_map.1 hbatch
    exact List.length_take_le 100 _

/-! ## One answer -/

section Answers

variable {runtime : Runtime}

/-- The products of listings that all can be read. -/
theorem offersOf_eq {offer : Json → Reading} {items : List Json} {products : List LiveProduct}
    (h : offersOf offer items = some products) :
    products = items.filterMap fun it => (offer it).join := by
  induction items generalizing products with
  | nil =>
      obtain rfl := Option.some.inj h
      rfl
  | cons it rest ih =>
      obtain ⟨found, hfound, hmore⟩ := Option.bind_eq_some_iff.1 h
      obtain ⟨more, hrest, hproducts⟩ := Option.bind_eq_some_iff.1 hmore
      obtain rfl := Option.some.inj hproducts
      rw [ih hrest, List.filterMap_cons, hfound]
      cases found with
      | none => rfl
      | some product => rfl

/-- Listings can be read together if each of them can. -/
theorem offersOf_isSome_iff {offer : Json → Reading} {items : List Json} :
    (offersOf offer items).isSome = true ↔ ∀ it ∈ items, (offer it).isSome = true := by
  induction items with
  | nil => simp [offersOf]
  | cons it rest ih =>
      rw [List.forall_mem_cons, ← ih, offersOf]
      cases offer it with
      | none => simp
      | some found => cases offersOf offer rest <;> simp

/-- A request that failed: with a network error, or with a status that is not 200. -/
def Failed : Outcome → Prop
  | .failed _ => True
  | .answered status _ => status ≠ 200

variable (runtime) in
/-- An answer that can be read: its listings are gone over, and none of them raises. -/
def Readable : Outcome → Prop
  | .failed _ => False
  | .answered status body => status = 200 ∧ (pricedProducts runtime body).isSome = true

/-- The products list that an answer carries. -/
def productList : Outcome → Option (List Json)
  | .answered 200 (some (.obj entries)) =>
      match Json.value? entries "products" with
      | some (.arr items) => some items
      | _ => none
  | _ => none

/-- A priced product with its SKU. -/
def keyed (x : LiveProduct) : Option (String × LiveProduct) :=
  (x.sku.filter fun sku => sku ≠ "").map fun sku => (sku, x)

theorem foldl_addFound (products : List LiveProduct) (found : Dict String LiveProduct) :
    products.foldl addFound found =
      (products.filterMap keyed).foldl (fun d pair => d.set pair.1 pair.2) found := by
  induction products generalizing found with
  | nil => rfl
  | cons x products ih =>
      rw [List.foldl_cons, ih, List.filterMap_cons]
      cases hsku : x.sku with
      | none =>
          have hkeyed : keyed x = none := by rw [keyed, hsku, Option.filter_none, Option.map_none]
          have hadd : addFound found x = found := by rw [addFound, hsku]
          rw [hkeyed, hadd]
      | some sku =>
          by_cases hempty : sku = ""
          · have hkeyed : keyed x = none := by simp [keyed, hsku, hempty]
            have hadd : addFound found x = found := by simp [addFound, hsku, hempty]
            rw [hkeyed, hadd]
          · have hkeyed : keyed x = some (sku, x) := by simp [keyed, hsku, hempty]
            have hadd : addFound found x = found.set sku x := by simp [addFound, hsku, hempty]
            rw [hkeyed, hadd, List.foldl_cons]

variable (runtime) in
/-- The products of an answer, none where it is no answer. -/
def answered (outcome : Outcome) : List LiveProduct :=
  match answerBatch runtime outcome with
  | .ok products => products
  | .error _ => []

theorem answerBatch_of_readable {outcome : Outcome} (h : Readable runtime outcome) :
    answerBatch runtime outcome = .ok (answered runtime outcome) := by
  cases outcome with
  | failed error => exact h.elim
  | answered status body =>
      obtain ⟨rfl, hbody⟩ := h
      obtain ⟨products, hproducts⟩ := Option.isSome_iff_exists.1 hbody
      have hanswer : answerBatch runtime (.answered 200 body) = .ok products := by
        simp [answerBatch, hproducts]
      rw [answered, hanswer]

theorem readable_of_answerBatch {outcome : Outcome} {products : List LiveProduct}
    (h : answerBatch runtime outcome = .ok products) : Readable runtime outcome := by
  cases outcome with
  | failed error => cases h
  | answered status body =>
      rw [answerBatch] at h
      split_ifs at h with hstatus
      cases hbody : pricedProducts runtime body with
      | none =>
          rw [hbody] at h
          cases h
      | some found => exact ⟨not_not.1 hstatus, by rw [hbody]; rfl⟩

theorem answerBatch_of_failed {outcome : Outcome} (h : Failed outcome) :
    ∃ text, answerBatch runtime outcome = .error (.runtimeError text) := by
  cases outcome with
  | failed error => exact ⟨_, rfl⟩
  | answered status body =>
      have hstatus : status ≠ 200 := h
      exact ⟨_, by rw [answerBatch, if_pos hstatus]⟩

theorem answerBatch_of_unread {outcome : Outcome} (hread : ¬Readable runtime outcome)
    (hfailed : ¬Failed outcome) : answerBatch runtime outcome = .error .unconverted := by
  cases outcome with
  | failed error => exact absurd trivial hfailed
  | answered status body =>
      have hstatus : status = 200 := not_not.1 hfailed
      have hnone : pricedProducts runtime body = none := by
        by_contra hsome
        exact hread ⟨hstatus, Option.isSome_iff_ne_none.2 hsome⟩
      simp [answerBatch, hstatus, hnone]

/-- What an answer with a products list gives. -/
theorem answered_eq {outcome : Outcome} {items : List Json} (hread : Readable runtime outcome)
    (hitems : productList outcome = some items) :
    answered runtime outcome =
      items.filterMap fun it => (bestBuyProduct runtime "" it).join := by
  have hanswer := answerBatch_of_readable hread
  revert hanswer
  generalize answered runtime outcome = products
  intro hanswer
  unfold productList at hitems
  split at hitems
  · rename_i entries
    split at hitems
    · rename_i list hlist
      obtain rfl := Option.some.inj hitems
      have hpriced : pricedProducts runtime (some (.obj entries)) =
          offersOf (bestBuyProduct runtime "") list := by
        simp [pricedProducts, productsIn, Json.getD, hlist, Json.iterate]
      rw [answerBatch, if_neg (by simp), hpriced] at hanswer
      cases hoffers : offersOf (bestBuyProduct runtime "") list with
      | none =>
          rw [hoffers] at hanswer
          cases hanswer
      | some found =>
          rw [hoffers] at hanswer
          obtain rfl := Except.ok.inj hanswer
          exact offersOf_eq hoffers
    · cases hitems
  · cases hitems

/-! ## The loop -/

/-- A loop over answers that can be read goes over all batches. -/
theorem lookupLoop_of_readable {outcomes : ℕ → Outcome} {bs : List (List String)} {i : ℕ}
    (found : Dict String LiveProduct)
    (h : ∀ j < bs.length, Readable runtime (outcomes (i + j))) :
    lookupLoop runtime outcomes i bs found =
      ⟨bs, .ok (((List.range bs.length).flatMap fun j =>
        answered runtime (outcomes (i + j))).foldl addFound found)⟩ := by
  induction bs generalizing i found with
  | nil => rfl
  | cons batch rest ih =>
      have hfirst := answerBatch_of_readable (h 0 (Nat.succ_pos _))
      have hrest : ∀ j < rest.length, Readable runtime (outcomes (i + 1 + j)) := by
        intro j hj
        have hnext := h (j + 1) (Nat.succ_lt_succ hj)
        rwa [show i + (j + 1) = i + 1 + j by omega] at hnext
      have hmore := ih ((answered runtime (outcomes i)).foldl addFound found) hrest
      have hshift : ((List.range rest.length).flatMap fun j =>
          answered runtime (outcomes (i + (j + 1)))) =
          (List.range rest.length).flatMap fun j => answered runtime (outcomes (i + 1 + j)) := by
        congr 1
        funext j
        rw [show i + (j + 1) = i + 1 + j by omega]
      rw [Nat.add_zero] at hfirst
      rw [lookupLoop, hfirst]
      simp only [hmore, List.length_cons, List.range_succ_eq_map, List.flatMap_cons,
        List.flatMap_map, Nat.succ_eq_add_one, List.foldl_append, Nat.add_zero, hshift]

/-- A loop ends at the first answer that cannot be read. -/
theorem lookupLoop_of_unread {outcomes : ℕ → Outcome} {e : LookupError}
    {bs : List (List String)} {i k : ℕ} (found : Dict String LiveProduct) (hk : k < bs.length)
    (h : ∀ j < k, Readable runtime (outcomes (i + j)))
    (he : answerBatch runtime (outcomes (i + k)) = .error e) :
    lookupLoop runtime outcomes i bs found = ⟨bs.take (k + 1), .error e⟩ := by
  induction bs generalizing i k found with
  | nil => exact absurd hk (Nat.not_lt_zero k)
  | cons batch rest ih =>
      cases k with
      | zero =>
          rw [Nat.add_zero] at he
          rw [lookupLoop, he]
          rfl
      | succ k =>
          have hfirst := answerBatch_of_readable (h 0 (Nat.succ_pos _))
          rw [Nat.add_zero] at hfirst
          have hrest : ∀ j < k, Readable runtime (outcomes (i + 1 + j)) := by
            intro j hj
            have hnext := h (j + 1) (Nat.succ_lt_succ hj)
            rwa [show i + (j + 1) = i + 1 + j by omega] at hnext
          have hlast : answerBatch runtime (outcomes (i + 1 + k)) = .error e := by
            rwa [show i + (k + 1) = i + 1 + k by omega] at he
          have hmore := ih ((answered runtime (outcomes i)).foldl addFound found)
            (Nat.lt_of_succ_lt_succ hk) hrest hlast
          rw [lookupLoop, hfirst]
          simp only [hmore, List.take_succ_cons]

/-! ## Gone or failed -/

variable (runtime) in
/-- The priced products of some listings by their SKUs. -/
def listed (items : List Json) : Dict String LiveProduct :=
  Dict.ofPairs ((items.filterMap fun it => (bestBuyProduct runtime "" it).join).filterMap keyed)

variable (runtime) in
/-- A lookup that tells the SKUs that are gone from those it failed to look up: it raises
`RuntimeError`, or every batch was answered with a products list and the result is what the
lists hold. -/
structure GoneOrFailed (outcomes : ℕ → Outcome) (skus : List String) (lookup : Lookup) :
    Prop where
  batched : ∃ bs, InBatches skus bs ∧ lookup.requests <+: bs ∧
    ∀ found, lookup.result = .ok found → lookup.requests = bs
  settled : (∃ text, lookup.result = .error (.runtimeError text)) ∨
    ∃ items : ℕ → List Json,
      (∀ i < lookup.requests.length, productList (outcomes i) = some (items i)) ∧
      lookup.result = .ok (listed runtime ((List.range lookup.requests.length).flatMap items))

variable (runtime) in
/-- A failed request comes before any answer that cannot be read. -/
def FailsFirst (outcomes : ℕ → Outcome) (n : ℕ) : Prop :=
  ∃ i < n, (∀ j < i, Readable runtime (outcomes j)) ∧ Failed (outcomes i)

variable (runtime) in
/-- Every answer can be read and carries a products list. -/
def AllListed (outcomes : ℕ → Outcome) (n : ℕ) : Prop :=
  ∀ i < n, Readable runtime (outcomes i) ∧ (productList (outcomes i)).isSome = true

/-- All answers can be read, or there is a first one that cannot. -/
theorem readable_or_first (outcomes : ℕ → Outcome) (n : ℕ) :
    (∀ i < n, Readable runtime (outcomes i)) ∨
      ∃ k < n, (∀ j < k, Readable runtime (outcomes j)) ∧ ¬Readable runtime (outcomes k) := by
  induction n with
  | zero => exact Or.inl fun i hi => absurd hi (Nat.not_lt_zero i)
  | succ n ih =>
      rcases ih with hall | ⟨k, hk, hbefore, hunread⟩
      · by_cases hlast : Readable runtime (outcomes n)
        · left
          intro i hi
          rcases Nat.lt_succ_iff_lt_or_eq.1 hi with hlt | rfl
          · exact hall i hlt
          · exact hlast
        · exact Or.inr ⟨n, Nat.lt_succ_self n, hall, hlast⟩
      · exact Or.inr ⟨k, Nat.lt_succ_of_lt hk, hbefore, hunread⟩

/-- A failed request cannot be read. -/
theorem not_readable_of_failed {outcome : Outcome} (h : Failed outcome) :
    ¬Readable runtime outcome := by
  intro hread
  cases outcome with
  | failed error => exact hread
  | answered status body => exact h hread.1

/-- The first answer that cannot be read is the first failed request, if there is one before
any other that cannot be read. -/
theorem failed_of_failsFirst {outcomes : ℕ → Outcome} {n k : ℕ}
    (h : FailsFirst runtime outcomes n) (hbefore : ∀ j < k, Readable runtime (outcomes j))
    (hunread : ¬Readable runtime (outcomes k)) : Failed (outcomes k) := by
  obtain ⟨i, -, hread, hfailed⟩ := h
  rcases Nat.lt_trichotomy i k with hlt | rfl | hgt
  · exact absurd (hbefore i hlt) (not_readable_of_failed hfailed)
  · exact hfailed
  · exact absurd (hread k hgt) hunread

/-- The products of answers that carry their lists. -/
theorem foldl_answered {outcomes : ℕ → Outcome} {items : ℕ → List Json} {n : ℕ}
    (hread : ∀ i < n, Readable runtime (outcomes i))
    (hitems : ∀ i < n, productList (outcomes i) = some (items i)) :
    ((List.range n).flatMap fun j => answered runtime (outcomes j)).foldl addFound Dict.empty =
      listed runtime ((List.range n).flatMap items) := by
  have hproducts : ((List.range n).flatMap fun j => answered runtime (outcomes j)) =
      ((List.range n).flatMap items).filterMap fun it =>
        (bestBuyProduct runtime "" it).join := by
    rw [List.filterMap_flatMap]
    apply List.flatMap_congr
    intro i hi
    have hlt : i < n := List.mem_range.1 hi
    exact answered_eq (hread i hlt) (hitems i hlt)
  rw [foldl_addFound, hproducts]
  rfl

theorem find?_bad_eq_none_iff {skus : List String} :
    ((wanted skus).find? fun s => !isSku runtime s) = none ↔
      ∀ s ∈ skus, isSku runtime s = true := by
  simp [List.find?_eq_none, mem_wanted]

/-- A lookup of SKUs goes over the batches, if there is a key. -/
theorem lookupSkus_eq {key : Option String} {outcomes : ℕ → Outcome} {skus : List String}
    (hskus : ∀ s ∈ skus, isSku runtime s = true) (hkey : key.all (fun key => key = "") = false) :
    lookupSkus runtime key outcomes skus =
      lookupLoop runtime outcomes 0 (batches (wanted skus)) Dict.empty := by
  rw [lookupSkus, find?_bad_eq_none_iff.2 hskus]
  cases hwanted : wanted skus with
  | nil => rfl
  | cons s rest =>
      rw [hkey]
      rfl

/-- Without a key nothing is requested, and it is an error if there is an SKU. -/
theorem goneOrFailed_of_no_key {key : Option String} {outcomes : ℕ → Outcome}
    {skus : List String} (hskus : ∀ s ∈ skus, isSku runtime s = true)
    (hkey : key.all (fun key => key = "") = true) :
    GoneOrFailed runtime outcomes skus (lookupSkus runtime key outcomes skus) := by
  have hbatches := inBatches skus
  rw [lookupSkus, find?_bad_eq_none_iff.2 hskus]
  cases hwanted : wanted skus with
  | nil =>
      rw [hwanted] at hbatches
      exact ⟨⟨_, hbatches, List.nil_prefix, fun _ _ => rfl⟩,
        Or.inr ⟨fun _ => [], fun i hi => absurd hi (Nat.not_lt_zero i), rfl⟩⟩
  | cons s rest =>
      rw [hkey]
      exact ⟨⟨_, hbatches, List.nil_prefix, fun found hfound => by cases hfound⟩,
        Or.inl ⟨_, rfl⟩⟩

/-- With a key, a lookup tells what is gone from what failed exactly if it is raised for a
failed request or every answer carries its list. -/
theorem goneOrFailed_of_key {key : Option String} {outcomes : ℕ → Outcome}
    {skus : List String} (hskus : ∀ s ∈ skus, isSku runtime s = true)
    (hkey : key.all (fun key => key = "") = false) :
    GoneOrFailed runtime outcomes skus (lookupSkus runtime key outcomes skus) ↔
      FailsFirst runtime outcomes (batches (wanted skus)).length ∨
        AllListed runtime outcomes (batches (wanted skus)).length := by
  have hbatches := inBatches skus
  rw [lookupSkus_eq hskus hkey]
  generalize batches (wanted skus) = bs at hbatches
  rcases @readable_or_first runtime outcomes bs.length with
    hall | ⟨k, hk, hbefore, hunread⟩
  · -- Every answer can be read, and the loop returns.
    have hloop := lookupLoop_of_readable (i := 0) Dict.empty fun j hj => by
      rw [Nat.zero_add]
      exact hall j hj
    simp only [Nat.zero_add] at hloop
    rw [hloop]
    constructor
    · intro h
      obtain ⟨text, htext⟩ | ⟨items, hitems, -⟩ := h.settled
      · cases htext
      · right
        intro i hi
        exact ⟨hall i hi, Option.isSome_iff_exists.2 ⟨items i, hitems i hi⟩⟩
    · intro h
      have hlists : AllListed runtime outcomes bs.length := by
        rcases h with ⟨i, hi, -, hfailed⟩ | hlists
        · exact absurd (hall i hi) (not_readable_of_failed hfailed)
        · exact hlists
      have hitems : ∀ i < bs.length,
          productList (outcomes i) = some ((productList (outcomes i)).getD []) := by
        intro i hi
        obtain ⟨items, heq⟩ := Option.isSome_iff_exists.1 (hlists i hi).2
        rw [heq]
        rfl
      exact ⟨⟨bs, hbatches, List.prefix_refl bs, fun _ _ => rfl⟩,
        Or.inr ⟨fun i => (productList (outcomes i)).getD [], hitems,
          congrArg Except.ok (foldl_answered hall hitems)⟩⟩
  · -- The loop ends at the first answer that cannot be read.
    have hbefore' : ∀ j < k, Readable runtime (outcomes (0 + j)) := fun j hj => by
      rw [Nat.zero_add]
      exact hbefore j hj
    constructor
    · intro h
      by_cases hfailed : Failed (outcomes k)
      · exact Or.inl ⟨k, hk, hbefore, hfailed⟩
      · have hanswer := answerBatch_of_unread hunread hfailed
        rw [lookupLoop_of_unread Dict.empty hk hbefore' (by rwa [Nat.zero_add])] at h
        obtain ⟨text, htext⟩ | ⟨items, -, hresult⟩ := h.settled
        · cases htext
        · cases hresult
    · intro h
      have hfailed : Failed (outcomes k) := by
        rcases h with hfirst | hlists
        · exact failed_of_failsFirst hfirst hbefore hunread
        · exact absurd (hlists k hk).1 hunread
      obtain ⟨text, hanswer⟩ := @answerBatch_of_failed runtime _ hfailed
      rw [lookupLoop_of_unread Dict.empty hk hbefore' (by rwa [Nat.zero_add])]
      exact ⟨⟨bs, hbatches, List.take_prefix _ bs, fun found hfound => by cases hfound⟩,
        Or.inl ⟨text, rfl⟩⟩

/-- A lookup tells what is gone from what failed exactly if there is no key, or a failed
request comes before any answer that cannot be read, or every answer can be read and carries
a products list. -/
theorem gone_or_failed_iff {skus : List String} (hskus : ∀ s ∈ skus, isSku runtime s = true)
    (key : Option String) (outcomes : ℕ → Outcome) :
    GoneOrFailed runtime outcomes skus (lookupSkus runtime key outcomes skus) ↔
      key.all (fun key => key = "") = true ∨
        FailsFirst runtime outcomes (batches (wanted skus)).length ∨
        AllListed runtime outcomes (batches (wanted skus)).length := by
  cases hkey : key.all fun key => key = "" with
  | true => exact ⟨fun _ => Or.inl rfl, fun _ => goneOrFailed_of_no_key hskus hkey⟩
  | false =>
      rw [goneOrFailed_of_key hskus hkey]
      simp

/-- One SKU, answered with a list of one television. -/
theorem gone_or_failed_iff_television :
    GoneOrFailed plainRuntime
        (fun _ => .answered 200 (some (.obj [("products", .arr [.obj [("sku", .int 1),
          ("name", .str "TV"), ("salePrice", .int 100)]])]))) ["1"]
        (lookupSkus plainRuntime (some "k")
          (fun _ => .answered 200 (some (.obj [("products", .arr [.obj [("sku", .int 1),
            ("name", .str "TV"), ("salePrice", .int 100)]])]))) ["1"]) := by
  refine (gone_or_failed_iff (by decide +kernel) _ _).2 (Or.inr (Or.inr fun i _ => ?_))
  exact ⟨⟨rfl, by decide +kernel⟩, rfl⟩

/-- An answer without a products list is taken for one without products, and a body that is
no JSON raises something else than `RuntimeError`. -/
theorem failed_taken_for_gone :
    ¬GoneOrFailed plainRuntime (fun _ => .answered 200 (some (.obj []))) ["1"]
        (lookupSkus plainRuntime (some "k") (fun _ => .answered 200 (some (.obj []))) ["1"]) ∧
      ¬GoneOrFailed plainRuntime (fun _ => .answered 200 none) ["1"]
        (lookupSkus plainRuntime (some "k") (fun _ => .answered 200 none) ["1"]) := by
  constructor
  · intro h
    rcases h.settled with ⟨text, htext⟩ | ⟨items, hitems, -⟩
    · cases htext
    · have hitem := hitems 0 (by decide +kernel)
      cases hitem
  · intro h
    rcases h.settled with ⟨text, htext⟩ | ⟨items, -, hresult⟩
    · cases htext
    · cases hresult

end Answers

end DealFinder.Feeds
