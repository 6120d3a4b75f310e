/-
# The enabled sources

Every search asks `enabled_sources` for its clients: all of them, or those that a list names. It
decides what may be called from the environment alone. A metered client is available only where the
paid ones were turned on, and production takes a list of launch sources or raises.

`called_governed` says this of the sources that a search calls, whatever the breaker has benched and
whatever the services answer; `streamSearch_congr` says that no other client has any influence on a
stream. Which lists production takes is `production_enabled_iff`.
-/

import DealFinder.Pipeline.Stream
import DealFinder.Shop.Calls
import DealFinder.Shop.Features

namespace DealFinder.Shop

open DealFinder.Math DealFinder.Features DealFinder.Feeds DealFinder.Pipeline

/-! ## The clients -/

/-- `os.getenv`. -/
abbrev Getenv := String → Option String

/-- `bool(os.getenv(key))`. -/
def isSet (getenv : Getenv) (key : String) : Bool := (getenv key).any (· ≠ "")

/-- `_paid_ok`. -/
def paidOk (getenv : Getenv) : Bool := getenv "DEALFINDER_ENABLE_PAID_SOURCES" = some "1"

/-- `DEALFINDER_ENV=production`. -/
def isProduction (getenv : Getenv) : Bool := getenv "DEALFINDER_ENV" = some "production"

/-- What the class of a client declares. -/
structure Client where
  name : String
  tier : Option ℤ
  fallbackOnly : Option Bool
  metered : Option Bool
  available : Getenv → Bool

/-- Is the service paid for? -/
def Client.isMetered (c : Client) : Bool := c.metered.getD false

/-- `RapidApiSource`. -/
def rapidApi : Client := ⟨"RapidAPI", some 1, none, none, fun getenv => isSet getenv "RAPIDAPI_KEY"⟩

/-- `BestBuySource`. -/
def bestBuy : Client :=
  ⟨"BestBuy", some 1, none, none, fun getenv => isSet getenv "BESTBUY_API_KEY"⟩

/-- `AmazonSource`. -/
def amazon : Client :=
  ⟨"Amazon", some 2, none, some true, fun getenv => isSet getenv "APIFY_TOKEN" && paidOk getenv⟩

/-- `ApifySource`. -/
def apify : Client :=
  ⟨"Apify", some 2, none, some true, fun getenv => isSet getenv "APIFY_TOKEN" && paidOk getenv⟩

/-- `ShopifySource`. -/
def shopify : Client := ⟨"Shopify", some 3, none, none, fun _ => true⟩

/-- `FirecrawlSource`. -/
def firecrawl : Client :=
  ⟨"Firecrawl", some 3, none, some true,
    fun getenv => isSet getenv "FIRECRAWL_API_KEY" && paidOk getenv⟩

/-- `ItunesSource`. -/
def itunes : Client := ⟨"iTunes", none, some true, none, fun _ => true⟩

/-- `EBAY`. -/
def ebay : Client :=
  ⟨"eBay", some 1, none, none,
    fun getenv => isSet getenv "EBAY_APP_ID" && isSet getenv "EBAY_CERT_ID"⟩

/-- `LIVE_SOURCES`. -/
def liveSources : List Client :=
  [rapidApi, bestBuy, amazon, apify, shopify, firecrawl, itunes]

/-- A metered client is available only where the paid ones were turned on. -/
theorem paidOk_of_available {getenv : Getenv} {c : Client} (hc : c ∈ liveSources)
    (hmetered : c.isMetered = true) (havailable : c.available getenv = true) :
    paidOk getenv = true := by
  simp only [liveSources, List.mem_cons, List.not_mem_nil, or_false] at hc
  rcases hc with rfl | rfl | rfl | rfl | rfl | rfl | rfl
  · cases hmetered
  · cases hmetered
  · exact (Bool.and_eq_true_iff.1 havailable).2
  · exact (Bool.and_eq_true_iff.1 havailable).2
  · cases hmetered
  · exact (Bool.and_eq_true_iff.1 havailable).2
  · cases hmetered

/-! ## The list of names -/

/-- `[n.strip() for n in raw.split(",") if n.strip()]`. -/
def askedNames (raw : String) : List String :=
  ((raw.toList.splitOn ',').map fun part => strip (String.ofList part)).filter (· ≠ "")

/-- The names in the argument of `enabled_sources`, or else in the environment. -/
def namesAsked (getenv : Getenv) (names : Option String) : List String :=
  askedNames (names.getD ((getenv "DEALFINDER_SOURCES").getD ""))

section Enabled

variable (unicode : Unicode) (getenv : Getenv) (names : Option String)

/-- The body of the loop over the names. -/
def checkName (name : String) : Except String Unit :=
  if unicode.lower name = unicode.lower ebay.name then
    .error "eBay is served only by shop.ebay_box"
  else if unicode.lower name ∉ liveSources.map fun src => unicode.lower src.name then
    .error ("unknown source: " ++ name)
  else .ok ()

/-- The body of the loop over the sources chosen in production. -/
def checkLaunch (src : Client) : Except String Unit :=
  if (policyFor src.name).any SourcePolicy.launch then .ok ()
  else .error ("not a launch source: " ++ src.name)

/-- `chosen`. -/
def chosenSources (asked : List String) : List Client :=
  liveSources.filter fun src => unicode.lower src.name ∈ asked.map unicode.lower

/-- `enabled_sources`. An error has the text of its `ValueError`. -/
def enabledSources : Except String (List Client) :=
  let asked := namesAsked getenv names
  if asked = [] then
    if isProduction getenv then .error "DEALFINDER_SOURCES must be set in production"
    else .ok liveSources
  else do
    asked.forM (checkName unicode)
    let chosen := chosenSources unicode asked
    if isProduction getenv then chosen.forM checkLaunch
    return chosen

/-- `_live_data`. -/
def liveData : Bool :=
  match enabledSources unicode getenv none with
  | .ok clients => clients.any fun src => src.available getenv
  | .error _ => false

/-- `sources`: what `/sources` answers. -/
def sourcesReport : Except String (Dict String Bool) :=
  (enabledSources unicode getenv none).map fun clients =>
    (Dict.ofPairs (clients.map fun src => (src.name, src.available getenv))).set ebay.name
      (ebay.available getenv)

end Enabled

/-! ## What is chosen -/

section Chosen

variable {unicode : Unicode} {getenv : Getenv} {names : Option String} {clients : List Client}

/-- The checks of a loop pass when the check of each item does. -/
theorem forM_eq_ok_iff {α ε : Type*} {check : α → Except ε Unit} {items : List α} :
    items.forM check = .ok () ↔ ∀ x ∈ items, check x = .ok () := by
  induction items with
  | nil => exact ⟨fun _ x hx => absurd hx List.not_mem_nil, fun _ => rfl⟩
  | cons x items ih =>
      rw [List.forall_mem_cons, ← ih]
      change (check x >>= fun _ => items.forM check) = .ok () ↔ _
      cases hx : check x with
      | error why => exact ⟨fun h => (nomatch h), fun h => (nomatch h.1)⟩
      | ok _ => exact ⟨fun h => ⟨rfl, h⟩, fun h => h.2⟩

theorem checkName_eq_ok_iff {name : String} : checkName unicode name = .ok () ↔
    unicode.lower name ≠ unicode.lower ebay.name ∧
      ∃ src ∈ liveSources, unicode.lower src.name = unicode.lower name := by
  rw [← List.mem_map, checkName]
  split_ifs with hebay hknown
  · exact ⟨fun h => (nomatch h), fun h => absurd hebay h.1⟩
  · exact ⟨fun _ => ⟨hebay, hknown⟩, fun _ => rfl⟩
  · exact ⟨fun h => (nomatch h), fun h => absurd h.2 hknown⟩

/-- Best Buy is the one live source that is on at launch. -/
theorem checkLaunch_eq_ok_iff {src : Client} (hsrc : src ∈ liveSources) :
    checkLaunch src = .ok () ↔ src = bestBuy := by
  constructor
  · intro h
    simp only [liveSources, List.mem_cons, List.not_mem_nil, or_false] at hsrc
    rcases hsrc with rfl | rfl | rfl | rfl | rfl | rfl | rfl
    · cases h
    · rfl
    all_goals cases h
  · rintro rfl
    rfl

theorem mem_chosenSources {src : Client} {asked : List String} :
    src ∈ chosenSources unicode asked ↔
      src ∈ liveSources ∧ ∃ name ∈ asked, unicode.lower src.name = unicode.lower name := by
  rw [chosenSources, List.mem_filter, decide_eq_true_iff, List.mem_map]
  simp only [eq_comm (a := unicode.lower src.name)]

/-- What there is to an answer of `enabled_sources`. -/
theorem enabledSources_eq_ok_iff : enabledSources unicode getenv names = .ok clients ↔
    (namesAsked getenv names = [] ∧ isProduction getenv = false ∧ clients = liveSources) ∨
    (namesAsked getenv names ≠ [] ∧
      (∀ name ∈ namesAsked getenv names, checkName unicode name = .ok ()) ∧
      (isProduction getenv = true →
        ∀ src ∈ chosenSources unicode (namesAsked getenv names), src = bestBuy) ∧
      clients = chosenSources unicode (namesAsked getenv names)) := by
  rw [enabledSources]
  by_cases hasked : namesAsked getenv names = []
  · cases hproduction : isProduction getenv with
    | true => simp [hasked]
    | false => simp [hasked, eq_comm]
  · simp only [hasked, if_false, false_and, not_false_iff, true_and, false_or, ne_eq]
    rw [← forM_eq_ok_iff]
    cases hchecked : (namesAsked getenv names).forM (checkName unicode) with
    | error why => exact ⟨fun h => (nomatch h), fun h => (nomatch h.1)⟩
    | ok _ =>
        have hlaunch : (∀ src ∈ chosenSources unicode (namesAsked getenv names), src = bestBuy) ↔
            (chosenSources unicode (namesAsked getenv names)).forM checkLaunch = .ok () := by
          rw [forM_eq_ok_iff]
          refine forall₂_congr fun src hsrc => ?_
          exact (checkLaunch_eq_ok_iff (mem_chosenSources.1 hsrc).1).symm
        rw [hlaunch]
        cases hproduction : isProduction getenv with
        | false =>
            exact ⟨fun h => ⟨rfl, fun h' => (nomatch h'), (Except.ok.inj h).symm⟩,
              fun h => congrArg Except.ok h.2.2.symm⟩
        | true =>
            cases hall : (chosenSources unicode (namesAsked getenv names)).forM checkLaunch with
            | error why => exact ⟨fun h => (nomatch h), fun h => (nomatch h.2.1 rfl)⟩
            | ok _ =>
                exact ⟨fun h => ⟨rfl, fun _ => rfl, (Except.ok.inj h).symm⟩,
                  fun h => congrArg Except.ok h.2.2.symm⟩

theorem sublist_liveSources (h : enabledSources unicode getenv names = .ok clients) :
    clients.Sublist liveSources := by
  rcases enabledSources_eq_ok_iff.1 h with ⟨-, -, rfl⟩ | ⟨-, -, -, rfl⟩
  · exact List.Sublist.refl _
  · exact List.filter_sublist

/-- A list of names is served as it is asked for: each of the names has its source. -/
theorem asked_served (h : enabledSources unicode getenv names = .ok clients)
    {name : String} (hname : name ∈ namesAsked getenv names) :
    unicode.lower name ≠ unicode.lower ebay.name ∧
      ∃ src ∈ clients, unicode.lower src.name = unicode.lower name := by
  rcases enabledSources_eq_ok_iff.1 h with ⟨hnone, -, -⟩ | ⟨-, hchecked, -, rfl⟩
  · rw [hnone] at hname
    exact absurd hname List.not_mem_nil
  · obtain ⟨hebay, src, hsrc, heq⟩ := checkName_eq_ok_iff.1 (hchecked name hname)
    exact ⟨hebay, src, mem_chosenSources.2 ⟨hsrc, name, hname, heq⟩, heq⟩

theorem nodup_liveSources : (liveSources.map Client.name).Nodup := by decide

/-- Live sources are listed once, so Best Buy alone is one client. -/
theorem eq_bestBuy (hlive : clients.Sublist liveSources) (hne : clients ≠ [])
    (hall : ∀ src ∈ clients, src = bestBuy) : clients = [bestBuy] := by
  have hnodup : (clients.map Client.name).Nodup := (hlive.map Client.name).nodup nodup_liveSources
  rw [List.eq_replicate_of_mem hall] at hnodup ⊢
  rw [List.map_replicate, List.nodup_replicate] at hnodup
  have hpos := List.length_pos_iff.2 hne
  rw [show clients.length = 1 by omega, List.replicate_one]

/-- Production serves Best Buy. -/
theorem eq_bestBuy_of_production (hproduction : isProduction getenv = true)
    (h : enabledSources unicode getenv names = .ok clients) : clients = [bestBuy] := by
  rcases enabledSources_eq_ok_iff.1 h with ⟨-, hother, -⟩ | ⟨hasked, -, hlaunch, rfl⟩
  · rw [hproduction] at hother
    cases hother
  · obtain ⟨name, hname⟩ := List.exists_mem_of_ne_nil _ hasked
    obtain ⟨-, src, hsrc, -⟩ := asked_served h hname
    exact eq_bestBuy (sublist_liveSources h) (List.ne_nil_of_mem hsrc) (hlaunch hproduction)

/-- Text in ASCII is lowered letter by letter. -/
def LowersAscii (unicode : Unicode) : Prop :=
  ∀ s : String, (s.toList.all fun c => c.toNat < 128) = true →
    unicode.lower s = String.ofList (s.toList.map Char.toLower)

/-- No two live sources have names that are one in lower case, nor has eBay the name of one. -/
theorem lower_name_eq_iff (hlower : LowersAscii unicode) {src : Client}
    (hsrc : src ∈ ebay :: liveSources) :
    unicode.lower src.name = "bestbuy" ↔ src = bestBuy := by
  constructor
  · intro h
    simp only [liveSources, List.mem_cons, List.not_mem_nil, or_false] at hsrc
    rcases hsrc with rfl | rfl | rfl | rfl | rfl | rfl | rfl | rfl
    · exact absurd ((hlower _ (by decide)).symm.trans h) (by decide)
    · exact absurd ((hlower _ (by decide)).symm.trans h) (by decide)
    · rfl
    all_goals exact absurd ((hlower _ (by decide)).symm.trans h) (by decide)
  · rintro rfl
    exact hlower _ (by decide)

/-- **Production** takes the lists that name Best Buy, and no other source. -/
theorem production_enabled_iff (hlower : LowersAscii unicode)
    (hproduction : isProduction getenv = true) :
    enabledSources unicode getenv names = .ok clients ↔
      clients = [bestBuy] ∧ namesAsked getenv names ≠ [] ∧
        ∀ name ∈ namesAsked getenv names, unicode.lower name = "bestbuy" := by
  have hbestBuy : unicode.lower bestBuy.name = "bestbuy" := hlower _ (by decide)
  have hmem : bestBuy ∈ liveSources := List.mem_cons_of_mem _ List.mem_cons_self
  constructor
  · intro h
    obtain rfl := eq_bestBuy_of_production hproduction h
    refine ⟨rfl, fun hnone => ?_, fun name hname => ?_⟩
    · rcases enabledSources_eq_ok_iff.1 h with ⟨-, hother, -⟩ | ⟨hasked, -⟩
      · rw [hproduction] at hother
        cases hother
      · exact hasked hnone
    · obtain ⟨-, src, hsrc, heq⟩ := asked_served h hname
      rw [← heq, List.mem_singleton.1 hsrc, hbestBuy]
  · rintro ⟨rfl, hasked, hnames⟩
    have hchosen : ∀ src, src ∈ chosenSources unicode (namesAsked getenv names) ↔
        src = bestBuy := by
      intro src
      rw [mem_chosenSources]
      constructor
      · rintro ⟨hsrc, name, hname, heq⟩
        rw [hnames name hname] at heq
        exact (lower_name_eq_iff hlower (List.mem_cons_of_mem _ hsrc)).1 heq
      · rintro rfl
        obtain ⟨name, hname⟩ := List.exists_mem_of_ne_nil _ hasked
        exact ⟨hmem, name, hname, hbestBuy.trans (hnames name hname).symm⟩
    refine enabledSources_eq_ok_iff.2
      (.inr ⟨hasked, fun name hname => ?_, fun _ src hsrc => ?_, ?_⟩)
    · refine checkName_eq_ok_iff.2 ⟨fun hebay => ?_, bestBuy, hmem, ?_⟩
      · rw [hnames name hname] at hebay
        exact absurd ((lower_name_eq_iff hlower List.mem_cons_self).1 hebay.symm ▸ rfl :
          ebay.name = bestBuy.name) (by decide)
      · rw [hbestBuy, hnames name hname]
    · exact (hchosen src).1 hsrc
    · exact (eq_bestBuy List.filter_sublist (List.ne_nil_of_mem ((hchosen bestBuy).2 rfl))
        fun src hsrc => (hchosen src).1 hsrc).symm

end Chosen

/-! ## What is called -/

/-- A client as `aggregate` takes it, with what the services answer. -/
def Client.toSource (getenv : Getenv) (answer : String → String → Answer) (src : Client) :
    Source where
  name := src.name
  available := src.available getenv
  tier := src.tier
  fallbackOnly := src.fallbackOnly
  search := answer src.name

/-- A client as `_stream_search` takes it, with what `search` returns. -/
def Client.toLiveSource (getenv : Getenv)
    (found : String → String → Option (Option (List CatalogProduct))) (src : Client) :
    LiveSource where
  name := some src.name
  available := some (src.available getenv)
  search := found src.name

section Governed

variable {unicode : Unicode} {getenv : Getenv} {names : Option String} {clients : List Client}

/-- What a search calls is available, and paid for where that was turned on. -/
theorem called_governed (h : enabledSources unicode getenv names = .ok clients)
    {services : Services} {settings : Settings} {query : String}
    {answer : String → String → Answer} {s : Source}
    (hs : s ∈ called services settings query (clients.map (·.toSource getenv answer))) :
    ∃ src ∈ clients, s = src.toSource getenv answer ∧ src.available getenv = true ∧
      (src.isMetered = true → paidOk getenv = true) := by
  obtain ⟨hmem, havailable, -⟩ := mem_usable.1 (mem_called_iff.1 hs).1
  obtain ⟨src, hsrc, rfl⟩ := List.mem_map.1 hmem
  exact ⟨src, hsrc, rfl, havailable, fun hmetered =>
    paidOk_of_available ((sublist_liveSources h).subset hsrc) hmetered havailable⟩

/-- A stream is the same, whatever the sources that are not available would find. -/
theorem streamSearch_congr {runtime : Runtime} {raw : Option String} {query : String}
    {found found' : String → String → Option (Option (List CatalogProduct))}
    (h : ∀ src ∈ clients, src.available getenv = true →
      found src.name query = found' src.name query) :
    streamSearch runtime raw query (clients.map (·.toLiveSource getenv found)) =
      streamSearch runtime raw query (clients.map (·.toLiveSource getenv found')) := by
  have hstep : ∀ (state : Streaming), ∀ src ∈ clients,
      sourceStep runtime query state (src.toLiveSource getenv found) =
        sourceStep runtime query state (src.toLiveSource getenv found') := by
    intro state src hsrc
    have hfound : (src.toLiveSource getenv found).found query =
        (src.toLiveSource getenv found').found query := by
      cases havailable : src.available getenv with
      | false => simp [LiveSource.found, Client.toLiveSource, havailable]
      | true =>
          simp only [LiveSource.found, Client.toLiveSource, havailable, h src hsrc havailable]
    rw [sourceStep, sourceStep, hfound]
    rfl
  have hfold : (clients.map (·.toLiveSource getenv found)).foldl (sourceStep runtime query)
        ⟨Dict.empty, []⟩ =
      (clients.map (·.toLiveSource getenv found')).foldl (sourceStep runtime query)
        ⟨Dict.empty, []⟩ := by
    rw [List.foldl_map, List.foldl_map]
    exact List.foldl_ext _ _ _ fun state src hsrc => hstep state src hsrc
  rw [streamSearch, streamSearch, hfold]

/-- `/sources` tells of each client whether it is available. -/
theorem get?_sourcesReport (h : enabledSources unicode getenv none = .ok clients)
    {report : Dict String Bool} (hreport : sourcesReport unicode getenv = .ok report)
    {src : Client} (hsrc : src ∈ ebay :: clients) :
    report.get? src.name = some (src.available getenv) := by
  rw [sourcesReport, h] at hreport
  obtain rfl := Except.ok.inj hreport
  have hlive := sublist_liveSources h
  rcases List.mem_cons.1 hsrc with rfl | hsrc
  · exact Dict.get?_set_self _ _ _
  · have hapart : ebay.name ∉ liveSources.map Client.name := by decide
    have hne : src.name ≠ ebay.name := by
      intro heq
      exact hapart (heq ▸ List.mem_map_of_mem (hlive.subset hsrc))
    rw [Dict.get?_set_of_ne _ _ hne]
    refine Dict.get?_ofPairs_of_mem ?_ (List.mem_map_of_mem hsrc)
    rw [List.map_map]
    exact (hlive.map Client.name).nodup nodup_liveSources

/-- What there is to the sources that a search asks for. -/
structure Governed (unicode : Unicode) (getenv : Getenv) (names : Option String)
    (clients : List Client) : Prop where
  live : clients.Sublist liveSources
  asked : namesAsked getenv names ≠ [] → ∀ src ∈ liveSources,
    src ∈ clients ↔ ∃ name ∈ namesAsked getenv names, unicode.lower src.name = unicode.lower name
  served : ∀ name ∈ namesAsked getenv names, unicode.lower name ≠ unicode.lower ebay.name ∧
    ∃ src ∈ clients, unicode.lower src.name = unicode.lower name
  production : isProduction getenv = true → clients = [bestBuy]
  calls : ∀ services settings query answer,
    ∀ s ∈ called services settings query (clients.map (·.toSource getenv answer)),
      ∃ src ∈ clients, s = src.toSource getenv answer ∧ src.available getenv = true ∧
        (src.isMetered = true → paidOk getenv = true)
  quiet : names = none → liveData unicode getenv = false → ∀ services settings query answer,
    called services settings query (clients.map (·.toSource getenv answer)) = []
  report : names = none → ∀ report, sourcesReport unicode getenv = .ok report →
    ∀ src ∈ ebay :: clients, report.get? src.name = some (src.available getenv)
  streams : ∀ runtime raw query found found',
    (∀ src ∈ clients, src.available getenv = true → (src.isMetered = true → paidOk getenv = true) →
      found src.name query = found' src.name query) →
    streamSearch runtime raw query (clients.map (·.toLiveSource getenv found)) =
      streamSearch runtime raw query (clients.map (·.toLiveSource getenv found'))

/-- **The enabled sources**, of every list and environment that has some. -/
theorem enabled_governed (h : enabledSources unicode getenv names = .ok clients) :
    Governed unicode getenv names clients where
  live := sublist_liveSources h
  asked hasked src hsrc := by
    rcases enabledSources_eq_ok_iff.1 h with ⟨hnone, -⟩ | ⟨-, -, -, rfl⟩
    · exact absurd hnone hasked
    · rw [mem_chosenSources, and_iff_right hsrc]
  served name hname := asked_served h hname
  production hproduction := eq_bestBuy_of_production hproduction h
  calls services settings query answer s hs := called_governed h hs
  quiet hnames hquiet services settings query answer := by
    subst hnames
    rw [liveData, h] at hquiet
    refine List.eq_nil_iff_forall_not_mem.2 fun s hs => ?_
    obtain ⟨src, hsrc, -, havailable, -⟩ := called_governed h hs
    exact List.any_eq_false.1 hquiet src hsrc havailable
  report hnames report hreport src hsrc := by
    subst hnames
    exact get?_sourcesReport h hreport hsrc
  streams runtime raw query found found' hfound :=
    streamSearch_congr fun src hsrc havailable => hfound src hsrc havailable fun hmetered =>
      paidOk_of_available ((sublist_liveSources h).subset hsrc) hmetered havailable

/-- The environment of the launch, with the key of a metered service left in it. -/
def launchEnv : Getenv := fun key =>
  if key = "DEALFINDER_ENV" then some "production"
  else if key = "DEALFINDER_SOURCES" then some " bestbuy,"
  else if key = "APIFY_TOKEN" then some "token"
  else none

theorem enabled_governed_launch : Governed ascii launchEnv none [bestBuy] :=
  enabled_governed ((production_enabled_iff (fun _ _ => rfl) (by decide)).2
    ⟨rfl, by decide, by decide⟩)

end Governed

end DealFinder.Shop
