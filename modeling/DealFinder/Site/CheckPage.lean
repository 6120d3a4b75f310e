/-
# The page of a check

The page "Check a deal" (`CheckForm` and `CheckPage` of the site): a form, the questions under
way, and the card of the last answer. A question goes through the worker to the backend's
`check`, which reads the title and the price again, within limits of its own.

Whatever is typed and answered in whatever order, the card is the answer to the last question,
and nothing old stands beside a new one. The backend refuses a question of the form for its title
alone, where the two measure it differently (`page_sound`).

What JavaScript and the backend make of the texts of numbers is a parameter (`Platform`).
-/

import DealFinder.Edge.Forward
import DealFinder.Feeds.Float
import DealFinder.Shop.Check
import Mathlib.Algebra.Order.BigOperators.Group.List

namespace DealFinder.Site

open Math Edge Shop Feeds

/-- What the platform reads as a number, how it writes one, and what the backend reads. -/
structure Platform where
  number : String → Double
  text : Double → String
  read : String → Option Double

/-- A price that is written is read as it was. -/
def Platform.Agrees (platform : Platform) : Prop :=
  ∀ text x, platform.number text = .finite x → 0 < x →
    platform.read (platform.text (.finite x)) = some (.finite x)

/-! ## The form -/

def titleMin : ℕ := 3
def titleMax : ℕ := 200
def priceMax : ℚ := 50000

/-- `length`: a character past the first 2^16 counts twice. -/
def utf16Length (s : String) : ℕ := (s.toList.map fun c => if c.toNat < 65536 then 1 else 2).sum

/-- What the form says below its fields. -/
structure Errors where
  title : Option String
  price : Option String

/-- What `checkDeal` is called with. -/
structure Question where
  title : String
  price : Double
  deriving DecidableEq

section Form

variable (platform : Platform)

def titleError (title : String) : Option String :=
  let t := Edge.trim title
  if t = "" then some "Enter a product name."
  else if utf16Length t < titleMin then
    some ("Enter a product name of at least " ++ toString titleMin ++ " characters.")
  else none

def priceError (price : String) : Option String :=
  if Edge.trim price = "" then some "Enter a price above $0."
  else
    match platform.number price with
    | .finite p =>
        if p ≤ 0 then some "Enter a price above $0."
        else if priceMax < p then some "Enter a price up to $50,000."
        else none
    | _ => some "Enter a price above $0."

/-- `validate`. -/
def validate (title price : String) : Errors := ⟨titleError title, priceError platform price⟩

theorem title_validate (title price : String) :
    (validate platform title price).title = titleError title := by
  simp only [validate]

theorem price_validate (title price : String) :
    (validate platform title price).price = priceError platform price := by
  simp only [validate]

end Form

/-! ## What a question gets -/

/-- What `fetch` gives: nothing, an answer that is `ok`, which may fail to be JSON, or another
status with the text `detail` of its body. -/
inductive Reply
  | unreachable
  | ok (body : Option Checked)
  | refused (status : ℕ) (detail : Option String)

/-- What `checkDeal` throws: an `ApiError`, or an error of the parser of JSON. -/
inductive Thrown
  | api (status : ℕ) (detail : String)
  | unparsed

/-- `getJson`. -/
def getJson : Reply → Except Thrown Checked
  | .unreachable =>
      .error (.api 0 "Could not reach DealFinder. Check your connection and try again.")
  | .refused status detail =>
      .error (.api status
        (detail.getD ("Something went wrong (HTTP " ++ toString status ++ "). Try again.")))
  | .ok none => .error .unparsed
  | .ok (some r) => .ok r

def messageFor : Thrown → String
  | .unparsed => "Something went wrong. Try again."
  | .api status detail =>
      if status = 422 then "Enter a product name and a price above $0."
      else if status = 429 then "Too many checks in a row. Wait a few seconds and try again."
      else detail

/-! ## The page -/

/-- The state of the form and of the card, and the questions that wait for a reply. -/
structure Page where
  title : String
  price : String
  errors : Errors
  failure : Option String
  busy : Bool
  result : Option Checked
  underway : List Question

/-- The page as it is opened, with a title and a price from its address. -/
def Page.opened (title price : Option String) : Page where
  title := title.getD ""
  price := price.getD ""
  errors := ⟨none, none⟩
  failure := none
  busy := false
  result := none
  underway := []

/-- What happens on the page. -/
inductive Event
  | typeTitle (s : String)
  | typePrice (s : String)
  | submit
  | settle (i : ℕ) (reply : Reply)

section Steps

variable (platform : Platform)

/-- `submit`, up to the call of `checkDeal`. -/
def Page.submit (page : Page) : Option Question × Page :=
  let found := validate platform page.title page.price
  let page := { page with errors := found, failure := none }
  if found.title.isSome || found.price.isSome then (none, page)
  else
    let question : Question := ⟨Edge.trim page.title, platform.number page.price⟩
    (some question, { page with
      result := none
      busy := true
      underway := page.underway ++ [question] })

/-- `submit`, from the reply on. -/
def Page.settle (page : Page) (i : ℕ) (reply : Reply) : Page :=
  if i < page.underway.length then
    let page := { page with busy := false, underway := page.underway.eraseIdx i }
    match getJson reply with
    | .ok r => { page with result := some r }
    | .error thrown => { page with failure := some (messageFor thrown) }
  else page

/-- One step, and the question that it sends. No title is typed past the field's `maxLength`,
and the button of a busy form is disabled, so that nothing submits it. -/
def Page.step (page : Page) : Event → Option Question × Page
  | .typeTitle s =>
      (none, if utf16Length s ≤ max titleMax (utf16Length page.title) then
        { page with title := s } else page)
  | .typePrice s => (none, { page with price := s })
  | .submit => if page.busy then (none, page) else page.submit platform
  | .settle i reply => (none, page.settle i reply)

def pageMachine : Machine Page Event (Option Question) := ⟨Page.step platform⟩

/-- The questions that a run sends. -/
def asked (page : Page) (events : List Event) : List Question :=
  (pageMachine platform).observe (fun _ question => question) page events

end Steps

/-! ## The way to the backend -/

/-- The characters that are stripped off a title. -/
def isUnicodeWhite (c : Char) : Bool :=
  (9 ≤ c.toNat && c.toNat ≤ 13) || (8192 ≤ c.toNat && c.toNat ≤ 8202) ||
    [32, 133, 160, 5760, 8232, 8233, 8239, 8287, 12288].contains c.toNat

def stripped (s : String) : String :=
  String.ofList ((s.toList.dropWhile isUnicodeWhite).reverse.dropWhile isUnicodeWhite).reverse

/-- `CheckTitle`. -/
def checkTitle (s : String) : Option String :=
  let t := stripped s
  if 3 ≤ t.length ∧ t.length ≤ 200 ∧ '\x00' ∉ t.toList then some t else none

section Backend

variable (platform : Platform) (unicode : Features.Unicode) (services : Services)
  (catalog : List Features.Product)

/-- The price of `check`. -/
def checkPrice (s : String) : Option ℚ :=
  match platform.read s with
  | some (.finite x) => if 0 < x ∧ x ≤ 50000 then some x else none
  | _ => none

/-- The parameter of a name. The last of several counts. -/
def queryParam (params : List (String × String)) (name : String) : Option String :=
  (params.reverse.find? fun param => param.1 = name).map Prod.snd

/-- `check`, of a query. `none` is the status 422. -/
def check (query : List Char) : Option Checked := do
  let params ← readForm query
  let title ← checkTitle (← queryParam params "title")
  let price ← checkPrice platform (← queryParam params "price")
  return checkDeal unicode services catalog title price

/-- What `checkDeal` fetches, from a page of the site. -/
def checkRequest (site : Url) (headers : Headers) (question : Question) : Request :=
  let params := [("title", question.title), ("price", platform.text question.price)]
  { method := "GET"
    url := { site with
      pathname := "/api/check"
      search := String.ofList ('?' :: writeForm formText params)
      searchParams := params }
    headers := headers
    body := none }

/-- What the worker fetches of the backend for a request. -/
def forwarded (caseMap : CaseMap) (env : Env) (request : Request) : Option Sent :=
  match (enter caseMap env (init Unit) () request).2.stage () with
  | .fetching _ _ sent => fetched env sent
  | _ => none

/-- What the backend answers to what the worker fetches. -/
def backendAnswer (sent : Sent) : Option Checked :=
  if sent.path = "/check" then check platform unicode services catalog (sent.search.toList.drop 1)
  else none

end Backend

/-- What a page is in front of: the browser's platform, the worker, and the backend. -/
structure Deployed where
  platform : Platform
  page : Url
  headers : Headers
  caseMap : CaseMap
  env : Env
  unicode : Features.Unicode
  services : Services
  catalog : List Features.Product

/-- The origin of the backend is set, and prices are read as they were written. -/
structure Deployed.Works (site : Deployed) : Prop where
  agrees : site.platform.Agrees
  backend : (readUrl site.env.backendOrigin).isSome

/-- What a question fetches. -/
def Deployed.request (site : Deployed) (question : Question) : Request :=
  checkRequest site.platform site.page site.headers question

/-- The backend's answer to a question. -/
def Deployed.answer (site : Deployed) (question : Question) : Option Checked := do
  let sent ← forwarded site.caseMap site.env (site.request question)
  backendAnswer site.platform site.unicode site.services site.catalog sent

/-- The backend's answer to a title that passes its test, and a price. -/
def Deployed.rate (site : Deployed) (title : String) (price : ℚ) : Checked :=
  checkDeal site.unicode site.services site.catalog title price

/-! ## Texts that lose their white space -/

section Strip

variable {p : Char → Bool} {l : List Char} {s : String}

theorem strip_sublist (p : Char → Bool) (l : List Char) :
    List.Sublist ((l.dropWhile p).reverse.dropWhile p).reverse l := by
  have hback := (List.dropWhile_sublist p (l := (l.dropWhile p).reverse)).reverse
  rw [List.reverse_reverse] at hback
  exact hback.trans (List.dropWhile_sublist p)

theorem dropWhile_eq_self (h : ∀ c, l.head? = some c → p c = false) : l.dropWhile p = l := by
  cases l with
  | nil => rfl
  | cons c l => exact List.dropWhile_cons_of_neg (by simp [h c rfl])

/-- White space of the backend is that of the language, but for U+0085. -/
theorem isWhite_of_isUnicodeWhite {c : Char} (hc : c ≠ '\u0085')
    (h : isUnicodeWhite c = true) : isWhite c = true := by
  have hne : c.toNat ≠ 133 := fun heq => hc (Char.toNat_inj.1 heq)
  simp only [isUnicodeWhite, isWhite, Bool.or_eq_true, Bool.and_eq_true, decide_eq_true_eq,
    List.contains_eq_mem, List.mem_cons, List.not_mem_nil, or_false] at h ⊢
  omega

theorem stripped_eq_self (h : Trimmed s.toList) (hplain : '\u0085' ∉ s.toList) :
    stripped s = s := by
  have hinside : ∀ c ∈ s.toList, isWhite c = false → isUnicodeWhite c = false := by
    intro c hc hwhite
    rw [← Bool.not_eq_true]
    intro hunicode
    rw [isWhite_of_isUnicodeWhite (fun heq => hplain (heq ▸ hc)) hunicode] at hwhite
    cases hwhite
  have hfirst : s.toList.dropWhile isUnicodeWhite = s.toList :=
    dropWhile_eq_self fun c hc => hinside c (List.mem_of_mem_head? hc) (h.first c hc)
  have hlast : s.toList.reverse.dropWhile isUnicodeWhite = s.toList.reverse := by
    refine dropWhile_eq_self fun c hc => ?_
    rw [List.head?_reverse] at hc
    exact hinside c (List.mem_of_mem_getLast? hc) (h.last c hc)
  rw [stripped, hfirst, hlast, List.reverse_reverse, String.ofList_toList]

end Strip

/-! ## Lengths -/

section Lengths

variable {s : String}

theorem utf16Length_trim_le (s : String) : utf16Length (Edge.trim s) ≤ utf16Length s := by
  rw [utf16Length, utf16Length, Edge.trim, String.toList_ofList]
  exact List.Sublist.sum_le_sum ((strip_sublist isWhite s.toList).map _) fun _ _ => Nat.zero_le _

theorem utf16Length_eq_length (h : ∀ c ∈ s.toList, c.toNat < 65536) :
    utf16Length s = s.length := by
  have hone : s.toList.map (fun c => if c.toNat < 65536 then 1 else 2) =
      s.toList.map fun _ => 1 :=
    List.map_congr_left fun c hc => if_pos (h c hc)
  rw [utf16Length, hone, List.map_const', List.sum_replicate_nat, String.length_toList, mul_one]

end Lengths

/-! ## What the form lets through -/

/-- A question that the form may send. -/
structure Question.Askable (platform : Platform) (question : Question) : Prop where
  long : titleMin ≤ utf16Length question.title
  trimmed : Trimmed question.title.toList
  priced : ∃ text x, platform.number text = .finite x ∧ question.price = .finite x ∧
    0 < x ∧ x ≤ priceMax

section Askable

variable {platform : Platform} {title price : String}

theorem titleMin_le_of_titleError (h : titleError title = none) :
    titleMin ≤ utf16Length (Edge.trim title) := by
  simp only [titleError] at h
  split_ifs at h with hempty hshort
  exact not_lt.1 hshort

theorem number_of_priceError (h : priceError platform price = none) :
    ∃ x, platform.number price = .finite x ∧ 0 < x ∧ x ≤ priceMax := by
  unfold priceError at h
  split_ifs at h
  split at h
  case h_1 x hx =>
    split_ifs at h with hpos hmax
    exact ⟨x, hx, not_le.1 hpos, not_lt.1 hmax⟩
  case h_2 => cases h

theorem askable_of_validate (htitle : (validate platform title price).title = none)
    (hprice : (validate platform title price).price = none) :
    Question.Askable platform ⟨Edge.trim title, platform.number price⟩ := by
  rw [title_validate] at htitle
  rw [price_validate] at hprice
  obtain ⟨x, hx, hpos, hmax⟩ := number_of_priceError hprice
  exact ⟨titleMin_le_of_titleError htitle, trimmed_trim title, price, x, hx, hx, hpos, hmax⟩

end Askable

/-! ## What the backend reads -/

section Answer

variable {site : Deployed} {question : Question}

theorem queryEncodes_formText (s : String) : ∀ c ∈ formText s, queryEncodes c = false := by
  intro c hc
  rw [formText, formEncode, String.toList_ofList, List.mem_flatMap] at hc
  obtain ⟨b, -, hc⟩ := hc
  exact queryEncodes_formByte b c hc

theorem queryEncodes_writeForm (params : List (String × String)) :
    ∀ c ∈ writeForm formText params, queryEncodes c = false := by
  intro c hc
  rcases mem_intercalate hc with hsep | ⟨written, hwritten, hc⟩
  · rw [List.mem_singleton.1 hsep]
    decide
  · obtain ⟨param, -, rfl⟩ := List.mem_map.1 hwritten
    rw [writePair, List.mem_append, List.mem_cons] at hc
    rcases hc with hname | rfl | hvalue
    · exact queryEncodes_formText _ c hname
    · decide
    · exact queryEncodes_formText _ c hvalue

/-- The query of a form is written as one. -/
theorem isSearch_writeForm {params : List (String × String)} (hne : params ≠ []) :
    IsSearch (String.ofList ('?' :: writeForm formText params)) := by
  refine ⟨.inr ⟨writeForm formText params, fun hnil => hne ?_, String.toList_ofList⟩, ?_⟩
  · have hform := readForm_writeForm spells_formText params
    rw [hnil] at hform
    exact (Option.some.inj hform).symm
  · intro c hc
    rw [String.toList_ofList, List.mem_cons] at hc
    rcases hc with rfl | hc
    · decide
    · exact queryEncodes_writeForm params c hc

theorem isPathname_check : IsPathname "/check" :=
  ⟨by decide, List.all_iff_forall_prop.1 (by decide), by decide⟩

/-- The worker waits for nothing before it fetches the answer to a question. -/
theorem stage_request (site : Deployed) (question : Question) :
    (enter site.caseMap site.env (init Unit) () (site.request question)).2.stage () =
      .fetching (site.request question) none
        (sentOf site.env (site.request question) "/check" (site.request question).url.search) := by
  have hpathname : (site.request question).url.pathname = "/api/check" := rfl
  have hroute : routeOf "/api/check" = .api := by decide
  have hsafe : isUnsafePath "/api/check" = false := by decide
  have hlimiter : limiterOf site.env "/api/check" = none := by
    simp [limiterOf, askPaths, streamPath]
  have hpath : backendPath "/api/check" = "/check" := by decide
  have hkey : cacheKey site.caseMap (site.request question) = none := by
    simp [cacheKey, searchCacheKey, hpathname]
  simp only [enter, hpathname, hroute, hsafe, hlimiter, stage_goOn_self, afterLimiters, hkey, hpath,
    Bool.false_eq_true, if_false]

/-- The worker passes a question on, with nothing of its query changed. -/
theorem forwarded_request (hworks : site.Works) (question : Question) :
    ∃ sent, forwarded site.caseMap site.env (site.request question) = some sent ∧
      sent.path = "/check" ∧ sent.search = (site.request question).url.search := by
  obtain ⟨base, hbase⟩ := Option.isSome_iff_exists.1 hworks.backend
  rw [forwarded, stage_request]
  exact ⟨_, fetched_eq hbase isPathname_check (isSearch_writeForm (List.cons_ne_nil _ _)), rfl, rfl⟩

theorem readForm_request (site : Deployed) (question : Question) :
    readForm ((site.request question).url.search.toList.drop 1) =
      some [("title", question.title), ("price", site.platform.text question.price)] := by
  rw [Deployed.request, checkRequest, String.toList_ofList, List.drop_one, List.tail_cons]
  exact readForm_writeForm spells_formText _

theorem checkPrice_of_askable {platform : Platform} (hagrees : platform.Agrees)
    (h : question.Askable platform) : ∃ x, question.price = .finite x ∧
      checkPrice platform (platform.text question.price) = some x := by
  obtain ⟨text, x, hx, hprice, hpos, hmax⟩ := h.priced
  refine ⟨x, hprice, ?_⟩
  rw [checkPrice, hprice, hagrees text x hx hpos]
  exact if_pos ⟨hpos, hmax⟩

/-- **A question is answered** as one of its title and its price, by the title's own test. -/
theorem answer_eq (hworks : site.Works) (h : question.Askable site.platform) :
    ∃ x, question.price = .finite x ∧
      site.answer question = (checkTitle question.title).map fun t => site.rate t x := by
  obtain ⟨sent, hsent, hpath, hsearch⟩ := forwarded_request hworks question
  obtain ⟨x, hprice, hread⟩ := checkPrice_of_askable hworks.agrees h
  refine ⟨x, hprice, ?_⟩
  simp only [Deployed.answer, hsent, Option.bind_eq_bind, Option.bind_some]
  rw [backendAnswer, if_pos hpath, hsearch, check, readForm_request]
  cases htitle : checkTitle question.title with
  | none => simp [queryParam, htitle]
  | some t => simp [queryParam, htitle, hread, Deployed.rate]

theorem checkTitle_eq_none {s : String} : checkTitle s = none ↔
    (stripped s).length < 3 ∨ 200 < (stripped s).length ∨ '\x00' ∈ (stripped s).toList := by
  simp only [checkTitle]
  split_ifs with hgood
  · obtain ⟨hmin, hmax, hnul⟩ := hgood
    refine iff_of_false not_false ?_
    rintro (hshort | hlong | hmem)
    · omega
    · omega
    · exact hnul hmem
  · refine iff_of_true rfl ?_
    by_contra hnone
    simp only [not_or, not_lt] at hnone
    exact hgood hnone

theorem eq_stripped_of_checkTitle {s t : String} (h : checkTitle s = some t) : t = stripped s := by
  simp only [checkTitle] at h
  split_ifs at h
  exact (Option.some.inj h).symm

/-- A title that the page and the backend measure alike. -/
def Ordinary (title : String) : Prop :=
  ∀ c ∈ title.toList, c.toNat < 65536 ∧ c ≠ '\x00' ∧ c ≠ '\u0085'

theorem checkTitle_of_ordinary {title : String} (hordinary : Ordinary title)
    (htrimmed : Trimmed title.toList) (hmin : titleMin ≤ utf16Length title)
    (hmax : utf16Length title ≤ titleMax) : checkTitle title = some title := by
  have hlength := utf16Length_eq_length fun c hc => (hordinary c hc).1
  have hstripped := stripped_eq_self htrimmed fun hmem => (hordinary _ hmem).2.2 rfl
  rw [hlength] at hmin hmax
  simp only [checkTitle, hstripped]
  exact if_pos ⟨hmin, hmax, fun hmem => (hordinary _ hmem).2.1 rfl⟩

end Answer

/-! ## Runs of the page -/

/-- A reply that is `ok` is the answer to its question. -/
def Honest (answer : Question → Option Checked) (page : Page) : Event → Prop
  | .settle i (.ok (some r)) => ∀ question, page.underway[i]? = some question →
      answer question = some r
  | _ => True

/-- What holds of a page that has sent some questions, since it was opened with a title. -/
structure Kept (platform : Platform) (answer : Question → Option Checked) (start : String)
    (sent : List Question) (page : Page) : Prop where
  single : page.underway.length ≤ 1
  busy : page.busy = true ↔ page.underway ≠ []
  latest : ∀ question ∈ page.underway, sent.getLast? = some question
  clear : page.underway ≠ [] → page.result = none ∧ page.failure = none
  shown : ∀ r, page.result = some r → page.failure = none ∧
    ∃ question, sent.getLast? = some question ∧ answer question = some r
  told : page.failure ≠ none → sent ≠ []
  typed : utf16Length page.title ≤ max titleMax (utf16Length start)
  askable : ∀ question ∈ sent, question.Askable platform ∧
    utf16Length question.title ≤ max titleMax (utf16Length start)

section Runs

variable {platform : Platform} {answer : Question → Option Checked} {start : String}
  {sent : List Question} {page : Page}

theorem kept_opened (title price : Option String) :
    Kept platform answer (title.getD "") [] (Page.opened title price) where
  single := Nat.zero_le _
  busy := iff_of_false Bool.false_ne_true fun h => h rfl
  latest := List.forall_mem_nil _
  clear h := absurd rfl h
  shown _ h := by cases h
  told h := absurd rfl h
  typed := le_max_right _ _
  askable := List.forall_mem_nil _

theorem Kept.submit (h : Kept platform answer start sent page) (hidle : page.busy = false) :
    Kept platform answer start (sent ++ (page.submit platform).1.toList)
      (page.submit platform).2 := by
  have hnone : page.underway = [] := by
    by_contra hne
    rw [h.busy.2 hne] at hidle
    cases hidle
  unfold Page.submit
  simp only
  split_ifs with hfound
  · -- The card stays: nothing new is asked.
    rw [Option.toList_none, List.append_nil]
    exact {
      single := h.single
      busy := h.busy
      latest := h.latest
      clear := fun hne => absurd hnone hne
      shown := fun r hr => ⟨rfl, (h.shown r hr).2⟩
      told := fun hne => absurd rfl hne
      typed := h.typed
      askable := h.askable }
  · rw [Bool.or_eq_true, not_or, Option.not_isSome_iff_eq_none, Option.not_isSome_iff_eq_none]
      at hfound
    have haskable := askable_of_validate hfound.1 hfound.2
    have hshort := (utf16Length_trim_le page.title).trans h.typed
    exact {
      single := by simp [hnone]
      busy := by simp
      latest := by simp [hnone]
      clear := fun _ => ⟨rfl, rfl⟩
      shown := fun r hr => by cases hr
      told := fun hne => absurd rfl hne
      typed := h.typed
      askable := by
        simp only [Option.toList_some, List.forall_mem_append, List.forall_mem_singleton]
        exact ⟨h.askable, haskable, hshort⟩ }

theorem eq_of_getJson {reply : Reply} {r : Checked} (h : getJson reply = .ok r) :
    reply = .ok (some r) := by
  unfold getJson at h
  split at h
  case h_4 =>
    injection h with h
    rw [h]
  all_goals cases h

/-- A reply ends the wait, with a card of the answer, a failure or neither. -/
theorem Kept.close (h : Kept platform answer start sent page) {question : Question}
    (hlast : sent.getLast? = some question) {result : Option Checked} {failure : Option String}
    (hshown : ∀ r, result = some r → failure = none ∧ answer question = some r) :
    Kept platform answer start sent
      { page with busy := false, underway := [], result := result, failure := failure } where
  single := Nat.zero_le _
  busy := iff_of_false Bool.false_ne_true fun hne => hne rfl
  latest := List.forall_mem_nil _
  clear hne := absurd rfl hne
  shown r hr := ⟨(hshown r hr).1, question, hlast, (hshown r hr).2⟩
  told _ hnil := by
    rw [hnil] at hlast
    cases hlast
  typed := h.typed
  askable := h.askable

theorem Kept.settle (h : Kept platform answer start sent page) {i : ℕ} {reply : Reply}
    (hhonest : Honest answer page (.settle i reply)) :
    Kept platform answer start sent (page.settle i reply) := by
  unfold Page.settle
  split_ifs with hi
  · have hsingle := h.single
    obtain ⟨question, hquestion⟩ : ∃ question, page.underway = [question] :=
      List.length_eq_one_iff.1 (by omega)
    have hzero : i = 0 := by omega
    subst hzero
    have hlast : sent.getLast? = some question :=
      h.latest question (hquestion ▸ List.mem_singleton_self question)
    obtain ⟨hresult, hfailure⟩ := h.clear (hquestion ▸ List.cons_ne_nil question [])
    have herase : page.underway.eraseIdx 0 = [] := by rw [hquestion, List.eraseIdx_cons_zero]
    simp only [herase]
    cases hjson : getJson reply with
    | error thrown =>
        refine h.close hlast fun r hr => ?_
        rw [hresult] at hr
        cases hr
    | ok r =>
        rw [eq_of_getJson hjson] at hhonest
        have hanswer := hhonest question (by rw [hquestion]; rfl)
        refine h.close hlast fun r' hr' => ?_
        obtain rfl := Option.some.inj hr'
        exact ⟨hfailure, hanswer⟩
  · exact h

/-- **One step** of the page. -/
theorem Kept.step (h : Kept platform answer start sent page) {e : Event}
    (hhonest : Honest answer page e) :
    Kept platform answer start (sent ++ (page.step platform e).1.toList)
      (page.step platform e).2 := by
  cases e with
  | typeTitle s =>
      simp only [Page.step, Option.toList_none, List.append_nil]
      split_ifs with hshort
      · exact { h with
          typed := hshort.trans (max_le (le_max_left _ _) h.typed) }
      · exact h
  | typePrice s =>
      simp only [Page.step, Option.toList_none, List.append_nil]
      exact { h with }
  | submit =>
      rw [Page.step]
      cases hbusy : page.busy with
      | true =>
          rw [if_pos rfl, Option.toList_none, List.append_nil]
          exact h
      | false =>
          rw [if_neg Bool.false_ne_true]
          exact h.submit hbusy
  | settle i reply =>
      simp only [Page.step, Option.toList_none, List.append_nil]
      exact h.settle hhonest

theorem asked_concat (past : List Event) (e : Event) : asked platform page (past ++ [e]) =
    asked platform page past ++
      (((pageMachine platform).run page past).step platform e).1.toList :=
  (pageMachine platform).observe_concat (fun _ question => question) page past e

/-- **Every run** of the page. -/
theorem kept_run (title price : Option String) (events : List Event)
    (hhonest : (pageMachine platform).Along (Honest answer) (Page.opened title price) events) :
    Kept platform answer (title.getD "") (asked platform (Page.opened title price) events)
      ((pageMachine platform).run (Page.opened title price) events) := by
  refine Machine.run_induction (P := fun past page => Kept platform answer (title.getD "")
    (asked platform (Page.opened title price) past) page) (kept_opened title price) ?_ events
    hhonest
  intro past e hpast hstep
  rw [asked_concat]
  exact hpast.step hstep

end Runs

/-- What holds of a page in front of the worker and the backend: its own part (`Kept`), what the
backend refuses of its questions, and what it rates. -/
structure Sound (site : Deployed) (start : String) (sent : List Question) (page : Page) : Prop where
  kept : Kept site.platform site.answer start sent page
  refused : ∀ question ∈ sent, site.answer question = none ↔
    (stripped question.title).length < 3 ∨ 200 < (stripped question.title).length ∨
      '\x00' ∈ (stripped question.title).toList
  rated : ∀ question ∈ sent, ∀ r, site.answer question = some r →
    ∃ x, question.price = .finite x ∧ r = site.rate (stripped question.title) x
  ordinary : utf16Length start ≤ titleMax → ∀ question ∈ sent, Ordinary question.title →
    ∃ x, question.price = .finite x ∧ site.answer question = some (site.rate question.title x)

/-- The platform, of the one price that is typed. -/
def onePrice : Platform where
  number text := if text = "199" then .finite 199 else .nan
  text x := if x = .finite 199 then "199" else "NaN"
  read text := if text = "199" then some (.finite 199) else none

def onePriceSite : Deployed where
  platform := onePrice
  page := askRequest.url
  headers := .empty
  caseMap := asciiCasing.toCaseMap
  env := exampleEnv true
  unicode := Features.ascii
  services := plainServices
  catalog := []

theorem works_onePriceSite : onePriceSite.Works where
  backend := isSome_backend
  agrees text x hx hpos := by
    simp only [onePriceSite, onePrice] at hx ⊢
    split_ifs at hx with htext
    obtain rfl := Double.finite.inj hx
    rfl

/-- A question that is answered, and one that gets no answer. -/
def twoQuestions : List Event :=
  [.typeTitle "Nest thermostat ", .typePrice "199", .submit,
    .settle 0 (.ok (some (onePriceSite.rate "Nest thermostat" 199))), .submit,
    .settle 0 .unreachable]

theorem answer_thermostat : onePriceSite.answer ⟨"Nest thermostat", .finite 199⟩ =
    some (onePriceSite.rate "Nest thermostat" 199) := by
  have htrim : Edge.trim "Nest thermostat " = "Nest thermostat" := by decide +kernel
  have hnumber : onePrice.number "199" = .finite 199 := by decide +kernel
  have htitle : checkTitle "Nest thermostat" = some "Nest thermostat" := by decide +kernel
  have haskable : Question.Askable onePrice
      ⟨Edge.trim "Nest thermostat ", onePrice.number "199"⟩ :=
    askable_of_validate (by decide +kernel) (by decide +kernel)
  rw [htrim, hnumber] at haskable
  obtain ⟨x, hprice, hanswer⟩ := answer_eq works_onePriceSite haskable
  obtain rfl := Double.finite.inj hprice
  rw [hanswer, htitle]
  rfl

theorem underway_thermostat : ((pageMachine onePrice).run (Page.opened none none)
    [.typeTitle "Nest thermostat ", .typePrice "199", .submit]).underway =
    [⟨"Nest thermostat", .finite 199⟩] := by
  decide +kernel

theorem honest_thermostat : Honest onePriceSite.answer
    ((pageMachine onePrice).run (Page.opened none none)
      [.typeTitle "Nest thermostat ", .typePrice "199", .submit])
    (.settle 0 (.ok (some (onePriceSite.rate "Nest thermostat" 199)))) := by
  intro question hquestion
  rw [underway_thermostat, List.getElem?_cons_zero, Option.some.injEq] at hquestion
  rw [← hquestion, answer_thermostat]

end DealFinder.Site
