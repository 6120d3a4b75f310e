/-
# Features

The vector the price models read: a code for the category, a tier for the brand in
the title, and a code for the condition. Training builds its products from the
snapshot with the condition parsed from the title. A live row and a title to check
are built with the schema's default condition, which is not empty, so their titles
are never parsed (`served_eq_trained_iff`).
-/

import DealFinder.Math.Pattern
import DealFinder.Shop.Score

namespace DealFinder.Features

open DealFinder.Math

/-- `Product`, with the defaults of the schema. -/
structure Product where
  id : String
  title : String
  brand : Option String
  category : String
  price : ℚ
  currency : String := "USD"
  url : String
  source : String
  imageUrl : Option String := none
  sku : Option String := none
  regularPrice : Option ℚ := none
  marketplace : Option String := none
  condition : String := "new"
  specs : List (String × String) := []

/-- The character tables of the language. -/
structure Unicode where
  /-- `str.isalnum`, of a character. -/
  isAlnum : Char → Bool
  /-- `str.isalpha`, of a character. -/
  isAlpha : Char → Bool
  /-- `str.isupper`, of a character. -/
  isUpper : Char → Bool
  /-- `str.lower`. -/
  lower : String → String

/-- Lowercasing leaves lowercase letters alone. -/
def LowersLetters (unicode : Unicode) : Prop :=
  ∀ s : String, (∀ c ∈ s.toList, 'a' ≤ c ∧ c ≤ 'z') → unicode.lower s = s

/-! ## Patterns -/

/-- A character of the text for an ASCII one of the pattern, under `re.IGNORECASE`. -/
def sameLetter (c x : Char) : Bool :=
  x.toLower = c.toLower || (c.toLower = 'i' && (x = '\u0130' || x = '\u0131')) ||
    (c.toLower = 's' && x = '\u017f') || (c.toLower = 'k' && x = '\u212a')

/-- The letters of a pattern. -/
def letters (text : String) : Pattern := Pattern.literal sameLetter text.toList

/-- `[\s-]?`. -/
def gap : Pattern := (Pattern.one fun x => isSpace x || x = '-').opt

/-- A pattern between word boundaries. -/
def whole (p : Pattern) : Pattern := Pattern.boundary.seq (p.seq Pattern.boundary)

section Vector

variable (unicode : Unicode)

/-- The word characters of a pattern. -/
def isWord (x : Char) : Bool := unicode.isAlnum x || x = '_'

/-- `search`. -/
def search (p : Pattern) (title : String) : Bool := p.found (isWord unicode) title.toList

/-! ## Category -/

/-- `category_code`. -/
def categoryCode (category : String) : ℚ :=
  (Shop.categoryCodes.lookup (unicode.lower (strip category))).getD 10

/-! ## Brand -/

/-- `KNOWN_BRANDS`. -/
def knownBrands : List String :=
  ["Amazon Basics", "Google Nest", "Ultimate Ears", "Western Digital",
    "Anker", "Soundcore", "Bose", "Sony", "JBL", "Samsung", "Logitech", "Razer",
    "Acer", "ASUS", "Apple", "Beats", "Skullcandy", "Sennheiser", "Keychron",
    "Glorious", "SteelSeries", "Corsair", "HyperX", "Dell", "HP", "Lenovo", "MSI",
    "LG", "Google", "Kindle", "Amazon", "PNY", "SanDisk", "Seagate", "WD",
    "Crucial", "Kingston", "JLab", "Onn", "LINSAY", "Shark", "Blink", "Roku",
    "TP-Link", "Wyze", "Ring", "Echo", "Cowin", "Marshall", "Sonos", "Nintendo",
    "Microsoft", "Intel", "AMD", "NVIDIA", "Netgear", "Belkin", "Yubico",
    "Fitbit", "Garmin", "Motorola"]

/-- `_BRAND_LIST`: without duplicates, the longest first. -/
def brandList : List String :=
  knownBrands.eraseDups.insertionSort fun b b' => b'.length ≤ b.length

/-- `BRAND_TIER`. -/
def brandTiers : List (String × ℚ) :=
  [("Apple", 4), ("Sony", 4), ("Bose", 4), ("Sonos", 4), ("Sennheiser", 4), ("Garmin", 4),
    ("Samsung", 3), ("LG", 3), ("Dell", 3), ("Lenovo", 3), ("HP", 3), ("ASUS", 3), ("Acer", 3),
    ("MSI", 3), ("Logitech", 3), ("Razer", 3), ("Beats", 3), ("JBL", 3), ("Marshall", 3),
    ("Google", 3), ("Google Nest", 3), ("Nest", 3), ("Microsoft", 3), ("Nintendo", 3),
    ("Ultimate Ears", 3), ("SteelSeries", 3), ("Corsair", 3), ("HyperX", 3), ("Fitbit", 3),
    ("Anker", 2), ("Soundcore", 2), ("JLab", 2), ("Skullcandy", 2), ("Keychron", 2),
    ("Glorious", 2), ("TP-Link", 2), ("Wyze", 2), ("Ring", 2), ("Blink", 2), ("Roku", 2),
    ("SanDisk", 2), ("Seagate", 2), ("Western Digital", 2), ("WD", 2), ("Crucial", 2),
    ("Kingston", 2), ("PNY", 2), ("Shark", 2), ("Netgear", 2), ("Belkin", 2), ("Motorola", 2),
    ("Cowin", 2), ("Amazon Basics", 2), ("Amazon", 2), ("Kindle", 2), ("Echo", 2),
    ("Onn", 1), ("LINSAY", 1)]

/-- `DEFAULT_BRAND_TIER`. -/
def defaultBrandTier : ℚ := 1

/-- The first word of a title, without the dots and commas around it. -/
def firstWord (title : String) : List Char :=
  let word := (title.toList.dropWhile isSpace).takeWhile fun x => !isSpace x
  let dotted := fun x => x = '.' || x = ','
  ((word.dropWhile dotted).reverse.dropWhile dotted).reverse

/-- `title_brand`. -/
def titleBrand (title : String) : Option String :=
  if title = "" then none
  else
    match brandList.find? fun b => search unicode (whole (letters b)) title with
    | some canonical => some canonical
    | none =>
        match firstWord title with
        | [] => none
        | x :: rest =>
            if unicode.isAlpha x && unicode.isUpper x && 0 < rest.length then
              some (String.ofList (x :: rest))
            else none

/-- `brand_tier`. -/
def brandTier (title : String) : ℚ :=
  (brandTiers.lookup ((titleBrand unicode title).getD "")).getD defaultBrandTier

/-! ## Condition -/

/-- `CONDITION_CODES`. -/
def conditionCodes : List (String × ℚ) := [("new", 2), ("refurb", 1), ("used", 0)]

/-- `_REFURB_RE`. -/
def refurbRe : Pattern :=
  whole (.oneOf [(letters "refurb").seq (letters "ished").opt,
    (letters "renew").seq (letters "ed").opt, letters "recertified",
    (letters "open").seq (gap.seq (letters "box"))])

/-- `_USED_RE`. -/
def usedRe : Pattern :=
  whole (.oneOf [letters "used", (letters "pre").seq (gap.seq (letters "owned")),
    letters "preowned", (letters "second").seq (gap.seq (letters "hand"))])

/-- `parse_condition`. -/
def parseCondition (title : String) : String :=
  if title = "" then "new"
  else if search unicode refurbRe title then "refurb"
  else if search unicode usedRe title then "used"
  else "new"

/-- `condition_code`. -/
def conditionCode (condition : String) : ℚ :=
  (conditionCodes.lookup
    (unicode.lower (strip (if condition = "" then "new" else condition)))).getD 2

/-! ## The vector -/

/-- `featurize`. -/
def featurize (p : Product) : List ℚ :=
  let condition := if p.condition ≠ "" then p.condition else parseCondition unicode p.title
  [categoryCode unicode p.category, brandTier unicode p.title, conditionCode unicode condition]

end Vector

/-! ## Three places that build products -/

/-- A row of the snapshot. -/
structure Row where
  id : String
  title : String
  brand : Option String
  category : String
  price : ℚ
  currency : Option String
  url : String
  source : Option String
  marketplace : Option String

/-- `to_products`. -/
def toProducts (unicode : Unicode) (items : List Row) : List Product :=
  items.map fun r =>
    { id := r.id
      title := r.title
      brand := r.brand
      category := r.category
      price := r.price
      currency := r.currency.getD "USD"
      url := r.url
      source := r.source.getD (r.marketplace.getD "snapshot")
      imageUrl := none
      marketplace := r.marketplace
      condition := parseCondition unicode r.title }

/-- The product that `score_offers` builds from a row. -/
def scoredProduct (r : Shop.Listing) (category : String) : Product where
  id := r.id
  title := r.title
  brand := r.brand
  category := category
  price := r.price
  url := r.url
  source := if r.source = "" then "live" else r.source

/-- The product that `_fair_for` builds from a title to check. -/
def checkedProduct (title category : String) : Product where
  id := "check"
  title := title
  brand := none
  category := category
  price := 0
  url := ""
  source := "check"

/-- `_fair_for`: the category of a title and the fair price of its model. -/
def fairFor (unicode : Unicode) (services : Shop.Services)
    (categoryFromSnapshot : String → Option String) (title : String) :
    Option String × Option ℚ :=
  let guessed := (services.guessCategory title).filter fun category => category ≠ ""
  let category := if guessed = none then categoryFromSnapshot title else guessed
  match category with
  | none => (category, none)
  | some cat =>
      if cat = "" then (category, none)
      else (category,
        (services.models cat).map fun model => model (featurize unicode (checkedProduct title cat)))

/-! ## Where the vectors differ -/

section Skew

variable {unicode : Unicode}

/-- The code of a condition that the program itself writes. -/
theorem conditionCode_of_lookup (hlower : LowersLetters unicode) {condition : String} {code : ℚ}
    (hlookup : conditionCodes.lookup condition = some code) :
    conditionCode unicode condition = code := by
  have hwords : condition = "new" ∨ condition = "refurb" ∨ condition = "used" := by
    by_contra hother
    push Not at hother
    simp [conditionCodes, List.lookup_cons, beq_false_of_ne hother.1, beq_false_of_ne hother.2.1,
      beq_false_of_ne hother.2.2] at hlookup
  have hstrip : strip condition = condition := by
    rcases hwords with rfl | rfl | rfl <;> decide +kernel
  have hletters : ∀ c ∈ condition.toList, 'a' ≤ c ∧ c ≤ 'z' := by
    rcases hwords with rfl | rfl | rfl <;> simp
  have hsome : condition ≠ "" := by
    rcases hwords with rfl | rfl | rfl <;> simp
  rw [conditionCode, if_neg hsome, hstrip, hlower condition hletters, hlookup, Option.getD_some]

/-- A boundary needs a word character. -/
theorem search_whole_empty (p : Pattern) : search unicode (whole p) "" = false := rfl

/-- A title that no condition pattern matches. -/
def Unmarked (unicode : Unicode) (title : String) : Prop :=
  search unicode refurbRe title = false ∧ search unicode usedRe title = false

theorem parseCondition_cases (title : String) :
    (Unmarked unicode title ∧ parseCondition unicode title = "new") ∨
      (¬ Unmarked unicode title ∧ parseCondition unicode title = "refurb") ∨
        (¬ Unmarked unicode title ∧ parseCondition unicode title = "used") := by
  unfold parseCondition Unmarked
  split_ifs with hempty hrefurb hused
  · rw [hempty]
    exact Or.inl ⟨⟨search_whole_empty _, search_whole_empty _⟩, rfl⟩
  · simp [hrefurb]
  · simp [hrefurb, hused]
  · simp [hrefurb, hused]

/-- The schema's default condition has the code of an unmarked title, and of no other. -/
theorem conditionCode_new_eq_iff (hlower : LowersLetters unicode) (title : String) :
    conditionCode unicode "new" = conditionCode unicode (parseCondition unicode title) ↔
      Unmarked unicode title := by
  have hnew : conditionCode unicode "new" = 2 := conditionCode_of_lookup hlower rfl
  have hrefurb : conditionCode unicode "refurb" = 1 := conditionCode_of_lookup hlower rfl
  have hused : conditionCode unicode "used" = 0 := conditionCode_of_lookup hlower rfl
  rcases @parseCondition_cases unicode title with
    ⟨hfree, heq⟩ | ⟨hmarked, heq⟩ | ⟨hmarked, heq⟩
  · rw [heq]
    exact iff_of_true rfl hfree
  · rw [heq, hnew, hrefurb]
    exact iff_of_false (by norm_num) hmarked
  · rw [heq, hnew, hused]
    exact iff_of_false (by norm_num) hmarked

/-- A condition that is given is not parsed. -/
theorem featurize_of_condition {p : Product} (h : p.condition ≠ "") :
    featurize unicode p =
      [categoryCode unicode p.category, brandTier unicode p.title,
        conditionCode unicode p.condition] := by
  rw [featurize, if_pos h]

theorem parseCondition_ne_empty (title : String) : parseCondition unicode title ≠ "" := by
  rcases @parseCondition_cases unicode title with ⟨-, heq⟩ | ⟨-, heq⟩ | ⟨-, heq⟩ <;>
    rw [heq] <;> decide

/-- What training reads of a row of the snapshot. -/
theorem featurize_toProducts {items : List Row} {p : Product} (hp : p ∈ toProducts unicode items) :
    featurize unicode p =
      [categoryCode unicode p.category, brandTier unicode p.title,
        conditionCode unicode (parseCondition unicode p.title)] := by
  obtain ⟨row, -, rfl⟩ := List.mem_map.1 hp
  exact featurize_of_condition (parseCondition_ne_empty row.title)

/-- A live row and a title to check have the features that training gives a row of the
same title and category exactly when no condition pattern matches the title. -/
theorem served_eq_trained_iff (hlower : LowersLetters unicode) {items : List Row} {p : Product}
    (hp : p ∈ toProducts unicode items) {r : Shop.Listing} (htitle : r.title = p.title) :
    (featurize unicode (scoredProduct r p.category) = featurize unicode p ↔
        search unicode refurbRe p.title = false ∧ search unicode usedRe p.title = false) ∧
      (featurize unicode (checkedProduct p.title p.category) = featurize unicode p ↔
        search unicode refurbRe p.title = false ∧ search unicode usedRe p.title = false) := by
  have hcode := conditionCode_new_eq_iff hlower p.title
  have hnew : "new" ≠ "" := by decide
  rw [featurize_toProducts hp, featurize_of_condition (p := scoredProduct r p.category) hnew,
    featurize_of_condition (p := checkedProduct p.title p.category) hnew]
  simp only [scoredProduct, checkedProduct, htitle, List.cons.injEq, true_and, and_true]
  exact ⟨hcode, hcode⟩

/-- The vector of the scoring model is that of the product it builds. -/
theorem featurize_scoredProduct (hlower : LowersLetters unicode) {services : Shop.Services}
    (hsame : services.lower = unicode.lower) (htier : services.brandTier = brandTier unicode)
    (r : Shop.Listing) (category : String) :
    Shop.featurize services category r.title =
      featurize unicode (scoredProduct r category) := by
  have hnew : conditionCode unicode "new" = 2 := conditionCode_of_lookup hlower rfl
  rw [featurize_of_condition (p := scoredProduct r category) (show "new" ≠ "" by decide)]
  simp only [scoredProduct, hnew, Shop.featurize, categoryCode, hsame, htier]

/-- The fair price of a live row is the model's prediction on a training row's features
when no condition pattern matches the title. -/
theorem fairPrice_eq_trained (hlower : LowersLetters unicode) {services : Shop.Services}
    (hsame : services.lower = unicode.lower) (htier : services.brandTier = brandTier unicode)
    {items : List Row} {p : Product} (hp : p ∈ toProducts unicode items) {r : Shop.Listing}
    (htitle : r.title = p.title) (hcategory : services.guessCategory r.title = some p.category)
    {model : List ℚ → ℚ} (hmodel : services.models p.category = some model)
    (hfree : Unmarked unicode p.title) (peer : Option ℚ) :
    Shop.fairPrice services r peer = some (model (featurize unicode p), .model) := by
  have hfeatures := (served_eq_trained_iff hlower hp htitle).1.2 hfree
  rw [Shop.fairPrice, hcategory, Option.bind_some, hmodel, Option.map_some,
    featurize_scoredProduct hlower hsame htier, hfeatures]

/-- The word stands alone: a title with "used" between characters that are no word's. -/
theorem search_used (hstart : isWord unicode 'u' = true) (hend : isWord unicode 'd' = true)
    {before after : List Char} (hbefore : before.getLast?.any (isWord unicode) = false)
    (hafter : after.head?.any (isWord unicode) = false) :
    search unicode usedRe (String.ofList (before ++ ('u' :: 's' :: 'e' :: 'd' :: after))) =
      true := by
  have hword : ∀ c ∈ ['u', 's', 'e', 'd'], sameLetter c c = true := by simp [sameLetter]
  rw [search, String.toList_ofList]
  apply Pattern.found_of_mem_ends (d := ⟨some 'd', after⟩)
  have hopen : Pattern.atBoundary (isWord unicode)
      ⟨before.getLast?, 'u' :: 's' :: 'e' :: 'd' :: after⟩ = true := by
    simp [Pattern.atBoundary, hbefore, hstart]
  have hclose : Pattern.atBoundary (isWord unicode) ⟨some 'd', after⟩ = true := by
    simp [Pattern.atBoundary, hafter, hend]
  simp [usedRe, whole, Pattern.oneOf, letters, Pattern.literal, hopen, hclose, hword]

end Skew

/-! ## A title that is scored as new -/

/-- The character tables, on ASCII. -/
def ascii : Unicode where
  isAlnum := Char.isAlphanum
  isAlpha := Char.isAlpha
  isUpper := Char.isUpper
  lower := fun s => String.ofList (s.toList.map Char.toLower)

theorem lowersLetters_ascii : LowersLetters ascii := by
  intro s hs
  have hkeep : ∀ c ∈ s.toList, c.toLower = id c := by
    intro c hc
    have hlow : 97 ≤ c.toNat := (hs c hc).1
    unfold Char.toLower
    split_ifs with hupper
    · have hhigh : c.toNat ≤ 90 := hupper.2
      omega
    · rfl
  show String.ofList (s.toList.map Char.toLower) = s
  rw [List.map_congr_left hkeep, List.map_id, String.ofList_toList]

/-- A row of the snapshot. -/
def snapshotRow (title : String) : Row :=
  ⟨"s1", title, none, "computers", 700, none, "", none, none⟩

/-- A live row. -/
def liveRow (title : String) : Shop.Listing :=
  ⟨⟨"r1", title, none, 650, "", "Walmart", none, none, none⟩, "2026-10-26T12:00:00Z"⟩

/-- The features of a new laptop are those it would be trained with. -/
theorem served_eq_trained_laptop :
    ∃ p ∈ toProducts ascii [snapshotRow "Dell XPS 13"],
      (featurize ascii (scoredProduct (liveRow "Dell XPS 13") p.category) = featurize ascii p ↔
          search ascii refurbRe p.title = false ∧ search ascii usedRe p.title = false) ∧
        (featurize ascii (checkedProduct p.title p.category) = featurize ascii p ↔
          search ascii refurbRe p.title = false ∧ search ascii usedRe p.title = false) :=
  ⟨_, List.mem_singleton.2 rfl,
    @served_eq_trained_iff ascii lowersLetters_ascii [snapshotRow "Dell XPS 13"] _
      (List.mem_singleton.2 rfl) (liveRow "Dell XPS 13") rfl⟩

/-- An open-box laptop is scored, and checked, as new. -/
theorem open_box_scored_as_new :
    ¬ ∀ unicode, LowersLetters unicode → ∀ (items : List Row), ∀ p ∈ toProducts unicode items,
      ∀ r : Shop.Listing, r.title = p.title →
        featurize unicode (scoredProduct r p.category) = featurize unicode p ∧
          featurize unicode (checkedProduct p.title p.category) = featurize unicode p := by
  intro hall
  have hsame := (hall ascii lowersLetters_ascii [snapshotRow "Dell XPS 13 Open-Box"] _
    (List.mem_singleton.2 rfl) (liveRow "Dell XPS 13 Open-Box") rfl).1
  have hcode : conditionCode ascii "new" =
      conditionCode ascii (parseCondition ascii "Dell XPS 13 Open-Box") :=
    Option.some.inj (congrArg (fun vector => vector[2]?) hsame)
  exact absurd hcode (by decide +kernel)

end DealFinder.Features
