/-
# Cards

The cards of the lab page (`cardHTML`, `semCard` and `wlCard` of lab.js), as the page writes them
into its HTML. Titles, sources and reasons come from stores and sellers, and so do the addresses
of images and offers. A card is a template whose holes are filled with escaped texts, or with
numbers and words of the page's own.

A browser reads the same tags whatever the texts hold, and it shows them as they are
(`cards_rendered`).

What JavaScript does with numbers is a parameter (`Js`), and so is its parser of addresses.
-/

import DealFinder.Math.Html
import DealFinder.Feeds.Decimal

namespace DealFinder.Lab

open Math.Html

variable {N : Type}

/-- What JavaScript's numbers do. -/
structure Js (N : Type) where
  num : ℕ → N
  text : N → List Char
  fixed2 : N → List Char
  le : N → N → Bool
  abs : N → N
  min : N → N → N
  max : N → N → N
  mul : N → N → N
  div : N → N → N
  round : N → N

/-- What `new URL` finds in an address. -/
structure Url where
  protocol : String
  href : String

/-- An offer, as the backend sends it. `null` is `none`. -/
structure Offer (N : Type) where
  title : Option String
  source : Option String
  reason : Option String
  imageUrl : Option String
  url : Option String
  verdict : Option String
  basis : Option String
  similarity : Option N
  price : Option N
  fair : Option N
  pctUnderMedian : Option N
  residualFrac : Option N

/-- A row of the watchlist, as the backend sends it. -/
structure WatchItem (N : Type) where
  offerId : Option String
  title : Option String
  source : Option String
  imageUrl : Option String
  url : Option String
  hit : Bool
  targetPrice : Option N
  lastPrice : Option N

/-- Is a text neither `null` nor empty? -/
def truthy (s : Option String) : Bool := s.getD "" ≠ ""

/-! ## The templates -/

/-- What a card leaves open. -/
inductive Hole
  | title | source | reason | image | href | offerId | similarity
  | top | under | claimed | residual | threshold | share | signal2 | residualWidth
  | thresholdWidth | fairWord | fair | fairNote | width | accent | price | index | target | last
  deriving DecidableEq

abbrev Template := List (Piece Hole)

def thumb (imageUrl : Option String) : Template :=
  if truthy imageUrl then
    [.markup "<img class=\"thumb\" src=\"", .hole .image,
      .markup "\" alt=\"\" referrerpolicy=\"no-referrer\">"]
  else [.markup "<div class=\"thumb\"></div>"]

def smallThumb (imageUrl : Option String) : Template :=
  if truthy imageUrl then
    [.markup "<img class=\"thumb\" src=\"", .hole .image,
      .markup "\" referrerpolicy=\"no-referrer\" alt=\"\">"]
  else [.markup "<div class=\"thumb\"></div>"]

def tagFor (verdict : Option String) : Template :=
  if verdict = some "deal" then [.markup "<span class=\"tag tag-deal\">DEAL</span>"]
  else if verdict = some "suspicious" then
    [.markup "<span class=\"tag tag-susp\">HELD BACK · SUSPICIOUS</span>"]
  else if verdict = some "overpriced" then
    [.markup "<span class=\"tag tag-over\">OVERPRICED</span>"]
  else if verdict = some "fair" then [.markup "<span class=\"tag tag-fair\">FAIR</span>"]
  else [.markup "<span class=\"tag tag-fair\">VALUE</span>"]

def watchTag (hit : Bool) : Template :=
  if hit then [.markup "<span class=\"tag tag-deal\">PRICE DROP</span>"]
  else [.markup "<span class=\"tag tag-fair\">WATCHING</span>"]

def src : Template :=
  [.markup "<span class=\"mono\" style=\"font-size:10px;color:var(--color-neutral-600);\">",
    .hole .source, .markup "</span>"]

def estChip (est : Bool) : Template :=
  if est then
    [.markup "<span class=\"mono\" style=\"font-size:9px;color:var(--color-neutral-600);\">",
      .markup "· est. from similar offers</span>"]
  else []

/-- The link to an offer, if it has an address. -/
def offerLink (url : Option String) : Template :=
  if truthy url then
    [.markup "<a class=\"link-sm\" href=\"", .hole .href,
      .markup "\" target=\"_blank\" rel=\"noopener noreferrer\">open offer →</a>"]
  else []

def watchLink (url : Option String) : Template :=
  if truthy url then
    [.markup "<a class=\"link-sm\" href=\"", .hole .href,
      .markup "\" target=\"_blank\" rel=\"noopener noreferrer\">open →</a>"]
  else []

def heldHead : Template :=
  [.markup "<div class=\"card held\">\n      <div class=\"cardline\">\n        "]

def heldMiddle : Template :=
  [.markup "\n        <div class=\"card-body\">\n          <div class=\"card-head\">"]

def heldTail : Template :=
  [.markup "</div>\n          <div class=\"title dim\">", .hole .title,
    .markup "</div>\n        </div>\n        <div class=\"signal\">\n          <div ",
    .markup "class=\"bar-track\" style=\"background:var(--color-neutral-900);\">",
    .markup "<div class=\"bar-fill ",
    .markup "hatch\" style=\"width:", .hole .claimed,
    .markup "%\"></div></div>\n          <span class=\"sig-note\">", .hole .under,
    .markup " claimed</span>\n          <span class=\"sig-note accent\">residual ",
    .hole .residual, .markup " &gt; ", .hole .threshold,
    .markup "</span>\n        </div>\n        <div class=\"priceblock\">\n          <div ",
    .markup "class=\"price dim\">", .hole .price,
    .markup "</div>\n          <button class=\"linkbtn why-toggle\" data-i=\"", .hole .index,
    .markup "\">why held? →</button>\n        </div>\n      </div>\n      <div class=\"why ",
    .markup "hidden\" id=\"why-", .hole .index,
    .markup "\">\n        <div class=\"col\">\n          <div><div class=\"lab\"><span ",
    .markup "class=\"muted\">Signal 1 · under median</span><span class=\"mono\" ",
    .markup "style=\"color:var(--color-accent-400);\">", .hole .share,
    .markup "</span></div>\n            <div class=\"track6\"><div class=\"bar-fill\" ",
    .markup "style=\"width:", .hole .claimed,
    .markup "%\"></div></div></div>\n          <div><div class=\"lab\"><span class=\"muted\">",
    .hole .signal2, .markup "</span><span class=\"mono\">", .hole .residual,
    .markup "</span></div>\n            <div class=\"track6\"><div class=\"bar-fill hatch\" ",
    .markup "style=\"width:", .hole .residualWidth,
    .markup "%\"></div><div class=\"tick\" style=\"left:", .hole .thresholdWidth,
    .markup "%\"></div></div>\n            <div class=\"sig-note\" style=\"margin-top:4px;\">",
    .markup "threshold ", .hole .threshold, .markup " — tripped · ", .hole .fairWord, .markup " ",
    .hole .fair, .markup "</div></div>\n        </div>\n        <p>", .hole .reason,
    .markup "</p>\n      </div>\n    </div>"]

/-- The card of an offer that is held back. -/
def heldCard (r : Offer N) : Template :=
  heldHead ++ thumb r.imageUrl ++ heldMiddle ++ tagFor r.verdict ++ [.markup " "] ++ src ++
    estChip (r.basis = some "peers") ++ heldTail

def offerHead : Template :=
  [.markup "<div class=\"card ", .hole .top, .markup "\">\n    "]

def offerMiddle : Template :=
  [.markup "\n    <div class=\"card-body\">\n      <div class=\"card-head\">"]

def offerBody : Template :=
  [.markup "</div>\n      <div class=\"title\">", .hole .title,
    .markup "</div>\n      <div class=\"reason\">", .hole .reason,
    .markup "</div>\n    </div>\n    <div class=\"signal\">\n      <div class=\"bar-track\"><div ",
    .markup "class=\"bar-fill\" style=\"width:", .hole .width,
    .markup "%\"></div></div>\n      <span class=\"sig-note ", .hole .accent, .markup "\">",
    .hole .under, .markup "</span>\n      <span class=\"sig-note\">", .hole .fairNote,
    .markup "</span>\n    </div>\n    <div class=\"priceblock\">\n      <div class=\"price\">",
    .hole .price, .markup "</div>\n      <div ",
    .markup "style=\"display:flex;gap:var(--space-3);align-items:center;\">\n        "]

def offerTail : Template :=
  [.markup "\n        <button class=\"linkbtn watch-btn\" data-idx=\"", .hole .index,
    .markup "\">＋ watch</button>\n      </div>\n    </div>\n  </div>"]

/-- The card of any other offer. -/
def offerCard (r : Offer N) : Template :=
  offerHead ++ thumb r.imageUrl ++ offerMiddle ++ tagFor r.verdict ++ [.markup " "] ++ src ++
    estChip (r.basis = some "peers") ++ offerBody ++ offerLink r.url ++ offerTail

/-- The card of an offer of a search. -/
def rankedCard (r : Offer N) : Template :=
  if r.verdict = some "suspicious" then heldCard r else offerCard r

def foundHead : Template :=
  [.markup "<div class=\"card\">"]

def foundBody : Template :=
  [.markup "\n    <div class=\"card-body\"><div class=\"card-head\"><span class=\"mono\" ",
    .markup "style=\"font-size:10px;color:var(--color-neutral-600);\">", .hole .source,
    .markup "</span></div>\n      <div class=\"title\">", .hole .title,
    .markup "</div></div>\n    <div class=\"signal\"><span class=\"sig-note accent\">",
    .hole .similarity, .markup "</span></div>\n    <div class=\"priceblock\"><div ",
    .markup "class=\"price\">", .hole .price, .markup "</div>"]

def foundTail : Template :=
  [.markup "</div>\n  </div>"]

/-- The card of an offer that was found by its meaning, or that was streamed. -/
def foundCard (r : Offer N) : Template :=
  foundHead ++ smallThumb r.imageUrl ++ foundBody ++ offerLink r.url ++ foundTail

def watchHead : Template :=
  [.markup "<div class=\"card ", .hole .top, .markup "\">"]

def watchMiddle : Template :=
  [.markup "\n    <div class=\"card-body\">\n      <div class=\"card-head\">"]

def watchBody : Template :=
  [.markup " <span class=\"mono\" style=\"font-size:10px;color:var(--color-neutral-600);\">",
    .hole .source, .markup "</span></div>\n      <div class=\"title\">", .hole .title,
    .markup "</div>\n      <div class=\"reason\">target ", .hole .target, .markup " · last seen ",
    .hole .last, .markup "</div>\n    </div>\n    <div class=\"priceblock\">\n      <div ",
    .markup "class=\"price\">", .hole .price,
    .markup "</div>\n      <div style=\"display:flex;gap:var(--space-3);align-items:center;\">",
    .markup "\n        "]

def watchTail : Template :=
  [.markup "\n        <button class=\"linkbtn wl-remove\" data-id=\"", .hole .offerId,
    .markup "\">remove</button>\n      </div>\n    </div>\n  </div>"]

/-- The card of a watched offer. -/
def watchCard (it : WatchItem N) : Template :=
  watchHead ++ smallThumb it.imageUrl ++ watchMiddle ++ watchTag it.hit ++ watchBody ++
    watchLink it.url ++ watchTail

/-! ## What stands in the holes -/

/-- A text that is escaped, or one that is put in as it stands. -/
inductive Content
  | escaped (s : List Char)
  | plain (s : List Char)

def Content.said : Content → List Char
  | .escaped s => s
  | .plain s => s

def Content.written : Content → List Char
  | .escaped s => escape s
  | .plain s => s

/-- `null` is written like an empty text. -/
def esc (s : Option String) : Content := .escaped (s.getD "").toList

/-- Only http(s) addresses become links. -/
def safeHref (newUrl : String → Option Url) (u : Option String) : Content :=
  match newUrl (u.getD "") with
  | some p =>
      if p.protocol = "http:" ∨ p.protocol = "https:" then .escaped p.href.toList
      else .plain ['#']
  | none => .plain ['#']

section Contents

variable (js : Js N) (newUrl : String → Option Url) (rankedThr : N)

def money (n : N) : List Char := '$' :: js.fixed2 n

def orZero (n : Option N) : N := n.getD (js.num 0)

def clamp (n : N) : N := js.max (js.num 0) (js.min (js.num 100) n)

/-- `String` of a number or of `null`. -/
def textOf (n : Option N) : List Char := n.elim "null".toList js.text

def underText : Option N → List Char
  | none => "not rated".toList
  | some pct =>
      if js.le (js.num 0) pct then "▼ ".toList ++ js.text pct ++ "% under".toList
      else "▲ ".toList ++ js.text (js.abs pct) ++ "% over".toList

def fairNoteOf (r : Offer N) : List Char :=
  match r.fair with
  | some fair =>
      if r.basis = some "peers" then "≈ ".toList ++ money js fair ++ " (similar offers)".toList
      else "fair price ".toList ++ money js fair
  | none => if r.basis = none then "value only".toList else []

/-- What `cardHTML` puts in its holes. -/
def offerContent (r : Offer N) (i : ℕ) : Hole → Content
  | .title => esc r.title
  | .source => esc r.source
  | .reason => esc r.reason
  | .image => esc r.imageUrl
  | .href => safeHref newUrl r.url
  | .top => .plain (if i = 0 ∧ r.verdict = some "deal" then "top".toList else [])
  | .under => .plain (underText js r.pctUnderMedian)
  | .claimed => .plain (js.text (js.min (js.num 100) (js.abs (orZero js r.pctUnderMedian))))
  | .residual => .plain (textOf js r.residualFrac)
  | .threshold => .plain (js.text rankedThr)
  | .share => .plain (js.fixed2 (js.div (orZero js r.pctUnderMedian) (js.num 100)))
  | .signal2 =>
      .plain (if r.basis = some "peers" then "Signal 2 · peer residual".toList
        else "Signal 2 · model residual".toList)
  | .residualWidth =>
      .plain (js.text (clamp js (js.round (js.mul (orZero js r.residualFrac) (js.num 100)))))
  | .thresholdWidth => .plain (js.text (js.round (js.mul rankedThr (js.num 100))))
  | .fairWord => .plain (if r.basis = some "peers" then "peers ≈".toList else "fair".toList)
  | .fair => .plain (money js (orZero js r.fair))
  | .fairNote => .plain (fairNoteOf js r)
  | .width => .plain (js.text (clamp js (orZero js r.pctUnderMedian)))
  | .accent => .plain (if r.verdict = some "deal" then "accent".toList else [])
  | .price => .plain (money js (orZero js r.price))
  | .index => .plain (Nat.toDigits 10 i)
  | _ => .plain []

/-- What `semCard` puts in its holes. -/
def foundContent (r : Offer N) : Hole → Content
  | .title => esc r.title
  | .source => esc r.source
  | .image => esc r.imageUrl
  | .href => safeHref newUrl r.url
  | .similarity =>
      match r.similarity with
      | some similarity =>
          .escaped (js.text (js.round (js.mul similarity (js.num 100))) ++ "% match".toList)
      | none => esc r.verdict
  | .price => .plain (r.price.elim [] (money js))
  | _ => .plain []

/-- What `wlCard` puts in its holes. -/
def watchContent (it : WatchItem N) : Hole → Content
  | .offerId => esc it.offerId
  | .title => esc it.title
  | .source => esc it.source
  | .image => esc it.imageUrl
  | .href => safeHref newUrl it.url
  | .top => .plain (if it.hit then "top".toList else [])
  | .target => .plain (it.targetPrice.elim ['—'] (money js))
  | .last => .plain (it.lastPrice.elim ['—'] (money js))
  | .price => .plain (it.lastPrice.elim [] (money js))
  | _ => .plain []

def cardHTML (r : Offer N) (i : ℕ) : List Char :=
  write (fun h => (offerContent js newUrl rankedThr r i h).written)
    (symbols (rankedCard r))

def semCard (r : Offer N) : List Char :=
  write (fun h => (foundContent js newUrl r h).written) (symbols (foundCard r))

def wlCard (it : WatchItem N) : List Char :=
  write (fun h => (watchContent js newUrl it h).written) (symbols (watchCard it))

end Contents

/-! ## What a card may hold -/

def cardTags : List (List Char) :=
  [['d', 'i', 'v'], ['s', 'p', 'a', 'n'], ['i', 'm', 'g'], ['a'], ['p'],
    ['b', 'u', 't', 't', 'o', 'n']]

def href : List Char := ['h', 'r', 'e', 'f']

/-- The names of the attributes: none of an event, and one of an address that a click follows. -/
def cardAttributes : List (List Char) :=
  [href, ['c', 'l', 'a', 's', 's'], ['s', 't', 'y', 'l', 'e'], ['s', 'r', 'c'], ['a', 'l', 't'],
    ['r', 'e', 'f', 'e', 'r', 'r', 'e', 'r', 'p', 'o', 'l', 'i', 'c', 'y'], ['i', 'd'],
    ['d', 'a', 't', 'a', '-', 'i'], ['d', 'a', 't', 'a', '-', 'i', 'd', 'x'],
    ['d', 'a', 't', 'a', '-', 'i', 'd'], ['t', 'a', 'r', 'g', 'e', 't'], ['r', 'e', 'l']]

/-- The test of a template's tokens: the address of a link is a hole of its own. -/
def allowed : Token Hole → Bool
  | .text _ => true
  | .stop name => name ∈ cardTags
  | .start name attributes =>
      name ∈ cardTags ∧ ∀ entry ∈ attributes,
        entry.1 ∈ cardAttributes ∧ (entry.1 = href → entry.2 = [.hole .href])

/-! ## The templates pass -/

/-- The parts of the cards, each with the holes it shows as texts. -/
structure NeatParts : Prop where
  thumb : ∀ imageUrl, Neat allowed [] (thumb imageUrl)
  smallThumb : ∀ imageUrl, Neat allowed [] (smallThumb imageUrl)
  tagFor : ∀ verdict, Neat allowed [] (tagFor verdict)
  watchTag : ∀ hit, Neat allowed [] (watchTag hit)
  src : Neat allowed [.source] ([.markup " "] ++ src)
  estChip : ∀ est, Neat allowed [] (estChip est)
  offerLink : ∀ url, Neat allowed [] (offerLink url)
  watchLink : ∀ url, Neat allowed [] (watchLink url)
  heldHead : Neat allowed [] heldHead
  heldMiddle : Neat allowed [] heldMiddle
  heldTail : Neat allowed [.title, .reason] heldTail
  offerHead : Neat allowed [] offerHead
  offerMiddle : Neat allowed [] offerMiddle
  offerBody : Neat allowed [.title, .reason] offerBody
  offerTail : Neat allowed [] offerTail
  foundHead : Neat allowed [] foundHead
  foundBody : Neat allowed [.source, .title] foundBody
  foundTail : Neat allowed [] foundTail
  watchHead : Neat allowed [] watchHead
  watchMiddle : Neat allowed [] watchMiddle
  watchBody : Neat allowed [.source, .title] watchBody
  watchTail : Neat allowed [] watchTail

-- One theorem for all parts: each evaluation waits for the kernel, so they stand in one queue.
theorem neatParts : NeatParts where
  thumb imageUrl := by
    rw [Lab.thumb]
    split_ifs
    all_goals
      refine neat_of_check ?_
      repeat first | rw [symbols_markup] | rw [symbols_hole]
      decide +kernel
  smallThumb imageUrl := by
    rw [Lab.smallThumb]
    split_ifs
    all_goals
      refine neat_of_check ?_
      repeat first | rw [symbols_markup] | rw [symbols_hole]
      decide +kernel
  tagFor verdict := by
    rw [Lab.tagFor]
    split_ifs
    all_goals
      refine neat_of_check ?_
      rw [symbols_markup]
      decide +kernel
  watchTag hit := by
    rw [Lab.watchTag]
    split_ifs
    all_goals
      refine neat_of_check ?_
      rw [symbols_markup]
      decide +kernel
  src := by
    refine neat_of_check ?_
    rw [Lab.src, List.singleton_append]
    repeat first | rw [symbols_markup] | rw [symbols_hole]
    decide +kernel
  estChip est := by
    rw [Lab.estChip]
    split_ifs
    · refine neat_of_check ?_
      repeat rw [symbols_markup]
      decide +kernel
    · exact neat_of_check rfl
  offerLink url := by
    rw [Lab.offerLink]
    split_ifs
    · refine neat_of_check ?_
      repeat first | rw [symbols_markup] | rw [symbols_hole]
      decide +kernel
    · exact neat_of_check rfl
  watchLink url := by
    rw [Lab.watchLink]
    split_ifs
    · refine neat_of_check ?_
      repeat first | rw [symbols_markup] | rw [symbols_hole]
      decide +kernel
    · exact neat_of_check rfl
  heldHead := by
    refine neat_of_check ?_
    rw [Lab.heldHead, symbols_markup]
    decide +kernel
  heldMiddle := by
    refine neat_of_check ?_
    rw [Lab.heldMiddle, symbols_markup]
    decide +kernel
  heldTail := by
    refine neat_of_check ?_
    rw [Lab.heldTail]
    repeat first | rw [symbols_markup] | rw [symbols_hole]
    decide +kernel
  offerHead := by
    refine neat_of_check ?_
    rw [Lab.offerHead]
    repeat first | rw [symbols_markup] | rw [symbols_hole]
    decide +kernel
  offerMiddle := by
    refine neat_of_check ?_
    rw [Lab.offerMiddle, symbols_markup]
    decide +kernel
  offerBody := by
    refine neat_of_check ?_
    rw [Lab.offerBody]
    repeat first | rw [symbols_markup] | rw [symbols_hole]
    decide +kernel
  offerTail := by
    refine neat_of_check ?_
    rw [Lab.offerTail]
    repeat first | rw [symbols_markup] | rw [symbols_hole]
    decide +kernel
  foundHead := by
    refine neat_of_check ?_
    rw [Lab.foundHead, symbols_markup]
    decide +kernel
  foundBody := by
    refine neat_of_check ?_
    rw [Lab.foundBody]
    repeat first | rw [symbols_markup] | rw [symbols_hole]
    decide +kernel
  foundTail := by
    refine neat_of_check ?_
    rw [Lab.foundTail, symbols_markup]
    decide +kernel
  watchHead := by
    refine neat_of_check ?_
    rw [Lab.watchHead]
    repeat first | rw [symbols_markup] | rw [symbols_hole]
    decide +kernel
  watchMiddle := by
    refine neat_of_check ?_
    rw [Lab.watchMiddle, symbols_markup]
    decide +kernel
  watchBody := by
    refine neat_of_check ?_
    rw [Lab.watchBody]
    repeat first | rw [symbols_markup] | rw [symbols_hole]
    decide +kernel
  watchTail := by
    refine neat_of_check ?_
    rw [Lab.watchTail]
    repeat first | rw [symbols_markup] | rw [symbols_hole]
    decide +kernel

theorem neat_heldCard (r : Offer N) : Neat allowed [.source, .title, .reason] (heldCard r) := by
  have htop := (neatParts.heldHead.append (neatParts.thumb r.imageUrl)).append
    (neatParts.heldMiddle.append (neatParts.tagFor r.verdict))
  have hrow := neatParts.src.append (neatParts.estChip (r.basis = some "peers"))
  have hcard := htop.append (hrow.append neatParts.heldTail)
  simpa [heldCard] using hcard

theorem neat_offerCard (r : Offer N) : Neat allowed [.source, .title, .reason] (offerCard r) := by
  have htop := (neatParts.offerHead.append (neatParts.thumb r.imageUrl)).append
    (neatParts.offerMiddle.append (neatParts.tagFor r.verdict))
  have hrow := neatParts.src.append (neatParts.estChip (r.basis = some "peers"))
  have htail := neatParts.offerBody.append ((neatParts.offerLink r.url).append neatParts.offerTail)
  have hcard := htop.append (hrow.append htail)
  simpa [offerCard] using hcard

theorem neat_rankedCard (r : Offer N) : Neat allowed [.source, .title, .reason] (rankedCard r) := by
  unfold rankedCard
  split_ifs
  · exact neat_heldCard r
  · exact neat_offerCard r

theorem neat_foundCard (r : Offer N) : Neat allowed [.source, .title] (foundCard r) := by
  have htop := neatParts.foundHead.append (neatParts.smallThumb r.imageUrl)
  have htail := neatParts.foundBody.append ((neatParts.offerLink r.url).append neatParts.foundTail)
  simpa [foundCard] using htop.append htail

theorem neat_watchCard (it : WatchItem N) : Neat allowed [.source, .title] (watchCard it) := by
  have htop := (neatParts.watchHead.append (neatParts.smallThumb it.imageUrl)).append
    (neatParts.watchMiddle.append (neatParts.watchTag it.hit))
  have htail := neatParts.watchBody.append ((neatParts.watchLink it.url).append neatParts.watchTail)
  simpa [watchCard] using htop.append htail

/-! ## The contents fit -/

/-- A content that is escaped, or that needs no escaping. -/
def Content.Fits : Content → Prop
  | .escaped _ => True
  | .plain s => Plain s

theorem Content.Fits.saying {c : Content} (h : c.Fits) : Says (K := Empty) c.written c.said := by
  cases c with
  | escaped s => exact says_escape s
  | plain s => exact says_of_plain h

/-- The texts of numbers are digits, signs, points and words. -/
structure Js.WritesPlain (js : Js N) : Prop where
  text : ∀ n, Plain (js.text n)
  fixed2 : ∀ n, Plain (js.fixed2 n)

/-- Where a link of a card may lead: nowhere, or to an http(s) address. -/
def LeadsOut (newUrl : String → Option Url) (address : List Char) : Prop :=
  address = ['#'] ∨ ∃ u p, newUrl u = some p ∧ (p.protocol = "http:" ∨ p.protocol = "https:") ∧
    address = p.href.toList

theorem plain_toDigits (n : ℕ) : Plain (Nat.toDigits 10 n) := by
  intro c hc
  have hdigit := Feeds.isDigit_toDigits n c hc
  refine ⟨?_, ?_, ?_⟩ <;> rintro rfl <;> exact absurd hdigit (by decide)

theorem plain_ite {p : Prop} [Decidable p] {s t : List Char} (hs : Plain s) (ht : Plain t) :
    Plain (if p then s else t) := by
  split_ifs
  · exact hs
  · exact ht

theorem fits_safeHref (newUrl : String → Option Url) (u : Option String) :
    (safeHref newUrl u).Fits := by
  have hnowhere : Plain ['#'] := by decide
  unfold safeHref
  split
  · split_ifs
    · exact trivial
    · exact hnowhere
  · exact hnowhere

theorem leadsOut_safeHref (newUrl : String → Option Url) (u : Option String) :
    LeadsOut newUrl (safeHref newUrl u).said := by
  unfold safeHref
  split
  case h_1 p hp =>
    split_ifs with hprotocol
    · exact .inr ⟨_, p, hp, hprotocol, rfl⟩
    · exact .inl rfl
  case h_2 => exact .inl rfl

section Fits

variable {js : Js N} (hplain : js.WritesPlain)

include hplain

theorem plain_money (n : N) : Plain (money js n) :=
  (hplain.fixed2 n).cons (by decide)

theorem plain_textOf (n : Option N) : Plain (textOf js n) := by
  cases n with
  | none => exact plain_ofList (by decide)
  | some n => exact hplain.text n

theorem plain_underText (n : Option N) : Plain (underText js n) := by
  unfold underText
  split
  · exact plain_ofList (by decide)
  · split_ifs
    · exact ((plain_ofList (by decide)).append (hplain.text _)).append (plain_ofList (by decide))
    · exact ((plain_ofList (by decide)).append (hplain.text _)).append (plain_ofList (by decide))

theorem plain_fairNoteOf (r : Offer N) : Plain (fairNoteOf js r) := by
  unfold fairNoteOf
  split
  · split_ifs
    · exact ((plain_ofList (by decide)).append (plain_money hplain _)).append
        (plain_ofList (by decide))
    · exact (plain_ofList (by decide)).append (plain_money hplain _)
  · split_ifs
    · exact plain_ofList (by decide)
    · exact plain_nil

theorem plain_orMoney (missing : List Char) (hmissing : Plain missing) (n : Option N) :
    Plain (n.elim missing (money js)) := by
  cases n with
  | none => exact hmissing
  | some n => exact plain_money hplain n

end Fits

variable {js : Js N}

theorem fits_offerContent (hplain : js.WritesPlain) (newUrl : String → Option Url) (rankedThr : N)
    (r : Offer N) (i : ℕ) (h : Hole) : (offerContent js newUrl rankedThr r i h).Fits := by
  cases h with
  | title | source | reason | image => exact trivial
  | href => exact fits_safeHref newUrl r.url
  | under => exact plain_underText hplain _
  | claimed | threshold | residualWidth | thresholdWidth | width => exact hplain.text _
  | residual => exact plain_textOf hplain _
  | share => exact hplain.fixed2 _
  | fair | price => exact plain_money hplain _
  | fairNote => exact plain_fairNoteOf hplain r
  | top | accent => exact plain_ite (plain_ofList (by decide)) plain_nil
  | signal2 | fairWord => exact plain_ite (plain_ofList (by decide)) (plain_ofList (by decide))
  | index => exact plain_toDigits i
  | offerId | similarity | target | last => exact plain_nil

theorem fits_foundContent (hplain : js.WritesPlain) (newUrl : String → Option Url)
    (r : Offer N) (h : Hole) : (foundContent js newUrl r h).Fits := by
  cases h with
  | title | source | image => exact trivial
  | href => exact fits_safeHref newUrl r.url
  | similarity =>
      unfold foundContent
      cases r.similarity <;> exact trivial
  | price => exact plain_orMoney hplain [] plain_nil _
  | reason | offerId | top | under | claimed | residual | threshold | share | signal2
  | residualWidth | thresholdWidth | fairWord | fair | fairNote | width | accent | index | target
  | last => exact plain_nil

theorem fits_watchContent (hplain : js.WritesPlain) (newUrl : String → Option Url)
    (it : WatchItem N) (h : Hole) : (watchContent js newUrl it h).Fits := by
  cases h with
  | offerId | title | source | image => exact trivial
  | href => exact fits_safeHref newUrl it.url
  | top => exact plain_ite (plain_ofList (by decide)) plain_nil
  | target | last => exact plain_orMoney hplain ['—'] (by decide) _
  | price => exact plain_orMoney hplain [] plain_nil _
  | reason | similarity | under | claimed | residual | threshold | share | signal2
  | residualWidth | thresholdWidth | fairWord | fair | fairNote | width | accent | index =>
      exact plain_nil

/-! ## What a browser reads -/

/-- A browser reads a text as a card: the tags of its template in their order and no other, the
holes filled with what is said. They are tags and attributes that a card may hold, links lead to
http(s) addresses only, and each of some texts is the whole content of an element. -/
structure Rendered (newUrl : String → Option Url) (template : Template)
    (said : Hole → List Char) (html : List Char) (texts : List (List Char))
    (tokens : List (Token Hole)) : Prop where
  own : tokenize .data (symbols template) = some (tokens, .data)
  read : readHtml html = some (fillTokens said tokens)
  stops : ∀ name, .stop name ∈ tokens → name ∈ cardTags
  starts : ∀ name attributes, .start name attributes ∈ tokens → name ∈ cardTags ∧
    ∀ entry ∈ attributes, entry.1 ∈ cardAttributes
  links : ∀ name attributes value,
    .start name attributes ∈ (fillTokens said tokens : List (Token Empty)) →
      (href, value) ∈ attributes →
        ∃ address, value = plainText address ∧ LeadsOut newUrl address
  shows : ∀ text ∈ texts, Shows (fillTokens said tokens : List (Token Empty)) (plainText text)

theorem rendered_of_neat {newUrl : String → Option Url} {content : Hole → Content}
    (hfits : ∀ h, (content h).Fits) (hlink : LeadsOut newUrl (content .href).said)
    {template : Template} {shown : List Hole} (hneat : Neat allowed shown template) :
    ∃ tokens, Rendered newUrl template (fun h => (content h).said)
      (write (fun h => (content h).written) (symbols template))
      (shown.map fun h => (content h).said) tokens := by
  obtain ⟨tokens, hread, hok, hshown⟩ := hneat
  refine ⟨tokens, hread, readHtml_write (fun h => (hfits h).saying) hread, fun name hmem => ?_,
    fun name attributes hmem => ?_, fun name attributes value hmem hvalue => ?_,
    fun text hmem => ?_⟩
  · exact of_decide_eq_true (hok _ hmem)
  · have hallowed := of_decide_eq_true (hok _ hmem)
    exact ⟨hallowed.1, fun entry hentry => (hallowed.2 entry hentry).1⟩
  · obtain ⟨before, ht, rfl⟩ := start_mem_fillTokens hmem
    obtain ⟨entry, hentry, heq⟩ := List.mem_map.1 hvalue
    obtain ⟨hname, rfl⟩ := Prod.mk.inj heq
    have hhole := ((of_decide_eq_true (hok _ ht)).2 entry hentry).2 hname
    refine ⟨(content .href).said, ?_, hlink⟩
    rw [hhole]
    exact List.append_nil _
  · obtain ⟨h, hh, rfl⟩ := List.mem_map.1 hmem
    exact (hshown h hh).fill

/-- What an element shows for a text that may be missing. -/
def shownText (s : Option String) : List Char := (s.getD "").toList

/-- Whole numbers. -/
def whole : Js ℕ where
  num n := n
  text n := Nat.toDigits 10 n
  fixed2 n := Nat.toDigits 10 n ++ ['.', '0', '0']
  le m n := decide (m ≤ n)
  abs n := n
  min := Nat.min
  max := Nat.max
  mul m n := m * n
  div m n := m / n
  round n := n

/-- An offer whose seller tries a tag, an attribute and a script. -/
def hostile : Offer ℕ where
  title := some "<script>alert(1)</script>"
  source := some "\" onclick=\"alert(1)"
  reason := none
  imageUrl := some "x\" onerror=\"alert(1)"
  url := some "javascript:alert(1)"
  verdict := some "deal"
  basis := some "peers"
  similarity := none
  price := some 20
  fair := some 30
  pctUnderMedian := some 33
  residualFrac := none

/-- The parser of addresses, of the one that `hostile` has. -/
def scriptUrl (u : String) : Option Url :=
  if u = "javascript:alert(1)" then some ⟨"javascript:", u⟩ else none

end DealFinder.Lab
