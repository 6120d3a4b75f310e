/-
# JSON values

What `r.json()` gives, and the operations the connectors use on it. An operation that the
value does not have raises, which is `none` here.
-/

import DealFinder.Feeds.Float
import DealFinder.Math.Runs

namespace DealFinder.Feeds

open DealFinder.Math DealFinder.Rag

/-- A JSON value. Of an object the last entry of a key counts. -/
inductive Json
  | null
  | bool (b : Bool)
  | int (n : ℤ)
  | float (x : Double)
  | str (s : String)
  | arr (items : List Json)
  | obj (entries : List (String × Json))

/-- What the program takes from its runtime besides the character tables. -/
structure Runtime extends Language where
  /-- `str.upper`. -/
  upper : String → String
  /-- `str`, of a float, an array or an object. -/
  repr : Json → String
  /-- `<`, of two values that are not both numbers. -/
  less : Json → Json → Option Bool
  /-- `urlparse(url).netloc`. -/
  netloc : String → Option String

namespace Json

/-- `bool(v)`. -/
def truthy : Json → Bool
  | null => false
  | bool b => b
  | int n => n ≠ 0
  | float x => x.truthy
  | str s => s ≠ ""
  | arr items => !items.isEmpty
  | obj entries => !entries.isEmpty

/-- `x or y`. -/
def orElse (x y : Json) : Json := if x.truthy then x else y

/-- The value of a key. -/
def value? (entries : List (String × Json)) (key : String) : Option Json :=
  (entries.reverse.find? fun entry => entry.1 = key).map Prod.snd

/-- `v.get(key, default)`. -/
def getD (v : Json) (key : String) (default : Json) : Option Json :=
  match v with
  | obj entries => some ((value? entries key).getD default)
  | _ => none

/-- `v.get(key)`. -/
def get (v : Json) (key : String) : Option Json := v.getD key null

/-- `v.get(key) or v.get(other)`. -/
def getOr (v : Json) (key other : String) : Option Json := do
  let x ← v.get key
  let y ← v.get other
  return x.orElse y

/-- `(v or {}).get(key)`. -/
def getIn (v : Json) (key : String) : Option Json := (v.orElse (obj [])).get key

/-- What `for x in v` goes over. -/
def iterate : Json → Option (List Json)
  | arr items => some items
  | obj entries => some ((Dict.ofPairs entries).keys.map str)
  | str s => some (s.toList.map fun c => str (String.singleton c))
  | _ => none

/-- `(v or [default])[0]`. -/
def firstOr (v default : Json) : Option Json :=
  if v.truthy then
    match v with
    | arr (x :: _) => some x
    | str s => s.toList.head?.map fun c => str (String.singleton c)
    | _ => none
  else some default

/-- A field that has to be a text. -/
def asStr : Json → Option String
  | str s => some s
  | _ => none

/-- A field that may be a text or `None`. -/
def asStrOrNone : Json → Option (Option String)
  | null => some none
  | str s => some (some s)
  | _ => none

/-- A number as it is compared: a boolean is one or zero. -/
def number? : Json → Option Double
  | bool b => some (.finite (if b then 1 else 0))
  | int n => some (.finite n)
  | float x => some x
  | _ => none

end Json

/-- `s[:k]`. -/
def clip (k : ℕ) (s : String) : String := String.ofList (s.toList.take k)

section Reading

variable (runtime : Runtime)

/-- `str(v)`. -/
def strOf : Json → String
  | .null => "None"
  | .bool b => if b then "True" else "False"
  | .int n => toString n
  | .str s => s
  | v => runtime.repr v

/-- `x < y`. -/
def lessThan (x y : Json) : Option Bool :=
  match x.number?, y.number? with
  | some a, some b => some (a.less b)
  | _, _ => runtime.less x y

/-- `_f`, of a text: the first word without dollar signs and commas. -/
def readPrice (s : String) : Option Double :=
  (runs (fun x => !isSpace x) (s.toList.filter fun x => x ≠ '$' ∧ x ≠ ',')).head?.bind
    fun word => readFloat runtime.toLanguage (String.ofList word)

/-- `_f`. The text of a number reads as the number, and that of anything else but a text as
none. -/
def f : Json → Option Double
  | .str s => readPrice runtime s
  | .int n => some (Double.nearest n)
  | .float x => some x
  | _ => none

/-- `float(v)`. A whole number that overflows raises. -/
def floatOf : Json → Option Double
  | .str s => readFloat runtime.toLanguage s
  | .bool b => some (.finite (if b then 1 else 0))
  | .int n =>
      match Double.nearest n with
      | .finite x => some (.finite x)
      | _ => none
  | .float x => some x
  | _ => none

/-- `v[:120]`, of a title or the fallback for it. -/
def titleOf (v : Json) (fallback : String) : Option String :=
  if v.truthy then v.asStr.map (clip 120) else some (clip 120 fallback)

end Reading

/-- The runtime, on ASCII, for values whose text is not asked for. -/
def plainRuntime : Runtime where
  toLanguage := plainLanguage
  upper s := String.ofList (s.toList.map Char.toUpper)
  repr _ := ""
  less
    | .str a, .str b => some (a < b)
    | _, _ => none
  netloc _ := some ""

end DealFinder.Feeds
