/-
# Setting the parts of a URL

What the setters of a URL with a host make of a text. Setting a path drops the dot segments
and spells what a path may not have; setting a query spells what a query may not have. A
text that is already written so is set as it is (`setPathname_eq`, `setSearch_eq`).
-/

import DealFinder.Math.PercentCoding

namespace DealFinder.Math

/-- The characters that a URL drops wherever they stand. -/
def isDropped (c : Char) : Bool := c = '\t' || c = '\n' || c = '\r'

/-- Controls, and what is not ASCII. -/
def isControl (c : Char) : Bool := c.toNat < 32 || 126 < c.toNat

/-- The characters that the query of a URL with a host may not have. -/
def queryEncodes (c : Char) : Bool := isControl c || [' ', '"', '#', '<', '>', '\''].contains c

/-- The characters that a path may not have. -/
def pathEncodes (c : Char) : Bool :=
  isControl c || [' ', '"', '#', '<', '>', '?', '^', '\x60', '\x7b', '\x7d'].contains c

/-- A text with some characters spelled as the bytes of their UTF-8 form. -/
def encodeText (encodes : Char → Bool) (text : List Char) : List Char :=
  text.flatMap fun c =>
    if encodes c then
      (String.utf8EncodeChar c).flatMap fun b =>
        ['%', hexDigit (b.toNat / 16), hexDigit (b.toNat % 16)]
    else [c]

/-- Nothing is dropped of a text without controls. -/
theorem filter_isDropped {text : List Char} (h : ∀ c ∈ text, isControl c = false) :
    text.filter (fun c => !isDropped c) = text := by
  apply List.filter_eq_self.2
  intro c hc
  have hcontrol := h c hc
  simp only [isDropped, Bool.not_eq_true', Bool.or_eq_false_iff, decide_eq_false_iff_not]
  constructor
  · constructor
    · rintro rfl
      exact absurd hcontrol (by decide)
    · rintro rfl
      exact absurd hcontrol (by decide)
  · rintro rfl
    exact absurd hcontrol (by decide)

/-! ## Paths -/

/-- The spellings of a point. -/
def points : List (List Char) := [".".toList, "%2e".toList, "%2E".toList]

/-- A segment that stands for where it is. -/
def isSingleDot (segment : List Char) : Bool := points.contains segment

/-- A segment that stands for what it is in. -/
def isDoubleDot (segment : List Char) : Bool :=
  (points.flatMap fun first => points.map (first ++ ·)).contains segment

/-- The segments of a path after those done, one segment of a text at a time. -/
def walk (done : List (List Char)) : List (List Char) → List (List Char)
  | [] => done
  | segment :: rest =>
      let last := rest = []
      if isDoubleDot segment then
        walk (done.dropLast ++ if last then [[]] else []) rest
      else if isSingleDot segment then walk (done ++ if last then [[]] else []) rest
      else walk (done ++ [encodeText pathEncodes segment]) rest

/-- `url.pathname = value`, and what `url.pathname` is then. -/
def setPathname (value : String) : String :=
  let text := value.toList.filter fun c => !isDropped c
  let text := if text.head? = some '/' ∨ text.head? = some '\\' then text.tail else text
  let text := text.map fun c => if c = '\\' then '/' else c
  String.ofList ('/' :: ['/'].intercalate (walk [] (text.splitOn '/')))

/-- A path as the platform writes it: nothing in it has to be spelled, and it has no dot
segments. -/
structure IsPathname (path : String) : Prop where
  rooted : path.toList.head? = some '/'
  encoded : ∀ c ∈ path.toList, pathEncodes c = false ∧ c ≠ '\\'
  undotted : ∀ segment ∈ path.toList.tail.splitOn '/',
    isSingleDot segment = false ∧ isDoubleDot segment = false

theorem encodeText_eq {encodes : Char → Bool} {text : List Char}
    (h : ∀ c ∈ text, encodes c = false) : encodeText encodes text = text := by
  induction text with
  | nil => rfl
  | cons c text ih =>
      rw [encodeText, List.flatMap_cons, if_neg (by simp [h c List.mem_cons_self])]
      exact congrArg (c :: ·) (ih fun d hd => h d (List.mem_cons_of_mem _ hd))

/-- Plain segments are kept. -/
theorem walk_eq (done : List (List Char)) {segments : List (List Char)}
    (hencoded : ∀ segment ∈ segments, ∀ c ∈ segment, pathEncodes c = false)
    (hundotted : ∀ segment ∈ segments, isSingleDot segment = false ∧ isDoubleDot segment = false) :
    walk done segments = done ++ segments := by
  induction segments generalizing done with
  | nil => exact (List.append_nil done).symm
  | cons segment segments ih =>
      obtain ⟨hsingle, hdouble⟩ := hundotted segment List.mem_cons_self
      rw [walk, hdouble, hsingle, if_neg (by decide), if_neg (by decide),
        encodeText_eq (hencoded segment List.mem_cons_self),
        ih _ (fun other h => hencoded other (List.mem_cons_of_mem _ h))
          fun other h => hundotted other (List.mem_cons_of_mem _ h),
        List.append_assoc]
      rfl

/-- A segment of a text has no character that the text does not have. -/
theorem mem_of_mem_splitOn {c d : Char} {text segment : List Char}
    (hsegment : segment ∈ text.splitOn d) (hc : c ∈ segment) : c ∈ text := by
  have hjoin : ∀ segments : List (List Char), segment ∈ segments →
      c ∈ [d].intercalate segments := by
    intro segments hmem
    induction segments with
    | nil => cases hmem
    | cons first segments ih =>
        cases segments with
        | nil =>
            rw [List.mem_singleton.1 hmem] at hc
            simpa using hc
        | cons second segments =>
            rw [List.intercalate_cons_cons, List.mem_append, List.mem_append]
            rcases List.mem_cons.1 hmem with rfl | hmem
            · exact Or.inl (Or.inl hc)
            · exact Or.inr (ih hmem)
  have hmem := hjoin _ hsegment
  rwa [List.intercalate_splitOn] at hmem

/-- Setting a path that is already written as one changes nothing. -/
theorem setPathname_eq {path : String} (h : IsPathname path) : setPathname path = path := by
  obtain ⟨rest, hrest⟩ := List.head?_eq_some_iff.1 h.rooted
  have hkept : path.toList.filter (fun c => !isDropped c) = path.toList :=
    filter_isDropped fun c hc => (Bool.or_eq_false_iff.1 (h.encoded c hc).1).1
  have hmem : ∀ c ∈ rest, c ∈ path.toList := fun c hc => hrest ▸ List.mem_cons_of_mem _ hc
  have hslashed : rest.map (fun c => if c = '\\' then '/' else c) = rest := by
    refine (List.map_congr_left fun c hc => ?_).trans (List.map_id rest)
    exact if_neg (h.encoded c (hmem c hc)).2
  have hsegments : walk [] (rest.splitOn '/') = rest.splitOn '/' := by
    have hundotted := h.undotted
    rw [hrest, List.tail_cons] at hundotted
    refine walk_eq [] (fun segment hsegment c hc => ?_) hundotted
    exact (h.encoded c (hmem c (mem_of_mem_splitOn hsegment hc))).1
  rw [setPathname, hkept, hrest, List.head?_cons, if_pos (Or.inl rfl), List.tail_cons, hslashed,
    hsegments, List.intercalate_splitOn, ← hrest, String.ofList_toList]

/-! ## Queries -/

/-- `url.search = value`, and what `url.search` is then. -/
def setSearch (value : String) : String :=
  let text := if value.toList.head? = some '?' then value.toList.tail else value.toList
  let text := text.filter fun c => !isDropped c
  if text = [] then "" else String.ofList ('?' :: encodeText queryEncodes text)

/-- A query as the platform writes it. -/
structure IsSearch (search : String) : Prop where
  marked : search = "" ∨ ∃ query ≠ [], search.toList = '?' :: query
  encoded : ∀ c ∈ search.toList, queryEncodes c = false

/-- Setting a query that is already written as one changes nothing. -/
theorem setSearch_eq {search : String} (h : IsSearch search) : setSearch search = search := by
  rcases h.marked with rfl | ⟨query, hne, hquery⟩
  · rfl
  · have hencoded : ∀ c ∈ query, queryEncodes c = false :=
      fun c hc => h.encoded c (hquery ▸ List.mem_cons_of_mem _ hc)
    have hkept : query.filter (fun c => !isDropped c) = query :=
      filter_isDropped fun c hc => (Bool.or_eq_false_iff.1 (hencoded c hc)).1
    rw [setSearch, hquery, List.head?_cons, if_pos rfl, List.tail_cons, hkept, if_neg hne,
      encodeText_eq hencoded, ← hquery, String.ofList_toList]

end DealFinder.Math
