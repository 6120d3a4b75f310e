/-
# The object in a reply

A model replies with prose around the JSON that it was asked for. The program takes what
lies between the first opening brace and the last closing one, so it finds the object
exactly if no closing brace follows it (`first_object_iff`).
-/

import DealFinder.Feeds.JsonText
import DealFinder.Math.Regex

namespace DealFinder.Agent

open DealFinder.Math DealFinder.Feeds

/-- `ListingSpecs`. -/
structure ListingSpecs where
  brand : Option String := none
  category : Option String := none
  condition : String := "new"
  model : Option String := none
  deriving DecidableEq

/-- `ListingSpecs.model_validate`. -/
def validate : Json → Option ListingSpecs
  | .obj entries => do
      let optional := fun key => ((Json.value? entries key).getD .null).asStrOrNone
      let brand ← optional "brand"
      let category ← optional "category"
      let condition ← ((Json.value? entries "condition").getD (.str "new")).asStr
      let model ← optional "model"
      return ⟨brand, category, condition, model⟩
  | _ => none

/-- `\x7b.*\x7d`, where the point stands for any character. -/
def objectRe : Grouped where
  before := .plain .empty
  group := (Regex.one fun c => c = '\x7b').seq
    ((Regex.many fun _ => true).seq (Regex.one fun c => c = '\x7d'))
  after := .plain .empty

/-- `m.group(0) if m else raw`, of the first match in the reply without the blanks around it. -/
def grab (raw : String) : String :=
  match objectRe.search (fun _ => false) (strip raw).toList with
  | some (group, _) => String.ofList group
  | none => raw

/-- `parse_llm_json`. -/
def parseLlmJson (raw : String) : Option ListingSpecs := (loads (grab raw)).bind validate

/-- `_first_json`. -/
def firstJson (raw : String) : Option Json := loads (grab raw)

/-- The JSON text of an object: it opens and closes with a brace, and is read as a whole. -/
structure IsObjectText (t : String) (v : Json) : Prop where
  opens : t.toList.head? = some '\x7b'
  closes : t.toList.getLast? = some '\x7d'
  reads : scanValue (t.toList.length + 1) t.toList = some (v, [])

/-! ## The match -/

/-- A greedy match ends at the last closing brace. -/
theorem head?_manyEnds (mid tail : List Char) (last : Option Char) (htail : '\x7d' ∉ tail) :
    ((Regex.manyEnds (fun _ => true) last (mid ++ '\x7d' :: tail)).flatMap
      ((Regex.one fun c => c = '\x7d').ends fun _ => false)).head? = some ⟨some '\x7d', tail⟩ := by
  have hnone : ∀ last, (Regex.manyEnds (fun _ => true) last tail).flatMap
      ((Regex.one fun c => c = '\x7d').ends fun _ => false) = [] := by
    induction tail with
    | nil => exact fun _ => rfl
    | cons x tail ih =>
        intro last
        have hx : x ≠ '\x7d' := fun h => htail (h ▸ List.mem_cons_self)
        rw [Regex.manyEnds, if_pos rfl, List.flatMap_append,
          ih fun h => htail (List.mem_cons_of_mem _ h)]
        simp [Regex.one, Regex.ends, Pattern.ends, hx]
  induction mid generalizing last with
  | nil =>
      rw [List.nil_append, Regex.manyEnds, if_pos rfl, List.flatMap_append, hnone]
      rfl
  | cons x mid ih =>
      rw [List.cons_append, Regex.manyEnds, if_pos rfl, List.flatMap_append, List.head?_append,
        ih]
      rfl

theorem matchAt_object (mid tail : List Char) (last : Option Char) (htail : '\x7d' ∉ tail) :
    (objectRe.matchAt (fun _ => false) ⟨last, '\x7b' :: (mid ++ '\x7d' :: tail)⟩).map Prod.fst =
      some ('\x7b' :: mid ++ ['\x7d']) := by
  have hgroup : objectRe.group.Prefers (fun _ => false)
      ⟨last, ('\x7b' :: mid ++ ['\x7d']) ++ tail⟩ ⟨some '\x7d', tail⟩ := by
    have htext : ('\x7b' :: mid ++ ['\x7d']) ++ tail = '\x7b' :: (mid ++ '\x7d' :: tail) := by simp
    rw [htext]
    exact (Regex.prefers_one rfl).seq (head?_manyEnds mid tail (some '\x7b') htail)
  have hafter : objectRe.after.Prefers (fun _ => false) ⟨some '\x7d', tail⟩
      ⟨some '\x7d', tail⟩ := Regex.prefers_empty
  have htake := Grouped.groupAt_of_prefers hgroup hafter
  have htext : ('\x7b' :: mid ++ ['\x7d']) ++ tail = '\x7b' :: (mid ++ '\x7d' :: tail) := by simp
  rw [htext] at htake
  rw [Grouped.matchAt_of_prefers Regex.prefers_empty htake]
  rfl

/-- The match starts at the first opening brace and ends at the last closing one. -/
theorem search_object {before mid tail : List Char} (hbefore : '\x7b' ∉ before)
    (htail : '\x7d' ∉ tail) :
    (objectRe.search (fun _ => false) (before ++ '\x7b' :: (mid ++ '\x7d' :: tail))).map Prod.fst =
      some ('\x7b' :: mid ++ ['\x7d']) := by
  unfold Grouped.search
  generalize (none : Option Char) = last
  induction before generalizing last with
  | nil =>
      obtain ⟨found, hfound, hgroup⟩ :=
        Option.map_eq_some_iff.1 (matchAt_object mid tail last htail)
      rw [List.nil_append, Pattern.cursors, List.findSome?_cons, hfound]
      exact congrArg some hgroup
  | cons x before ih =>
      have hx : x ≠ '\x7b' := fun h => hbefore (h ▸ List.mem_cons_self)
      have hskip : objectRe.matchAt (fun _ => false)
          ⟨last, x :: (before ++ '\x7b' :: (mid ++ '\x7d' :: tail))⟩ = none := by
        simp [Grouped.matchAt, Grouped.groupAt, objectRe, Regex.ends, Regex.one, Pattern.ends, hx]
      rw [List.cons_append, Pattern.cursors, List.findSome?_cons, hskip]
      exact ih (fun h => hbefore (List.mem_cons_of_mem _ h)) (some x)

/-! ## What is taken of a reply -/

theorem dropWhile_append_cons {p : Char → Bool} {x : Char} (hx : p x = false) (l r : List Char) :
    (l ++ x :: r).dropWhile p = l.dropWhile p ++ x :: r := by
  induction l with
  | nil => exact List.dropWhile_cons_of_neg (by simp [hx])
  | cons y l ih =>
      rw [List.cons_append, List.dropWhile_cons, List.dropWhile_cons]
      split_ifs
      · exact ih
      · rfl

/-- The blanks around a reply are not within its object. -/
theorem strip_reply {s : String} {before mid after : List Char}
    (hs : s.toList = before ++ '\x7b' :: (mid ++ '\x7d' :: after)) :
    (strip s).toList = before.dropWhile isSpace ++
      '\x7b' :: (mid ++ '\x7d' :: (after.reverse.dropWhile isSpace).reverse) := by
  have hreverse : (before.dropWhile isSpace ++ '\x7b' :: (mid ++ '\x7d' :: after)).reverse =
      after.reverse ++ '\x7d' :: (before.dropWhile isSpace ++ '\x7b' :: mid).reverse := by simp
  rw [strip, String.toList_ofList, hs, dropWhile_append_cons (by decide), hreverse,
    dropWhile_append_cons (by decide)]
  simp

theorem IsObjectText.eq_cons {t : String} {v : Json} (ht : IsObjectText t v) :
    ∃ mid, t.toList = '\x7b' :: (mid ++ ['\x7d']) := by
  obtain ⟨tail, htail⟩ := List.head?_eq_some_iff.1 ht.opens
  obtain ⟨init, hinit⟩ := List.getLast?_eq_some_iff.1 ht.closes
  cases init with
  | nil =>
      rw [htail] at hinit
      exact absurd (List.cons.inj hinit).1 (by decide)
  | cons c mid =>
      rw [htail, List.cons_append] at hinit
      obtain ⟨rfl, rfl⟩ := List.cons.inj hinit
      exact ⟨mid, htail⟩

section Reply

variable {t p1 p2 : String} {v : Json}

/-- Without a closing brace behind it the object is all that is taken. -/
theorem grab_of_none (ht : IsObjectText t v) (hp1 : '\x7b' ∉ p1.toList)
    (hp2 : '\x7d' ∉ p2.toList) : grab (p1 ++ t ++ p2) = t := by
  obtain ⟨mid, hmid⟩ := ht.eq_cons
  have hs : (p1 ++ t ++ p2).toList = p1.toList ++ '\x7b' :: (mid ++ '\x7d' :: p2.toList) := by
    simp [hmid]
  have hbefore : '\x7b' ∉ p1.toList.dropWhile isSpace := fun h =>
    hp1 ((List.dropWhile_sublist _).subset h)
  have htail : '\x7d' ∉ (p2.toList.reverse.dropWhile isSpace).reverse := fun h =>
    hp2 (List.mem_reverse.1 ((List.dropWhile_sublist _).subset (List.mem_reverse.1 h)))
  obtain ⟨⟨group, stop⟩, hfound, hgroup⟩ :=
    Option.map_eq_some_iff.1 (search_object hbefore htail)
  rw [grab, strip_reply hs, hfound]
  have htext : group = t.toList := by
    rw [hmid]
    exact hgroup
  show String.ofList group = t
  rw [htext, String.ofList_toList]

/-- A list is cut at the last occurrence of a member. -/
theorem exists_last_of_mem {c : Char} {l : List Char} (h : c ∈ l) :
    ∃ before after, l = before ++ c :: after ∧ c ∉ after := by
  obtain ⟨after, before, hl, hafter⟩ := List.eq_append_cons_of_mem (List.mem_reverse.2 h)
  refine ⟨before.reverse, after.reverse, ?_, fun hmem => hafter (List.mem_reverse.1 hmem)⟩
  rw [← List.reverse_reverse l, hl]
  simp

/-- A closing brace behind the object is taken with it, and what lies between. -/
theorem grab_of_mem (ht : IsObjectText t v) (hp1 : '\x7b' ∉ p1.toList)
    (hp2 : '\x7d' ∈ p2.toList) :
    ∃ between, (grab (p1 ++ t ++ p2)).toList = t.toList ++ (between ++ ['\x7d']) := by
  obtain ⟨mid, hmid⟩ := ht.eq_cons
  obtain ⟨between, tail, hcut, htail⟩ := exists_last_of_mem hp2
  have hs : (p1 ++ t ++ p2).toList =
      p1.toList ++ '\x7b' :: ((mid ++ '\x7d' :: between) ++ '\x7d' :: tail) := by
    simp [hmid, hcut]
  have hbefore : '\x7b' ∉ p1.toList.dropWhile isSpace := fun h =>
    hp1 ((List.dropWhile_sublist _).subset h)
  have htail' : '\x7d' ∉ (tail.reverse.dropWhile isSpace).reverse := fun h =>
    htail (List.mem_reverse.1 ((List.dropWhile_sublist _).subset (List.mem_reverse.1 h)))
  have hsearch := @search_object _ (mid ++ '\x7d' :: between) _ hbefore htail'
  obtain ⟨⟨group, stop⟩, hfound, hgroup⟩ := Option.map_eq_some_iff.1 hsearch
  have htext : group = t.toList ++ (between ++ ['\x7d']) := by
    rw [hmid]
    exact hgroup.trans (by simp)
  refine ⟨between, ?_⟩
  rw [grab, strip_reply hs, hfound]
  show (String.ofList group).toList = _
  rw [htext, String.toList_ofList]

/-- The object itself is read. -/
theorem IsObjectText.loads_eq (ht : IsObjectText t v) : loads t = some v :=
  loads_append [] ht.reads ht.opens (by simp)

/-- An object with a closing brace behind it is not. -/
theorem IsObjectText.loads_eq_none (ht : IsObjectText t v) {s : String} {between : List Char}
    (hs : s.toList = t.toList ++ (between ++ ['\x7d'])) : loads s = none := by
  rw [loads_append _ ht.reads ht.opens hs]
  refine if_neg fun hblank => ?_
  rw [skipBlanks, dropWhile_append_cons (by decide)] at hblank
  exact absurd hblank (by simp)

end Reply

/-! ## The text of a value -/

/-- A text, or `null`. -/
def optionText : Option String → List Char
  | some s => quoteText s.toList
  | none => "null".toList

def optionJson : Option String → Json
  | some s => .str s
  | none => .null

/-- The text of a member. -/
def memberText (entry : String × Option String) : List Char :=
  quoteText entry.1.toList ++ ':' :: optionText entry.2

/-- The text of the members after the first, and the closing brace. -/
def moreText : List (String × Option String) → List Char
  | [] => ['\x7d']
  | entry :: more => ',' :: (memberText entry ++ moreText more)

def memberJson (entry : String × Option String) : String × Json := (entry.1, optionJson entry.2)

/-- The text of an object. -/
def objectText (entry : String × Option String) (more : List (String × Option String)) :
    List Char :=
  '\x7b' :: (memberText entry ++ moreText more)

/-- `model_dump`. -/
def fields (s : ListingSpecs) : List (String × Option String) :=
  [("category", s.category), ("condition", some s.condition), ("model", s.model)]

def modelDump (s : ListingSpecs) : Json :=
  .obj (memberJson ("brand", s.brand) :: (fields s).map memberJson)

/-- `model_dump_json`. -/
def modelDumpJson (s : ListingSpecs) : String :=
  String.ofList (objectText ("brand", s.brand) (fields s))

theorem scanValue_optionText (n : ℕ) (x : Option String) (rest : List Char) :
    scanValue (n + 1) (optionText x ++ rest) = some (optionJson x, rest) := by
  cases x with
  | none => rfl
  | some s =>
      have hhead : (optionText (some s) ++ rest).head? = some '"' := rfl
      rw [scanValue, if_pos hhead, optionText, scanString_quoteText]
      exact congrArg (fun text => some (Json.str text, rest)) String.ofList_toList

theorem moreText_head (more : List (String × Option String)) :
    skipBlanks (moreText more) = moreText more := by
  cases more with
  | nil => rfl
  | cons entry more => rfl

theorem skipBlanks_optionText (x : Option String) (rest : List Char) :
    skipBlanks (optionText x ++ rest) = optionText x ++ rest := by
  cases x with
  | none => rfl
  | some s => rfl

/-- One member that is written is read back, and what follows it is read on. -/
theorem scanMembers_memberText (n : ℕ) (entry : String × Option String)
    (more : List (String × Option String)) :
    scanMembers (n + 2) (memberText entry ++ moreText more) =
      if (moreText more).head? = some '\x7d' then some ([memberJson entry], (moreText more).tail)
      else if (moreText more).head? = some ',' then
        (scanMembers (n + 1) (skipBlanks (moreText more).tail)).map fun (others, rest) =>
          (memberJson entry :: others, rest)
      else none := by
  have hhead : (memberText entry ++ moreText more).head? = some '"' := rfl
  have htext : memberText entry ++ moreText more =
      quoteText entry.1.toList ++ ':' :: (optionText entry.2 ++ moreText more) := by
    simp [memberText]
  have hcolon : skipBlanks (':' :: (optionText entry.2 ++ moreText more)) =
      ':' :: (optionText entry.2 ++ moreText more) := rfl
  rw [scanMembers, if_pos hhead, htext, scanString_quoteText]
  simp only [Option.bind_eq_bind, Option.bind_some, hcolon, List.head?_cons, List.tail_cons,
    skipBlanks_optionText, scanValue_optionText, moreText_head, String.ofList_toList, if_true]
  rfl

/-- The members that are written are read back. -/
theorem scanMembers_moreText (n : ℕ) (entry : String × Option String)
    (more : List (String × Option String)) :
    scanMembers (n + more.length + 2) (memberText entry ++ moreText more) =
      some (memberJson entry :: more.map memberJson, []) := by
  induction more generalizing entry with
  | nil => exact scanMembers_memberText n entry []
  | cons next more ih =>
      have hskip : skipBlanks (moreText (next :: more)).tail =
          memberText next ++ moreText more := rfl
      have hhead : (moreText (next :: more)).head? = some ',' := rfl
      rw [scanMembers_memberText, hhead, if_neg (by decide), if_pos rfl, hskip,
        List.length_cons, ← Nat.add_assoc, ih]
      rfl

theorem getLast?_moreText (more : List (String × Option String)) (before : List Char) :
    (before ++ moreText more).getLast? = some '\x7d' := by
  induction more generalizing before with
  | nil => simp [moreText]
  | cons entry more ih =>
      have hmore : before ++ moreText (entry :: more) =
          (before ++ ',' :: memberText entry) ++ moreText more := by simp [moreText]
      rw [hmore, ih]

theorem length_moreText (more : List (String × Option String)) :
    more.length < (moreText more).length := by
  induction more with
  | nil => exact Nat.zero_lt_one
  | cons entry more ih =>
      rw [moreText, List.length_cons, List.length_cons, List.length_append]
      omega

/-- The text of a value is the text of an object. -/
theorem isObjectText_modelDumpJson (s : ListingSpecs) :
    IsObjectText (modelDumpJson s) (modelDump s) := by
  have htext : (modelDumpJson s).toList =
      '\x7b' :: (memberText ("brand", s.brand) ++ moreText (fields s)) := String.toList_ofList
  have hlength : (fields s).length + 2 ≤
      (memberText ("brand", s.brand) ++ moreText (fields s)).length := by
    have hmore := length_moreText (fields s)
    have hmember : 0 < (memberText ("brand", s.brand)).length := Nat.succ_pos _
    rw [List.length_append]
    omega
  obtain ⟨n, hn⟩ := Nat.exists_eq_add_of_le hlength
  refine ⟨?_, ?_, ?_⟩
  · rw [htext]
    rfl
  · rw [htext]
    exact getLast?_moreText (fields s) ('\x7b' :: memberText ("brand", s.brand))
  · have hskip : skipBlanks (memberText ("brand", s.brand) ++ moreText (fields s)) =
        memberText ("brand", s.brand) ++ moreText (fields s) := rfl
    have hbound : (memberText ("brand", s.brand) ++ moreText (fields s)).length + 1 =
        n + 1 + (fields s).length + 2 := by omega
    have hhead : (memberText ("brand", s.brand) ++ moreText (fields s)).head? = some '"' := rfl
    rw [htext, scanValue, List.length_cons, hbound, List.tail_cons, List.head?_cons, hskip, hhead,
      if_neg (by decide), if_pos rfl, if_neg (by decide), scanMembers_moreText]
    rfl

theorem validate_modelDump (s : ListingSpecs) : validate (modelDump s) = some s := by
  obtain ⟨brand, category, condition, model⟩ := s
  cases brand <;> cases category <;> cases model <;>
    simp [validate, modelDump, fields, memberJson, optionJson, Json.value?, Json.asStr,
      Json.asStrOrNone]

/-! ## Replies -/

/-- The object of a reply is what is parsed if and only if no closing brace follows it. -/
theorem first_object_iff {s : ListingSpecs} {t p1 p2 : String} {v : Json}
    (ht : IsObjectText t v) (hs : validate v = some s) (hp1 : '\x7b' ∉ p1.toList) :
    (parseLlmJson (p1 ++ t ++ p2) = some s ∧ firstJson (p1 ++ t ++ p2) = some v) ↔
      '\x7d' ∉ p2.toList := by
  constructor
  · rintro ⟨-, hread⟩ hmem
    obtain ⟨between, hgrab⟩ := grab_of_mem ht hp1 hmem
    rw [firstJson, ht.loads_eq_none hgrab] at hread
    cases hread
  · intro hp2
    rw [parseLlmJson, firstJson, grab_of_none ht hp1 hp2, ht.loads_eq]
    exact ⟨hs, rfl⟩

/-- A value as it is written, between prose. -/
theorem first_object_iff_headphones :
    (parseLlmJson ("Here it is: " ++ modelDumpJson ⟨some "Sony", some "audio", "new", none⟩ ++
        "\nAnything else?") = some ⟨some "Sony", some "audio", "new", none⟩ ∧
      firstJson ("Here it is: " ++ modelDumpJson ⟨some "Sony", some "audio", "new", none⟩ ++
        "\nAnything else?") = some (modelDump ⟨some "Sony", some "audio", "new", none⟩)) ↔
      '\x7d' ∉ "\nAnything else?".toList :=
  first_object_iff (isObjectText_modelDumpJson _) (validate_modelDump _) (by decide)

/-- A second object in the reply makes both raise. -/
theorem second_object_unread :
    '\x7b' ∉ "Here it is: ".toList ∧
      parseLlmJson ("Here it is: " ++ modelDumpJson ⟨some "Sony", some "audio", "new", none⟩ ++
        " or \x7b\x7d") = none ∧
      firstJson ("Here it is: " ++ modelDumpJson ⟨some "Sony", some "audio", "new", none⟩ ++
        " or \x7b\x7d") = none := by
  decide +kernel

end DealFinder.Agent
