/-
# HTML templates

What a browser's tokenizer reads from a text of tags and characters (`tokenize`). The reader gives
up wherever the tokenizer reports an error or needs a state of another kind (comments, unquoted
values, references other than the four of `references`), so what it reads a browser reads. A line
end is read as it stands.

A template is such a text with holes. It is read like a text, a hole being a symbol that may stand
between tags or in a quoted value only (`tokenize` again). A text that is put in for a hole and
that says something there (`Says`) leaves every tag in its place (`tokenize_write`): an escaped
text does (`says_escape`), whatever it holds, and a plain one (`says_of_plain`).
-/

import Mathlib.Data.List.Basic

namespace DealFinder.Math.Html

universe u v

/-- A symbol of a template. -/
inductive Symbol (H : Type u)
  | char (c : Char)
  | hole (h : H)
  deriving DecidableEq

/-- A token, as the tokenizer emits it. The values of the attributes are what they say. -/
inductive Token (H : Type u)
  | text (s : Symbol H)
  | start (name : List Char) (attributes : List (List Char × List (Symbol H)))
  | stop (name : List Char)
  deriving DecidableEq

/-- A start tag that is being read: its name, and the attributes that it has. -/
structure Tag (H : Type u) where
  name : List Char
  attributes : List (List Char × List (Symbol H))
  deriving DecidableEq

/-- The states of the tokenizer. A reference stands between tags, or in a value. -/
inductive State (H : Type u)
  | data
  | reference (name : List Char)
  | tagOpen
  | tagName (name : List Char)
  | endTagOpen
  | endTagName (name : List Char)
  | beforeName (tag : Tag H)
  | attributeName (tag : Tag H) (name : List Char)
  | beforeValue (tag : Tag H) (name : List Char)
  | quoted (tag : Tag H) (name : List Char) (said : List (Symbol H))
  | quotedReference (tag : Tag H) (name : List Char) (said : List (Symbol H)) (ref : List Char)
  | afterValue (tag : Tag H)
  deriving DecidableEq

/-- The character references of the reader, without `&`. -/
def references : List (List Char × Char) :=
  [(['a', 'm', 'p', ';'], '&'), (['l', 't', ';'], '<'), (['g', 't', ';'], '>'),
    (['q', 'u', 'o', 't', ';'], '"')]

def blank (c : Char) : Bool := c = ' ' ∨ c = '\n' ∨ c = '\t'

/-- A character of a name: a letter in lower case, a digit or a dash. -/
def nameChar (c : Char) : Bool := c.isLower ∨ c.isDigit ∨ c = '-'

variable {H : Type u} {K : Type v}

/-- One character. -/
def readChar (c : Char) : State H → Option (List (Token H) × State H)
  | .data =>
      if c = '<' then some ([], .tagOpen)
      else if c = '&' then some ([], .reference [])
      else some ([.text (.char c)], .data)
  | .reference name =>
      if c = ';' then
        (references.lookup (name ++ [c])).map fun said => ([.text (.char said)], .data)
      else if nameChar c then some ([], .reference (name ++ [c]))
      else none
  | .tagOpen =>
      if c = '/' then some ([], .endTagOpen)
      else if c.isLower then some ([], .tagName [c])
      else none
  | .tagName name =>
      if blank c then some ([], .beforeName ⟨name, []⟩)
      else if c = '>' then some ([.start name []], .data)
      else if nameChar c then some ([], .tagName (name ++ [c]))
      else none
  | .endTagOpen => if c.isLower then some ([], .endTagName [c]) else none
  | .endTagName name =>
      if c = '>' then some ([.stop name], .data)
      else if nameChar c then some ([], .endTagName (name ++ [c]))
      else none
  | .beforeName tag =>
      if blank c then some ([], .beforeName tag)
      else if c = '>' then some ([.start tag.name tag.attributes], .data)
      else if nameChar c then some ([], .attributeName tag [c])
      else none
  | .attributeName tag name =>
      if c = '=' then some ([], .beforeValue tag name)
      else if nameChar c then some ([], .attributeName tag (name ++ [c]))
      else none
  | .beforeValue tag name => if c = '"' then some ([], .quoted tag name []) else none
  | .quoted tag name said =>
      if c = '"' then some ([], .afterValue ⟨tag.name, tag.attributes ++ [(name, said)]⟩)
      else if c = '&' then some ([], .quotedReference tag name said [])
      else some ([], .quoted tag name (said ++ [.char c]))
  | .quotedReference tag name said ref =>
      if c = ';' then
        (references.lookup (ref ++ [c])).map fun c => ([], .quoted tag name (said ++ [.char c]))
      else if nameChar c then some ([], .quotedReference tag name said (ref ++ [c]))
      else none
  | .afterValue tag =>
      if blank c then some ([], .beforeName tag)
      else if c = '>' then some ([.start tag.name tag.attributes], .data)
      else none

/-- One symbol: a hole stands between tags, or in a value. -/
def readSymbol : Symbol H → State H → Option (List (Token H) × State H)
  | .char c, state => readChar c state
  | .hole h, .data => some ([.text (.hole h)], .data)
  | .hole h, .quoted tag name said => some ([], .quoted tag name (said ++ [.hole h]))
  | .hole _, _ => none

/-- The tokens of a template, and the state behind it. -/
def tokenize : State H → List (Symbol H) → Option (List (Token H) × State H)
  | state, [] => some ([], state)
  | state, s :: rest =>
      (readSymbol s state).bind fun read =>
        (tokenize read.2 rest).map fun after => (read.1 ++ after.1, after.2)

/-- A text without holes. -/
def plainText (text : List Char) : List (Symbol K) := text.map .char

/-- The tokens of a text that ends where it began, between tags. -/
def readHtml (text : List Char) : Option (List (Token Empty)) :=
  (tokenize .data (plainText text)).bind fun
    | (tokens, .data) => some tokens
    | _ => none

theorem tokenize_nil (state : State H) : tokenize state [] = some ([], state) := rfl

theorem tokenize_cons {s : Symbol H} {rest : List (Symbol H)} {state next last : State H}
    {out more : List (Token H)} (hread : readSymbol s state = some (out, next))
    (hrest : tokenize next rest = some (more, last)) :
    tokenize state (s :: rest) = some (out ++ more, last) := by
  rw [tokenize, hread, Option.bind_some, hrest]
  rfl

theorem tokenize_append {front back : List (Symbol H)} {state next last : State H}
    {out more : List (Token H)} (hfront : tokenize state front = some (out, next))
    (hback : tokenize next back = some (more, last)) :
    tokenize state (front ++ back) = some (out ++ more, last) := by
  induction front generalizing state out with
  | nil =>
      rw [tokenize_nil, Option.some_inj] at hfront
      obtain ⟨rfl, rfl⟩ := Prod.mk.inj hfront
      exact hback
  | cons s rest ih =>
      rw [tokenize, Option.bind_eq_some_iff] at hfront
      obtain ⟨⟨first, middle⟩, hread, hrest⟩ := hfront
      obtain ⟨⟨after, final⟩, hafter, heq⟩ := Option.map_eq_some_iff.1 hrest
      obtain ⟨rfl, rfl⟩ := Prod.mk.inj heq
      rw [List.append_assoc]
      exact tokenize_cons hread (ih hafter)

/-! ## Filling the holes -/

section Fill

variable (said : H → List Char)

def Symbol.fill : Symbol H → List (Symbol K)
  | .char c => [.char c]
  | .hole h => plainText (said h)

def fillValue (symbols : List (Symbol H)) : List (Symbol K) := symbols.flatMap (Symbol.fill said)

def fillAttributes (attributes : List (List Char × List (Symbol H))) :
    List (List Char × List (Symbol K)) :=
  attributes.map fun entry => (entry.1, fillValue said entry.2)

/-- The tokens with the holes filled: a text is as many tokens as it has characters. -/
def Token.fill : Token H → List (Token K)
  | .text s => (s.fill said).map .text
  | .start name attributes => [.start name (fillAttributes said attributes)]
  | .stop name => [.stop name]

def Tag.fill (tag : Tag H) : Tag K := ⟨tag.name, fillAttributes said tag.attributes⟩

def State.fill : State H → State K
  | .data => .data
  | .reference name => .reference name
  | .tagOpen => .tagOpen
  | .tagName name => .tagName name
  | .endTagOpen => .endTagOpen
  | .endTagName name => .endTagName name
  | .beforeName tag => .beforeName (tag.fill said)
  | .attributeName tag name => .attributeName (tag.fill said) name
  | .beforeValue tag name => .beforeValue (tag.fill said) name
  | .quoted tag name value => .quoted (tag.fill said) name (fillValue said value)
  | .quotedReference tag name value ref =>
      .quotedReference (tag.fill said) name (fillValue said value) ref
  | .afterValue tag => .afterValue (tag.fill said)

def fillTokens (tokens : List (Token H)) : List (Token K) := tokens.flatMap (Token.fill said)

/-- The text of a template, `written` standing in its holes. -/
def write (written : H → List Char) (template : List (Symbol H)) : List Char :=
  template.flatMap fun
    | .char c => [c]
    | .hole h => written h

variable {said}

theorem fillValue_concat_char (value : List (Symbol H)) (c : Char) :
    (fillValue said (value ++ [.char c]) : List (Symbol K)) =
      fillValue said value ++ [.char c] := by
  rw [fillValue, List.flatMap_append]
  rfl

theorem fillValue_concat_hole (value : List (Symbol H)) (h : H) :
    (fillValue said (value ++ [.hole h]) : List (Symbol K)) =
      fillValue said value ++ plainText (said h) := by
  rw [fillValue, List.flatMap_append, List.flatMap_singleton]
  rfl

theorem Tag.fill_concat (tag : Tag H) (name : List Char) (value : List (Symbol H)) :
    (Tag.fill said ⟨tag.name, tag.attributes ++ [(name, value)]⟩ : Tag K) =
      ⟨(tag.fill said : Tag K).name,
        (tag.fill said : Tag K).attributes ++ [(name, fillValue said value)]⟩ := by
  simp [Tag.fill, fillAttributes]

/-- Reading a character, before or after the holes of what was read are filled. -/
theorem readChar_fill {c : Char} {state next : State H} {out : List (Token H)}
    (h : readChar c state = some (out, next)) :
    readChar c (state.fill said : State K) = some (fillTokens said out, next.fill said) := by
  cases state with
  | data =>
      simp only [readChar, State.fill] at h ⊢
      split_ifs at h ⊢ <;> cases h <;> rfl
  | reference name =>
      simp only [readChar, State.fill] at h ⊢
      split_ifs at h ⊢ with hend hname
      · obtain ⟨said, hlookup, heq⟩ := Option.map_eq_some_iff.1 h
        cases heq
        rw [hlookup]
        rfl
      · cases h
        rfl
  | tagOpen =>
      simp only [readChar, State.fill] at h ⊢
      split_ifs at h ⊢ <;> cases h <;> rfl
  | tagName name =>
      simp only [readChar, State.fill] at h ⊢
      split_ifs at h ⊢ <;> cases h <;> rfl
  | endTagOpen =>
      simp only [readChar, State.fill] at h ⊢
      split_ifs at h ⊢
      cases h
      rfl
  | endTagName name =>
      simp only [readChar, State.fill] at h ⊢
      split_ifs at h ⊢ <;> cases h <;> rfl
  | beforeName tag =>
      simp only [readChar, State.fill] at h ⊢
      split_ifs at h ⊢ <;> cases h <;> rfl
  | attributeName tag name =>
      simp only [readChar, State.fill] at h ⊢
      split_ifs at h ⊢ <;> cases h <;> rfl
  | beforeValue tag name =>
      simp only [readChar, State.fill] at h ⊢
      split_ifs at h ⊢
      cases h
      rfl
  | quoted tag name value =>
      simp only [readChar, State.fill] at h ⊢
      split_ifs at h ⊢ <;> cases h
      · simp only [Tag.fill_concat]
        rfl
      · rfl
      · simp only [fillValue_concat_char]
        rfl
  | quotedReference tag name value ref =>
      simp only [readChar, State.fill] at h ⊢
      split_ifs at h ⊢ with hend hname
      · obtain ⟨said, hlookup, heq⟩ := Option.map_eq_some_iff.1 h
        cases heq
        simp only [hlookup, fillValue_concat_char]
        rfl
      · cases h
        rfl
  | afterValue tag =>
      simp only [readChar, State.fill] at h ⊢
      split_ifs at h ⊢ <;> cases h <;> rfl

theorem start_mem_fillTokens {tokens : List (Token H)} {name : List Char}
    {attributes : List (List Char × List (Symbol K))}
    (hmem : .start name attributes ∈ fillTokens said tokens) :
    ∃ before, .start name before ∈ tokens ∧ attributes = fillAttributes said before := by
  obtain ⟨t, ht, hfill⟩ := List.mem_flatMap.1 hmem
  cases t with
  | text s => exact absurd hfill (by simp [Token.fill])
  | start name' before =>
      obtain ⟨rfl, rfl⟩ := Token.start.inj (List.mem_singleton.1 hfill)
      exact ⟨before, ht, rfl⟩
  | stop name' => exact absurd hfill (by simp [Token.fill])

/-- What stands for a text in the holes between tags and in values. -/
structure Says (written said : List Char) : Prop where
  between : tokenize (.data : State K) (plainText written) =
    some ((plainText said).map .text, .data)
  inside : ∀ (tag : Tag K) (name : List Char) (before : List (Symbol K)),
    tokenize (.quoted tag name before) (plainText written) =
      some ([], .quoted tag name (before ++ plainText said))

/-- **Filling a template** whose tags are read leaves them where they are, and fills the values
and the texts with what is said. -/
theorem tokenize_write {written : H → List Char} (hsaid : ∀ h, Says (K := K) (written h) (said h))
    {template : List (Symbol H)} {state last : State H} {tokens : List (Token H)}
    (h : tokenize state template = some (tokens, last)) :
    tokenize (state.fill said : State K) (plainText (write written template)) =
      some (fillTokens said tokens, last.fill said) := by
  induction template generalizing state tokens with
  | nil =>
      cases h
      rfl
  | cons s rest ih =>
      rw [tokenize, Option.bind_eq_some_iff] at h
      obtain ⟨⟨out, next⟩, hread, hrest⟩ := h
      obtain ⟨⟨more, final⟩, hmore, heq⟩ := Option.map_eq_some_iff.1 hrest
      obtain ⟨rfl, rfl⟩ := Prod.mk.inj heq
      have hfill : (fillTokens said (out ++ more) : List (Token K)) =
          fillTokens said out ++ fillTokens said more := List.flatMap_append
      rw [hfill]
      cases s with
      | char c => exact tokenize_cons (readChar_fill hread) (ih hmore)
      | hole h =>
          have hwrite : (plainText (write written (.hole h :: rest)) : List (Symbol K)) =
              plainText (written h) ++ plainText (write written rest) := List.map_append
          rw [hwrite]
          refine tokenize_append ?_ (ih hmore)
          cases state with
          | data =>
              cases hread
              rw [State.fill, (hsaid h).between]
              simp [fillTokens, Token.fill, Symbol.fill]
          | quoted tag name value =>
              cases hread
              rw [State.fill, (hsaid h).inside]
              simp only [State.fill, fillValue_concat_hole]
              rfl
          | reference | tagOpen | tagName | endTagOpen | endTagName | beforeName | attributeName
          | beforeValue | quotedReference | afterValue => cases hread

end Fill

theorem readHtml_write {written said : H → List Char}
    (hsaid : ∀ h, Says (K := Empty) (written h) (said h))
    {template : List (Symbol H)} {tokens : List (Token H)}
    (h : tokenize .data template = some (tokens, .data)) :
    readHtml (write written template) = some (fillTokens said tokens) := by
  have hread : tokenize (.data : State Empty) (plainText (write written template)) =
      some (fillTokens said tokens, .data) := tokenize_write hsaid h
  rw [readHtml, hread]
  rfl

/-! ## Templates in parts -/

/-- What some tokens show as the whole content of an element. -/
def Shows (tokens : List (Token H)) (said : List (Symbol H)) : Prop :=
  ∃ front name attributes back,
    tokens = front ++ .start name attributes :: (said.map .text ++ .stop name :: back)

theorem Shows.append_left {tokens : List (Token H)} {said : List (Symbol H)}
    (h : Shows tokens said) (before : List (Token H)) : Shows (before ++ tokens) said := by
  obtain ⟨front, name, attributes, back, rfl⟩ := h
  exact ⟨before ++ front, name, attributes, back, (List.append_assoc _ _ _).symm⟩

theorem Shows.append_right {tokens : List (Token H)} {said : List (Symbol H)}
    (h : Shows tokens said) (after : List (Token H)) : Shows (tokens ++ after) said := by
  obtain ⟨front, name, attributes, back, rfl⟩ := h
  exact ⟨front, name, attributes, back ++ after, by simp⟩

theorem Shows.fill {said : H → List Char} {tokens : List (Token H)} {h : H}
    (hshows : Shows tokens [.hole h]) :
    Shows (fillTokens said tokens : List (Token K)) (plainText (said h)) := by
  obtain ⟨front, name, attributes, back, rfl⟩ := hshows
  refine ⟨fillTokens said front, name, fillAttributes said attributes, fillTokens said back, ?_⟩
  simp [fillTokens, Token.fill, Symbol.fill]

/-- A part of a template, as it is written down. -/
inductive Piece (H : Type u)
  | markup (text : String)
  | hole (h : H)

def symbols : List (Piece H) → List (Symbol H)
  | [] => []
  | .markup text :: rest => text.toList.map .char ++ symbols rest
  | .hole h :: rest => .hole h :: symbols rest

theorem symbols_append (front back : List (Piece H)) :
    symbols (front ++ back) = symbols front ++ symbols back := by
  induction front with
  | nil => rfl
  | cons part rest ih =>
      cases part with
      | markup text => rw [List.cons_append, symbols, ih, symbols, List.append_assoc]
      | hole h => rw [List.cons_append, symbols, ih, symbols, List.cons_append]

/-- The symbols of a literal, without decoding it. -/
theorem symbols_markup (text : List Char) (rest : List (Piece H)) :
    symbols (.markup (String.ofList text) :: rest) = text.map .char ++ symbols rest := by
  rw [symbols, String.toList_ofList]

theorem symbols_hole (h : H) (rest : List (Piece H)) :
    symbols (.hole h :: rest) = .hole h :: symbols rest := rfl

/-- A template that begins and ends between tags: its tokens pass a test, and each of some holes
is the whole content of an element. -/
def Neat (ok : Token H → Bool) (shown : List H) (template : List (Piece H)) : Prop :=
  ∃ tokens, tokenize .data (symbols template) = some (tokens, .data) ∧ (∀ t ∈ tokens, ok t = true) ∧
    ∀ h ∈ shown, Shows tokens [.hole h]

theorem Neat.append {ok : Token H → Bool} {shown shown' : List H} {front back : List (Piece H)}
    (hfront : Neat ok shown front) (hback : Neat ok shown' back) :
    Neat ok (shown ++ shown') (front ++ back) := by
  obtain ⟨out, hread, hok, hshown⟩ := hfront
  obtain ⟨more, hread', hok', hshown'⟩ := hback
  rw [Neat, symbols_append]
  refine ⟨out ++ more, tokenize_append hread hread', fun t hmem => ?_, fun h hmem => ?_⟩
  · rcases List.mem_append.1 hmem with hleft | hright
    · exact hok t hleft
    · exact hok' t hright
  · rcases List.mem_append.1 hmem with hleft | hright
    · exact (hshown h hleft).append_right more
    · exact (hshown' h hright).append_left out

section Check

variable [DecidableEq H]

/-- Is a hole the whole content of an element? -/
def showsHole (h : H) : List (Token H) → Bool
  | [] => false
  | .start name _ :: rest =>
      decide (rest.take 2 = [.text (.hole h), .stop name]) || showsHole h rest
  | _ :: rest => showsHole h rest

theorem shows_of_showsHole {h : H} {tokens : List (Token H)} (hshows : showsHole h tokens = true) :
    Shows tokens [.hole h] := by
  induction tokens with
  | nil => cases hshows
  | cons t rest ih =>
      cases t with
      | start name attributes =>
          rcases Bool.or_eq_true_iff.1 hshows with hhere | hlater
          · refine ⟨[], name, attributes, rest.drop 2, ?_⟩
            rw [List.nil_append, List.map_singleton, List.singleton_append]
            conv_lhs => rw [← List.take_append_drop 2 rest, of_decide_eq_true hhere]
            rfl
          · exact (ih hlater).append_left [_]
      | text s | stop name => exact (ih hshows).append_left [_]

/-- The test of a template. -/
def check (ok : Token H → Bool) (shown : List H) (template : List (Symbol H)) : Bool :=
  match tokenize .data template with
  | some (tokens, .data) => tokens.all ok && shown.all fun h => showsHole h tokens
  | _ => false

theorem neat_of_check {ok : Token H → Bool} {shown : List H} {template : List (Piece H)}
    (h : check ok shown (symbols template) = true) : Neat ok shown template := by
  rw [check] at h
  split at h
  case h_1 tokens hread =>
    obtain ⟨hok, hshown⟩ := Bool.and_eq_true_iff.1 h
    exact ⟨tokens, hread, List.all_eq_true.1 hok,
      fun h hmem => shows_of_showsHole (List.all_eq_true.1 hshown h hmem)⟩
  case h_2 => cases h

end Check

/-! ## Texts for the holes -/

theorem says_nil : Says (K := K) [] [] :=
  ⟨rfl, fun tag name before => by rw [plainText, List.map_nil, tokenize_nil, List.append_nil]⟩

theorem Says.append {written said written' said' : List Char} (h : Says (K := K) written said)
    (h' : Says (K := K) written' said') : Says (K := K) (written ++ written') (said ++ said') where
  between := by
    simp only [plainText, List.map_append]
    exact tokenize_append h.between h'.between
  inside tag name before := by
    simp only [plainText, List.map_append]
    rw [← List.append_assoc]
    exact tokenize_append (h.inside tag name before) (h'.inside tag name _)

/-- Texts that say something character by character. -/
theorem says_flatMap {write : Char → List Char} {text : List Char}
    (h : ∀ c ∈ text, Says (K := K) (write c) [c]) : Says (K := K) (text.flatMap write) text := by
  induction text with
  | nil => exact says_nil
  | cons c rest ih =>
      have hrest := ih fun c' hmem => h c' (List.mem_cons_of_mem _ hmem)
      exact (h c List.mem_cons_self).append hrest

/-- A character that the tokenizer takes as it stands, between tags and in a value. -/
def PlainChar (c : Char) : Prop := c ≠ '<' ∧ c ≠ '&' ∧ c ≠ '"'

instance (c : Char) : Decidable (PlainChar c) := inferInstanceAs (Decidable (_ ∧ _))

theorem says_of_plainChar {c : Char} (h : PlainChar c) : Says (K := K) [c] [c] := by
  obtain ⟨hopen, href, hquote⟩ := h
  refine ⟨?_, fun tag name before => ?_⟩
  · have hread : readSymbol (.char c) (.data : State K) = some ([.text (.char c)], .data) := by
      rw [readSymbol, readChar, if_neg hopen, if_neg href]
    exact tokenize_cons hread (tokenize_nil _)
  · have hread : readSymbol (.char c) (.quoted tag name before) =
        some ([], .quoted tag name (before ++ [.char c])) := by
      rw [readSymbol, readChar, if_neg hquote, if_neg href]
    exact tokenize_cons hread (tokenize_nil _)

/-- A text of such characters. -/
def Plain (text : List Char) : Prop := ∀ c ∈ text, PlainChar c

instance (text : List Char) : Decidable (Plain text) := List.decidableBAll _ text

theorem plain_nil : Plain [] := List.forall_mem_nil _

theorem Plain.append {front back : List Char} (hfront : Plain front) (hback : Plain back) :
    Plain (front ++ back) :=
  List.forall_mem_append.2 ⟨hfront, hback⟩

theorem Plain.cons {c : Char} {rest : List Char} (hc : PlainChar c) (hrest : Plain rest) :
    Plain (c :: rest) :=
  List.forall_mem_cons.2 ⟨hc, hrest⟩

/-- A literal is plain when its characters are. -/
theorem plain_ofList {text : List Char} (h : Plain text) : Plain (String.ofList text).toList := by
  rwa [String.toList_ofList]

theorem says_of_plain {text : List Char} (h : Plain text) : Says (K := K) text text := by
  have hsaid : Says (K := K) (text.flatMap fun c => [c]) text :=
    says_flatMap fun c hmem => says_of_plainChar (h c hmem)
  rwa [List.flatMap_singleton'] at hsaid

/-- A character as a reference, if it is one of the four. -/
def escapeChar (c : Char) : List Char :=
  if c = '&' then ['&', 'a', 'm', 'p', ';']
  else if c = '<' then ['&', 'l', 't', ';']
  else if c = '>' then ['&', 'g', 't', ';']
  else if c = '"' then ['&', 'q', 'u', 'o', 't', ';']
  else [c]

def escape (text : List Char) : List Char := text.flatMap escapeChar

theorem says_escapeChar (c : Char) : Says (K := K) (escapeChar c) [c] := by
  rw [escapeChar]
  split_ifs with hamp hlt hgt hquot
  · rw [hamp]
    exact ⟨rfl, fun _ _ _ => rfl⟩
  · rw [hlt]
    exact ⟨rfl, fun _ _ _ => rfl⟩
  · rw [hgt]
    exact ⟨rfl, fun _ _ _ => rfl⟩
  · rw [hquot]
    exact ⟨rfl, fun _ _ _ => rfl⟩
  · exact says_of_plainChar ⟨hlt, hamp, hquot⟩

/-- An escaped text says what it is made from, whatever that holds. -/
theorem says_escape (text : List Char) : Says (K := K) (escape text) text :=
  says_flatMap fun c _ => says_escapeChar c

end DealFinder.Math.Html
