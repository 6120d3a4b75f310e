/-
# Comma separated values

A reader of RFC 4180 texts: records of fields between commas, each record ended by a line
break, and a field in double quotes where it holds a comma, a double quote or a line
break. A writer that never quotes is read back exactly if no field needs quotes
(`parse_write_iff`): a quote and a carriage return are characters that no field and no
separator accounts for, so a text of the writer's length leaves no room for them.
-/

import Mathlib.Data.List.Basic

namespace DealFinder.Math.Csv

/-- A character that a field may hold without quotes. -/
def isText (c : Char) : Bool := c ≠ ',' && c ≠ '"' && c ≠ '\r' && c ≠ '\n'

/-- Where a reader is: at the start of a field, in a field without quotes, in one with
quotes, after a quote that may close it, or after a carriage return. -/
inductive Place
  | start | plain | quoted | closed | returned
  deriving DecidableEq

/-- A reader: the records it has read, the fields of the next one, and the characters of the
next field. -/
structure Reader where
  records : List (List (List Char))
  fields : List (List Char)
  current : List Char
  place : Place

namespace Reader

/-- The reader before a text. -/
def initial : Reader := ⟨[], [], [], .start⟩

/-- One more character of the field. -/
def push (s : Reader) (c : Char) (place : Place) : Reader :=
  ⟨s.records, s.fields, s.current ++ [c], place⟩

/-- The field is over. -/
def endField (s : Reader) : Reader := ⟨s.records, s.fields ++ [s.current], [], .start⟩

/-- The record is over. -/
def endRecord (s : Reader) : Reader := ⟨s.records ++ [s.fields ++ [s.current]], [], [], .start⟩

/-- The same characters at another place. -/
def move (s : Reader) (place : Place) : Reader := ⟨s.records, s.fields, s.current, place⟩

/-- A character that ends a field. -/
def separate (s : Reader) (c : Char) : Option Reader :=
  if c = ',' then some s.endField
  else if c = '\n' then some s.endRecord
  else if c = '\r' then some (s.move .returned)
  else none

/-- One character. -/
def step (s : Reader) (c : Char) : Option Reader :=
  match s.place with
  | .start =>
      if isText c then some (s.push c .plain)
      else if c = '"' then some (s.move .quoted)
      else s.separate c
  | .plain => if isText c then some (s.push c .plain) else s.separate c
  | .quoted => if c = '"' then some (s.move .closed) else some (s.push c .quoted)
  | .closed => if c = '"' then some (s.push c .quoted) else s.separate c
  | .returned => if c = '\n' then some s.endRecord else none

/-- The end of the text, where the last record needs no line break. -/
def finish (s : Reader) : Option (List (List (List Char))) :=
  match s.place with
  | .start => if s.fields = [] then some s.records else some s.endRecord.records
  | .plain => some s.endRecord.records
  | .closed => some s.endRecord.records
  | .quoted => none
  | .returned => none

end Reader

/-- The records of a text. -/
def parse (text : List Char) : Option (List (List (List Char))) :=
  (text.foldlM Reader.step Reader.initial).bind Reader.finish

/-- The line of a record, by a writer that never quotes. -/
def line (r : List (List Char)) : List Char := [','].intercalate r ++ ['\n']

/-- The lines of some records. -/
def write (records : List (List (List Char))) : List Char := records.flatMap line

/-- No field of a record needs quotes. -/
def Plain (r : List (List Char)) : Prop := ∀ field ∈ r, field.all isText = true

instance (r : List (List Char)) : Decidable (Plain r) :=
  inferInstanceAs (Decidable (∀ field ∈ r, field.all isText = true))

/-! ## Lengths -/

/-- The characters of some fields, with a separator after each. -/
def weight : List (List Char) → ℕ
  | [] => 0
  | field :: rest => field.length + 1 + weight rest

@[simp]
theorem weight_nil : weight [] = 0 := rfl

@[simp]
theorem weight_cons (field : List Char) (rest : List (List Char)) :
    weight (field :: rest) = field.length + 1 + weight rest := rfl

@[simp]
theorem weight_append (first second : List (List Char)) :
    weight (first ++ second) = weight first + weight second := by
  induction first with
  | nil => rw [List.nil_append, weight_nil, Nat.zero_add]
  | cons field rest ih =>
      rw [List.cons_append, weight_cons, weight_cons, ih]
      omega

theorem length_line {r : List (List Char)} (hr : r ≠ []) : (line r).length = weight r := by
  induction r with
  | nil => exact absurd rfl hr
  | cons field rest ih =>
      cases rest with
      | nil => simp [line]
      | cons next rest =>
          have hrest := ih (List.cons_ne_nil _ _)
          rw [weight_cons, ← hrest]
          simp [line, List.intercalate_cons_cons]
          omega

theorem length_write {records : List (List (List Char))} (hne : ∀ r ∈ records, r ≠ []) :
    (write records).length = weight records.flatten := by
  induction records with
  | nil => rfl
  | cons r rest ih =>
      rw [write, List.flatMap_cons, List.length_append, List.flatten_cons, weight_append,
        length_line (hne r List.mem_cons_self)]
      exact congrArg _ (ih fun r hr => hne r (List.mem_cons_of_mem _ hr))

namespace Reader

/-- The characters that a reader has kept, with the separators between them. -/
def kept (s : Reader) : ℕ := weight s.records.flatten + weight s.fields + s.current.length

/-- Nothing kept needs quotes. -/
structure AllPlain (s : Reader) : Prop where
  records : ∀ r ∈ s.records, Plain r
  fields : Plain s.fields
  current : s.current.all isText = true

/-- Of the characters read every one is kept, and then none of them needed quotes, or some
were quotes and carriage returns. -/
structure Accounts (n : ℕ) (s : Reader) : Prop where
  le : s.kept ≤ n
  plain : s.kept = n → s.AllPlain ∧ (s.place = .start ∨ s.place = .plain)

variable {n : ℕ} {s s' : Reader} {c : Char}

theorem accounts_push (h : s.Accounts n) (hc : isText c = true) :
    (s.push c .plain).Accounts (n + 1) := by
  have hkept : (s.push c .plain).kept = s.kept + 1 := by simp [push, kept, Nat.add_assoc]
  refine ⟨by rw [hkept]; exact Nat.succ_le_succ h.le, fun heq => ?_⟩
  obtain ⟨hplain, -⟩ := h.plain (by omega)
  exact ⟨⟨hplain.records, hplain.fields, by simp [push, hplain.current, hc]⟩, .inr rfl⟩

theorem accounts_push_quoted (h : s.Accounts n) (hplace : s.place ≠ .start ∧ s.place ≠ .plain) :
    (s.push c .quoted).Accounts (n + 1) := by
  have hkept : (s.push c .quoted).kept = s.kept + 1 := by simp [push, kept, Nat.add_assoc]
  refine ⟨by rw [hkept]; exact Nat.succ_le_succ h.le, fun heq => ?_⟩
  obtain ⟨-, hother⟩ := h.plain (by omega)
  exact absurd hother (not_or.2 hplace)

/-- A character that is not kept is missing from then on. -/
theorem accounts_move (h : s.Accounts n) (place : Place) : (s.move place).Accounts (n + 1) := by
  have hkept : (s.move place).kept = s.kept := rfl
  have hle := h.le
  exact ⟨by omega, fun heq => by omega⟩

theorem plain_concat {fields : List (List Char)} {field : List Char} (h : Plain fields)
    (hfield : field.all isText = true) : Plain (fields ++ [field]) := by
  intro other hother
  rcases List.mem_append.1 hother with hold | hnew
  · exact h other hold
  · rw [List.mem_singleton.1 hnew]
    exact hfield

theorem accounts_endField (h : s.Accounts n) : s.endField.Accounts (n + 1) := by
  have hkept : s.endField.kept = s.kept + 1 := by simp [endField, kept, Nat.add_assoc]
  refine ⟨by rw [hkept]; exact Nat.succ_le_succ h.le, fun heq => ?_⟩
  obtain ⟨hplain, -⟩ := h.plain (by omega)
  exact ⟨⟨hplain.records, plain_concat hplain.fields hplain.current, rfl⟩, .inl rfl⟩

theorem accounts_endRecord (h : s.Accounts n) : s.endRecord.Accounts (n + 1) := by
  have hkept : s.endRecord.kept = s.kept + 1 := by simp [endRecord, kept, Nat.add_assoc]
  refine ⟨by rw [hkept]; exact Nat.succ_le_succ h.le, fun heq => ?_⟩
  obtain ⟨hplain, -⟩ := h.plain (by omega)
  have hrecords : ∀ r ∈ s.endRecord.records, Plain r := by
    intro r hr
    rcases List.mem_append.1 hr with hold | hnew
    · exact hplain.records r hold
    · rw [List.mem_singleton.1 hnew]
      exact plain_concat hplain.fields hplain.current
  exact ⟨⟨hrecords, fun _ hfield => absurd hfield List.not_mem_nil, rfl⟩, .inl rfl⟩

theorem accounts_separate (h : s.Accounts n) (hstep : s.separate c = some s') :
    s'.Accounts (n + 1) := by
  unfold separate at hstep
  split_ifs at hstep
  · exact Option.some_inj.1 hstep ▸ accounts_endField h
  · exact Option.some_inj.1 hstep ▸ accounts_endRecord h
  · exact Option.some_inj.1 hstep ▸ accounts_move h _

/-- Each character read is accounted for. -/
theorem accounts_step (h : s.Accounts n) (hstep : s.step c = some s') : s'.Accounts (n + 1) := by
  unfold step at hstep
  cases hplace : s.place with
  | start =>
      rw [hplace] at hstep
      dsimp only at hstep
      split_ifs at hstep with htext hquote
      · exact Option.some_inj.1 hstep ▸ accounts_push h htext
      · exact Option.some_inj.1 hstep ▸ accounts_move h _
      · exact accounts_separate h hstep
  | plain =>
      rw [hplace] at hstep
      dsimp only at hstep
      split_ifs at hstep with htext
      · exact Option.some_inj.1 hstep ▸ accounts_push h htext
      · exact accounts_separate h hstep
  | quoted =>
      rw [hplace] at hstep
      dsimp only at hstep
      split_ifs at hstep
      · exact Option.some_inj.1 hstep ▸ accounts_move h _
      · exact Option.some_inj.1 hstep ▸ accounts_push_quoted h (by simp [hplace])
  | closed =>
      rw [hplace] at hstep
      dsimp only at hstep
      split_ifs at hstep
      · exact Option.some_inj.1 hstep ▸ accounts_push_quoted h (by simp [hplace])
      · exact accounts_separate h hstep
  | returned =>
      rw [hplace] at hstep
      dsimp only at hstep
      split_ifs at hstep
      exact Option.some_inj.1 hstep ▸ accounts_endRecord h

theorem accounts_run {text : List Char} (h : s.Accounts n)
    (hrun : text.foldlM step s = some s') : s'.Accounts (n + text.length) := by
  induction text generalizing n s with
  | nil => exact Option.some_inj.1 hrun ▸ h
  | cons c text ih =>
      rw [List.foldlM_cons, Option.bind_eq_bind, Option.bind_eq_some_iff] at hrun
      obtain ⟨next, hstep, hrest⟩ := hrun
      have hall := ih (accounts_step h hstep) hrest
      rwa [Nat.add_assoc, Nat.add_comm 1] at hall

/-- A line feed ends the record, unless it stands in quotes. -/
theorem step_lineFeed (hstep : s.step '\n' = some s') :
    s'.place = .quoted ∨ s'.place = .start ∧ s'.fields = [] := by
  have hends : ∀ {t : Option Reader}, t = some s.endRecord → t = some s' →
      s'.place = .quoted ∨ s'.place = .start ∧ s'.fields = [] := by
    intro t hrecord hnext
    obtain rfl := Option.some_inj.1 (hrecord.symm.trans hnext)
    exact .inr ⟨rfl, rfl⟩
  unfold step at hstep
  cases hplace : s.place with
  | start =>
      rw [hplace] at hstep
      exact hends rfl hstep
  | plain =>
      rw [hplace] at hstep
      exact hends rfl hstep
  | quoted =>
      rw [hplace] at hstep
      obtain rfl : s.push '\n' .quoted = s' := Option.some_inj.1 hstep
      exact .inl rfl
  | closed =>
      rw [hplace] at hstep
      exact hends rfl hstep
  | returned =>
      rw [hplace] at hstep
      exact hends rfl hstep

/-! ## Fields without quotes -/

theorem step_text (hc : isText c = true) (hplace : s.place = .start ∨ s.place = .plain) :
    s.step c = some (s.push c .plain) := by
  unfold step
  rcases hplace with hplace | hplace
  · rw [hplace]
    exact if_pos hc
  · rw [hplace]
    exact if_pos hc

theorem step_separator (hc : isText c = false) (hquote : c ≠ '"')
    (hplace : s.place = .start ∨ s.place = .plain) : s.step c = s.separate c := by
  unfold step
  rcases hplace with hplace | hplace
  · rw [hplace, hc]
    exact if_neg hquote
  · rw [hplace, hc]
    rfl

/-- A field without quotes is kept as it is. -/
theorem run_field {field : List Char} (hfield : field.all isText = true)
    (hplace : s.place = .start ∨ s.place = .plain) :
    ∃ place, (place = .start ∨ place = .plain) ∧
      field.foldlM step s = some ⟨s.records, s.fields, s.current ++ field, place⟩ := by
  induction field generalizing s with
  | nil => exact ⟨s.place, hplace, by rw [List.append_nil]; rfl⟩
  | cons c field ih =>
      rw [List.all_cons, Bool.and_eq_true] at hfield
      obtain ⟨place, hnext, hrun⟩ := @ih (s.push c .plain) hfield.2 (.inr rfl)
      refine ⟨place, hnext, ?_⟩
      rw [List.foldlM_cons, step_text hfield.1 hplace]
      simpa [push] using hrun

/-- A line without quotes is read as its record. -/
theorem run_line {r : List (List Char)} (hr : r ≠ []) (hplain : Plain r)
    (records : List (List (List Char))) (fields : List (List Char)) :
    (line r).foldlM step ⟨records, fields, [], .start⟩ =
      some ⟨records ++ [fields ++ r], [], [], .start⟩ := by
  induction r generalizing fields with
  | nil => exact absurd rfl hr
  | cons field rest ih =>
      obtain ⟨place, hplace, hrun⟩ := @run_field ⟨records, fields, [], .start⟩ field
        (hplain field List.mem_cons_self) (.inl rfl)
      rw [List.nil_append] at hrun
      cases rest with
      | nil =>
          have hline : line [field] = field ++ ['\n'] := by simp [line]
          rw [hline, List.foldlM_append, hrun, Option.bind_eq_bind, Option.bind_some,
            List.foldlM_cons, step_separator rfl (by decide) hplace]
          rfl
      | cons next rest =>
          have hline : line (field :: next :: rest) = field ++ ',' :: line (next :: rest) := by
            simp [line, List.intercalate_cons_cons]
          rw [hline, List.foldlM_append, hrun, Option.bind_eq_bind, Option.bind_some,
            List.foldlM_cons, step_separator rfl (by decide) hplace]
          have hrest := ih (List.cons_ne_nil _ _)
            (fun f hf => hplain f (List.mem_cons_of_mem _ hf)) (fields ++ [field])
          rw [List.append_assoc, List.singleton_append] at hrest
          exact hrest

theorem run_write {rows : List (List (List Char))} (hne : ∀ r ∈ rows, r ≠ [])
    (hplain : ∀ r ∈ rows, Plain r) (records : List (List (List Char))) :
    (write rows).foldlM step ⟨records, [], [], .start⟩ =
      some ⟨records ++ rows, [], [], .start⟩ := by
  induction rows generalizing records with
  | nil =>
      rw [List.append_nil]
      rfl
  | cons r rest ih =>
      rw [write, List.flatMap_cons, List.foldlM_append,
        run_line (hne r List.mem_cons_self) (hplain r List.mem_cons_self), Option.bind_eq_bind,
        Option.bind_some]
      have hrest := ih (fun r hr => hne r (List.mem_cons_of_mem _ hr))
        (fun r hr => hplain r (List.mem_cons_of_mem _ hr)) (records ++ [[] ++ r])
      rw [List.append_assoc] at hrest
      exact hrest

end Reader

/-! ## Reading back -/

/-- A text that ends with a line feed ends its last record with it. -/
theorem finish_of_lineFeed {text : List Char} {s : Reader}
    (hrun : (text ++ ['\n']).foldlM Reader.step Reader.initial = some s)
    {records : List (List (List Char))} (hfinish : s.finish = some records) :
    s.records = records := by
  rw [List.foldlM_append, Option.bind_eq_bind, Option.bind_eq_some_iff] at hrun
  obtain ⟨before, -, hlast⟩ := hrun
  rw [List.foldlM_cons, Option.bind_eq_bind, Option.bind_eq_some_iff] at hlast
  obtain ⟨after, hstep, hafter⟩ := hlast
  obtain rfl : after = s := Option.some_inj.1 hafter
  unfold Reader.finish at hfinish
  rcases Reader.step_lineFeed hstep with hplace | ⟨hplace, hfields⟩
  · rw [hplace] at hfinish
    cases hfinish
  · rw [hplace, hfields] at hfinish
    exact Option.some_inj.1 hfinish

/-- Records written without quotes are read back exactly if none of their fields needs
quotes. -/
theorem parse_write_iff {records : List (List (List Char))} (hne : ∀ r ∈ records, r ≠ []) :
    parse (write records) = some records ↔ ∀ r ∈ records, Plain r := by
  constructor
  · intro hparse
    rcases List.eq_nil_or_concat records with rfl | ⟨first, last, hlast⟩
    · exact fun r hr => absurd hr List.not_mem_nil
    obtain ⟨s, hrun, hfinish⟩ := Option.bind_eq_some_iff.1 hparse
    have hends : write records = write first ++ [','].intercalate last ++ ['\n'] := by
      simp [hlast, write, line]
    have hrecords : s.records = records :=
      @finish_of_lineFeed (write first ++ [','].intercalate last) s (hends ▸ hrun) _ hfinish
    have hinitial : Reader.initial.Accounts 0 :=
      ⟨Nat.le_refl 0, fun _ => ⟨⟨fun _ hr => absurd hr List.not_mem_nil,
        fun _ hfield => absurd hfield List.not_mem_nil, rfl⟩, .inl rfl⟩⟩
    have haccounts := Reader.accounts_run hinitial hrun
    -- The records alone account for the whole text.
    have hkept : s.kept = 0 + (write records).length := by
      apply Nat.le_antisymm haccounts.le
      rw [length_write hne, Nat.zero_add, Reader.kept, hrecords, Nat.add_assoc]
      exact Nat.le_add_right _ _
    exact hrecords ▸ (haccounts.plain hkept).1.records
  · intro hplain
    unfold parse
    rw [show Reader.initial = ⟨[], [], [], .start⟩ from rfl, Reader.run_write hne hplain]
    rfl

/-- A comma that is not quoted shifts the fields behind it. -/
example : parse "a,b,1\n".toList ≠ some [["a,b".toList, "1".toList]] := by decide

/-- What should be written. -/
example : parse "\"a,b\",1\r\n".toList = some [["a,b".toList, "1".toList]] := by decide

end DealFinder.Math.Csv
