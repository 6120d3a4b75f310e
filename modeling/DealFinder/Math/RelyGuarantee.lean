/-
# Rely and guarantee

A contract has an invariant of the committed state, and says what a commit may do under
the locks it holds. A transaction relies on the others to keep the contract under locks
other than its own, and guarantees to keep it itself. A script is safe when it does so
from every statement on, whatever others commit in between (`Script.Safe`). When every
script of a server is safe, the invariant holds after every schedule (`run_inv`).

The second rule is about one exception. A script that raises it only after a statement
saw some fact raises it only when that fact was committed at some moment of the call
(`raised_after`).
-/

import DealFinder.Math.ReadCommitted
import Mathlib.Data.Set.BooleanAlgebra
import Mathlib.Data.Set.Insert
import Mathlib.Logic.Relation
import Mathlib.Order.CompletePartialOrder

namespace DealFinder.Math

/-- An invariant of the committed state, and what a commit may do under the locks held. -/
structure Contract (σ κ : Type) where
  Inv : σ → Prop
  Guar : Set κ → σ → σ → Prop

namespace Contract

variable {σ κ : Type} (C : Contract σ κ)

/-- One commit of another transaction, which holds other locks. -/
def Others (held : Set κ) (db db' : σ) : Prop :=
  C.Inv db' ∧ ∃ theirs, Disjoint held theirs ∧ C.Guar theirs db db'

/-- What the commits of others may do. -/
def Rely (held : Set κ) : σ → σ → Prop := Relation.ReflTransGen (C.Others held)

variable {C} {held : Set κ} {db db' : σ}

theorem Rely.inv (h : C.Rely held db db') (hdb : C.Inv db) : C.Inv db' := by
  cases h with
  | refl => exact hdb
  | tail _ hlast => exact hlast.1

/-- What a commit of the others keeps, they keep. -/
theorem Rely.induction {P : σ → Prop} (h : C.Rely held db db')
    (hstep : ∀ first second theirs, C.Inv second → Disjoint held theirs →
      C.Guar theirs first second → P first → P second) (hdb : P db) : P db' := by
  induction h with
  | refl => exact hdb
  | tail _ hlast ih =>
      obtain ⟨hinv, theirs, hdisjoint, hguar⟩ := hlast
      exact hstep _ _ theirs hinv hdisjoint hguar ih

end Contract

namespace Script

variable {σ ε κ α β : Type} (C : Contract σ κ)

/-- From here on the script keeps the contract, with the locks it holds, its own writes, and
what was last committed. -/
def Safe : Script σ ε κ α → Set κ → (σ → σ) → σ → Prop
  | .done _, held, own, db => ∀ db', C.Rely held db db' →
      C.Inv (own db') ∧ C.Guar held db' (own db')
  | .raise _, _, _, _ => True
  | .lock key next, held, own, db => ∀ db', C.Rely held db db' → next.Safe (insert key held) own db'
  | .exec statement next, held, own, db => ∀ db', C.Rely held db db' → ∀ b patch,
      statement (own db') = .ok (b, patch) →
        (next b).Safe (held ∪ {key | key ∈ patch.locks}) (patch.change ∘ own) db'

variable {C} {held : Set κ} {own : σ → σ} {db db' : σ}

/-- A script stays safe when others commit. -/
theorem Safe.rely {script : Script σ ε κ α} (h : script.Safe C held own db)
    (hothers : C.Rely held db db') : script.Safe C held own db' := by
  cases script with
  | raise e => trivial
  | done _ | lock _ _ | exec _ _ => exact fun after hafter => h after (hothers.trans hafter)

/-- After a statement that reads. -/
theorem safe_read_bind {f : σ → β} {next : β → Script σ ε κ α}
    (h : ∀ db', C.Rely held db db' → (next (f (own db'))).Safe C held own db') :
    (read f >>= next).Safe C held own db := by
  intro db' hothers b patch hstatement
  cases hstatement
  have hheld : held ∪ {key | key ∈ (Patch.none : Patch σ κ).locks} = held :=
    Set.union_eq_self_of_subset_right fun key hkey => absurd hkey List.not_mem_nil
  rw [hheld]
  exact h db' hothers

/-- After a lock was taken. -/
theorem safe_acquire_bind {key : κ} {next : Unit → Script σ ε κ α}
    (h : ∀ db', C.Rely held db db' → (next ()).Safe C (insert key held) own db') :
    (acquire key >>= next).Safe C held own db := h

/-- A last statement that writes. -/
theorem safe_write {statement : σ → Except ε (α × Patch σ κ)}
    (h : ∀ db', C.Rely held db db' → ∀ a patch, statement (own db') = .ok (a, patch) →
      ∀ after, C.Rely (held ∪ {key | key ∈ patch.locks}) db' after →
        C.Inv (patch.change (own after)) ∧
          C.Guar (held ∪ {key | key ∈ patch.locks}) after (patch.change (own after))) :
    (write statement).Safe C held own db := h

/-- A pure last part changes nothing. -/
theorem safe_map {script : Script σ ε κ α} (f : α → β) (h : script.Safe C held own db) :
    (script >>= fun a => pure (f a)).Safe C held own db := by
  induction script generalizing held own db with
  | done a => exact h
  | raise e => trivial
  | lock key next ih => exact fun after hafter => ih (h after hafter)
  | exec statement next ih =>
      exact fun after hafter b patch hstatement => ih b (h after hafter b patch hstatement)

/-- Every statement writes nothing but harmless changes. -/
def Writes (Harmless : (σ → σ) → Prop) : Script σ ε κ α → Prop
  | .done _ | .raise _ => True
  | .lock _ next => next.Writes Harmless
  | .exec statement next => ∀ db b patch, statement db = .ok (b, patch) →
      Harmless patch.change ∧ (next b).Writes Harmless

variable {Harmless : (σ → σ) → Prop}

theorem writes_read (hid : Harmless id) (f : σ → α) :
    (read f : Script σ ε κ α).Writes Harmless := by
  intro db b patch hstatement
  cases hstatement
  exact ⟨hid, trivial⟩

theorem writes_query (hid : Harmless id) (f : σ → Except ε α) :
    (query f : Script σ ε κ α).Writes Harmless := by
  intro db b patch hstatement
  obtain ⟨a, -, heq⟩ := Effect.exists_of_map_ok hstatement
  cases heq
  exact ⟨hid, trivial⟩

theorem Writes.bind {x : Script σ ε κ α} {f : α → Script σ ε κ β} (hx : x.Writes Harmless)
    (hf : ∀ a, (f a).Writes Harmless) : (x >>= f).Writes Harmless := by
  induction x with
  | done a => exact hf a
  | raise e => trivial
  | lock key next ih => exact ih hx
  | exec statement next ih =>
      exact fun db b patch hstatement => (hx db b patch hstatement).imp_right (ih b)

/-- A script of harmless changes is safe. -/
theorem safe_of_writes
    (hcomp : ∀ first second, Harmless first → Harmless second → Harmless (second ∘ first))
    (hguar : ∀ held own db, Harmless own → C.Inv db → C.Inv (own db) ∧ C.Guar held db (own db))
    {script : Script σ ε κ α} (hscript : script.Writes Harmless) (hown : Harmless own)
    (hdb : C.Inv db) : script.Safe C held own db := by
  induction script generalizing held own db with
  | done a => exact fun after hafter => hguar held own after hown (hafter.inv hdb)
  | raise e => trivial
  | lock key next ih => exact fun after hafter => ih hscript hown (hafter.inv hdb)
  | exec statement next ih =>
      intro after hafter b patch hstatement
      obtain ⟨hpatch, hnext⟩ := hscript _ b patch hstatement
      exact ih b hnext (hcomp own patch.change hown hpatch) (hafter.inv hdb)

end Script

namespace Server

variable {σ ε κ α ι τ : Type} {C : Contract σ κ} {code : ι → Script σ ε κ α}

/-- Every transaction that runs is safe under the locks it holds. -/
structure Kept (C : Contract σ κ) (s : Server σ ε κ α ι τ) : Prop where
  inv : C.Inv s.committed
  safe : ∀ thread r, s.running thread = some r → ∃ held : Set κ,
    (∀ key ∈ held, s.locks key = some thread) ∧ r.script.Safe C held r.own s.committed

variable [DecidableEq κ] [DecidableEq τ] {s s' : Server σ ε κ α ι τ} {thread : τ}
variable {action : Action ι} {signal : Signal ε α ι}

/-- A thread goes on safely, and the others are not touched. -/
theorem Kept.goOn (h : Kept C s) {keys : List κ} (hfree : s.Free thread keys)
    {r : Running σ ε κ α ι} {held : Set κ}
    (hheld : ∀ key ∈ held, (s.goOn thread keys r).locks key = some thread)
    (hsafe : r.script.Safe C held r.own s.committed) : Kept C (s.goOn thread keys r) where
  inv := h.inv
  safe := by
    intro other found hfound
    by_cases heq : other = thread
    · subst heq
      rw [running_goOn_self] at hfound
      obtain rfl := Option.some.inj hfound
      exact ⟨held, hheld, hsafe⟩
    · rw [running_goOn_of_ne heq] at hfound
      obtain ⟨theirs, htheirs, hother⟩ := h.safe other found hfound
      exact ⟨theirs, fun key hkey => locks_goOn_of_free hfree (htheirs key hkey) r, hother⟩

omit [DecidableEq κ] in
/-- A thread ends its transaction, and the others rely on what it committed. -/
theorem Kept.finish (h : Kept C s) {committed : σ} (hinv : C.Inv committed)
    (hothers : ∀ theirs : Set κ, (∀ key ∈ theirs, s.locks key ≠ some thread) →
      C.Rely theirs s.committed committed) : Kept C (s.finish thread committed) where
  inv := hinv
  safe := by
    intro other found hfound
    by_cases heq : other = thread
    · subst heq
      rw [running_finish_self] at hfound
      cases hfound
    · rw [running_finish_of_ne heq] at hfound
      obtain ⟨theirs, htheirs, hother⟩ := h.safe other found hfound
      refine ⟨theirs, fun key hkey => locks_finish_of_ne heq (htheirs key hkey) committed,
        hother.rely (hothers theirs fun key hkey hthread => heq ?_)⟩
      exact Option.some.inj ((htheirs key hkey).symm.trans hthread)

/-- Every step keeps the contract. -/
theorem Taken.kept (hcode : ∀ call db, C.Inv db → (code call).Safe C ∅ id db)
    (htaken : Taken code s thread action signal s') (h : Kept C s) : Kept C s' := by
  cases htaken with
  | begin hidle =>
      exact h.goOn (fun key hkey => absurd hkey List.not_mem_nil)
        (fun key hkey => absurd hkey (Set.notMem_empty key)) (hcode _ _ h.inv)
  | acquire hrunning hfree =>
      obtain ⟨held, hheld, hsafe⟩ := h.safe thread _ hrunning
      refine h.goOn hfree (fun key hkey => ?_) (hsafe s.committed .refl)
      rcases Set.mem_insert_iff.1 hkey with rfl | hold
      · exact locks_goOn (List.mem_singleton.2 rfl) _
      · exact locks_goOn_of_free hfree (hheld key hold) _
  | exec hrunning hstatement hfree =>
      obtain ⟨held, hheld, hsafe⟩ := h.safe thread _ hrunning
      refine h.goOn hfree (fun key hkey => ?_) (hsafe s.committed .refl _ _ hstatement)
      rcases hkey with hold | hnew
      · exact locks_goOn_of_free hfree (hheld key hold) _
      · exact locks_goOn hnew _
  | fail hrunning hstatement =>
      exact h.goOn (fun key hkey => absurd hkey List.not_mem_nil)
        (fun key hkey => absurd hkey (Set.notMem_empty key)) trivial
  | rollback | abort => exact h.finish h.inv fun theirs _ => .refl
  | commit hrunning =>
      obtain ⟨held, hheld, hsafe⟩ := h.safe thread _ hrunning
      obtain ⟨hinv, hguar⟩ := hsafe s.committed .refl
      refine h.finish hinv fun theirs htheirs => .single ⟨hinv, held, ?_, hguar⟩
      exact Set.disjoint_left.2 fun key hkey hmine => htheirs key hkey (hheld key hmine)

/-- **The rule of rely and guarantee.** When every script is safe, the invariant holds after
every schedule. -/
theorem run_inv (hcode : ∀ call db, C.Inv db → (code call).Safe C ∅ id db)
    (hinv : C.Inv s.committed) (hidle : ∀ thread, s.running thread = none)
    (events : List (Event ι τ)) : C.Inv ((machine code).run s events).committed := by
  have hstart : Kept C s := ⟨hinv, fun thread r hrunning => absurd hrunning (by simp [hidle])⟩
  have hkept : Kept C ((machine code).run s events) := by
    apply Machine.run_history (P := fun _ s => Kept C s) hstart
    intro past e hpast
    rcases step_cases code ((machine code).run s past) e with hsame | htaken
    · exact (congrArg Prod.snd hsame).symm ▸ hpast
    · exact htaken.kept hcode hpast
  exact hkept.inv

end Server

/-! ## What an exception says -/

namespace Script

variable {σ ε κ α β : Type}

/-- The script raises a bad exception only after a statement, before any write, that saw a
state of the kind. -/
def OnlyAfter (bad : ε → Prop) (seen : σ → Prop) : Script σ ε κ α → Prop
  | .done _ => True
  | .raise e => ¬ bad e
  | .lock _ next => next.OnlyAfter bad seen
  | .exec statement next => ∀ db, seen db ∨ (∀ e, statement db = .error e → ¬ bad e) ∧
      ∀ b patch, statement db = .ok (b, patch) →
        patch.change = id ∧ (next b).OnlyAfter bad seen ∨ (next b).OnlyAfter bad fun _ => False

/-- After a statement that reads. -/
theorem onlyAfter_read_bind {bad : ε → Prop} {seen : σ → Prop} {f : σ → β}
    {next : β → Script σ ε κ α} (h : ∀ db, seen db ∨ (next (f db)).OnlyAfter bad seen) :
    (read f >>= next).OnlyAfter bad seen := by
  refine fun db => (h db).imp_right fun hnext => ⟨fun e herror => ?_, fun b patch hstatement => ?_⟩
  · cases herror
  · cases hstatement
    exact Or.inl ⟨rfl, hnext⟩

/-- After a lock was taken. -/
theorem onlyAfter_acquire_bind {bad : ε → Prop} {seen : σ → Prop} {key : κ}
    {next : Unit → Script σ ε κ α} (h : (next ()).OnlyAfter bad seen) :
    (acquire key >>= next).OnlyAfter bad seen := h

/-- A last statement that writes. -/
theorem onlyAfter_write {bad : ε → Prop} {seen : σ → Prop}
    {statement : σ → Except ε (α × Patch σ κ)} (h : ∀ db e, statement db = .error e → ¬ bad e) :
    (write statement).OnlyAfter bad seen :=
  fun db => Or.inr ⟨h db, fun _ _ _ => Or.inr trivial⟩

/-- A pure last part raises nothing. -/
theorem onlyAfter_map {bad : ε → Prop} {seen : σ → Prop} {script : Script σ ε κ α} (f : α → β)
    (h : script.OnlyAfter bad seen) : (script >>= fun a => pure (f a)).OnlyAfter bad seen := by
  induction script generalizing seen with
  | done a => trivial
  | raise e => exact h
  | lock key next ih => exact ih h
  | exec statement next ih =>
      refine fun db => (h db).imp_right fun hdb => ⟨hdb.1, fun b patch hstatement => ?_⟩
      exact (hdb.2 b patch hstatement).imp (And.imp_right (ih b)) (ih b)

end Script

namespace Server

variable {σ ε κ α ι τ : Type} [DecidableEq κ] [DecidableEq τ]
variable (code : ι → Script σ ε κ α) (start : Server σ ε κ α ι τ)

/-- A thread has been in a call ever since an event began it, and `P` held at some moment
since. -/
def DuringCall (events : List (Event ι τ)) (thread : τ) (call : ι)
    (P : Server σ ε κ α ι τ → Prop) : Prop :=
  ∃ before during, events = before ++ ⟨thread, .begin call⟩ :: during ∧
    ((machine code).run start before).running thread = none ∧
    (∀ first second, during = first ++ second →
      ((machine code).run start (before ++ ⟨thread, .begin call⟩ :: first)).running thread ≠
        none) ∧
    ∃ first second, during = first ++ second ∧
      P ((machine code).run start (before ++ ⟨thread, .begin call⟩ :: first))

section DuringCall

variable {code start} {past : List (Event ι τ)} {thread : τ} {call : ι}
variable {P Q : Server σ ε κ α ι τ → Prop}

/-- The present is a moment of the call. -/
theorem DuringCall.present (h : DuringCall code start past thread call P)
    (hpresent : Q ((machine code).run start past)) : DuringCall code start past thread call Q := by
  obtain ⟨before, during, rfl, hidle, hbusy, -⟩ := h
  exact ⟨before, during, rfl, hidle, hbusy, during, [], by simp, hpresent⟩

/-- A call that a step does not end goes on. -/
theorem DuringCall.concat (h : DuringCall code start past thread call P) {e : Event ι τ}
    (hbusy' : ((machine code).run start (past ++ [e])).running thread ≠ none) :
    DuringCall code start (past ++ [e]) thread call P := by
  obtain ⟨before, during, rfl, hidle, hbusy, first, second, rfl, hmoment⟩ := h
  refine ⟨before, first ++ second ++ [e], by simp, hidle, ?_, first, second ++ [e], by simp,
    hmoment⟩
  intro early late hsplit
  rcases List.eq_nil_or_concat' late with rfl | ⟨init, last, rfl⟩
  · rw [List.append_nil] at hsplit
    rw [← hsplit]
    simpa using hbusy'
  · rw [← List.append_assoc] at hsplit
    exact hbusy early init (List.append_inj' hsplit rfl).1

/-- A call begins. -/
theorem DuringCall.begin (hidle : ((machine code).run start past).running thread = none)
    (hbusy : ((machine code).run start (past ++ [⟨thread, .begin call⟩])).running thread ≠ none) :
    DuringCall code start (past ++ [⟨thread, .begin call⟩]) thread call fun _ => True := by
  refine ⟨past, [], rfl, hidle, ?_, [], [], rfl, trivial⟩
  intro first second hsplit
  obtain ⟨rfl, -⟩ := List.append_eq_nil_iff.1 hsplit.symm
  exact hbusy

end DuringCall

variable {code start} {past : List (Event ι τ)} {thread : τ} {bad : ε → Prop} {seen : σ → Prop}
variable {target : ι → Prop}

/-- A transaction has seen the fact, or may still have to before it raises. -/
structure Excused (code : ι → Script σ ε κ α) (start : Server σ ε κ α ι τ) (bad : ε → Prop)
    (seen : σ → Prop) (past : List (Event ι τ)) (thread : τ) (r : Running σ ε κ α ι) : Prop where
  during : DuringCall code start past thread r.call fun _ => True
  excuse : DuringCall code start past thread r.call (fun s => seen s.committed) ∨
    (r.own = id ∧ r.script.OnlyAfter bad seen) ∨ r.script.OnlyAfter bad fun _ => False

/-- A step of a call keeps its excuse, or finds one. -/
theorem Excused.exec {call : ι} {statement : σ → Except ε (β × Patch σ κ)}
    {next : β → Script σ ε κ α} {own : σ → σ}
    (h : Excused code start bad seen past thread ⟨call, .exec statement next, own⟩) :
    (DuringCall code start past thread call fun s => seen s.committed) ∨
      (∀ e, statement (own ((machine code).run start past).committed) = .error e → ¬ bad e) ∧
        ∀ b patch, statement (own ((machine code).run start past).committed) = .ok (b, patch) →
          (patch.change ∘ own = id ∧ (next b).OnlyAfter bad seen) ∨
            (next b).OnlyAfter bad fun _ => False := by
  rcases h.excuse with hseen | ⟨hown, hscript⟩ | hnever
  · exact Or.inl hseen
  · simp only at hown
    subst hown
    rcases hscript ((machine code).run start past).committed with hnow | hrest
    · exact Or.inl (h.during.present hnow)
    · refine Or.inr ⟨hrest.1, fun b patch hstatement => ?_⟩
      exact (hrest.2 b patch hstatement).imp_left fun hnext => ⟨hnext.1, hnext.2⟩
  · rcases hnever (own ((machine code).run start past).committed) with hfalse | hrest
    · exact hfalse.elim
    · refine Or.inr ⟨hrest.1, fun b patch hstatement => Or.inr ?_⟩
      exact (hrest.2 b patch hstatement).elim And.right id

/-- Every step of a call has an excuse when those before it have. -/
theorem excused_step (hcode : ∀ call, target call → (code call).OnlyAfter bad seen)
    {e : Event ι τ}
    (hpast : ∀ thread r, ((machine code).run start past).running thread = some r →
      target r.call → Excused code start bad seen past thread r)
    {r : Running σ ε κ α ι}
    (hrunning : ((machine code).run start (past ++ [e])).running thread = some r)
    (htarget : target r.call) : Excused code start bad seen (past ++ [e]) thread r := by
  have hbusy : ((machine code).run start (past ++ [e])).running thread ≠ none := by
    rw [hrunning]
    exact Option.some_ne_none r
  have hkeep : ∀ {script own}, Excused code start bad seen past thread ⟨r.call, script, own⟩ →
      (((DuringCall code start past thread r.call fun s => seen s.committed) ∨
        (r.own = id ∧ r.script.OnlyAfter bad seen) ∨ r.script.OnlyAfter bad fun _ => False)) →
      Excused code start bad seen (past ++ [e]) thread r :=
    fun hold hexcuse => ⟨hold.during.concat hbusy, hexcuse.imp_left fun h => h.concat hbusy⟩
  have hrun : ((machine code).run start (past ++ [e])) =
      (((machine code).run start past).step code e).2 := Machine.run_concat _ _ _ _
  rw [hrun] at hrunning
  rcases step_cases code ((machine code).run start past) e with hsame | htaken
  · rw [hsame] at hrunning
    have hold := hpast thread r hrunning htarget
    exact hkeep hold hold.excuse
  obtain ⟨mover, action⟩ := e
  by_cases heq : thread = mover
  · subst heq
    generalize (((machine code).run start past).step code ⟨thread, action⟩).1 = signal at htaken
    generalize (((machine code).run start past).step code ⟨thread, action⟩).2 = after
      at htaken hrunning
    cases htaken with
    | begin hidle =>
        rw [running_goOn_self] at hrunning
        obtain rfl := Option.some.inj hrunning
        exact ⟨.begin hidle hbusy, Or.inr (Or.inl ⟨rfl, hcode _ htarget⟩)⟩
    | acquire hlocking hfree =>
        rw [running_goOn_self] at hrunning
        obtain rfl := Option.some.inj hrunning
        have hold := hpast thread _ hlocking htarget
        exact hkeep hold hold.excuse
    | exec hexec hstatement hfree =>
        rw [running_goOn_self] at hrunning
        obtain rfl := Option.some.inj hrunning
        have hold := hpast thread _ hexec htarget
        exact hkeep hold (hold.exec.imp_right fun hrest => hrest.2 _ _ hstatement)
    | fail hexec hstatement =>
        rw [running_goOn_self] at hrunning
        obtain rfl := Option.some.inj hrunning
        have hold := hpast thread _ hexec htarget
        exact hkeep hold (hold.exec.imp_right fun hrest => Or.inr (hrest.1 _ hstatement))
    | commit _ | rollback _ | abort _ =>
        rw [running_finish_self] at hrunning
        cases hrunning
  · rw [htaken.running_of_ne heq] at hrunning
    have hold := hpast thread r hrunning htarget
    exact hkeep hold hold.excuse

/-- **The rule of exceptions.** When the scripts of some calls raise a bad exception only after
a statement that saw a fact, such a call that raises one had a moment at which the fact was
committed. -/
theorem raised_after (hcode : ∀ call, target call → (code call).OnlyAfter bad seen)
    (hidle : ∀ thread, start.running thread = none) (past : List (Event ι τ)) (e : Event ι τ)
    {call : ι} {exception : ε}
    (hraised : (machine code).answerAfter start past e = .raised call exception)
    (htarget : target call) (hbad : bad exception) :
    DuringCall code start past e.thread call fun s => seen s.committed := by
  have hexcused : ∀ thread r, ((machine code).run start past).running thread = some r →
      target r.call → Excused code start bad seen past thread r := by
    clear hraised
    induction past using List.reverseRecOn with
    | nil => exact fun thread r hrunning => absurd hrunning (by simp [hidle])
    | append_singleton earlier last ih =>
        exact fun thread r hrunning hcall => excused_step hcode ih hrunning hcall
  have hsignal : (((machine code).run start past).step code e).1 = .raised call exception :=
    hraised
  rcases step_cases code ((machine code).run start past) e with hsame | htaken
  · rw [hsame] at hsignal
    cases hsignal
  · rw [hsignal] at htaken
    generalize (((machine code).run start past).step code e).2 = after at htaken
    generalize e.action = action at htaken
    cases htaken with
    | rollback hrunning =>
        rcases (hexcused e.thread _ hrunning htarget).excuse with hseen | ⟨-, hscript⟩ | hnever
        · exact hseen
        · exact absurd hbad hscript
        · exact absurd hbad hnever

end Server

end DealFinder.Math
