/-
# What two merges lose

A run of `merge` destroys every listed version but its own, a newer one too, and
writes what it read before, without what was added since. So two runs lose nothing
exactly when neither adds its version while the other is between its addition and
its listing, nor after the other read an object without these updates
(`kept_iff_spaced`). Two runs that add before either lists leave no version at all.

The result is stated for what it means that a payload shows an update: that it has
the key, or that it has the updated value.
-/

import DealFinder.Deploy.Merges

namespace DealFinder.Deploy.Merges

open DealFinder.Math DealFinder.Deploy.Secrets
open DealFinder.Deploy.LoginRole (Ends Ends.newest Ends.destroy ends_add)

/-! ## Payloads -/

/-- The key is there, with a value. -/
def Has (payload : Payload) (key : String) : Prop :=
  ∃ value, payload.get? key = some value ∧ value ≠ ""

/-- What `build_payload` keeps. -/
theorem get?_buildPayload_iff {env : Payload} {key value : String} :
    (buildPayload env).get? key = some value ↔
      key ∈ keys ∧ env.get? key = some value ∧ value ≠ "" := by
  constructor
  · intro h
    obtain ⟨other, hother, hentry⟩ := List.mem_filterMap.1 (Dict.get?_eq_some_iff.1 h)
    cases hget : env.get? other with
    | none => simp [hget] at hentry
    | some found =>
        simp only [hget, Option.ite_none_left_eq_some, Option.some.injEq, Prod.mk.injEq] at hentry
        obtain ⟨hne, rfl, rfl⟩ := hentry
        exact ⟨hother, hget, hne⟩
  · exact fun h => LoginRole.get?_buildPayload h.1 h.2.1 h.2.2

theorem has_buildPayload {env : Payload} {key : String} :
    Has (buildPayload env) key ↔ key ∈ keys ∧ Has env key := by
  constructor
  · intro ⟨value, hvalue, hne⟩
    have h := get?_buildPayload_iff.1 hvalue
    exact ⟨h.1, value, h.2.1, hne⟩
  · intro ⟨hkey, value, hvalue, hne⟩
    exact ⟨value, get?_buildPayload_iff.2 ⟨hkey, hvalue, hne⟩, hne⟩

/-- The object a run writes after it read one. -/
def merged (updates : Updates) (stored : Payload) : Payload :=
  buildPayload (stored.update updates.payload)

section Merged

variable {updates : Updates} {stored : Payload} {key : String}

/-- What a merge writes has the old contract keys. -/
theorem has_merged (hkey : key ∈ keys) (h : Has stored key) : Has (merged updates stored) key := by
  refine has_buildPayload.2 ⟨hkey, ?_⟩
  cases hupdated : updates.payload.get? key with
  | some value =>
      exact ⟨value, by rw [Dict.get?_update, hupdated, Option.some_or],
        updates.valued key value hupdated⟩
  | none =>
      obtain ⟨value, hvalue, hne⟩ := h
      exact ⟨value, by rw [Dict.get?_update, hupdated, Option.none_or, hvalue], hne⟩

/-- What a merge writes has the updated values. -/
theorem get?_merged (hkey : key ∈ updates.payload) :
    (merged updates stored).get? key = updates.payload.get? key := by
  obtain ⟨value, hvalue⟩ := Option.isSome_iff_exists.1 (Dict.get?_isSome_iff.2 hkey)
  rw [hvalue]
  apply get?_buildPayload_iff.2
  refine ⟨updates.contract key hkey, ?_, updates.valued key value hvalue⟩
  rw [Dict.get?_update, hvalue, Option.some_or]

/-- What a merge writes has the old values of the contract keys it does not update. -/
theorem get?_merged_of_not_mem {value : String} (hcontract : key ∈ keys) (hne : value ≠ "")
    (hkey : key ∉ updates.payload) :
    (merged updates stored).get? key = some value ↔ stored.get? key = some value := by
  rw [merged, get?_buildPayload_iff, Dict.get?_update, Dict.get?_eq_none_iff.2 hkey,
    Option.none_or]
  exact ⟨fun h => h.2.1, fun h => ⟨hcontract, h, hne⟩⟩

end Merged

/-! ## The secret -/

/-- The object stored in a secret. -/
def storedObject (store : Store) : Payload :=
  match store.versions.getLast? with
  | some latest => latest.payload
  | none => .empty

section Store

variable {store : Store}

theorem storedObject_of_ends {latest : Version} (h : Ends store latest) :
    storedObject store = latest.payload := by
  obtain ⟨older, hversions⟩ := h
  simp [storedObject, hversions]

theorem next_of_ends {latest : Version} (h : Ends store latest) :
    store.next = latest.number + 1 := by
  obtain ⟨older, hversions⟩ := h
  simp [Store.next, hversions]

theorem storedObject_add (payload : Payload) : storedObject (store.add payload) = payload :=
  storedObject_of_ends (ends_add store payload)

theorem next_add (payload : Payload) : (store.add payload).next = store.next + 1 :=
  next_of_ends (ends_add store payload)

theorem storedObject_destroy (number : ℕ) :
    storedObject (store.destroy number) = storedObject store := by
  simp only [storedObject, Store.destroy, List.getLast?_map]
  cases store.versions.getLast? with
  | none => rfl
  | some latest =>
      simp only [Option.map_some]
      split_ifs <;> rfl

theorem next_destroy (number : ℕ) : (store.destroy number).next = store.next := by
  simp only [Store.next, Store.destroy, List.getLast?_map]
  cases store.versions.getLast? with
  | none => rfl
  | some latest =>
      simp only [Option.map_some]
      split_ifs <;> rfl

/-- What `current` reads is the stored object. -/
theorem eq_storedObject {stored : Payload} (h : current none store = (.ok stored, store)) :
    stored = storedObject store := by
  rcases current_cases h with ⟨hempty, rfl⟩ | ⟨latest, hends, rfl⟩
  · rw [storedObject, hempty]
    rfl
  · exact (storedObject_of_ends hends).symm

end Store

/-! ## What is kept -/

/-- What it means that a payload shows a key of a run's updates. -/
abbrev Shows := Payload → Writer → String → Prop

/-- The run has added its version. -/
def Pc.Added : Pc → Prop
  | .listing _ | .destroying _ _ | .done _ => True
  | _ => False

section Kept

variable (updates : Writer → Updates) (shows : Shows) (initial : Store)

/-- There is a version that is not destroyed, and the newest one has every contract key
stored before and shows every update. -/
def Kept (final : Store) : Prop :=
  ∃ version, final.newest = some version ∧
    (∀ key ∈ keys, Has (storedObject initial) key → Has version.payload key) ∧
    ∀ writer, ∀ key ∈ (updates writer).payload, shows version.payload writer key

/-- A run that adds its version finds the other one not between its addition and its
listing; and where the other has read and not added, these updates were stored before. -/
def Spaced (s : State) (e : Event) : Prop :=
  ∀ payload, s.pc e.writer = .adding payload →
    match s.pc e.writer.other with
    | .listing _ => False
    | .adding _ => ∀ key ∈ (updates e.writer).payload, shows (storedObject initial) e.writer key
    | _ => True

/-- A merge shows its own updates, and those of the other run when it read them. -/
structure Readable : Prop where
  own : ∀ writer stored, ∀ key ∈ (updates writer).payload,
    shows (merged (updates writer) stored) writer key
  other : ∀ writer stored, ∀ key ∈ (updates writer.other).payload,
    (shows (merged (updates writer) stored) writer.other key ↔ shows stored writer.other key)

/-! ## Runs that are spaced -/

/-- What holds of a run at each step, given the number of the next version and
whether the other run has added its own. -/
def Fits (next : ℕ) (added : Prop) (writer : Writer) : Pc → Prop
  | .reading => True
  | .adding payload =>
      (∀ key ∈ keys, Has (storedObject initial) key → Has payload key) ∧
      (∀ key ∈ (updates writer).payload, shows payload writer key) ∧
      ∀ key ∈ (updates writer.other).payload,
        (shows payload writer.other key ↔ added ∨ shows (storedObject initial) writer.other key)
  | .listing new => new + 1 = next
  | .destroying new left => ∀ entry ∈ left, entry.1 ≠ new → entry.1 + 1 < next
  | .done _ => True
  | .failed _ => False

/-- Nothing is lost so far. -/
structure Intact (s : State) : Prop where
  fits : ∀ writer,
    Fits updates shows initial s.store.next (s.pc writer.other).Added writer (s.pc writer)
  grown : ∀ key ∈ keys, Has (storedObject initial) key → Has (storedObject s.store) key
  unmoved : (∀ writer, ¬ (s.pc writer).Added) → s.store = initial
  live : ∀ writer, (s.pc writer).Added →
    ∃ latest, Ends s.store latest ∧ latest.state ≠ .destroyed
  shown : ∀ writer, (s.pc writer).Added →
    ∀ key ∈ (updates writer).payload, shows (storedObject s.store) writer key

end Kept

theorem Writer.other_ne (writer : Writer) : writer.other ≠ writer := by
  cases writer <;> decide

@[simp]
theorem Writer.other_other (writer : Writer) : writer.other.other = writer := by
  cases writer <;> rfl

theorem Writer.forall_iff {P : Writer → Prop} (writer : Writer) :
    (∀ w, P w) ↔ P writer ∧ P writer.other := by
  constructor
  · exact fun h => ⟨h _, h _⟩
  · intro h w
    rcases writer with _ | _ <;> rcases w with _ | _
    · exact h.1
    · exact h.2
    · exact h.2
    · exact h.1

section Runs

variable {updates : Writer → Updates} {shows : Shows} {initial : Store} {s : State}

theorem Fits.mono {next larger : ℕ} {added : Prop} {writer : Writer} {pc : Pc}
    (hnext : next ≤ larger) (hlisting : ∀ new, pc ≠ .listing new)
    (h : Fits updates shows initial next added writer pc) :
    Fits updates shows initial larger added writer pc := by
  cases pc with
  | listing new => exact absurd rfl (hlisting new)
  | destroying new left =>
      intro entry hentry hne
      have hlt := h entry hentry hne
      omega
  | _ => exact h

/-- A step that adds no version keeps the secret intact. -/
theorem Intact.move (h : Intact updates shows initial s) {writer : Writer} {pc : Pc}
    {store : Store} (hadded : pc.Added ↔ (s.pc writer).Added)
    (hnext : store.next = s.store.next) (hobject : storedObject store = storedObject s.store)
    (hunmoved : ¬ pc.Added → store = s.store)
    (hlive : ∀ latest, Ends s.store latest → Ends store latest)
    (hfits : Fits updates shows initial s.store.next (s.pc writer.other).Added writer pc) :
    Intact updates shows initial ⟨store, Function.update s.pc writer pc⟩ where
  fits := by
    rw [Writer.forall_iff writer]
    simp only [Writer.other_other, Function.update_self,
      Function.update_of_ne writer.other_ne, hnext]
    refine ⟨hfits, ?_⟩
    have hother := h.fits writer.other
    rwa [Writer.other_other, ← hadded] at hother
  grown := by
    rw [hobject]
    exact h.grown
  unmoved := by
    rw [Writer.forall_iff writer]
    simp only [Function.update_self, Function.update_of_ne writer.other_ne]
    intro hneither
    rw [hunmoved hneither.1]
    exact h.unmoved ((Writer.forall_iff writer).2 ⟨fun hadd => hneither.1 (hadded.2 hadd),
      hneither.2⟩)
  live := by
    rw [Writer.forall_iff writer]
    simp only [Function.update_self, Function.update_of_ne writer.other_ne, hadded]
    rw [← Writer.forall_iff (P := fun w => (s.pc w).Added → _) writer]
    intro w hw
    obtain ⟨latest, hends, hstate⟩ := h.live w hw
    exact ⟨latest, hlive latest hends, hstate⟩
  shown := by
    rw [Writer.forall_iff writer]
    simp only [Function.update_self, Function.update_of_ne writer.other_ne, hadded, hobject]
    exact ⟨h.shown writer, h.shown writer.other⟩

/-- A version added while the other run is not at its listing shows all updates, when the
other run, if it is to add one too, has these updates in what it read. -/
theorem Intact.add (h : Intact updates shows initial s) {writer : Writer} {payload : Payload}
    (hpc : s.pc writer = .adding payload) (hlisting : ∀ new, s.pc writer.other ≠ .listing new)
    (hadding : ∀ read, s.pc writer.other = .adding read →
      ∀ key ∈ (updates writer).payload, shows (storedObject initial) writer key) :
    Intact updates shows initial
      ⟨s.store.add payload, Function.update s.pc writer (.listing s.store.next)⟩ := by
  have hfits := h.fits writer
  rw [hpc] at hfits
  constructor
  case fits =>
    rw [Writer.forall_iff writer]
    simp only [Writer.other_other, Function.update_self,
      Function.update_of_ne writer.other_ne, next_add]
    refine ⟨rfl, ?_⟩
    have hother := (h.fits writer.other).mono (Nat.le_succ _) hlisting
    cases hpc' : s.pc writer.other with
    | adding read =>
        simp only [hpc', Fits, Writer.other_other] at hother ⊢
        refine ⟨hother.1, hother.2.1, fun key hkey => ?_⟩
        have hshown := hadding read hpc' key hkey
        exact iff_of_true ((hother.2.2 key hkey).2 (Or.inr hshown)) (Or.inr hshown)
    | _ => rw [hpc'] at hother; exact hother
  case grown =>
    rw [storedObject_add]
    exact hfits.1
  case unmoved =>
    intro hneither
    have hadded := hneither writer
    simp only [Function.update_self] at hadded
    exact absurd trivial hadded
  case live => exact fun _ _ => ⟨_, ends_add .., VersionState.noConfusion⟩
  case shown =>
    rw [Writer.forall_iff writer, storedObject_add]
    refine ⟨fun _ => hfits.2.1, fun hadded key hkey => ?_⟩
    simp only [Function.update_of_ne writer.other_ne] at hadded
    exact (hfits.2.2 key hkey).2 (Or.inl hadded)

/-- A run that read the secret intact. -/
theorem Intact.fits_read (h : Intact updates shows initial s) (hread : Readable updates shows)
    {writer : Writer} (hpc : s.pc writer = .reading) :
    Fits updates shows initial s.store.next (s.pc writer.other).Added writer
      (.adding (merged (updates writer) (storedObject s.store))) := by
  refine ⟨fun key hkey hold => has_merged hkey (h.grown key hkey hold),
    fun key hkey => hread.own writer _ key hkey, fun key hkey => ?_⟩
  rw [hread.other writer _ key hkey]
  by_cases hadded : (s.pc writer.other).Added
  · exact iff_of_true (h.shown writer.other hadded key hkey) (Or.inl hadded)
  · have hstore : s.store = initial := by
      refine h.unmoved ((Writer.forall_iff writer).2 ⟨?_, hadded⟩)
      rw [hpc]
      exact id
    rw [hstore]
    exact ⟨Or.inr, fun hor => hor.resolve_left hadded⟩

/-- Some run has failed. -/
def Failed (s : State) : Prop := ∃ writer e, s.pc writer = .failed e

/-- **A spaced step keeps the secret intact.** -/
theorem Intact.step (h : Intact updates shows initial s) (hread : Readable updates shows)
    {e : Event} (hspaced : Spaced updates shows initial s e) :
    Failed ((machine updates).step s e).2 ∨
      Intact updates shows initial ((machine updates).step s e).2 := by
  obtain ⟨t, htaken, hstep⟩ := @step_cases updates s e
  rw [hstep]
  have hfits := h.fits e.writer
  generalize hpc : s.pc e.writer = pc at htaken hfits
  cases htaken with
  | read stored hcurrent =>
      right
      rw [eq_storedObject hcurrent]
      exact h.move (by rw [hpc]; exact Iff.rfl) rfl rfl (fun _ => rfl) (fun _ => id)
        (h.fits_read hread hpc)
  | add payload =>
      right
      have hother := hspaced payload hpc
      apply h.add hpc
      · intro new hlisting
        rw [hlisting] at hother
        exact hother
      · intro read hadding
        rw [hadding] at hother
        exact hother
  | list new =>
      right
      apply h.move (by rw [hpc]; exact Iff.rfl) rfl rfl (fun _ => rfl) (fun _ => id)
      intro entry hentry hne
      obtain ⟨version, hversion, rfl⟩ := List.mem_map.1 hentry
      have hlt := s.store.lt_next hversion
      have hnew : new + 1 = s.store.next := hfits
      omega
  | skip new number state rest hskip =>
      right
      apply h.move (by rw [hpc]; exact Iff.rfl) rfl rfl (fun _ => rfl) (fun _ => id)
      exact fun entry hentry => hfits entry (List.mem_cons_of_mem _ hentry)
  | destroy new number state rest hold =>
      right
      refine h.move (by rw [hpc]; exact Iff.rfl) (next_destroy number)
        (storedObject_destroy number) (fun hnot => absurd trivial hnot) ?_ ?_
      · intro latest hends
        have hlt := hfits (number, state) List.mem_cons_self hold.1
        have hlatest := next_of_ends hends
        exact hends.destroy (by omega)
      · exact fun entry hentry => hfits entry (List.mem_cons_of_mem _ hentry)
  | finish new =>
      right
      exact h.move (by rw [hpc]; exact Iff.rfl) rfl rfl (fun _ => rfl) (fun _ => id) trivial
  | rest new =>
      right
      exact h.move (by rw [hpc]) rfl rfl (fun _ => rfl) (fun _ => id) trivial
  | fail pc error => exact Or.inl ⟨e.writer, error, Function.update_self ..⟩

end Runs

/-! ## Runs that are not -/

/-- The run will destroy the version of this number. -/
def Condemns (number : ℕ) : Pc → Prop
  | .listing new => number ≠ new
  | .destroying new left =>
      number ≠ new ∧ ∃ state : VersionState, (number, state) ∈ left ∧ state ≠ .destroyed
  | _ => False

section Ruin

variable (updates : Writer → Updates) (shows : Shows)

/-- The object does not show the updates of a run. -/
def Lacks (payload : Payload) (writer : Writer) : Prop :=
  ∃ key ∈ (updates writer).payload, ¬ shows payload writer key

/-- The run is to add an object that lacks what the other has added. -/
def Behind (s : State) (writer : Writer) : Prop :=
  ∃ payload, s.pc writer = .adding payload ∧ (s.pc writer.other).Added ∧
    Lacks updates shows payload writer.other

/-- The version will not be the newest one left with all updates. -/
def Hopeless (s : State) (version : Version) : Prop :=
  version.state = .destroyed ∨ (∃ writer, Condemns version.number (s.pc writer)) ∨
    ∃ writer, Lacks updates shows version.payload writer

/-- Both runs have added their versions, and no version is left with all updates. -/
structure Doomed (s : State) : Prop where
  added : ∀ writer, (s.pc writer).Added
  hopeless : ∀ version ∈ s.store.versions, Hopeless updates shows s version

/-- Updates are lost. -/
def Ruined (s : State) : Prop := (∃ writer, Behind updates shows s writer) ∨ Doomed updates shows s

end Ruin

section Ruined

variable {updates : Writer → Updates} {shows : Shows} {initial : Store} {s : State}

theorem Failed.step (h : Failed s) (e : Event) : Failed ((machine updates).step s e).2 := by
  obtain ⟨writer, error, hpc⟩ := h
  obtain ⟨t, htaken, hstep⟩ := @step_cases updates s e
  rw [hstep]
  by_cases hwriter : writer = e.writer
  · subst hwriter
    rw [hpc] at htaken
    cases htaken with
    | fail _ again => exact ⟨e.writer, again, Function.update_self ..⟩
  · exact ⟨writer, error, (Function.update_of_ne hwriter ..).trans hpc⟩

/-- A step that leaves every version as it was or destroyed, and condemns what it condemned. -/
theorem Doomed.move (h : Doomed updates shows s) {writer : Writer} {pc : Pc} {store : Store}
    (hadded : pc.Added)
    (hversions : ∀ version ∈ store.versions, version.state = .destroyed ∨
      version ∈ s.store.versions ∧
        (Condemns version.number (s.pc writer) → Condemns version.number pc)) :
    Doomed updates shows ⟨store, Function.update s.pc writer pc⟩ := by
  constructor
  case added =>
    rw [Writer.forall_iff writer]
    simp only [Function.update_self, Function.update_of_ne writer.other_ne]
    exact ⟨hadded, h.added _⟩
  case hopeless =>
    intro version hversion
    rcases hversions version hversion with hdestroyed | ⟨hmem, hcondemns⟩
    · exact Or.inl hdestroyed
    · rcases h.hopeless version hmem with hdestroyed | ⟨owner, hcondemned⟩ | hlacks
      · exact Or.inl hdestroyed
      · refine Or.inr (Or.inl ⟨owner, ?_⟩)
        by_cases hwriter : owner = writer
        · subst hwriter
          simp only [Function.update_self]
          exact hcondemns hcondemned
        · simp only [Function.update_of_ne hwriter]
          exact hcondemned
      · exact Or.inr (Or.inr hlacks)

/-- Once both have added their versions, what is lost stays lost. -/
theorem Doomed.step (h : Doomed updates shows s) (e : Event) :
    Failed ((machine updates).step s e).2 ∨
      Doomed updates shows ((machine updates).step s e).2 := by
  obtain ⟨t, htaken, hstep⟩ := @step_cases updates s e
  rw [hstep]
  have hadded := h.added e.writer
  generalize hpc : s.pc e.writer = pc at htaken hadded
  cases htaken with
  | read | add => exact absurd hadded id
  | list new =>
      right
      refine h.move trivial fun version hversion => ?_
      by_cases hstate : version.state = .destroyed
      · exact Or.inl hstate
      · refine Or.inr ⟨hversion, fun hcondemns => ?_⟩
        rw [hpc] at hcondemns
        exact ⟨hcondemns, version.state, List.mem_map.2 ⟨version, hversion, rfl⟩, hstate⟩
  | skip new number state rest hskip =>
      right
      refine h.move trivial fun version hversion => Or.inr ⟨hversion, fun hcondemns => ?_⟩
      rw [hpc] at hcondemns
      obtain ⟨hne, found, hmem, hfound⟩ := hcondemns
      rcases List.mem_cons.1 hmem with heq | hrest
      · obtain ⟨rfl, rfl⟩ := Prod.mk.inj heq
        exact absurd ⟨hne, hfound⟩ hskip
      · exact ⟨hne, found, hrest, hfound⟩
  | destroy new number state rest hold =>
      right
      refine h.move trivial fun version hversion => ?_
      obtain ⟨before, hbefore, rfl⟩ := List.mem_map.1 hversion
      by_cases hnumber : before.number = number
      · rw [if_pos hnumber]
        exact Or.inl rfl
      · rw [if_neg hnumber]
        refine Or.inr ⟨hbefore, fun hcondemns => ?_⟩
        rw [hpc] at hcondemns
        obtain ⟨hne, found, hmem, hfound⟩ := hcondemns
        rcases List.mem_cons.1 hmem with heq | hrest
        · exact absurd (Prod.mk.inj heq).1 hnumber
        · exact ⟨hne, found, hrest, hfound⟩
  | finish new =>
      right
      refine h.move trivial fun version hversion => Or.inr ⟨hversion, fun hcondemns => ?_⟩
      rw [hpc] at hcondemns
      obtain ⟨-, found, hmem, -⟩ := hcondemns
      cases hmem
  | rest new =>
      right
      refine h.move trivial fun version hversion => Or.inr ⟨hversion, fun hcondemns => ?_⟩
      rwa [hpc] at hcondemns
  | fail pc error => exact Or.inl ⟨e.writer, error, Function.update_self ..⟩

/-- A version added after the other run added its own is the end of both, when the other
run is to destroy it or it lacks the other's updates. -/
theorem doomed_add {writer : Writer} {payload : Payload} (hadded : (s.pc writer.other).Added)
    (hlost : Condemns s.store.next (s.pc writer.other) ∨ Lacks updates shows payload writer.other) :
    Doomed updates shows
      ⟨s.store.add payload, Function.update s.pc writer (.listing s.store.next)⟩ := by
  constructor
  case added =>
    rw [Writer.forall_iff writer]
    simp only [Function.update_self, Function.update_of_ne writer.other_ne]
    exact ⟨trivial, hadded⟩
  case hopeless =>
    intro version hversion
    rcases List.mem_append.1 hversion with hold | hnew
    · refine Or.inr (Or.inl ⟨writer, ?_⟩)
      simp only [Function.update_self]
      exact (s.store.lt_next hold).ne
    · rw [List.mem_singleton.1 hnew]
      rcases hlost with hcondemned | hlacks
      · refine Or.inr (Or.inl ⟨writer.other, ?_⟩)
        simp only [Function.update_of_ne writer.other_ne]
        exact hcondemned
      · exact Or.inr (Or.inr ⟨writer.other, hlacks⟩)

/-- A run that is to write over the other's updates does, unless one fails. -/
theorem Behind.step {writer : Writer} (h : Behind updates shows s writer) (e : Event) :
    Failed ((machine updates).step s e).2 ∨
      Ruined updates shows ((machine updates).step s e).2 := by
  obtain ⟨payload, hpc, hadded, hlacks⟩ := h
  obtain ⟨t, htaken, hstep⟩ := @step_cases updates s e
  rw [hstep]
  by_cases hwriter : e.writer = writer
  · subst hwriter
    rw [hpc] at htaken
    cases htaken with
    | add => exact Or.inr (Or.inr (doomed_add hadded (Or.inr hlacks)))
    | fail _ error => exact Or.inl ⟨e.writer, error, Function.update_self ..⟩
  · have howner : e.writer = writer.other := by
      revert hwriter
      cases e.writer <;> cases writer <;> simp [Writer.other]
    rw [howner] at htaken ⊢
    by_cases hfailed : ∃ error, t.1 = .failed error
    · obtain ⟨error, herror⟩ := hfailed
      exact Or.inl ⟨writer.other, error, by simp only [Function.update_self, herror]⟩
    · refine Or.inr (Or.inl ⟨writer, payload, ?_, ?_, hlacks⟩)
      · exact (Function.update_of_ne writer.other_ne.symm ..).trans hpc
      · simp only [Function.update_self]
        generalize s.pc writer.other = pc at htaken hadded
        cases htaken with
        | read | add => exact absurd hadded id
        | fail _ error => exact absurd ⟨error, rfl⟩ hfailed
        | _ => exact trivial

/-- A step that is not spaced loses updates. -/
theorem Intact.ruin (h : Intact updates shows initial s) {e : Event}
    (hspaced : ¬ Spaced updates shows initial s e) :
    Failed ((machine updates).step s e).2 ∨
      Ruined updates shows ((machine updates).step s e).2 := by
  simp only [Spaced, not_forall] at hspaced
  obtain ⟨payload, hpc, hclash⟩ := hspaced
  obtain ⟨t, htaken, hstep⟩ := @step_cases updates s e
  rw [hstep]
  rw [hpc] at htaken
  cases htaken with
  | fail _ error => exact Or.inl ⟨e.writer, error, Function.update_self ..⟩
  | add =>
      right
      have hother := h.fits e.writer.other
      cases hpc' : s.pc e.writer.other with
      | listing new =>
          rw [hpc'] at hother
          have hnew : new + 1 = s.store.next := hother
          refine Or.inr (doomed_add (by rw [hpc']; trivial) (Or.inl ?_))
          rw [hpc', Condemns]
          omega
      | adding read =>
          rw [hpc'] at hclash hother
          simp only [not_forall] at hclash
          obtain ⟨key, hkey, hnot⟩ := hclash
          refine Or.inl ⟨e.writer.other, read,
            (Function.update_of_ne e.writer.other_ne ..).trans hpc', ?_⟩
          simp only [Fits, Writer.other_other, Function.update_self] at hother ⊢
          refine ⟨trivial, key, hkey, fun hshown => ?_⟩
          rcases (hother.2.2 key hkey).1 hshown with hadded | hinitial
          · rw [hpc] at hadded
            exact hadded
          · exact hnot hinitial
      | _ => rw [hpc'] at hclash; exact absurd trivial hclash

theorem Ruined.step (h : Ruined updates shows s) (e : Event) :
    Failed ((machine updates).step s e).2 ∨
      Ruined updates shows ((machine updates).step s e).2 := by
  rcases h with ⟨writer, hbehind⟩ | hdoomed
  · exact hbehind.step e
  · exact (hdoomed.step e).imp_right Or.inr

theorem intact_start (initial : Store) : Intact updates shows initial (start initial) where
  fits := fun _ => trivial
  grown := fun _ _ => id
  unmoved := fun _ => rfl
  live := fun _ hadded => absurd hadded id
  shown := fun _ hadded => absurd hadded id

/-- **The fate of a run.** The secret is intact when every step was spaced, and updates are
lost when one was not. -/
theorem run_fate (hread : Readable updates shows) (events : List Event) :
    Failed ((machine updates).run (start initial) events) ∨
      ((machine updates).Along (Spaced updates shows initial) (start initial) events ∧
        Intact updates shows initial ((machine updates).run (start initial) events)) ∨
      (¬ (machine updates).Along (Spaced updates shows initial) (start initial) events ∧
        Ruined updates shows ((machine updates).run (start initial) events)) := by
  induction events using List.reverseRecOn with
  | nil => exact Or.inr (Or.inl ⟨Machine.along_nil _ _, intact_start initial⟩)
  | append_singleton past e ih =>
      rw [Machine.run_concat, Machine.along_concat]
      rcases ih with hfailed | ⟨halong, hintact⟩ | ⟨hnot, hruined⟩
      · exact Or.inl (hfailed.step e)
      · by_cases hspaced : Spaced updates shows initial
            ((machine updates).run (start initial) past) e
        · exact (hintact.step hread hspaced).imp_right fun h => Or.inl ⟨⟨halong, hspaced⟩, h⟩
        · exact (hintact.ruin hspaced).imp_right fun h => Or.inr ⟨fun h => hspaced h.2, h⟩
      · exact (hruined.step e).imp_right fun h => Or.inr ⟨fun h => hnot h.1, h⟩

/-! ## When both succeed -/

/-- Both runs have ended normally. -/
def Succeeded (s : State) : Prop := ∀ writer, ∃ new, s.pc writer = .done new

theorem Succeeded.not_failed (h : Succeeded s) : ¬ Failed s := by
  intro ⟨writer, error, hpc⟩
  obtain ⟨new, hdone⟩ := h writer
  rw [hdone] at hpc
  cases hpc

theorem Intact.kept (h : Intact updates shows initial s) (hsucceeded : Succeeded s) :
    Kept updates shows initial s.store := by
  have hadded : ∀ writer, (s.pc writer).Added := by
    intro writer
    obtain ⟨new, hdone⟩ := hsucceeded writer
    rw [hdone]
    trivial
  obtain ⟨latest, hends, hstate⟩ := h.live .one (hadded .one)
  have hobject := storedObject_of_ends hends
  refine ⟨latest, hends.newest hstate, ?_, fun writer => ?_⟩
  · rw [← hobject]
    exact h.grown
  · rw [← hobject]
    exact h.shown writer (hadded writer)

theorem Ruined.not_kept (h : Ruined updates shows s) (hsucceeded : Succeeded s) :
    ¬ Kept updates shows initial s.store := by
  intro ⟨version, hnewest, _, hshown⟩
  rcases h with ⟨writer, payload, hpc, -⟩ | hdoomed
  · obtain ⟨new, hdone⟩ := hsucceeded writer
    rw [hdone] at hpc
    cases hpc
  · have hmem := List.mem_filter.1 (List.mem_of_getLast? hnewest)
    rcases hdoomed.hopeless version hmem.1 with hdestroyed | ⟨writer, hcondemns⟩ |
        ⟨writer, key, hkey, hlacks⟩
    · exact of_decide_eq_true hmem.2 hdestroyed
    · obtain ⟨new, hdone⟩ := hsucceeded writer
      rw [hdone] at hcondemns
      exact hcondemns
    · exact hlacks (hshown writer key hkey)

/-- Two runs that succeed keep all updates exactly when every step was spaced. -/
theorem kept_iff_along (hread : Readable updates shows) (events : List Event)
    (hsucceeded : Succeeded ((machine updates).run (start initial) events)) :
    Kept updates shows initial ((machine updates).run (start initial) events).store ↔
      (machine updates).Along (Spaced updates shows initial) (start initial) events := by
  rcases @run_fate updates shows initial hread events with
    hfailed | ⟨halong, hintact⟩ | ⟨hnot, hruined⟩
  · exact absurd hfailed hsucceeded.not_failed
  · exact iff_of_true (hintact.kept hsucceeded) halong
  · exact iff_of_false (hruined.not_kept hsucceeded) hnot

end Ruined

/-! ## Keys and values -/

/-- A payload shows an update when it has its key. -/
def showsKey : Shows := fun payload _ key => Has payload key

/-- A payload shows an update when it has its value. -/
def showsValue (updates : Writer → Updates) : Shows := fun payload writer key =>
  payload.get? key = (updates writer).payload.get? key

section Disjoint

variable {updates : Writer → Updates}

/-- No key is updated by both runs. -/
def Disjoint (updates : Writer → Updates) : Prop :=
  ∀ key ∈ (updates .one).payload, key ∉ (updates .two).payload

theorem Disjoint.not_mem (h : Disjoint updates) {writer : Writer} {key : String}
    (hkey : key ∈ (updates writer.other).payload) : key ∉ (updates writer).payload := by
  cases writer with
  | one => exact fun hone => h key hone hkey
  | two => exact h key hkey

theorem readable_value (h : Disjoint updates) : Readable updates (showsValue updates) where
  own := fun _ _ _ hkey => get?_merged hkey
  other := by
    intro writer stored key hkey
    obtain ⟨value, hvalue⟩ := Option.isSome_iff_exists.1 (Dict.get?_isSome_iff.2 hkey)
    simp only [showsValue, hvalue]
    exact get?_merged_of_not_mem ((updates writer.other).contract key hkey)
      ((updates writer.other).valued key value hvalue) (h.not_mem hkey)

theorem readable_key (h : Disjoint updates) : Readable updates showsKey where
  own := by
    intro writer stored key hkey
    obtain ⟨value, hvalue⟩ := Option.isSome_iff_exists.1 (Dict.get?_isSome_iff.2 hkey)
    exact ⟨value, by rw [get?_merged hkey, hvalue], (updates writer).valued key value hvalue⟩
  other := by
    intro writer stored key hkey
    have hcontract := (updates writer.other).contract key hkey
    exact exists_congr fun value => and_congr_left fun hne =>
      get?_merged_of_not_mem hcontract hne (h.not_mem hkey)

end Disjoint

/-- **What two runs keep.** When both runs succeed, a version is left and the newest one
left has every contract key stored before and every updated key exactly when no run
added its version between the other's addition and its listing, nor over an object
read without updates that were not stored before. The same holds of the updated values. -/
theorem kept_iff_spaced (updates : Writer → Updates) (hdisjoint : Disjoint updates)
    (initial : Store) (events : List Event)
    (hsucceeded : Succeeded ((machine updates).run (start initial) events)) :
    (Kept updates showsKey initial ((machine updates).run (start initial) events).store ↔
      (machine updates).Along (Spaced updates showsKey initial) (start initial) events) ∧
    (Kept updates (showsValue updates) initial
        ((machine updates).run (start initial) events).store ↔
      (machine updates).Along (Spaced updates (showsValue updates) initial)
        (start initial) events) :=
  ⟨kept_iff_along (readable_key hdisjoint) events hsucceeded,
    kept_iff_along (readable_value hdisjoint) events hsucceeded⟩

/-- One key, with a value. -/
def oneUpdate (key value : String) (hkey : key ∈ keys) (hvalue : value ≠ "") : Updates where
  payload := Dict.empty.set key value
  contract := by
    intro other hother
    rcases Dict.mem_set.1 hother with rfl | hempty
    · exact hkey
    · cases hempty
  valued := by
    intro other found hfound
    rw [Dict.get?_set] at hfound
    split_ifs at hfound
    · rwa [← Option.some.inj hfound]
    · rw [Dict.get?_empty] at hfound
      cases hfound

/-- A marketplace key and an error tracker. -/
def keyAndTracker : Writer → Updates
  | .one => oneUpdate "EBAY_APP_ID" "app" (by decide) (by decide)
  | .two => oneUpdate "SENTRY_DSN" "dsn" (by decide) (by decide)

theorem mem_oneUpdate {key value other : String} (hkey : key ∈ keys) (hvalue : value ≠ "") :
    other ∈ (oneUpdate key value hkey hvalue).payload ↔ other = key := by
  rw [oneUpdate, Dict.mem_set]
  exact or_iff_left (List.not_mem_nil)

theorem keyAndTracker_disjoint : Disjoint keyAndTracker := by
  intro key hone htwo
  have hkey : key = "EBAY_APP_ID" := (mem_oneUpdate (by decide) (by decide)).1 hone
  have hother : key = "SENTRY_DSN" := (mem_oneUpdate (by decide) (by decide)).1 htwo
  rw [hkey] at hother
  exact absurd hother (by decide)

/-- A secret with a database address. -/
def storedAddress : Store := Store.add ⟨[], List.Pairwise.nil⟩ (Dict.empty.set "DATABASE_URL" "db")
/-- Steps without a fault. -/
def steps (writers : List Writer) : List Event := writers.map fun writer => ⟨writer, none⟩

/-- One run after the other. -/
def inTurn : List Event :=
  steps (List.replicate 6 .one ++ List.replicate 7 .two)

/-- Runs one after the other keep everything. -/
theorem kept_iff_spaced_in_turn :
    Kept keyAndTracker showsKey storedAddress
      ((machine keyAndTracker).run (start storedAddress) inTurn).store ∧
    Kept keyAndTracker (showsValue keyAndTracker) storedAddress
      ((machine keyAndTracker).run (start storedAddress) inTurn).store := by
  have hsucceeded : Succeeded ((machine keyAndTracker).run (start storedAddress) inTurn) := by
    intro writer
    cases writer with
    | one => exact ⟨2, rfl⟩
    | two => exact ⟨3, rfl⟩
  have hspaced : ∀ shows : Shows, (machine keyAndTracker).Along
      (Spaced keyAndTracker shows storedAddress) (start storedAddress) inTurn := by
    intro shows
    simp only [inTurn, steps, List.replicate, List.cons_append, List.nil_append, List.map_cons,
      List.map_nil, Machine.along_cons, Machine.along_nil, and_true]
    refine ⟨?_, ?_, ?_, ?_, ?_, ?_, ?_, ?_, ?_, ?_, ?_, ?_, ?_⟩ <;>
      exact fun payload _ => trivial
  have hkept := kept_iff_spaced keyAndTracker keyAndTracker_disjoint storedAddress inTurn hsucceeded
  exact ⟨hkept.1.2 (hspaced _), hkept.2.2 (hspaced _)⟩

/-- Both runs read and add before either lists the versions. -/
def together : List Event :=
  steps ([.one, .two, .one, .two, .one, .two] ++ List.replicate 4 .one ++ List.replicate 4 .two)

/-- Two runs that add before either lists destroy each other's version, and the one
before them: no version is left. -/
theorem together_not_kept :
    ¬ ∀ (updates : Writer → Updates) (initial : Store) (events : List Event),
      Disjoint updates → Succeeded ((machine updates).run (start initial) events) →
        Kept updates showsKey initial ((machine updates).run (start initial) events).store := by
  intro hall
  have hsucceeded : Succeeded ((machine keyAndTracker).run (start storedAddress) together) := by
    intro writer
    cases writer with
    | one => exact ⟨2, rfl⟩
    | two => exact ⟨3, rfl⟩
  obtain ⟨version, hnewest, -⟩ :=
    hall keyAndTracker storedAddress together keyAndTracker_disjoint hsucceeded
  have hnone : ((machine keyAndTracker).run (start storedAddress) together).store.newest = none :=
    rfl
  rw [hnone] at hnewest
  cases hnewest

end DealFinder.Deploy.Merges
