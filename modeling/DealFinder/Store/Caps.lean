/-
# The caps cannot be raced past

`add_watch` and `add_saved_search` count and insert under the lock of their user, and
nothing else adds a row. So the rows of a user only get fewer while the user's lock is
held by another transaction, which is what the two scripts rely on and everything
guarantees (`caps`). The caps then hold of the committed rows after every schedule, and
`add_watch` raises `LimitExceeded` only when its item was not on the watchlist at some
moment of the call (`caps_held`).
-/

import DealFinder.Math.RelyGuarantee
import DealFinder.Store.Scripts

namespace DealFinder.Store

open DealFinder.Math DealFinder.Shop

/-- The watches of a user. -/
def watchesOf (userId : String) (db : Database) : Dict WatchKey Watch :=
  db.watchlist.filter fun key _ => key.ownedBy userId

/-- The saved searches of a user. -/
def searchesOf (userId : String) (db : Database) : List SavedSearch :=
  db.savedSearches.filter (SavedSearch.ownedBy userId)

/-- Every user is within both caps. -/
structure Capped (db : Database) : Prop where
  watches : ∀ userId, (watchesOf userId db).size ≤ watchLimit
  searches : ∀ userId, (searchesOf userId db).length ≤ savedSearchLimit

/-- The user has no new item, and no more searches. -/
structure Shrinks (userId : String) (db db' : Database) : Prop where
  watches : ∀ key ∈ db'.watchlist, key.userId = userId → key ∈ db.watchlist
  searches : (searchesOf userId db').length ≤ (searchesOf userId db).length

/-- The caps hold, and the rows of a user get more only under the user's lock. -/
def caps (hashtext : String → BitVec 32) : Contract Database Lock where
  Inv := Capped
  Guar held db db' := ∀ userId, .advisory (hashtext userId) ∉ held → Shrinks userId db db'

/-- The change leaves no user with more rows. -/
def Harmless (change : Database → Database) : Prop := ∀ db userId, Shrinks userId db (change db)

/-! ## Counting -/

section Counting

variable {db db' : Database} {userId : String} {key : WatchKey}

theorem Shrinks.refl (userId : String) (db : Database) : Shrinks userId db db :=
  ⟨fun _ hmem _ => hmem, le_rfl⟩

theorem Shrinks.trans {db'' : Database} (h : Shrinks userId db db') (h' : Shrinks userId db' db'') :
    Shrinks userId db db'' where
  watches key hmem huser := h.watches key (h'.watches key hmem huser) huser
  searches := h'.searches.trans h.searches

/-- The other watches of the user of a key. -/
def besides (key : WatchKey) (db : Database) : Dict WatchKey Watch :=
  db.watchlist.filter fun other _ => other.ownedBy key.userId && other ≠ key

theorem mem_watchesOf : key ∈ watchesOf userId db ↔ key ∈ db.watchlist ∧ key.userId = userId := by
  rw [watchesOf, Dict.mem_part, WatchKey.ownedBy, decide_eq_true_iff]

theorem mem_besides {other : WatchKey} :
    other ∈ besides key db ↔ other ∈ db.watchlist ∧ other.userId = key.userId ∧ other ≠ key := by
  have hmem := @Dict.mem_part WatchKey Watch _
    (fun other => other.ownedBy key.userId && other ≠ key) db.watchlist other
  rw [besides, hmem, Bool.and_eq_true, WatchKey.ownedBy, decide_eq_true_iff, decide_eq_true_iff]

theorem Shrinks.size_watchesOf (h : Shrinks userId db db') :
    (watchesOf userId db').size ≤ (watchesOf userId db).size := by
  rw [← Dict.length_keys (watchesOf userId db)]
  apply Dict.size_le_length
  intro key hkey
  obtain ⟨hmem, huser⟩ := mem_watchesOf.1 hkey
  exact mem_watchesOf.2 ⟨h.watches key hmem huser, huser⟩

theorem Shrinks.size_besides (h : Shrinks key.userId db db') :
    (besides key db').size ≤ (besides key db).size := by
  rw [← Dict.length_keys (besides key db)]
  apply Dict.size_le_length
  intro other hother
  obtain ⟨hmem, huser, hne⟩ := mem_besides.1 hother
  exact mem_besides.2 ⟨h.watches other hmem huser, huser, hne⟩

theorem size_besides_le : (besides key db).size ≤ (watchesOf key.userId db).size := by
  rw [← Dict.length_keys (watchesOf key.userId db)]
  apply Dict.size_le_length
  intro other hother
  obtain ⟨hmem, huser, -⟩ := mem_besides.1 hother
  exact mem_watchesOf.2 ⟨hmem, huser⟩

/-- A watched item is one of the user's. -/
theorem size_besides_lt (hkey : key ∈ db.watchlist) :
    (besides key db).size < (watchesOf key.userId db).size := by
  have hnodup : (key :: (besides key db).keys).Nodup :=
    List.nodup_cons.2 ⟨fun hmem => (mem_besides.1 hmem).2.2 rfl, (besides key db).nodup_keys⟩
  have hsubset : key :: (besides key db).keys ⊆ (watchesOf key.userId db).keys := by
    intro other hother
    rcases List.mem_cons.1 hother with rfl | hbesides
    · exact mem_watchesOf.2 ⟨hkey, rfl⟩
    · obtain ⟨hmem, huser, -⟩ := mem_besides.1 hbesides
      exact mem_watchesOf.2 ⟨hmem, huser⟩
  have hle := (hnodup.subperm hsubset).length_le
  rw [List.length_cons, Dict.length_keys, Dict.length_keys] at hle
  exact hle

/-- Of a user's items, all but one are besides it. -/
theorem size_watchesOf_set_le (watch : Watch) :
    (watchesOf key.userId ((setWatch key watch).change db)).size ≤ (besides key db).size + 1 := by
  rw [← Dict.length_keys (besides key db), ← List.length_cons (a := key)]
  apply Dict.size_le_length
  intro other hother
  obtain ⟨hmem, huser⟩ := mem_watchesOf.1 hother
  by_cases heq : other = key
  · exact heq ▸ List.mem_cons_self
  · have hold := (Dict.mem_set.1 hmem).resolve_left heq
    exact List.mem_cons_of_mem _ (mem_besides.2 ⟨hold, huser, heq⟩)

theorem Capped.shrinks (h : Capped db) (hall : ∀ userId, Shrinks userId db db') : Capped db' where
  watches userId := (hall userId).size_watchesOf.trans (h.watches userId)
  searches userId := (hall userId).searches.trans (h.searches userId)

theorem capped_empty : Capped .empty where
  watches _ := Nat.zero_le _
  searches _ := Nat.zero_le _

end Counting

/-! ## What others do -/

section Rely

variable {hashtext : String → BitVec 32} {held : Set Lock} {db db' : Database} {userId : String}

/-- While a user's lock is held, the rows of the user only get fewer. -/
theorem shrinks_of_rely (hlock : .advisory (hashtext userId) ∈ held)
    (h : (caps hashtext).Rely held db db') : Shrinks userId db db' := by
  refine h.induction (fun first second theirs _ hdisjoint hguar hfirst => ?_) (.refl userId db)
  exact hfirst.trans (hguar userId (Set.disjoint_left.1 hdisjoint hlock))

/-- A script of harmless changes keeps the caps. -/
theorem safe_of_harmless {α : Type} {script : StoreScript α} (hscript : script.Writes Harmless)
    (hdb : Capped db) : script.Safe (caps hashtext) ∅ id db := by
  refine Script.safe_of_writes (fun first second hfirst hsecond db userId => ?_)
    (fun held own db hown hdb => ?_) hscript (fun db userId => .refl userId db) hdb
  · exact (hfirst db userId).trans (hsecond (first db) userId)
  · exact ⟨hdb.shrinks (hown db), fun userId _ => hown db userId⟩

end Rely

/-! ## The scripts without a cap -/

section Uncapped

variable {hashtext : String → BitVec 32} {postgres : Postgres} {settings : Settings} {now : ℚ}

theorem harmless_id : Harmless id := fun db userId => .refl userId db

theorem harmless_setOffer (key : OfferKey) (offer : Offer) : Harmless (setOffer key offer).change :=
  fun _ _ => ⟨fun _ hmem _ => hmem, le_rfl⟩

theorem harmless_eraseOffers (keys : List OfferKey) : Harmless (eraseOffers keys).change :=
  fun _ _ => ⟨fun _ hmem _ => hmem, le_rfl⟩

theorem harmless_eraseWatches (keys : List WatchKey) : Harmless (eraseWatches keys).change := by
  refine fun db userId => ⟨fun key hmem _ => ?_, le_rfl⟩
  exact (Dict.mem_part.1 hmem).1

theorem harmless_eraseSearches (rows : List SavedSearch) :
    Harmless (eraseSearches rows).change := by
  refine fun db userId => ⟨fun _ hmem _ => hmem, ?_⟩
  exact (List.filter_sublist.filter _).length_le

/-- The `INSERT` of an offer sets an offer. -/
theorem writeOffer_ok {tenant : String} {p : Row} {emb : Option (List ℚ)} {db : Database} {a : Unit}
    {patch : Write} (h : writeOffer settings postgres tenant now p emb db = .ok (a, patch)) :
    ∃ key offer, patch = setOffer key offer := by
  rw [writeOffer] at h
  cases hembedding : storedEmbedding postgres p emb with
  | error e =>
      rw [hembedding] at h
      cases h
  | ok embedding =>
      simp only [hembedding, bind, Except.bind] at h
      split at h
      · cases h
      · cases h
        exact ⟨_, _, rfl⟩

theorem writes_upsertRowsScript (tenant : String) (pairs : List (Row × Option (List ℚ)))
    (written : ℕ) :
    (upsertRowsScript postgres settings now tenant pairs written).Writes Harmless := by
  induction pairs generalizing written with
  | nil => trivial
  | cons pair rest ih =>
      rw [upsertRowsScript]
      split
      · exact ih written
      · refine Script.Writes.bind (fun db b patch hstatement => ⟨?_, trivial⟩) fun _ => ih _
        obtain ⟨key, offer, rfl⟩ := writeOffer_ok hstatement
        exact harmless_setOffer key offer

theorem writes_purgeExpiredScript (marginS : ℚ) :
    (purgeExpiredScript settings now marginS).Writes Harmless := by
  refine Script.Writes.bind (fun db b patch hstatement => ?_) fun offers =>
    Script.Writes.bind (fun db b patch hstatement => ?_) fun watchlist => trivial
  · cases hstatement
    exact ⟨harmless_eraseOffers _, trivial⟩
  · cases hstatement
    exact ⟨harmless_eraseWatches _, trivial⟩

theorem writes_removeSavedSearchScript (searchId : String) :
    (removeSavedSearchScript postgres settings searchId).Writes Harmless := by
  rw [removeSavedSearchScript]
  cases postgres.uuid searchId with
  | none => trivial
  | some id =>
      intro db b patch hstatement
      cases hstatement
      exact ⟨harmless_eraseSearches _, trivial⟩

end Uncapped

/-! ## The scripts with a cap -/

section Capped

variable {hashtext : String → BitVec 32} {settings : Settings} {now : ℚ} {db : Database}
variable {userId tenantId offerId : String}

theorem shrinks_setWatch {key : WatchKey} (hne : userId ≠ key.userId) (watch : Watch) :
    Shrinks userId db ((setWatch key watch).change db) where
  watches _ hmem huser :=
    (Dict.mem_set.1 hmem).resolve_left fun heq => hne (huser.symm.trans (congrArg _ heq))
  searches := le_rfl

/-- A watch that there is room for keeps the caps. -/
theorem Capped.setWatch {key : WatchKey} (hdb : Capped db)
    (hroom : (besides key db).size < watchLimit) (watch : Watch) :
    Capped ((setWatch key watch).change db) where
  watches user := by
    by_cases huser : user = key.userId
    · subst huser
      exact (size_watchesOf_set_le watch).trans hroom
    · exact (shrinks_setWatch huser watch).size_watchesOf.trans (hdb.watches user)
  searches := hdb.searches

theorem shrinks_addSearch {row : SavedSearch} (hne : userId ≠ row.userId) :
    Shrinks userId db ((addSearch row).change db) where
  watches _ hmem _ := hmem
  searches := by
    have hother : ¬ row.ownedBy userId = true := fun h => hne (of_decide_eq_true h).symm
    simp only [searchesOf, addSearch, List.filter_append, List.filter_singleton,
      Bool.eq_false_of_not_eq_true hother, cond_false, List.append_nil, le_refl]

/-- A search that there is room for keeps the caps. -/
theorem Capped.addSearch {row : SavedSearch} (hdb : Capped db)
    (hroom : (searchesOf row.userId db).length < savedSearchLimit) :
    Capped ((addSearch row).change db) where
  watches := hdb.watches
  searches user := by
    by_cases huser : user = row.userId
    · subst huser
      have howned : row.ownedBy row.userId = true := decide_eq_true rfl
      simp only [searchesOf, Store.addSearch, List.filter_append, List.filter_singleton, howned,
        cond_true, List.length_append, List.length_singleton]
      exact hroom
    · exact (shrinks_addSearch huser).searches.trans (hdb.searches user)

/-- With room for an item, its `INSERT` keeps the contract. -/
theorem safe_writeWatch (h : settings.Scopes tenantId userId) {row : Watch}
    (hroom : (besides ⟨userId, offerId⟩ db).size < watchLimit) (hdb : Capped db) :
    (Script.write (writeWatch settings ⟨userId, offerId⟩ row)).Safe (caps hashtext)
      {.advisory (hashtext userId)} id db := by
  apply Script.safe_write
  intro db' hothers left patch hstatement after hafter
  obtain ⟨outcome, hrun, heq⟩ := Effect.exists_of_map_ok hstatement
  obtain ⟨-, hleft, -⟩ := h.upsertWatch_ok hrun
  cases heq
  rw [hleft]
  have hbefore := shrinks_of_rely (Set.mem_singleton _) hothers
  have hsince := shrinks_of_rely (Set.mem_union_left _ (Set.mem_singleton _)) hafter
  have hleast : (besides ⟨userId, offerId⟩ after).size < watchLimit :=
    (hbefore.trans hsince).size_besides.trans_lt hroom
  refine ⟨(hafter.inv (hothers.inv hdb)).setWatch hleast _, fun user huser => ?_⟩
  refine shrinks_setWatch (fun heq => huser (Set.mem_union_left _ ?_)) _
  rw [heq]
  rfl

/-- With room for a search, its `INSERT` keeps the contract. -/
theorem safe_writeSearch {row : SavedSearch} (hrow : row.userId = userId)
    (hroom : (searchesOf userId db).length < savedSearchLimit) (hdb : Capped db) :
    (Script.write (writeSearch settings row)).Safe (caps hashtext)
      {.advisory (hashtext userId)} id db := by
  apply Script.safe_write
  intro db' hothers left patch hstatement after hafter
  obtain ⟨outcome, hrun, heq⟩ := Effect.exists_of_map_ok hstatement
  cases heq
  have hbefore := shrinks_of_rely (Set.mem_singleton _) hothers
  have hsince := shrinks_of_rely (Set.mem_union_left _ (Set.mem_singleton _)) hafter
  have hleast : (searchesOf row.userId after).length < savedSearchLimit :=
    hrow ▸ (hbefore.trans hsince).searches.trans_lt hroom
  refine ⟨(hafter.inv (hothers.inv hdb)).addSearch hleast, fun user huser => ?_⟩
  refine shrinks_addSearch fun heq => huser (Set.mem_union_left _ ?_)
  rw [heq, hrow]
  rfl

/-- `add_watch` keeps the contract. -/
theorem safe_addWatchScript (h : settings.Scopes tenantId userId) (targetPrice : Option ℚ)
    (hdb : Capped db) :
    (addWatchScript hashtext settings now userId tenantId offerId targetPrice).Safe
      (caps hashtext) ∅ id db := by
  apply Script.safe_read_bind
  intro first hfirst
  cases selectOffer settings offerId (id first) with
  | none => trivial
  | some offer =>
      by_cases hstore : mayStore offer.source = true
      · simp only [hstore, Bool.not_true, Bool.false_eq_true, if_false]
        apply Script.safe_acquire_bind
        intro second hsecond
        rw [LawfulSingleton.insert_empty_eq, watchRoomScript, Script.bind_assoc]
        have hcapped := hsecond.inv (hfirst.inv hdb)
        apply Script.safe_read_bind
        intro third hthird
        have hthirdCapped := hthird.inv hcapped
        cases hwatched : isWatched settings offerId (id third) with
        | true =>
            -- the item is one of at most 200
            rw [h.isWatched_eq, decide_eq_true_iff] at hwatched
            have hroom := (size_besides_lt hwatched).trans_le (hthirdCapped.watches userId)
            exact Script.safe_map _ (safe_writeWatch h hroom hthirdCapped)
        | false =>
            simp only [Bool.false_eq_true, if_false]
            rw [Script.bind_assoc]
            apply Script.safe_read_bind
            intro fourth hfourth
            have hfourthCapped := hfourth.inv hthirdCapped
            by_cases hfull : watchLimit ≤ countWatches settings (id fourth)
            · simp only [if_pos hfull]
              trivial
            · simp only [if_neg hfull]
              rw [h.countWatches_eq, not_le] at hfull
              have hroom : (besides ⟨userId, offerId⟩ fourth).size < watchLimit :=
                size_besides_le.trans_lt hfull
              exact Script.safe_map _ (safe_writeWatch h hroom hfourthCapped)
      · simp only [Bool.eq_false_of_not_eq_true hstore, Bool.not_false, if_true]
        trivial

/-- `add_saved_search` keeps the contract. -/
theorem safe_addSavedSearchScript (h : settings.Scopes tenantId userId) (query : String)
    (maxPrice : Option ℚ) (generated : Uuid) (hdb : Capped db) :
    (addSavedSearchScript hashtext settings now userId query maxPrice generated).Safe
      (caps hashtext) ∅ id db := by
  apply Script.safe_acquire_bind
  intro first hfirst
  rw [LawfulSingleton.insert_empty_eq]
  apply Script.safe_read_bind
  intro second hsecond
  have hcapped := hsecond.inv (hfirst.inv hdb)
  by_cases hfull : savedSearchLimit ≤ countSearches settings (id second)
  · simp only [if_pos hfull]
    trivial
  · simp only [if_neg hfull]
    rw [h.countSearches_eq, not_le] at hfull
    exact Script.safe_map _ (safe_writeSearch rfl hfull hcapped)

/-- Every request keeps the contract. -/
theorem safe_script (postgres : Postgres) (session : ℕ → Settings) (request : Request)
    (hdb : Capped db) :
    (Request.script hashtext postgres session request).Safe (caps hashtext) ∅ id db := by
  obtain ⟨conn, time, generated, op⟩ := request
  cases op with
  | addWatch userId tenantId offerId targetPrice =>
      exact Script.safe_map _ (safe_addWatchScript (scopes_user userId tenantId (session conn))
        targetPrice hdb)
  | addSavedSearch userId query maxPrice =>
      exact Script.safe_map _ (safe_addSavedSearchScript
        (scopes_user userId defaultTenant (session conn)) query maxPrice generated hdb)
  | listWatch | listSavedSearches | count =>
      exact Script.safe_map _ (safe_of_harmless (Script.writes_read harmless_id _) hdb)
  | semanticSearch =>
      exact Script.safe_map _ (safe_of_harmless (Script.writes_query harmless_id _) hdb)
  | removeWatch =>
      refine Script.safe_map _ (safe_of_harmless (fun db b patch hstatement => ?_) hdb)
      cases hstatement
      exact ⟨harmless_eraseWatches _, trivial⟩
  | removeSavedSearch =>
      exact Script.safe_map _ (safe_of_harmless (writes_removeSavedSearchScript _) hdb)
  | upsert => exact Script.safe_map _ (safe_of_harmless (writes_upsertRowsScript _ _ _) hdb)
  | purgeExpired => exact Script.safe_map _ (safe_of_harmless (writes_purgeExpiredScript _) hdb)

/-- The `INSERT` of a watch raises nothing of the caps. -/
theorem writeWatch_error (h : settings.Scopes tenantId userId) {row : Watch} {e : Error}
    (herror : writeWatch settings ⟨userId, offerId⟩ row db = .error e) : e ≠ .limitExceeded := by
  rw [writeWatch, h.upsertWatch_eq] at herror
  cases htarget : row.targetPrice with
  | none =>
      rw [htarget] at herror
      cases herror
  | some target =>
      rw [htarget, positive] at herror
      split at herror
      · cases herror
      · cases herror
        exact Error.noConfusion

/-- `add_watch` raises `LimitExceeded` only after it saw the item not watched. -/
theorem onlyAfter_addWatchScript (h : settings.Scopes tenantId userId) (targetPrice : Option ℚ) :
    (addWatchScript hashtext settings now userId tenantId offerId targetPrice).OnlyAfter
      (· = .limitExceeded) fun db => ⟨userId, offerId⟩ ∉ db.watchlist := by
  refine Script.onlyAfter_read_bind fun first => Or.inr ?_
  cases selectOffer settings offerId first with
  | none => exact Error.noConfusion
  | some offer =>
      by_cases hstore : mayStore offer.source = true
      · simp only [hstore, Bool.not_true, Bool.false_eq_true, if_false]
        apply Script.onlyAfter_acquire_bind
        rw [watchRoomScript, Script.bind_assoc]
        apply Script.onlyAfter_read_bind
        intro second
        by_cases hwatched : ⟨userId, offerId⟩ ∈ second.watchlist
        · rw [h.isWatched_eq, decide_eq_true hwatched]
          refine Or.inr (Script.onlyAfter_map _ (Script.onlyAfter_write fun db e herror => ?_))
          exact writeWatch_error h herror
        · exact Or.inl hwatched
      · simp only [Bool.eq_false_of_not_eq_true hstore, Bool.not_false, if_true]
        exact Error.noConfusion

end Capped

/-- **The caps cannot be raced past.** After every schedule of any transactions of the store,
from empty tables, the committed rows of every user are within both caps; and a call of
`add_watch` that then raises `LimitExceeded` had a moment at which its item was not on the
user's watchlist. -/
theorem caps_held {τ : Type} [DecidableEq τ] (hashtext : String → BitVec 32) (postgres : Postgres)
    (session : ℕ → Settings) (events : List (Server.Event Request τ)) :
    (∀ userId,
      (watchesOf userId ((Server.machine (Request.script hashtext postgres session)).run
        (emptyServer τ) events).committed).size ≤ watchLimit ∧
      (searchesOf userId ((Server.machine (Request.script hashtext postgres session)).run
        (emptyServer τ) events).committed).length ≤ savedSearchLimit) ∧
    ∀ e request userId tenantId offerId targetPrice,
      request.op = .addWatch userId tenantId offerId targetPrice →
      (Server.machine (Request.script hashtext postgres session)).answerAfter (emptyServer τ)
        events e = .raised request .limitExceeded →
      Server.DuringCall (Request.script hashtext postgres session) (emptyServer τ) events e.thread
        request fun s => ⟨userId, offerId⟩ ∉ s.committed.watchlist := by
  constructor
  · have hcapped : Capped ((Server.machine (Request.script hashtext postgres session)).run
        (emptyServer τ) events).committed :=
      @Server.run_inv _ _ _ _ _ _ (caps hashtext) (Request.script hashtext postgres session) _ _
        (emptyServer τ) (fun call db hdb => safe_script postgres session call hdb) capped_empty
        (fun _ => rfl) events
    exact fun userId => ⟨hcapped.watches userId, hcapped.searches userId⟩
  · intro e request userId tenantId offerId targetPrice hop hraised
    have hcode : ∀ call : Request, call.op = .addWatch userId tenantId offerId targetPrice →
        (Request.script hashtext postgres session call).OnlyAfter (· = .limitExceeded)
          fun db => ⟨userId, offerId⟩ ∉ db.watchlist := by
      intro call hcall
      rw [Request.script, hcall]
      exact Script.onlyAfter_map _ (onlyAfter_addWatchScript
        (scopes_user userId tenantId (session call.conn)) targetPrice)
    exact Server.raised_after hcode (fun _ => rfl) events e hraised hop rfl

end DealFinder.Store
