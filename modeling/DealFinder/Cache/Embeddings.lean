/-
# The cache of text vectors

`embed_texts_cached` keeps the vector of a text under the text's hash, for six hours and
at most 4,096 texts. A call looks its texts up, has the model embed those it did not find
in one batch, and puts its rows together from both. The calls are a machine whose answers
also say what the call gave to the model and which entries it used, so that the rows of a
call can be traced to the calls that computed them.
-/

import DealFinder.Math.Lru
import DealFinder.Math.Machine
import Mathlib.Algebra.Order.Ring.Rat
import Mathlib.Data.Set.Function
import Mathlib.Tactic.NormNum

namespace DealFinder.Cache

open DealFinder.Math

universe u v

variable {κ : Type u} {ν : Type v} [DecidableEq κ]

/-! ## The code -/

/-- `EMBED_CACHE_TTL_S`. -/
def embedCacheTtlS : ℚ := 6 * 3600

/-- `_EMBED_CACHE_MAX`. -/
def embedCacheMax : ℕ := 4096

/-- `_embed_cache`: under the hash of a text, when it was computed and its vector. -/
abbrev EmbedCache (κ : Type u) (ν : Type v) := Dict κ (ℚ × ν)

/-- A call: its texts, the clock it reads, and the model, which maps a batch to the vectors
of its texts in order. -/
structure Call (ν : Type v) where
  texts : List String
  now : ℚ
  embedTexts : List String → List ν
  vector : String → ν
  inOrder : ∀ batch, embedTexts batch = batch.map vector

/-- The rows of a call, or none when one of its keys is missing; the batch it gave to the
model; and the keys whose entries it read or wrote, in order. -/
structure Answer (κ : Type u) (ν : Type v) where
  rows : Option (List ν)
  batch : List String
  used : List κ

/-- The vector under a key, unless it is too old. -/
def hit (now : ℚ) (cache : EmbedCache κ ν) (k : κ) : Option ν :=
  ((cache.get? k).filter fun entry => now - entry.1 < embedCacheTtlS).map Prod.snd

/-- One key of the first loop. -/
def look (now : ℚ) (s : Dict κ ν × EmbedCache κ ν) (k : κ) : Dict κ ν × EmbedCache κ ν :=
  match hit now s.2 k with
  | some v => (s.1.set k v, s.2.moveToEnd k)
  | none => s

/-- The first loop: the vectors found, and the cache with their keys moved to its end. -/
def looked (now : ℚ) (cache : EmbedCache κ ν) (keys : List κ) : Dict κ ν × EmbedCache κ ν :=
  keys.foldl (look now) (Dict.empty, cache)

/-- `missing`: the texts whose keys were not found. -/
def missing (keys : List κ) (texts : List String) (found : Dict κ ν) : Dict κ String :=
  Dict.ofPairs ((keys.zip texts).filter fun pair => pair.1 ∉ found)

/-- One vector of the second loop. -/
def keep (now : ℚ) (s : Dict κ ν × EmbedCache κ ν) (pair : κ × ν) :
    Dict κ ν × EmbedCache κ ν :=
  (s.1.set pair.1 pair.2, s.2.put pair.1 (now, pair.2))

/-- `embed_texts_cached`. -/
def embedTextsCached (hash : String → κ) (call : Call ν) (cache : EmbedCache κ ν) :
    Answer κ ν × EmbedCache κ ν :=
  let keys := call.texts.map hash
  let s := looked call.now cache keys
  let hits := keys.filter fun k => (hit call.now cache k).isSome
  let new := missing keys call.texts s.1
  if new.size = 0 then
    (⟨keys.mapM s.1.get?, [], hits⟩, s.2)
  else
    let vecs := call.embedTexts new.values
    let kept := (new.keys.zip vecs).foldl (keep call.now) s
    (⟨keys.mapM kept.1.get?, new.values, hits ++ new.keys⟩, kept.2.trim embedCacheMax)

/-- The process: one call after the other on the one cache. -/
def embedMachine (hash : String → κ) : Machine (EmbedCache κ ν) (Call ν) (Answer κ ν) where
  step cache call := embedTextsCached hash call cache

/-! ## One call -/

section Loops

theorem hit_eq_some_iff {now : ℚ} {cache : EmbedCache κ ν} {k : κ} {v : ν} :
    hit now cache k = some v ↔
      ∃ computed, cache.get? k = some (computed, v) ∧ now - computed < embedCacheTtlS := by
  rw [hit, Option.map_eq_some_iff]
  constructor
  · rintro ⟨⟨computed, v⟩, hentry, rfl⟩
    rw [Option.filter_eq_some_iff] at hentry
    exact ⟨computed, hentry.1, of_decide_eq_true hentry.2⟩
  · rintro ⟨computed, hentry, hage⟩
    exact ⟨(computed, v), Option.filter_eq_some_iff.2 ⟨hentry, decide_eq_true hage⟩, rfl⟩

/-- What the first loop has done after some keys. -/
structure Looked (now : ℚ) (cache : EmbedCache κ ν) (keys : List κ)
    (s : Dict κ ν × EmbedCache κ ν) : Prop where
  lookup : ∀ k, s.2.get? k = cache.get? k
  size : s.2.size = cache.size
  found : ∀ k v, s.1.get? k = some v → hit now cache k = some v
  recent : ∀ uses, Recent cache.keys uses →
    Recent s.2.keys (uses ++ keys.filter fun k => (hit now cache k).isSome)

theorem looked_spec (now : ℚ) (cache : EmbedCache κ ν) (keys : List κ) :
    Looked now cache keys (looked now cache keys) := by
  induction keys using List.reverseRecOn with
  | nil =>
      refine ⟨fun _ => rfl, rfl, ?_, ?_⟩
      · intro k v hfound
        cases hfound
      · intro uses hrecent
        simpa [looked] using hrecent
  | append_singleton keys k ih =>
      rw [looked, List.foldl_concat, ← looked]
      have hsame : hit now (looked now cache keys).2 k = hit now cache k := by
        rw [hit, ih.lookup, ← hit]
      cases hhit : hit now cache k with
      | none =>
          rw [look, hsame, hhit]
          refine ⟨ih.lookup, ih.size, ih.found, ?_⟩
          intro uses hrecent
          rw [List.filter_append, List.filter_cons_of_neg (by simp [hhit])]
          simpa using ih.recent uses hrecent
      | some v =>
          rw [look, hsame, hhit]
          have hmem : k ∈ (looked now cache keys).2 := by
            obtain ⟨computed, hentry, -⟩ := hit_eq_some_iff.1 hhit
            exact Dict.mem_of_get?_eq_some ((ih.lookup k).trans hentry)
          refine ⟨?_, ?_, ?_, ?_⟩
          · intro other
            exact (Dict.get?_moveToEnd ..).trans (ih.lookup other)
          · exact (Dict.size_moveToEnd ..).trans ih.size
          · intro other w hfound
            rw [Dict.get?_set] at hfound
            split at hfound
            case isTrue heq =>
              obtain rfl := Option.some.inj hfound
              rw [heq, hhit]
            case isFalse => exact ih.found other w hfound
          · intro uses hrecent
            rw [List.filter_append, List.filter_cons_of_pos (by simp [hhit]), List.filter_nil,
              ← List.append_assoc, Dict.keys_moveToEnd hmem]
            exact (ih.recent uses hrecent).use k

theorem mem_missing {keys : List κ} {texts : List String} {found : Dict κ ν} {k : κ} :
    k ∈ missing keys texts found ↔ k ∉ found ∧ ∃ text, (k, text) ∈ keys.zip texts := by
  rw [missing, Dict.mem_ofPairs]
  simp only [List.mem_filter, decide_eq_true_eq]
  tauto

theorem mem_zip_of_get?_missing {keys : List κ} {texts : List String} {found : Dict κ ν} {k : κ}
    {text : String} (h : (missing keys texts found).get? k = some text) :
    (k, text) ∈ keys.zip texts :=
  (List.mem_filter.1 (Dict.mem_of_get?_ofPairs h)).1

/-- What the second loop has done after some pairs. -/
structure Kept (now : ℚ) (start : Dict κ ν × EmbedCache κ ν) (pairs : List (κ × ν))
    (s : Dict κ ν × EmbedCache κ ν) : Prop where
  found : ∀ k v, s.1.get? k = some v → (k, v) ∈ pairs ∨ start.1.get? k = some v
  mem : ∀ k, k ∈ s.1 ↔ k ∈ pairs.map Prod.fst ∨ k ∈ start.1
  entry : ∀ k entry, s.2.get? k = some entry →
    (entry.1 = now ∧ (k, entry.2) ∈ pairs) ∨ start.2.get? k = some entry
  recent : ∀ uses, Recent start.2.keys uses → Recent s.2.keys (uses ++ pairs.map Prod.fst)

theorem kept_spec (now : ℚ) (start : Dict κ ν × EmbedCache κ ν) (pairs : List (κ × ν)) :
    Kept now start pairs (pairs.foldl (keep now) start) := by
  induction pairs using List.reverseRecOn with
  | nil =>
      refine ⟨fun k v => Or.inr, fun k => by simp, fun k entry => Or.inr, ?_⟩
      intro uses hrecent
      simpa using hrecent
  | append_singleton pairs pair ih =>
      rw [List.foldl_concat, keep]
      refine ⟨?_, ?_, ?_, ?_⟩
      · intro k v hfound
        rw [Dict.get?_set] at hfound
        split at hfound
        case isTrue heq =>
          obtain rfl := Option.some.inj hfound
          rw [heq]
          exact Or.inl (List.mem_append_right _ (List.mem_singleton.2 rfl))
        case isFalse => exact (ih.found k v hfound).imp_left (List.mem_append_left _)
      · intro k
        rw [Dict.mem_set, ih.mem, List.map_append, List.mem_append, List.map_singleton,
          List.mem_singleton]
        tauto
      · intro k entry hentry
        rw [Dict.get?_put] at hentry
        split at hentry
        case isTrue heq =>
          obtain rfl := Option.some.inj hentry
          rw [heq]
          exact Or.inl ⟨rfl, List.mem_append_right _ (List.mem_singleton.2 rfl)⟩
        case isFalse =>
          exact (ih.entry k entry hentry).imp_left (And.imp_right (List.mem_append_left _))
      · intro uses hrecent
        rw [List.map_append, ← List.append_assoc, Dict.keys_put]
        exact (ih.recent uses hrecent).use pair.1

end Loops

section Calls

variable {hash : String → κ}

/-- The pairs of the second loop: the missing texts' keys with their vectors. -/
def computedPairs (call : Call ν) (new : Dict κ String) : List (κ × ν) :=
  new.entries.map fun entry => (entry.1, call.vector entry.2)

omit [DecidableEq κ] in
theorem zip_vectors (call : Call ν) (new : Dict κ String) :
    new.keys.zip (call.embedTexts new.values) = computedPairs call new := by
  rw [call.inOrder, Dict.keys, Dict.values, List.map_map, List.zip_map']
  rfl

omit [DecidableEq κ] in
theorem keys_computedPairs (call : Call ν) (new : Dict κ String) :
    (computedPairs call new).map Prod.fst = new.keys := by
  rw [computedPairs, List.map_map]
  rfl

/-- When every key is there, so are the rows. -/
theorem mapM_get? {found : Dict κ ν} {R : String → ν → Prop} {texts : List String}
    (h : ∀ text ∈ texts, ∃ v, found.get? (hash text) = some v ∧ R text v) :
    ∃ rows, (texts.map hash).mapM found.get? = some rows ∧ List.Forall₂ R texts rows := by
  induction texts with
  | nil => exact ⟨[], rfl, List.Forall₂.nil⟩
  | cons text rest ih =>
      obtain ⟨v, hv, hR⟩ := h text (List.mem_cons_self ..)
      obtain ⟨rows, hrows, hrest⟩ := ih fun other hother => h other (List.mem_cons_of_mem _ hother)
      refine ⟨v :: rows, ?_, List.Forall₂.cons hR hrest⟩
      rw [List.map_cons, List.mapM_cons, hv, hrows]
      rfl

/-- What a call does: a row was in the cache or is computed now, and so is an entry. -/
structure Served (hash : String → κ) (call : Call ν) (cache : EmbedCache κ ν)
    (out : Answer κ ν × EmbedCache κ ν) : Prop where
  rows : ∃ rows, out.1.rows = some rows ∧ List.Forall₂ (fun text row => text ∈ call.texts ∧
    (hit call.now cache (hash text) = some row ∨
      ∃ other ∈ out.1.batch, hash other = hash text ∧ call.vector other = row)) call.texts rows
  batch : ∀ text ∈ out.1.batch, text ∈ call.texts
  entry : ∀ k entry, out.2.get? k = some entry → cache.get? k = some entry ∨
    entry.1 = call.now ∧ ∃ text ∈ out.1.batch, hash text = k ∧ call.vector text = entry.2
  recent : ∀ uses, Recent cache.keys uses → Recent out.2.keys (uses ++ out.1.used)
  size : cache.size ≤ embedCacheMax → out.2.size ≤ embedCacheMax

/-- A text that was not found is missing under its key. -/
theorem hash_mem_missing {texts : List String} {found : Dict κ ν} {text : String}
    (htext : text ∈ texts) (hfound : hash text ∉ found) :
    hash text ∈ missing (texts.map hash) texts found := by
  refine mem_missing.2 ⟨hfound, text, ?_⟩
  rw [← List.map_id texts, List.map_map, List.zip_map', Function.comp_id]
  exact List.mem_map.2 ⟨text, by simpa using htext, rfl⟩

theorem hash_of_missing {texts : List String} {found : Dict κ ν} {k : κ} {text : String}
    (h : (missing (texts.map hash) texts found).get? k = some text) :
    hash text = k ∧ text ∈ texts := by
  have hpair := mem_zip_of_get?_missing h
  rw [← List.map_id texts, List.map_map, List.zip_map', Function.comp_id] at hpair
  obtain ⟨other, hother, heq⟩ := List.mem_map.1 hpair
  obtain ⟨rfl, rfl⟩ := Prod.mk.inj heq
  exact ⟨rfl, by simpa using hother⟩

/-- A pair of the second loop is a text of the batch under its key. -/
theorem text_of_computedPairs {call : Call ν} {texts : List String} {found : Dict κ ν} {k : κ}
    {v : ν} (h : (k, v) ∈ computedPairs call (missing (texts.map hash) texts found)) :
    ∃ text ∈ (missing (texts.map hash) texts found).values,
      hash text = k ∧ call.vector text = v := by
  obtain ⟨entry, hentry, heq⟩ := List.mem_map.1 h
  obtain ⟨rfl, rfl⟩ := Prod.mk.inj heq
  exact ⟨entry.2, List.mem_map_of_mem hentry,
    (hash_of_missing (Dict.get?_eq_some_iff.2 hentry)).1, rfl⟩

theorem served_embedTextsCached (hash : String → κ) (call : Call ν) (cache : EmbedCache κ ν) :
    Served hash call cache (embedTextsCached hash call cache) := by
  have hlooked := looked_spec call.now cache (call.texts.map hash)
  simp only [embedTextsCached, zip_vectors]
  set s := looked call.now cache (call.texts.map hash) with hs
  set new := missing (call.texts.map hash) call.texts s.1 with hnew
  split
  case isTrue hnone =>
    refine ⟨mapM_get? ?_, ?_, ?_, ?_, ?_⟩
    · intro text htext
      have hfound : hash text ∈ s.1 := by
        by_contra hfound
        exact Dict.not_mem_of_size_eq_zero hnone (hash_mem_missing htext hfound)
      obtain ⟨v, hv⟩ := Option.isSome_iff_exists.1 (Dict.get?_isSome_iff.2 hfound)
      exact ⟨v, hv, htext, Or.inl (hlooked.found _ _ hv)⟩
    · intro text htext
      cases htext
    · intro k entry hentry
      exact Or.inl ((hlooked.lookup k).symm.trans hentry)
    · exact hlooked.recent
    · exact fun hsize => hlooked.size.trans_le hsize
  case isFalse =>
    have hkept := kept_spec call.now s (computedPairs call new)
    set kept := (computedPairs call new).foldl (keep call.now) s
    refine ⟨mapM_get? ?_, ?_, ?_, ?_, ?_⟩
    · intro text htext
      have hfound : hash text ∈ kept.1 := by
        rw [hkept.mem, keys_computedPairs]
        by_cases hfound : hash text ∈ s.1
        · exact Or.inr hfound
        · exact Or.inl (hash_mem_missing htext hfound)
      obtain ⟨v, hv⟩ := Option.isSome_iff_exists.1 (Dict.get?_isSome_iff.2 hfound)
      refine ⟨v, hv, htext, ?_⟩
      rcases hkept.found _ _ hv with hcomputed | hfound
      · exact Or.inr (text_of_computedPairs hcomputed)
      · exact Or.inl (hlooked.found _ _ hfound)
    · intro text htext
      obtain ⟨k, hk⟩ := Dict.mem_values_iff.1 htext
      exact (hash_of_missing hk).2
    · intro k entry hentry
      dsimp only at hentry
      rcases hkept.entry k entry (Dict.get?_of_trim hentry) with ⟨hnow, hcomputed⟩ | hold
      · exact Or.inr ⟨hnow, text_of_computedPairs hcomputed⟩
      · exact Or.inl ((hlooked.lookup k).symm.trans hold)
    · intro uses hrecent
      rw [← List.append_assoc, ← keys_computedPairs call new]
      dsimp only
      exact (hkept.recent _ (hlooked.recent uses hrecent)).suffix (Dict.keys_trim _ _)
    · intro _
      dsimp only
      exact Dict.size_trim_le _ _

end Calls

/-! ## Every sequence of calls -/

section Runs

variable (hash : String → κ)

/-- The keys used by a sequence of calls from the empty cache, in order. -/
def usesOf (calls : List (Call ν)) : List κ :=
  ((embedMachine hash).observe (fun _ answer => some answer.used) Dict.empty calls).flatten

/-- The call gave the text to the model, in a sequence of calls from the empty cache. -/
def Computed (calls : List (Call ν)) (call : Call ν) (text : String) : Prop :=
  ∃ earlier later, calls = earlier ++ call :: later ∧
    text ∈ ((embedMachine hash).answerAfter Dict.empty earlier call).batch

variable {hash}

theorem Computed.mem {calls : List (Call ν)} {call : Call ν} {text : String}
    (h : Computed hash calls call text) : call ∈ calls ∧ text ∈ call.texts := by
  obtain ⟨earlier, later, rfl, hbatch⟩ := h
  exact ⟨by simp, (served_embedTextsCached hash call _).batch text hbatch⟩

theorem Computed.left {calls : List (Call ν)} {call : Call ν} {text : String}
    (h : Computed hash calls call text) (next : Call ν) :
    Computed hash (calls ++ [next]) call text := by
  obtain ⟨earlier, later, rfl, hbatch⟩ := h
  exact ⟨earlier, later ++ [next], by simp, hbatch⟩

/-- What holds of the cache after a sequence of calls. -/
structure Caches (hash : String → κ) (calls : List (Call ν)) (cache : EmbedCache κ ν) :
    Prop where
  entry : ∀ k entry, cache.get? k = some entry → ∃ call text, Computed hash calls call text ∧
    hash text = k ∧ call.now = entry.1 ∧ call.vector text = entry.2
  recent : Recent cache.keys (usesOf hash calls)
  size : cache.size ≤ embedCacheMax

theorem usesOf_concat (calls : List (Call ν)) (call : Call ν) :
    usesOf hash (calls ++ [call]) =
      usesOf hash calls ++ ((embedMachine hash).answerAfter Dict.empty calls call).used := by
  rw [usesOf, Machine.observe_concat, List.flatten_append]
  simp [usesOf]

theorem caches_run (hash : String → κ) (calls : List (Call ν)) :
    Caches hash calls ((embedMachine hash).run Dict.empty calls) := by
  apply Machine.run_history
  · refine ⟨?_, List.nil_suffix, Nat.zero_le _⟩
    intro k entry hentry
    cases hentry
  · intro past call ih
    have hserved := served_embedTextsCached hash call ((embedMachine hash).run Dict.empty past)
    refine ⟨?_, ?_, hserved.size ih.size⟩
    · intro k entry hentry
      rcases hserved.entry k entry hentry with hold | ⟨hnow, text, htext, hkey, hvector⟩
      · obtain ⟨earlier, text, hcomputed, hrest⟩ := ih.entry k entry hold
        exact ⟨earlier, text, hcomputed.left call, hrest⟩
      · exact ⟨call, text, ⟨past, [], rfl, htext⟩, hkey, hnow.symm, hvector⟩
    · rw [usesOf_concat]
      exact hserved.recent _ ih.recent

/-- **The cache shows in nothing but the work saved.** Every row of every call is the vector
of its text as a call computed it less than six hours before, so it is `E` of the text when
the model is `E` throughout; the cache holds at most 4,096 entries after every call; and an
entry that a call removes was last used before every entry that stays. -/
theorem cache_transparent (hash : String → κ) (past : List (Call ν)) (call : Call ν)
    (hhash : Set.InjOn hash {text | ∃ other ∈ past ++ [call], text ∈ other.texts}) :
    (∃ rows, ((embedMachine hash).answerAfter Dict.empty past call).rows = some rows ∧
      List.Forall₂ (fun text row => ∃ other, Computed hash (past ++ [call]) other text ∧
        call.now - other.now < embedCacheTtlS ∧ row = other.vector text) call.texts rows) ∧
    (∀ E : String → ν, (∀ other ∈ past ++ [call], other.vector = E) →
      ((embedMachine hash).answerAfter Dict.empty past call).rows =
        some (call.texts.map E)) ∧
    ((embedMachine hash).run Dict.empty (past ++ [call])).size ≤ embedCacheMax ∧
    ∀ gone kept, (gone ∈ (embedMachine hash).run Dict.empty past ∨
        gone ∈ ((embedMachine hash).answerAfter Dict.empty past call).used) →
      gone ∉ (embedMachine hash).run Dict.empty (past ++ [call]) →
      kept ∈ (embedMachine hash).run Dict.empty (past ++ [call]) →
      UsedAfter (usesOf hash (past ++ [call])) gone kept := by
  have hbefore := caches_run hash past
  have hafter := caches_run hash (past ++ [call])
  have hrows : ∃ rows, ((embedMachine hash).answerAfter Dict.empty past call).rows = some rows ∧
      List.Forall₂ (fun text row => ∃ other, Computed hash (past ++ [call]) other text ∧
        call.now - other.now < embedCacheTtlS ∧ row = other.vector text) call.texts rows := by
    obtain ⟨rows, hrows, hforall⟩ :=
      (served_embedTextsCached hash call ((embedMachine hash).run Dict.empty past)).rows
    refine ⟨rows, hrows, hforall.imp ?_⟩
    rintro text row ⟨htext, hhit | ⟨other, hother, hkey, hrow⟩⟩
    · obtain ⟨computed, hentry, hage⟩ := hit_eq_some_iff.1 hhit
      obtain ⟨earlier, other, hcomputed, hkey, hnow, hrow⟩ := hbefore.entry _ _ hentry
      have hcomputed := hcomputed.left call
      have hsame : other = text := hhash ⟨earlier, hcomputed.mem⟩ ⟨call, by simp, htext⟩ hkey
      subst hsame
      exact ⟨earlier, hcomputed, by rwa [hnow], hrow.symm⟩
    · have hcomputed : Computed hash (past ++ [call]) call other := ⟨past, [], rfl, hother⟩
      have hsame : other = text := hhash ⟨call, hcomputed.mem⟩ ⟨call, by simp, htext⟩ hkey
      subst hsame
      refine ⟨call, hcomputed, ?_, hrow.symm⟩
      rw [sub_self]
      norm_num [embedCacheTtlS]
  refine ⟨hrows, ?_, hafter.size, ?_⟩
  · intro E hE
    obtain ⟨rows, hrows, hforall⟩ := hrows
    have hequal : List.Forall₂ (fun text row => E text = row) call.texts rows := by
      refine hforall.imp ?_
      rintro text row ⟨other, hcomputed, -, hrow⟩
      rw [hrow, hE other hcomputed.mem.1]
    have hmap := List.forall₂_map_left_iff.2 hequal
    rw [List.forall₂_eq_eq_eq] at hmap
    rw [hrows, hmap]
  · intro gone kept hgone hout hkept
    have hused : gone ∈ usesOf hash (past ++ [call]) := by
      rw [usesOf_concat]
      rcases hgone with hgone | hgone
      · exact List.mem_append_left _ (hbefore.recent.mem hgone)
      · exact List.mem_append_right _ hgone
    exact hafter.recent.usedAfter hused hout hkept

/-- A call of a model that gives every text back, keyed by the text itself. -/
def echo (now : ℚ) (texts : List String) : Call String :=
  ⟨texts, now, id, id, fun batch => (List.map_id batch).symm⟩

/-- An hour later one text is found, one is embedded, and one asked for twice. -/
theorem cache_transparent_echo :
    ((embedMachine id).answerAfter Dict.empty [echo 0 ["sony wh", "bose qc"]]
      (echo 3600 ["bose qc", "jbl", "bose qc"])).rows = some ["bose qc", "jbl", "bose qc"] ∧
    ((embedMachine id).answerAfter Dict.empty [echo 0 ["sony wh", "bose qc"]]
      (echo 3600 ["bose qc", "jbl", "bose qc"])).batch = ["jbl"] :=
  ⟨(cache_transparent id [echo 0 ["sony wh", "bose qc"]] (echo 3600 ["bose qc", "jbl", "bose qc"])
    Function.injective_id.injOn).2.1 id (by simp [echo]), by decide +kernel⟩

end Runs

end DealFinder.Cache
