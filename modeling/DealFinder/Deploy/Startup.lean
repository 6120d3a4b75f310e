/-
# Starting the service

Cloud Run hands the latest version of the secret to the service as `DEALFINDER_SECRETS_JSON`, the
text `build_payload` made of it, and `load_secrets` spells it out into the environment, where a
variable that is set wins.

The text is read back as the object it was made of (`loads_payloadText`). So after any deploy
commands the service starts with what is stored, key by key (`starts_with_contents`).
-/

import DealFinder.Deploy.Commands
import DealFinder.Feeds.JsonWrite
import DealFinder.Math.Traverse

namespace DealFinder.Deploy.Startup

open DealFinder.Math DealFinder.Deploy.Secrets DealFinder.Deploy.Commands
open DealFinder.Feeds (Json quoteAscii asciiChar loads scanValue scanMembers scanString_quoted
  readChar_asciiChar scanValue_quoteAscii skipBlanks isBlank)
open DealFinder.Deploy.LoginRole (Ends)
open DealFinder.Deploy.Merges (storedObject storedObject_of_ends)

/-! ## The text of a version -/

/-- A member of an object, without a blank behind the colon. -/
def memberText (entry : String × String) : List Char :=
  quoteAscii entry.1.toList ++ ':' :: quoteAscii entry.2.toList

/-- The members behind the first, without a blank behind a comma. -/
def moreText : List (String × String) → List Char
  | [] => ['\x7d']
  | entry :: rest => ',' :: (memberText entry ++ moreText rest)

/-- `json.dumps` of an object of strings, with `separators=(",", ":")`. -/
def compactText : List (String × String) → List Char
  | [] => ['\x7b', '\x7d']
  | entry :: rest => '\x7b' :: (memberText entry ++ moreText rest)

/-- What `build_payload` returns for an object. -/
def payloadText (payload : Payload) : String := String.ofList (compactText payload.entries)

/-- The JSON value of an object of strings. -/
def asJson (entries : List (String × String)) : List (String × Json) :=
  entries.map fun entry => (entry.1, .str entry.2)

theorem skipBlanks_of_ne {c : Char} (h : isBlank c = false) (rest : List Char) :
    skipBlanks (c :: rest) = c :: rest :=
  List.dropWhile_cons_of_neg (by simp [h])

theorem memberText_eq (entry : String × String) (after : List Char) :
    memberText entry ++ after = '"' :: (entry.1.toList.flatMap asciiChar ++
      '"' :: ':' :: (quoteAscii entry.2.toList ++ after)) := by
  simp [memberText, quoteAscii]

theorem skipBlanks_memberText (entry : String × String) (after : List Char) :
    skipBlanks (memberText entry ++ after) = memberText entry ++ after := by
  rw [memberText_eq]
  exact skipBlanks_of_ne rfl _

theorem length_memberText (entry : String × String) :
    5 ≤ (memberText entry).length := by
  simp only [memberText, quoteAscii, List.length_append, List.length_cons]
  omega

/-- A member is read, and what follows it decides. -/
theorem scanMembers_member (entry : String × String) (after : List Char) (n : ℕ) :
    scanMembers (n + 2) (memberText entry ++ after) =
      if (skipBlanks after).head? = some '\x7d' then
        some ([(entry.1, .str entry.2)], (skipBlanks after).tail)
      else if (skipBlanks after).head? = some ',' then
        (scanMembers (n + 1) (skipBlanks (skipBlanks after).tail)).map fun (more, rest) =>
          ((entry.1, .str entry.2) :: more, rest)
      else none := by
  have hquote : skipBlanks (quoteAscii entry.2.toList ++ after) =
      quoteAscii entry.2.toList ++ after := skipBlanks_of_ne rfl _
  rw [memberText_eq, scanMembers, List.head?_cons, if_pos rfl, List.tail_cons,
    scanString_quoted readChar_asciiChar]
  have hcolon : skipBlanks (':' :: (quoteAscii entry.2.toList ++ after)) =
      ':' :: (quoteAscii entry.2.toList ++ after) := skipBlanks_of_ne rfl _
  simp only [Option.bind_eq_bind, Option.bind_some, hcolon, List.head?_cons, if_true,
    List.tail_cons, hquote, scanValue_quoteAscii, String.ofList_toList]

/-- The members are read with a bound that the text has room in. -/
theorem scanMembers_text (entry : String × String) (rest : List (String × String)) (n : ℕ)
    (hlength : (memberText entry ++ moreText rest).length ≤ n) :
    scanMembers n (memberText entry ++ moreText rest) = some (asJson (entry :: rest), []) := by
  induction rest generalizing entry n with
  | nil =>
      have hmember := length_memberText entry
      rw [List.length_append] at hlength
      obtain ⟨m, rfl⟩ : ∃ m, n = m + 2 := ⟨n - 2, by omega⟩
      rw [scanMembers_member]
      rfl
  | cons next rest ih =>
      have hmember := length_memberText entry
      rw [moreText, List.length_append, List.length_cons] at hlength
      obtain ⟨m, rfl⟩ : ∃ m, n = m + 2 := ⟨n - 2, by omega⟩
      have hcomma : skipBlanks (moreText (next :: rest)) =
          ',' :: (memberText next ++ moreText rest) := skipBlanks_of_ne rfl _
      rw [scanMembers_member, hcomma, List.head?_cons, if_neg (by decide), if_pos rfl,
        List.tail_cons, skipBlanks_memberText, ih next (m + 1) (by omega)]
      rfl

/-- **The round trip.** The text of a version is read as the object it was made of. -/
theorem loads_payloadText (payload : Payload) :
    loads (payloadText payload) = some (.obj (asJson payload.entries)) := by
  rw [loads, payloadText, String.toList_ofList]
  cases payload.entries with
  | nil => rfl
  | cons entry rest =>
      have hhead : (memberText entry ++ moreText rest).head? = some '"' := by
        rw [memberText_eq]
        rfl
      have hread := scanMembers_text entry rest _ (Nat.le_succ _)
      rw [compactText, skipBlanks_of_ne rfl, scanValue, List.length_cons]
      simp only [List.head?_cons, List.tail_cons, skipBlanks_memberText, hhead, hread]
      rfl

/-! ## The environment -/

/-- `os.environ`. -/
abbrev Environ := Dict String String

/-- What starting can raise. -/
inductive StartError
  | runtimeError (message : String)
  | valueError
  | osError

/-- `os.environ[key] = value`. No zero character is taken, and no name with an equals sign, nor an
empty one. -/
def setEnv (key value : String) : Effect Environ StartError Unit := fun environ =>
  if '\x00' ∈ key.toList ∨ '\x00' ∈ value.toList ∨ '=' ∈ key.toList then
    (.error .valueError, environ)
  else if key = "" then (.error .osError, environ)
  else (.ok (), environ.set key value)

/-- `os.environ.setdefault(key, value)`. -/
def setDefaultEnv (key value : String) : Effect Environ StartError Unit := fun environ =>
  if key ∈ environ then (.ok (), environ) else setEnv key value environ

/-- The loop over the members of a blob. -/
def setDefaults : List (String × String) → Effect Environ StartError Unit
  | [] => pure ()
  | (key, value) :: rest => do
      setDefaultEnv key value
      setDefaults rest

/-- The members of a blob, when it is an object of strings. -/
def blobOf : Json → Option (List (String × String))
  | .obj members =>
      (Dict.ofPairs members).entries.mapM fun member =>
        match member.2 with
        | .str s => some (member.1, s)
        | _ => none
  | _ => none

/-- `load_secrets`. -/
def loadSecrets : Effect Environ StartError Unit := fun environ =>
  match (environ.get? "DEALFINDER_SECRETS_JSON").filter (· ≠ "") with
  | none => (.ok (), environ)
  | some raw =>
      match (loads raw).bind blobOf with
      | none => (.error (.runtimeError "DEALFINDER_SECRETS_JSON is not a JSON object"), environ)
      | some members => setDefaults members environ

/-- A variable that can be set. -/
def Settable (entry : String × String) : Prop :=
  '\x00' ∉ entry.1.toList ∧ '\x00' ∉ entry.2.toList ∧ '=' ∉ entry.1.toList ∧ entry.1 ≠ ""

theorem payloadText_ne_empty (payload : Payload) : payloadText payload ≠ "" := by
  intro h
  have hchars : compactText payload.entries = [] := by
    rw [← String.toList_ofList (l := compactText payload.entries)]
    exact congrArg String.toList h
  cases hentries : payload.entries with
  | nil =>
      rw [hentries] at hchars
      cases hchars
  | cons entry rest =>
      rw [hentries] at hchars
      cases hchars

/-- What is read of a version is the object it was made of. -/
theorem blobOf_asJson (payload : Payload) :
    blobOf (.obj (asJson payload.entries)) = some payload.entries := by
  have hkeys : ((asJson payload.entries).map Prod.fst).Nodup := by
    rw [asJson, List.map_map]
    exact payload.nodup_keys
  rw [blobOf, Dict.entries_ofPairs hkeys, asJson, List.mapM_map]
  exact (mapM_of_read (h := id) fun _ _ => rfl).trans (congrArg some (List.map_id _))

section Expand

variable {environ : Environ}

theorem setDefaultEnv_of_mem {key : String} (value : String) (h : key ∈ environ) :
    setDefaultEnv key value environ = (.ok (), environ) := if_pos h

theorem setDefaultEnv_of_not_mem {key value : String} (h : key ∉ environ)
    (hsettable : Settable (key, value)) :
    setDefaultEnv key value environ = (.ok (), environ.set key value) := by
  obtain ⟨hkey, hvalue, hequals, hne⟩ := hsettable
  have hplain : ¬ ('\x00' ∈ key.toList ∨ '\x00' ∈ value.toList ∨ '=' ∈ key.toList) := by
    rintro (hmem | hmem | hmem)
    · exact hkey hmem
    · exact hvalue hmem
    · exact hequals hmem
  rw [setDefaultEnv, if_neg h, setEnv, if_neg hplain, if_neg hne]

/-- Settable variables are all set, but for those that were. -/
theorem setDefaults_of_settable (entries : List (String × String))
    (hkeys : (entries.map Prod.fst).Nodup) (h : ∀ entry ∈ entries, Settable entry)
    (environ : Environ) :
    ∃ after, setDefaults entries environ = (.ok (), after) ∧ ∀ key value,
      after.get? key = some value ↔ environ.get? key = some value ∨
        environ.get? key = none ∧ (key, value) ∈ entries := by
  induction entries generalizing environ with
  | nil => exact ⟨environ, rfl, fun key value => by simp⟩
  | cons entry rest ih =>
      obtain ⟨name, text⟩ := entry
      obtain ⟨hfirst, hrest⟩ := List.forall_mem_cons.1 h
      obtain ⟨hnot, hkeys⟩ := List.nodup_cons.1 hkeys
      by_cases hset : name ∈ environ
      · obtain ⟨after, hafter, hget⟩ := ih hkeys hrest environ
        refine ⟨after, ?_, fun key value => (hget key value).trans ?_⟩
        · rw [setDefaults, Effect.bind_of_ok (setDefaultEnv_of_mem text hset)]
          exact hafter
        · refine or_congr_right (and_congr_right fun hnone => ?_)
          rw [List.mem_cons, or_iff_right]
          intro heq
          obtain ⟨rfl, -⟩ := Prod.mk.inj heq
          exact Dict.get?_eq_none_iff.1 hnone hset
      · obtain ⟨after, hafter, hget⟩ := ih hkeys hrest (environ.set name text)
        refine ⟨after, ?_, fun key value => (hget key value).trans ?_⟩
        · rw [setDefaults, Effect.bind_of_ok (setDefaultEnv_of_not_mem hset hfirst)]
          exact hafter
        · rw [Dict.get?_set]
          by_cases hkey : key = name
          · subst hkey
            have hnone := Dict.get?_eq_none_iff.2 hset
            have hother : (key, value) ∉ rest := fun hmem =>
              hnot (List.mem_map.2 ⟨(key, value), hmem, rfl⟩)
            simp [hnone, hother, eq_comm]
          · simp [hkey]

/-- A tidy object without a zero character starts the service: each variable has what it had, or
what is in the object. -/
theorem loadSecrets_of_tidy {payload : Payload} (htidy : Tidy payload)
    (hzero : ∀ key value, payload.get? key = some value → '\x00' ∉ value.toList)
    (hraw : environ.get? "DEALFINDER_SECRETS_JSON" = some (payloadText payload)) :
    ∃ after, loadSecrets environ = (.ok (), after) ∧
      ∀ key, after.get? key = (environ.get? key).or (payload.get? key) := by
  have hsettable : ∀ entry ∈ payload.entries, Settable entry := by
    rintro ⟨key, value⟩ hentry
    have hget := Dict.get?_eq_some_iff.2 hentry
    have hnames : ∀ key ∈ keys, '\x00' ∉ key.toList ∧ '=' ∉ key.toList ∧ key ≠ "" := by decide
    obtain ⟨hname, hequals, hne⟩ := hnames key (htidy key value hget).1
    exact ⟨hname, hzero key value hget, hequals, hne⟩
  obtain ⟨after, hafter, hget⟩ := setDefaults_of_settable payload.entries payload.nodup_keys
    hsettable environ
  have hblob : (loads (payloadText payload)).bind blobOf = some payload.entries := by
    rw [loads_payloadText]
    exact blobOf_asJson payload
  have hraw' : (environ.get? "DEALFINDER_SECRETS_JSON").filter (· ≠ "") =
      some (payloadText payload) := by
    rw [hraw]
    exact Option.filter_eq_some_iff.2 ⟨rfl, decide_eq_true (payloadText_ne_empty payload)⟩
  refine ⟨after, ?_, fun key => ?_⟩
  · simp only [loadSecrets, hraw', hblob]
    exact hafter
  · ext value
    rw [hget, Option.or_eq_some_iff, @Dict.get?_eq_some_iff _ _ _ payload]

end Expand

/-- **What is deployed is what runs.** After any deploy commands on a tidy secret, a service that
is handed the latest version starts, and each of its variables has the value it was set to or else
the stored one: as long as no stored value has a zero character. -/
theorem starts_with_contents (wrangler : String → String) (start : Production)
    (commands : List Command) (hstart : Tidy (storedObject start.store)) (latest : Version)
    (hends : Ends ((production wrangler).run start commands).store latest)
    (environ : Environ)
    (hraw : environ.get? "DEALFINDER_SECRETS_JSON" = some (payloadText latest.payload))
    (hzero : ∀ key value,
      contents ((production wrangler).run start commands).store key = some value →
        '\x00' ∉ value.toList) :
    ∃ after, loadSecrets environ = (.ok (), after) ∧ ∀ key, after.get? key =
      (environ.get? key).or (contents ((production wrangler).run start commands).store key) := by
  have hstored := storedObject_of_ends hends
  have htidy : Tidy (storedObject ((production wrangler).run start commands).store) :=
    run_tidy hstart commands
  rw [hstored] at htidy
  rw [contents, hstored] at hzero ⊢
  exact loadSecrets_of_tidy htidy hzero hraw

/-- The version of the first push of a project. -/
def firstVersion : Version := ⟨1, .enabled, buildPayload (merged none (fun _ => "token") .empty)⟩

/-- That push. -/
def tokensPush : Command := .push none true (fun _ => "token") ⟨none, none, none, fun _ => none⟩

theorem starts_with_contents_first : ∃ after,
    loadSecrets (Dict.empty.set "DEALFINDER_SECRETS_JSON" (payloadText firstVersion.payload)) =
        (.ok (), after) ∧
      ∀ key, after.get? key =
        ((Dict.empty.set "DEALFINDER_SECRETS_JSON" (payloadText firstVersion.payload)).get? key).or
          (contents ((production trimEnd).run fresh [tokensPush]).store key) := by
  refine starts_with_contents trimEnd fresh [tokensPush] (fun _ _ h => by cases h) firstVersion
    ⟨[], rfl⟩ _ (Dict.get?_set_self ..) ?_
  intro key value hvalue
  have hmem : (key, value) ∈ firstVersion.payload.entries := Dict.get?_eq_some_iff.1 hvalue
  have hall : ∀ entry ∈ firstVersion.payload.entries, '\x00' ∉ entry.2.toList := by decide
  exact hall (key, value) hmem

end DealFinder.Deploy.Startup
