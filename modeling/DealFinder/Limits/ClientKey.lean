/-
# Who a request counts against

`client_key` counts a visitor by the IPv4 address, or by the /64 of an IPv6 address. An
IPv4-mapped IPv6 address is counted as any IPv6 address is, and all of these lie in one /64
(`onePerVisitor_iff`): behind a socket that takes both families, IPv4 visitors share one key.
-/

import DealFinder.Math.IpAddress
import Mathlib.Data.String.Basic

namespace DealFinder.Limits

open DealFinder.Math

/-! ## The key -/

/-- What a request says of its sender: the headers, their names in lowercase, and the socket's
address. -/
structure Sender where
  headers : List (String × String)
  client : Option String

/-- `bool(os.getenv("EDGE_SHARED_SECRET"))`. -/
def secretSet (secret : Option String) : Bool := secret.any fun s => s ≠ ""

/-- The address of a request, from the header of the edge or from the socket. -/
def clientIp (secret : Option String) (sender : Sender) : String :=
  let ip := if secretSet secret then sender.headers.lookup "cf-connecting-ip" else none
  match ip.filter fun s => s ≠ "" with
  | some ip => ip
  | none => sender.client.getD "unknown"

/-- `client_key`. It would raise if an address could not be read off its own text. -/
def clientKey (secret : Option String) (sender : Sender) : Option String :=
  let ip := clientIp secret sender
  match readIp ip.toList with
  | none => some ip
  | some (.v4 _) => some ip
  | some (.v6 addr) =>
      (readNetwork64 addr.text).map fun network => String.ofList (networkText network)

/-! ## Visitors -/

/-- Who is behind an address: an IPv4 address, or the subscriber of a /64. -/
inductive Visitor
  | v4 (octets : List ℕ)
  | subscriber (network : List ℕ)
  deriving DecidableEq

/-- The octets of the IPv4 address in an IPv4-mapped IPv6 address. -/
def mappedOctets : IpAddress → Option (List ℕ)
  | .v4 _ => none
  | .v6 a =>
      match a.hextets with
      | [0, 0, 0, 0, 0, 65535, g, h] => some [g / 256, g % 256, h / 256, h % 256]
      | _ => none

/-- The visitor of an address. -/
def visitor (a : IpAddress) : Visitor :=
  match mappedOctets a with
  | some octets => .v4 octets
  | none =>
      match a with
      | .v4 a => .v4 a.octets
      | .v6 a => .subscriber (a.hextets.take 4)

/-- One key for each visitor: two requests have the same key if and only if they come from the
same visitor, and without the secret no header changes a key. -/
structure OnePerVisitor (secret : Option String) (sender sender' : Sender) (a b : IpAddress) :
    Prop where
  same : clientKey secret sender = clientKey secret sender' ↔ visitor a = visitor b
  unforgeable : secretSet secret = false → ∀ headers,
    clientKey secret ⟨headers, sender.client⟩ = clientKey secret sender

/-- An address that is not mapped, and that is no visitor of an address that is: neither the IPv4
address itself, nor in the /64 of all mapped addresses. -/
def Outside (octets : List ℕ) : IpAddress → Prop
  | .v4 b => b.octets ≠ octets
  | .v6 b => ¬(b.hextets.take 4 = [0, 0, 0, 0] ∧ b.keptScope = none)

/-- Two addresses whose keys say whether they are one visitor: two mapped addresses only if they
map the same address, a mapped one and another only if the other is outside, and two IPv6 addresses
of one /64 only if they keep the same zone. -/
def ToldApart (a b : IpAddress) : Prop :=
  match mappedOctets a, mappedOctets b with
  | some x, some y => x = y
  | some x, none => Outside x b
  | none, some y => Outside y a
  | none, none =>
      match a, b with
      | .v6 a, .v6 b => a.hextets.take 4 = b.hextets.take 4 → a.keptScope = b.keptScope
      | _, _ => True

/-! ## Equal keys -/

/-- When the keys of two addresses are the same. -/
def SameKey : IpAddress → IpAddress → Prop
  | .v4 a, .v4 b => a = b
  | .v6 a, .v6 b => a.hextets.take 4 = b.hextets.take 4 ∧ a.keptScope = b.keptScope
  | _, _ => False

theorem readV4_of_readIp {text : List Char} {a : IPv4Address} (h : readIp text = some (.v4 a)) :
    readV4 text = some a := by
  rw [readIp] at h
  cases hv4 : readV4 text with
  | none =>
      rw [hv4] at h
      obtain ⟨b, -, hb⟩ := Option.map_eq_some_iff.1 h
      cases hb
  | some b =>
      rw [hv4] at h
      rw [IpAddress.v4.inj (Option.some_inj.1 h)]

section Key

variable {secret : Option String} {sender sender' : Sender} {a b : IpAddress}

theorem clientKey_v4 {a : IPv4Address} (h : readIp (clientIp secret sender).toList = some (.v4 a)) :
    clientKey secret sender = some (String.ofList a.text) := by
  have htext := text_of_readV4 (readV4_of_readIp h)
  rw [clientKey, h, htext, String.ofList_toList]

theorem clientKey_v6 {a : IPv6Address} (h : readIp (clientIp secret sender).toList = some (.v6 a)) :
    clientKey secret sender = some (String.ofList (networkText a.network64)) := by
  rw [clientKey, h]
  dsimp only
  rw [readNetwork64, readV6_text]
  rfl

/-- The keys of two addresses, both of which can be read. -/
theorem clientKey_eq_iff (ha : readIp (clientIp secret sender).toList = some a)
    (hb : readIp (clientIp secret sender').toList = some b) :
    clientKey secret sender = clientKey secret sender' ↔ SameKey a b := by
  have hfamilies : ∀ (x : IPv4Address) (y : IPv6Address), x.text ≠ networkText y.network64 := by
    intro x y heq
    have hcolon : ':' ∈ networkText y.network64 :=
      List.mem_append_left _ y.network64.colon_mem_text
    rw [← heq] at hcolon
    exact colon_not_mem_text x hcolon
  cases a with
  | v4 a =>
      rw [clientKey_v4 ha]
      cases b with
      | v4 b =>
          rw [clientKey_v4 hb, Option.some_inj, String.ofList_inj]
          constructor
          · intro htext
            have hread := readV4_of_readIp ha
            rw [← text_of_readV4 hread, htext, text_of_readV4 (readV4_of_readIp hb),
              readV4_of_readIp hb] at hread
            exact (Option.some_inj.1 hread).symm
          · intro heq
            rw [show a = b from heq]
      | v6 b =>
          rw [clientKey_v6 hb, Option.some_inj, String.ofList_inj]
          exact iff_of_false (hfamilies a b) id
  | v6 a =>
      rw [clientKey_v6 ha]
      cases b with
      | v4 b =>
          rw [clientKey_v4 hb, Option.some_inj, String.ofList_inj]
          exact iff_of_false (hfamilies b a).symm id
      | v6 b =>
          rw [clientKey_v6 hb, Option.some_inj, String.ofList_inj]
          constructor
          · intro htext
            exact IPv6Address.network64_eq_iff.1 (networkText_injective htext)
          · intro hsame
            rw [IPv6Address.network64_eq_iff.2 hsame]

/-- Without the secret no header is looked at. -/
theorem clientKey_headers (h : secretSet secret = false) (headers : List (String × String)) :
    clientKey secret ⟨headers, sender.client⟩ = clientKey secret sender := by
  have hip : clientIp secret ⟨headers, sender.client⟩ = clientIp secret sender := by
    rw [clientIp, clientIp, h]
    rfl
  rw [clientKey, clientKey, hip]

/-- A mapped address lies in the first of all /64, and keeps no zone. -/
theorem of_mappedOctets {a : IPv6Address} {octets : List ℕ}
    (h : mappedOctets (.v6 a) = some octets) :
    a.hextets.take 4 = [0, 0, 0, 0] ∧ a.keptScope = none := by
  rw [mappedOctets] at h
  split at h
  · rename_i g h' hhextets
    have hhost : a.hextets.drop 4 ≠ [0, 0, 0, 0] := by
      rw [hhextets]
      simp
    rw [IPv6Address.keptScope, if_neg hhost, hhextets]
    exact ⟨rfl, rfl⟩
  · cases h

theorem visitor_of_mapped {a : IpAddress} {octets : List ℕ} (h : mappedOctets a = some octets) :
    visitor a = .v4 octets := by
  rw [visitor.eq_def, h]

theorem visitor_v4 (a : IPv4Address) : visitor (.v4 a) = .v4 a.octets := rfl

theorem visitor_v6 {a : IPv6Address} (h : mappedOctets (.v6 a) = none) :
    visitor (.v6 a) = .subscriber (a.hextets.take 4) := by
  rw [visitor, h]

theorem SameKey.symm {a b : IpAddress} (h : SameKey a b) : SameKey b a := by
  cases a with
  | v4 a =>
      cases b with
      | v4 b => exact Eq.symm h
      | v6 b => exact h
  | v6 a =>
      cases b with
      | v4 b => exact h
      | v6 b => exact ⟨h.1.symm, h.2.symm⟩

/-- The key of a mapped address is that of any IPv6 address around it. -/
theorem sameKey_mapped {a : IPv6Address} {octets : List ℕ} (h : mappedOctets (.v6 a) = some octets)
    (hb : mappedOctets b = none) :
    (SameKey (.v6 a) b ↔ visitor (.v6 a) = visitor b) ↔ Outside octets b := by
  obtain ⟨hnetwork, hscope⟩ := of_mappedOctets h
  rw [visitor_of_mapped h]
  cases b with
  | v4 b =>
      rw [visitor_v4, Visitor.v4.injEq]
      constructor
      · intro hiff heq
        exact hiff.2 heq.symm
      · intro hne
        exact iff_of_false id fun heq => hne heq.symm
  | v6 b =>
      have hvisitors : Visitor.v4 octets ≠ visitor (.v6 b) := by
        rw [visitor_v6 hb]
        exact Visitor.noConfusion
      have hkeys : SameKey (.v6 a) (.v6 b) ↔
          b.hextets.take 4 = [0, 0, 0, 0] ∧ b.keptScope = none := by
        rw [SameKey, hnetwork, hscope, eq_comm, @eq_comm _ none]
      constructor
      · intro hiff hin
        exact hvisitors (hiff.1 (hkeys.2 hin))
      · intro hout
        exact iff_of_false (fun hkey => hout (hkeys.1 hkey)) hvisitors

/-- Two mapped addresses have one key. -/
theorem sameKey_of_mapped {a b : IPv6Address} {x y : List ℕ}
    (ha : mappedOctets (.v6 a) = some x) (hb : mappedOctets (.v6 b) = some y) :
    SameKey (.v6 a) (.v6 b) := by
  obtain ⟨hnetwork, hscope⟩ := of_mappedOctets ha
  obtain ⟨hnetwork', hscope'⟩ := of_mappedOctets hb
  exact ⟨hnetwork.trans hnetwork'.symm, hscope.trans hscope'.symm⟩

/-- Two addresses neither of which is mapped. -/
theorem sameKey_unmapped (ha : mappedOctets a = none) (hb : mappedOctets b = none) :
    (SameKey a b ↔ visitor a = visitor b) ↔ ToldApart a b := by
  cases a with
  | v4 a =>
      cases b with
      | v4 b =>
          rw [visitor_v4, visitor_v4, Visitor.v4.injEq]
          have hkeys : SameKey (.v4 a) (.v4 b) ↔ a.octets = b.octets := by
            rw [SameKey, IPv4Address.mk.injEq]
          exact iff_of_true hkeys trivial
      | v6 b =>
          rw [visitor_v4, visitor_v6 hb, ToldApart.eq_def, ha, hb]
          exact iff_of_true (iff_of_false id Visitor.noConfusion) trivial
  | v6 a =>
      cases b with
      | v4 b =>
          rw [visitor_v4, visitor_v6 ha, ToldApart.eq_def, ha, hb]
          exact iff_of_true (iff_of_false id Visitor.noConfusion) trivial
      | v6 b =>
          rw [visitor_v6 ha, visitor_v6 hb, ToldApart, ha, hb, Visitor.subscriber.injEq]
          exact and_iff_left_iff_imp

theorem sameKey_iff_visitor : (SameKey a b ↔ visitor a = visitor b) ↔ ToldApart a b := by
  cases ha : mappedOctets a with
  | none =>
      cases hb : mappedOctets b with
      | none => exact sameKey_unmapped ha hb
      | some y =>
          cases b with
          | v4 b => cases hb
          | v6 b =>
              rw [ToldApart.eq_def, ha, hb, @eq_comm _ (visitor a)]
              have hturn : SameKey a (.v6 b) ↔ SameKey (.v6 b) a :=
                ⟨SameKey.symm, SameKey.symm⟩
              rw [hturn]
              exact sameKey_mapped hb ha
  | some x =>
      cases a with
      | v4 a => cases ha
      | v6 a =>
          rw [ToldApart.eq_def, ha]
          cases hb : mappedOctets b with
          | none => exact sameKey_mapped ha hb
          | some y =>
              cases b with
              | v4 b => cases hb
              | v6 b =>
                  rw [visitor_of_mapped ha, visitor_of_mapped hb, Visitor.v4.injEq]
                  exact iff_true_left (sameKey_of_mapped ha hb)

/-- There is one key for each visitor exactly where two addresses are told apart. -/
theorem onePerVisitor_iff (ha : readIp (clientIp secret sender).toList = some a)
    (hb : readIp (clientIp secret sender').toList = some b) :
    OnePerVisitor secret sender sender' a b ↔ ToldApart a b := by
  have hkeys := clientKey_eq_iff ha hb
  constructor
  · intro h
    exact sameKey_iff_visitor.1 (hkeys.symm.trans h.same)
  · intro h
    exact ⟨hkeys.trans (sameKey_iff_visitor.2 h), clientKey_headers⟩

end Key

/-- Two subscribers have two keys. -/
theorem onePerVisitor_subscribers :
    OnePerVisitor none ⟨[], some "2001:db8::1"⟩ ⟨[], some "2001:db8:1::1"⟩
      (.v6 ⟨[8193, 3512, 0, 0, 0, 0, 0, 1], none, rfl, by decide, by simp⟩)
      (.v6 ⟨[8193, 3512, 1, 0, 0, 0, 0, 1], none, rfl, by decide, by simp⟩) := by
  have hread : readIp (clientIp none ⟨[], some "2001:db8::1"⟩).toList =
      some (.v6 ⟨[8193, 3512, 0, 0, 0, 0, 0, 1], none, rfl, by decide, by simp⟩) := by
    decide +kernel
  have hread' : readIp (clientIp none ⟨[], some "2001:db8:1::1"⟩).toList =
      some (.v6 ⟨[8193, 3512, 1, 0, 0, 0, 0, 1], none, rfl, by decide, by simp⟩) := by
    decide +kernel
  exact (onePerVisitor_iff hread hread').2 fun h => absurd h (by decide)

/-- Two IPv4 visitors of a socket of both families share one key. -/
theorem clientKey_dual_stack :
    ¬∀ (secret : Option String) (sender sender' : Sender) (a b : IpAddress),
      readIp (clientIp secret sender).toList = some a →
      readIp (clientIp secret sender').toList = some b →
      OnePerVisitor secret sender sender' a b := by
  intro hall
  have hread : readIp "::ffff:1.2.3.4".toList =
      some (.v6 ⟨[0, 0, 0, 0, 0, 65535, 258, 772], none, rfl, by decide, by simp⟩) := by
    decide +kernel
  have hread' : readIp "::ffff:5.6.7.8".toList =
      some (.v6 ⟨[0, 0, 0, 0, 0, 65535, 1286, 1800], none, rfl, by decide, by simp⟩) := by
    decide +kernel
  have hsame := (hall none ⟨[], some "::ffff:1.2.3.4"⟩ ⟨[], some "::ffff:5.6.7.8"⟩ _ _
    hread hread').same
  have hkey : clientKey none ⟨[], some "::ffff:1.2.3.4"⟩ =
      clientKey none ⟨[], some "::ffff:5.6.7.8"⟩ := by
    decide +kernel
  exact absurd (hsame.1 hkey) (by decide)

end DealFinder.Limits
