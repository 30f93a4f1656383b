import Buzz.Lib.Fence
import Buzz.Lib.Redis
import Buzz.Nostr.Event

namespace Buzz.Relay.Tunnel

open Buzz.Lib Buzz.Lib.Decimal Buzz.Lib.Hex Buzz.Nostr

abbrev SessionId := Uuid
abbrev RuntimeId := Fin (2 ^ 256)

inductive Profile
  | reliableStream
  | realtimeMedia
  | huddleControl
deriving DecidableEq, Repr

namespace Profile

def asWireStr : Profile → String
  | reliableStream => "reliable-stream"
  | realtimeMedia => "realtime-media"
  | huddleControl => "huddle-control"

def fromWire (value : String) : Option Profile :=
  if value = "reliable-stream" then some reliableStream
  else if value = "realtime-media" then some realtimeMedia
  else if value = "huddle-control" then some huddleControl
  else none

end Profile

/-- The fence every session-bearing mesh frame carries. -/
structure FencedHeader where
  sessionId : SessionId
  generation : UInt64
  ownerRuntimeId : RuntimeId
deriving DecidableEq, Repr

structure SessionLease where
  communityId : CommunityId
  sessionId : SessionId
  ownerRuntimeId : RuntimeId
  generation : UInt64
  profile : Profile
deriving DecidableEq, Repr

def SessionLease.fencedHeader (lease : SessionLease) : FencedHeader :=
  ⟨lease.sessionId, lease.generation, lease.ownerRuntimeId⟩

inductive AcquireResult
  | acquired (lease : SessionLease)
  | exists (lease : SessionLease)
deriving DecidableEq, Repr

inductive RenewResult
  | renewed (lease : SessionLease)
  | lost (current : Option SessionLease) (knownGeneration : Option UInt64)
deriving DecidableEq, Repr

inductive ReleaseResult
  | released (lease : SessionLease)
  | notOwner (current : Option SessionLease) (knownGeneration : Option UInt64)
deriving DecidableEq, Repr

inductive DirectoryError
  | redis (text : String)
  | malformedLease (communityId : CommunityId) (sessionId : SessionId) (value : String)
  | malformedGeneration (communityId : CommunityId) (sessionId : SessionId) (value : String)
  | unexpectedScriptStatus (status : String)
  | invalidLeaseTtl
  | panicked (message : String)
deriving DecidableEq, Repr

inductive MeshError
  | staleGeneration (sessionId : SessionId) (frameGeneration knownGeneration : UInt64)
  | noActiveLease (sessionId : SessionId) (frameGeneration knownGeneration : UInt64)
      (frameOwnerRuntimeId : RuntimeId)
  | ownerMismatch (sessionId : SessionId) (generation : UInt64)
      (frameOwnerRuntimeId currentOwnerRuntimeId : RuntimeId)
  | futureGeneration (sessionId : SessionId) (frameGeneration knownGeneration : UInt64)
  | transport (error : DirectoryError)
deriving DecidableEq, Repr

structure SessionKeys where
  lease : String
  generation : String

def keyBase (communityId : CommunityId) (sessionId : SessionId) : String :=
  "buzz:" ++ uuidToString communityId ++ ":tunnel:" ++ uuidToString sessionId

def SessionKeys.new (communityId : CommunityId) (sessionId : SessionId) : SessionKeys where
  lease := keyBase communityId sessionId ++ ":lease"
  generation := keyBase communityId sessionId ++ ":generation"

def leaseValue (owner : String) (generation : ℕ) (profile : String) : String :=
  owner ++ "|" ++ luaToString generation ++ "|" ++ profile

def matchLease (value : String) : Option (String × String × String) :=
  match value.toList.splitOn '|' with
  | [owner, generation, profile] =>
    if owner ≠ [] ∧ generation ≠ [] ∧ profile ≠ [] then
      some (String.ofList owner, String.ofList generation, String.ofList profile)
    else none
  | _ => none

abbrev ScriptReply := Except String (String × String × String)

def acquireScript (r : Redis) (keys : SessionKeys) (owner profile : String) (ttlMs : ℕ) :
    Redis × ScriptReply :=
  match r.get keys.lease with
  | some current => (r, .ok ("exists", current, (r.get keys.generation).getD ""))
  | none =>
    match r.incr keys.generation with
    | .error text => (r, .error text)
    | .ok (generation, r') =>
      let value := leaseValue owner generation.toNat profile
      match Redis.scriptInteger ttlMs with
      | none => (r', .error Redis.notAnInteger)
      | some ttl =>
        (r'.setPx keys.lease value ttl, .ok ("acquired", value, luaToString generation.toNat))

def renewScript (r : Redis) (keys : SessionKeys) (owner generation : String) (ttlMs : ℕ) :
    Redis × ScriptReply :=
  match r.get keys.lease with
  | none => (r, .ok ("missing", "", (r.get keys.generation).getD ""))
  | some current =>
    match matchLease current with
    | some (currentOwner, currentGeneration, _) =>
      if currentOwner = owner ∧ currentGeneration = generation then
        match Redis.scriptInteger ttlMs with
        | none => (r, .error Redis.notAnInteger)
        | some ttl =>
          let r' := r.pexpire keys.lease ttl
          (r', .ok ("renewed", current, (r'.get keys.generation).getD currentGeneration))
      else (r, .ok ("lost", current, (r.get keys.generation).getD currentGeneration))
    | none => (r, .ok ("lost", current, (r.get keys.generation).getD ""))

def releaseScript (r : Redis) (keys : SessionKeys) (owner generation : String) :
    Redis × ScriptReply :=
  match r.get keys.lease with
  | none => (r, .ok ("missing", "", (r.get keys.generation).getD ""))
  | some current =>
    match matchLease current with
    | some (currentOwner, currentGeneration, _) =>
      if currentOwner = owner ∧ currentGeneration = generation then
        let r' := r.del keys.lease
        (r', .ok ("released", current, (r'.get keys.generation).getD currentGeneration))
      else (r, .ok ("lost", current, (r.get keys.generation).getD currentGeneration))
    | none => (r, .ok ("lost", current, (r.get keys.generation).getD ""))

def maxGeneration (a b : UInt64) : UInt64 := if a < b then b else a

def validateScript (r : Redis) (keys : SessionKeys) : String × String :=
  ((r.get keys.lease).getD "", (r.get keys.generation).getD "")

section Parsing

variable (communityId : CommunityId) (sessionId : SessionId)

def parseLease (value : String) : Except DirectoryError SessionLease :=
  match value.toList.splitOn '|' with
  | [ownerHex, generation, profile] =>
    match parseU64 (String.ofList generation), Profile.fromWire (String.ofList profile),
        hexDecode (String.ofList ownerHex) with
    | some generation, some profile, some owner =>
      if generation = 0 then .error (.malformedLease communityId sessionId value)
      else .ok ⟨communityId, sessionId, owner, generation, profile⟩
    | _, _, _ => .error (.malformedLease communityId sessionId value)
  | _ => .error (.malformedLease communityId sessionId value)

def parseOptionalLease (value : String) : Except DirectoryError (Option SessionLease) :=
  if value = "" then .ok none else (parseLease communityId sessionId value).map some

def parseOptionalGeneration (value : String) : Except DirectoryError (Option UInt64) :=
  if value = "" then .ok none
  else
    match parseU64 value with
    | some generation =>
      if generation = 0 then .error (.malformedGeneration communityId sessionId value)
      else .ok (some generation)
    | none => .error (.malformedGeneration communityId sessionId value)

end Parsing

/-- The lease time-to-live in whole milliseconds, if Redis can hold it. -/
def ttlMs (leaseTtl : ℕ) : Except DirectoryError ℕ :=
  if 0 < leaseTtl ∧ leaseTtl < 2 ^ 63 then .ok leaseTtl else .error .invalidLeaseTtl

section Calls

variable (leaseTtl : ℕ) (r : Redis)

def acquire (communityId : CommunityId) (sessionId : SessionId) (ownerRuntimeId : RuntimeId)
    (profile : Profile) : Redis × Except DirectoryError AcquireResult :=
  match ttlMs leaseTtl with
  | .error e => (r, .error e)
  | .ok ttl =>
    let (r', reply) := acquireScript r (.new communityId sessionId) (hexEncode ownerRuntimeId)
      profile.asWireStr ttl
    (r', match reply with
      | .error text => .error (.redis text)
      | .ok (status, value, _) => do
        let lease ← parseLease communityId sessionId value
        if status = "acquired" then .ok (.acquired lease)
        else if status = "exists" then .ok (.exists lease)
        else .error (.unexpectedScriptStatus status))

def takeover := acquire leaseTtl r

def renew (lease : SessionLease) : Redis × Except DirectoryError RenewResult :=
  match ttlMs leaseTtl with
  | .error e => (r, .error e)
  | .ok ttl =>
    let (r', reply) := renewScript r (.new lease.communityId lease.sessionId)
      (hexEncode lease.ownerRuntimeId) (toString lease.generation.toNat) ttl
    (r', match reply with
      | .error text => .error (.redis text)
      | .ok (status, value, knownGeneration) => do
        let current ← parseOptionalLease lease.communityId lease.sessionId value
        if status = "renewed" then
          match current with
          | some current => .ok (.renewed current)
          | none => .error (.panicked "renewed returns lease")
        else if status = "missing" ∨ status = "lost" then
          let known ← parseOptionalGeneration lease.communityId lease.sessionId knownGeneration
          .ok (.lost current known)
        else .error (.unexpectedScriptStatus status))

def release (lease : SessionLease) : Redis × Except DirectoryError ReleaseResult :=
  let (r', reply) := releaseScript r (.new lease.communityId lease.sessionId)
    (hexEncode lease.ownerRuntimeId) (toString lease.generation.toNat)
  (r', match reply with
    | .error text => .error (.redis text)
    | .ok (status, value, knownGeneration) => do
      let current ← parseOptionalLease lease.communityId lease.sessionId value
      if status = "released" then
        match current with
        | some current => .ok (.released current)
        | none => .error (.panicked "released returns lease")
      else if status = "missing" ∨ status = "lost" then
        let known ← parseOptionalGeneration lease.communityId lease.sessionId knownGeneration
        .ok (.notOwner current known)
      else .error (.unexpectedScriptStatus status))

def lookup (communityId : CommunityId) (sessionId : SessionId) :
    Except DirectoryError (Option SessionLease) :=
  match r.get (SessionKeys.new communityId sessionId).lease with
  | none => .ok none
  | some value => (parseLease communityId sessionId value).map some

def validateFencedHeader (communityId : CommunityId) (fenced : FencedHeader) :
    Except MeshError Unit :=
  let (leaseText, generationText) := validateScript r (.new communityId fenced.sessionId)
  match parseOptionalGeneration communityId fenced.sessionId generationText with
  | .error e => .error (.transport e)
  | .ok knownFromCounter =>
    match parseOptionalLease communityId fenced.sessionId leaseText with
    | .error e => .error (.transport e)
    | .ok current =>
      let knownFromCounter := knownFromCounter.getD 0
      let known := maxGeneration ((current.map SessionLease.generation).getD knownFromCounter)
        knownFromCounter
      if known > 0 ∧ fenced.generation < known then
        .error (.staleGeneration fenced.sessionId fenced.generation known)
      else
        match current with
        | none => .error (.noActiveLease fenced.sessionId fenced.generation known
            fenced.ownerRuntimeId)
        | some current =>
          if fenced.generation ≠ current.generation then
            .error (.futureGeneration fenced.sessionId fenced.generation current.generation)
          else if fenced.ownerRuntimeId ≠ current.ownerRuntimeId then
            .error (.ownerMismatch fenced.sessionId fenced.generation fenced.ownerRuntimeId
              current.ownerRuntimeId)
          else .ok ()

end Calls

inductive StreamRole
  | control
  | session (fenced : FencedHeader) (profile : Profile)
deriving DecidableEq, Repr

structure StreamHello where
  sender : RuntimeId
  role : StreamRole
deriving DecidableEq, Repr

inductive ReliableStreamError
  | directory (error : DirectoryError)
  | mesh (error : MeshError)
  | profileMismatch (sessionId : SessionId) (expected actual : Profile)
  | senderMismatch (peer helloSender : RuntimeId)
  | unexpectedStreamRole
  | ownerIsNotLocal (sessionId : SessionId) (ownerRuntimeId localRuntimeId : RuntimeId)
deriving DecidableEq, Repr

inductive ReliableJoin
  | owned (lease : SessionLease)
  | forwarded (lease : SessionLease) (pinned : FencedHeader)
deriving DecidableEq, Repr

/-- `openSessionStream` is the transport's attempt to reach the owner. -/
def join (leaseTtl : ℕ) (localRuntimeId : RuntimeId)
    (openSessionStream : RuntimeId → StreamHello → Except MeshError Unit) (r : Redis)
    (communityId : CommunityId) (sessionId : SessionId) :
    Redis × Except ReliableStreamError ReliableJoin :=
  let (r', result) := acquire leaseTtl r communityId sessionId localRuntimeId .reliableStream
  (r', match result with
    | .error e => .error (.directory e)
    | .ok (.acquired lease) => .ok (.owned lease)
    | .ok (.exists lease) =>
      if lease.profile ≠ .reliableStream then
        .error (.profileMismatch sessionId .reliableStream lease.profile)
      else if lease.ownerRuntimeId = localRuntimeId then .ok (.owned lease)
      else
        match openSessionStream lease.ownerRuntimeId
            ⟨localRuntimeId, .session lease.fencedHeader .reliableStream⟩ with
        | .error e => .error (.mesh e)
        | .ok () => .ok (.forwarded lease lease.fencedHeader))

section Keys

theorem keyBase_injective {c c' : CommunityId} {s s' : SessionId}
    (h : keyBase c s = keyBase c' s') : c = c' ∧ s = s' := by
  have hlist := congrArg String.toList h
  simp only [keyBase, String.toList_append, List.append_assoc] at hlist
  have hrest := List.append_cancel_left hlist
  have hlength : (uuidToString c).toList.length = (uuidToString c').toList.length := by
    rw [length_uuidToString, length_uuidToString]
  obtain ⟨hc, hrest⟩ := List.append_inj hrest hlength
  have hs := List.append_cancel_left hrest
  exact ⟨uuidToString_injective (String.toList_injective hc),
    uuidToString_injective (String.toList_injective hs)⟩

theorem lease_key_injective {c c' : CommunityId} {s s' : SessionId}
    (h : (SessionKeys.new c s).lease = (SessionKeys.new c' s').lease) : c = c' ∧ s = s' := by
  have hlist := congrArg String.toList h
  simp only [SessionKeys.new, String.toList_append] at hlist
  exact keyBase_injective (String.toList_injective (List.append_cancel_right hlist))

theorem generation_key_injective {c c' : CommunityId} {s s' : SessionId}
    (h : (SessionKeys.new c s).generation = (SessionKeys.new c' s').generation) :
    c = c' ∧ s = s' := by
  have hlist := congrArg String.toList h
  simp only [SessionKeys.new, String.toList_append] at hlist
  exact keyBase_injective (String.toList_injective (List.append_cancel_right hlist))

theorem lease_key_ne_generation_key (c c' : CommunityId) (s s' : SessionId) :
    (SessionKeys.new c s).lease ≠ (SessionKeys.new c' s').generation := by
  intro h
  have hlast := congrArg (fun t : String ↦ t.toList.getLast?) h
  simp [SessionKeys.new] at hlast

end Keys

section LeaseValue

theorem fromWire_asWireStr (p : Profile) : Profile.fromWire p.asWireStr = some p := by
  cases p <;> rfl

theorem bar_not_mem_hexEncode (owner : RuntimeId) : '|' ∉ (hexEncode owner).toList := by
  rw [hexEncode, String.toList_ofList]
  intro h
  exact absurd (isLowerHexDigit_of_mem_hexDigits h) (by decide)

theorem bar_not_mem_luaToString (n : ℕ) : '|' ∉ (luaToString n).toList := by
  intro h
  rcases mem_luaToString h with h | h | h | h
  · exact absurd h (by decide)
  · exact absurd h (by decide)
  · exact absurd h (by decide)
  · exact absurd h (by decide)

theorem bar_not_mem_asWireStr (p : Profile) : '|' ∉ p.asWireStr.toList := by
  cases p <;> decide

theorem splitOn_leaseValue (owner : RuntimeId) (n : ℕ) (p : Profile) :
    (leaseValue (hexEncode owner) n p.asWireStr).toList.splitOn '|' =
      [(hexEncode owner).toList, (luaToString n).toList, p.asWireStr.toList] := by
  have hlist : (leaseValue (hexEncode owner) n p.asWireStr).toList =
      (hexEncode owner).toList ++ '|' :: ((luaToString n).toList ++ '|' :: p.asWireStr.toList) := by
    simp only [leaseValue, String.toList_append, List.append_assoc]
    rfl
  rw [hlist, List.splitOn_append_cons_self, List.splitOn_append_cons_self,
    List.splitOn_eq_singleton (bar_not_mem_hexEncode owner),
    List.splitOn_eq_singleton (bar_not_mem_luaToString n),
    List.splitOn_eq_singleton (bar_not_mem_asWireStr p)]
  rfl

theorem matchLease_leaseValue (owner : RuntimeId) (n : ℕ) (p : Profile) :
    matchLease (leaseValue (hexEncode owner) n p.asWireStr) =
      some (hexEncode owner, luaToString n, p.asWireStr) := by
  have howner : (hexEncode owner).toList ≠ [] := by
    rw [hexEncode, String.toList_ofList]
    exact List.ne_nil_of_length_pos (by rw [length_hexDigits]; omega)
  have hprofile : p.asWireStr.toList ≠ [] := by cases p <;> decide
  rw [matchLease, splitOn_leaseValue]
  simp only [String.ofList_toList]
  exact if_pos ⟨howner, luaToString_ne_nil n, hprofile⟩

theorem parseLease_leaseValue (c : CommunityId) (s : SessionId) (owner : RuntimeId) {n : ℕ}
    (hn : 0 < n) (p : Profile) :
    parseLease c s (leaseValue (hexEncode owner) n p.asWireStr) =
      if n < 10 ^ 14 then .ok ⟨c, s, owner, UInt64.ofNat n, p⟩
      else .error (.malformedLease c s (leaseValue (hexEncode owner) n p.asWireStr)) := by
  rw [parseLease, splitOn_leaseValue]
  simp only [String.ofList_toList, fromWire_asWireStr, hexDecode_hexEncode, parseU64_luaToString]
  by_cases h : n < 10 ^ 14
  · have hne : UInt64.ofNat n ≠ 0 := by
      intro hzero
      have hzero := congrArg UInt64.toNat hzero
      rw [UInt64.toNat_ofNat_of_lt' (lt_trans h (by decide)), UInt64.toNat_zero] at hzero
      omega
    simp only [if_pos h, if_neg hne]
  · simp only [if_neg h]

theorem parseLease_scope {c : CommunityId} {s : SessionId} {value : String} {lease : SessionLease}
    (h : parseLease c s value = .ok lease) : lease.communityId = c ∧ lease.sessionId = s := by
  unfold parseLease at h
  split at h
  · split at h
    · split at h
      · cases h
      · cases h
        exact ⟨rfl, rfl⟩
    · cases h
  · cases h

theorem leaseValue_ne_empty (owner : RuntimeId) (n : ℕ) (p : Profile) :
    leaseValue (hexEncode owner) n p.asWireStr ≠ "" := by
  intro h
  have hmatch := matchLease_leaseValue owner n p
  rw [h] at hmatch
  cases hmatch

end LeaseValue

section Refinement

abbrev Holder := RuntimeId × Profile

def Holder.value (g : Holder × ℕ) : String :=
  leaseValue (hexEncode g.1.1) g.2 g.1.2.asWireStr

/-- The two keys of a session store its fence: the counter, and the last grant or nothing. -/
structure Refines (r : Redis) (keys : SessionKeys) (f : Fence Holder) : Prop where
  counter_eq : r.entries keys.generation =
    if f.counter = 0 then none else some ⟨toString f.counter, none⟩
  lease_eq : ∀ e, r.entries keys.lease = some e →
    ∃ g, f.grants.head? = some g ∧ e.value = Holder.value g

def Tracks (r : Redis) (fences : CommunityId × SessionId → Fence Holder) : Prop :=
  ∀ k, Refines r (.new k.1 k.2) (fences k)

theorem Tracks.empty (now : ℕ) : Tracks (Redis.empty now) fun _ ↦ Fence.initial :=
  fun _ ↦ ⟨rfl, nofun⟩

variable {r r' : Redis} {keys : SessionKeys} {f : Fence Holder}

theorem Refines.get_lease (h : Refines r keys f) {value : String}
    (hget : r.get keys.lease = some value) :
    ∃ g, f.grants.head? = some g ∧ value = Holder.value g := by
  obtain ⟨deadline, he, _⟩ := Redis.get_eq_some_iff.mp hget
  exact h.lease_eq _ he

theorem Refines.get_generation (h : Refines r keys f) :
    r.get keys.generation = if f.counter = 0 then none else some (toString f.counter) := by
  have hcounter := h.counter_eq
  split
  · next hzero =>
    rw [if_pos hzero] at hcounter
    exact Redis.get_eq_none_of_absent hcounter
  · next hzero =>
    rw [if_neg hzero] at hcounter
    rw [Redis.get, Redis.live_of_persistent hcounter]
    rfl

theorem Refines.incr (h : Refines r keys f) {n : ℤ}
    (hincr : r.incr keys.generation = .ok (n, r')) :
    n = f.counter + 1 ∧
      r' = r.setEntry keys.generation (some ⟨toString (f.counter + 1), none⟩) := by
  have hcounter := h.counter_eq
  split at hcounter
  · next hzero =>
    rw [Redis.incr, Redis.live_eq_none_of_absent hcounter] at hincr
    obtain ⟨rfl, rfl⟩ := Prod.mk.inj (Except.ok.inj hincr)
    rw [hzero]
    exact ⟨rfl, rfl⟩
  · rw [Redis.incr, Redis.live_of_persistent hcounter] at hincr
    simp only [Redis.parseInteger_toString] at hincr
    by_cases hbound : f.counter < 2 ^ 63
    · simp only [if_pos hbound] at hincr
      split at hincr
      · cases hincr
      · obtain ⟨rfl, rfl⟩ := Prod.mk.inj (Except.ok.inj hincr)
        exact ⟨rfl, rfl⟩
    · simp only [if_neg hbound] at hincr
      cases hincr

/-- Writing the lease key of a session leaves the fences of all the others. -/
theorem Tracks.update {fences : CommunityId × SessionId → Fence Holder} (h : Tracks r fences)
    {k : CommunityId × SessionId} (hk : Refines r' (.new k.1 k.2) f)
    (hframe : ∀ key, key ≠ (SessionKeys.new k.1 k.2).lease →
      key ≠ (SessionKeys.new k.1 k.2).generation → r'.entries key = r.entries key) :
    Tracks r' (Function.update fences k f) := by
  intro k'
  by_cases hkk : k' = k
  · rw [hkk, Function.update_self]
    exact hk
  · rw [Function.update_of_ne hkk]
    have hne (h₁ : k'.1 = k.1 ∧ k'.2 = k.2) : False := hkk (Prod.ext h₁.1 h₁.2)
    have hlease : r'.entries (SessionKeys.new k'.1 k'.2).lease =
        r.entries (SessionKeys.new k'.1 k'.2).lease :=
      hframe _ (fun hkey ↦ hne (lease_key_injective hkey)) (lease_key_ne_generation_key _ _ _ _)
    have hgeneration : r'.entries (SessionKeys.new k'.1 k'.2).generation =
        r.entries (SessionKeys.new k'.1 k'.2).generation :=
      hframe _ (fun hkey ↦ lease_key_ne_generation_key _ _ _ _ hkey.symm)
        fun hkey ↦ hne (generation_key_injective hkey)
    exact ⟨hgeneration.trans (h k').counter_eq, fun e he ↦ (h k').lease_eq e (hlease ▸ he)⟩

/-- Losing entries, or moving the deadline of a lease, keeps the fences. -/
theorem Tracks.mono {fences : CommunityId × SessionId → Fence Holder} (h : Tracks r fences)
    (hgeneration : ∀ c s, r'.entries (SessionKeys.new c s).generation =
      r.entries (SessionKeys.new c s).generation)
    (hlease : ∀ c s e, r'.entries (SessionKeys.new c s).lease = some e →
      ∃ e', r.entries (SessionKeys.new c s).lease = some e' ∧ e'.value = e.value) :
    Tracks r' fences := by
  intro k
  refine ⟨(hgeneration k.1 k.2).trans (h k).counter_eq, fun e he ↦ ?_⟩
  obtain ⟨e', he', hvalue⟩ := hlease k.1 k.2 e he
  obtain ⟨g, hg, heq⟩ := (h k).lease_eq e' he'
  exact ⟨g, hg, hvalue ▸ heq⟩

end Refinement

end Buzz.Relay.Tunnel
