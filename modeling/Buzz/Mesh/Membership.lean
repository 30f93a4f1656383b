import Buzz.Mesh.Gossip

namespace Buzz.Mesh

open Buzz.Lib Buzz.Lib.AntiEntropy Buzz.Nostr
open Buzz.Relay.Tunnel (RuntimeId)

inductive ConnectionState
  | disconnected
  | connecting
  | connected
  | suspect
deriving DecidableEq, Repr

structure ReadyRecord where
  runtimeId : RuntimeId
  runtimePubkey : String
  relayPubkey : String
  relaySig : String
  endpointAddrs : List String
  protoVersion : UInt16
  capabilities : List String
deriving DecidableEq

abbrev VerifySchnorr := RuntimeId → (relayPubkey relaySig : String) → Except String Unit

def ReadyRecord.verifyAttestation (verify : VerifySchnorr) (r : ReadyRecord) :
    Except String Unit :=
  if r.runtimePubkey ≠ hexEncode r.runtimeId then
    .error ("ready registry runtime_id/runtime_pubkey mismatch: " ++ hexEncode r.runtimeId ++
      " != " ++ r.runtimePubkey)
  else verify r.runtimeId r.relayPubkey r.relaySig

inductive LocalChange
  | heartbeat
  | drain
deriving DecidableEq

namespace LocalChange

def apply : LocalChange → GossipRecord → GossipRecord
  | heartbeat, record => record
  | drain, record => { record with draining := true }

def bump (change : LocalChange) (now : Fin (2 ^ 64)) (record : GossipRecord) : GossipRecord :=
  let record := change.apply record
  { record with version := saturatingSucc record.version, heartbeatMillis := now }

theorem bump_runtimeId (change : LocalChange) (now : Fin (2 ^ 64)) (record : GossipRecord) :
    (change.bump now record).runtimeId = record.runtimeId := by
  cases change with
  | heartbeat => rfl
  | drain => rfl

theorem le_bump_version (change : LocalChange) (now : Fin (2 ^ 64)) (record : GossipRecord) :
    record.version ≤ (change.bump now record).version := by
  cases change with
  | heartbeat => exact le_saturatingSucc _
  | drain => exact le_saturatingSucc _

end LocalChange

structure PeerState where
  record : GossipRecord
  connectionState : ConnectionState
deriving DecidableEq

structure MeshMembership where
  localRuntimeId : RuntimeId
  localRecord : GossipRecord
  peers : Map RuntimeId PeerState
  draining : Bool
  foreignRelayRejections : UInt64
  expectedRelayPubkey : Option String

namespace MeshMembership

def new (localRecord : GossipRecord) : MeshMembership where
  localRuntimeId := localRecord.runtimeId
  localRecord := localRecord
  peers := ∅
  draining := false
  foreignRelayRejections := 0
  expectedRelayPubkey := none

def withExpectedRelayPubkey (m : MeshMembership) (pubkeyHex : String) : MeshMembership :=
  { m with expectedRelayPubkey := some pubkeyHex }

def applyGossipRecord (m : MeshMembership) (record : GossipRecord) : Bool × MeshMembership :=
  if record.runtimeId = m.localRuntimeId then (false, m)
  else
    match m.peers.lookup record.runtimeId with
    | some peer =>
      if record.version ≤ peer.record.version then (false, m)
      else (true, { m with
        peers := AList.insert record.runtimeId ⟨record, .connected⟩ m.peers })
    | none => (true, { m with
        peers := AList.insert record.runtimeId ⟨record, .connected⟩ m.peers })

def applyGossipRecords (m : MeshMembership) (records : List GossipRecord) : MeshMembership :=
  records.foldl (fun m record ↦ (m.applyGossipRecord record).2) m

def seedRecord (ready : ReadyRecord) (now : Fin (2 ^ 64)) : GossipRecord :=
  { GossipRecord.new ready.runtimeId ready.endpointAddrs ready.protoVersion now with
    capabilities := ready.capabilities }

def applyReadyRecord (verify : VerifySchnorr) (m : MeshMembership)
    (entry : ReadyRecord × Fin (2 ^ 64)) : MeshMembership :=
  let (ready, now) := entry
  if ready.runtimeId = m.localRuntimeId then m
  else if m.expectedRelayPubkey ≠ some ready.relayPubkey then
    { m with foreignRelayRejections := m.foreignRelayRejections + 1 }
  else
    match ready.verifyAttestation verify with
    | .error _ => m
    | .ok _ => (m.applyGossipRecord (seedRecord ready now)).2

def applyReadyRecords (verify : VerifySchnorr) (m : MeshMembership)
    (records : List (ReadyRecord × Fin (2 ^ 64))) : MeshMembership :=
  records.foldl (applyReadyRecord verify) m

def updateLocal (m : MeshMembership) (update : GossipRecord → GossipRecord)
    (now : Fin (2 ^ 64)) : GossipRecord × MeshMembership :=
  let record := update m.localRecord
  let record := { record with version := saturatingSucc record.version, heartbeatMillis := now }
  (record, { m with localRecord := record })

def beginDrain (m : MeshMembership) (now : Fin (2 ^ 64)) : MeshMembership :=
  ({ m with draining := true }.updateLocal (fun record ↦ { record with draining := true }) now).2

def localChange (m : MeshMembership) (change : LocalChange) (now : Fin (2 ^ 64)) :
    MeshMembership :=
  match change with
  | .heartbeat => (m.updateLocal (fun record ↦ record) now).2
  | .drain => m.beginDrain now

def hasPeer (m : MeshMembership) (runtimeId : RuntimeId) : Bool :=
  (m.peers.lookup runtimeId).isSome

def records (m : MeshMembership) : List GossipRecord :=
  m.peers.entries.map (fun e ↦ e.2.record) ++ [m.localRecord]

def digest (m : MeshMembership) : GossipMessage := digestOf m.records

def deltaFor (m : MeshMembership) (digest : List GossipDigestEntry) : GossipMessage :=
  deltaOf m.records digest

def get (m : MeshMembership) (k : RuntimeId) : Option GossipRecord :=
  if k = m.localRuntimeId then some m.localRecord
  else (m.peers.lookup k).map PeerState.record

structure WellFormed (m : MeshMembership) (runtimeId : RuntimeId) : Prop where
  id : m.localRuntimeId = runtimeId
  own : m.localRecord.runtimeId = runtimeId
  peer : ∀ k p, m.peers.lookup k = some p → p.record.runtimeId = k ∧ k ≠ runtimeId

variable {m : MeshMembership} {x k : RuntimeId} {record : GossipRecord}
  {records : List GossipRecord}

theorem WellFormed.get_self (h : m.WellFormed x) : m.get x = some m.localRecord := by
  rw [MeshMembership.get, if_pos h.id.symm]

theorem WellFormed.get_of_ne (h : m.WellFormed x) (hk : k ≠ x) :
    m.get k = (m.peers.lookup k).map PeerState.record := by
  rw [MeshMembership.get, h.id, if_neg hk]

theorem WellFormed.keyed (h : m.WellFormed x) : Keyed GossipRecord.runtimeId m.get := by
  intro k r hr
  by_cases hk : k = x
  · subst hk
    rw [h.get_self, Option.some.injEq] at hr
    rw [← hr, h.own]
  · rw [h.get_of_ne hk] at hr
    obtain ⟨p, hp, rfl⟩ := Option.map_eq_some_iff.mp hr
    exact (h.peer k p hp).1

theorem WellFormed.hasPeer_iff (h : m.WellFormed x) :
    m.hasPeer k = true ↔ k ≠ x ∧ (m.get k).isSome := by
  rw [hasPeer]
  by_cases hk : k = x
  · refine iff_of_false ?_ fun hne ↦ hne.1 hk
    intro hsome
    obtain ⟨p, hp⟩ := Option.isSome_iff_exists.mp hsome
    exact (h.peer k p hp).2 hk
  · rw [h.get_of_ne hk, Option.isSome_map]
    exact (and_iff_right hk).symm

theorem WellFormed.nodup_records (h : m.WellFormed x) :
    (m.records.map GossipRecord.runtimeId).Nodup := by
  have hkeys : (m.peers.entries.map fun e ↦ e.2.record).map GossipRecord.runtimeId =
      m.peers.entries.keys := by
    rw [List.map_map]
    exact List.map_congr_left fun e he ↦ (h.peer e.1 e.2 (Map.mem_entries_iff.mp he)).1
  rw [MeshMembership.records, List.map_append, hkeys]
  refine m.peers.nodupKeys.append (List.nodup_singleton _) ?_
  rw [List.map_singleton, List.disjoint_singleton, h.own]
  intro hmem
  obtain ⟨p, hp⟩ := List.mem_keys.mp hmem
  exact (h.peer x p (Map.mem_entries_iff.mp hp)).2 rfl

theorem WellFormed.mem_records (h : m.WellFormed x) :
    record ∈ m.records ↔ m.get record.runtimeId = some record := by
  rw [MeshMembership.records, List.mem_append, List.mem_singleton, List.mem_map]
  constructor
  · rintro (⟨e, he, rfl⟩ | rfl)
    · obtain ⟨hid, hne⟩ := h.peer e.1 e.2 (Map.mem_entries_iff.mp he)
      rw [hid, h.get_of_ne hne, Map.mem_entries_iff.mp he]
      rfl
    · rw [h.own, h.get_self]
  · intro hget
    by_cases hk : record.runtimeId = x
    · rw [hk, h.get_self, Option.some.injEq] at hget
      exact .inr hget.symm
    · rw [h.get_of_ne hk] at hget
      obtain ⟨p, hp, rfl⟩ := Option.map_eq_some_iff.mp hget
      exact .inl ⟨⟨_, p⟩, Map.mem_entries_iff.mpr hp, rfl⟩

/-- What a record may change: the peers, never the local record. -/
structure Applied (m m' : MeshMembership) (records : List GossipRecord) (x : RuntimeId) : Prop where
  wellFormed : m'.WellFormed x
  own : m'.localRecord = m.localRecord
  anchor : m'.expectedRelayPubkey = m.expectedRelayPubkey
  get : m'.get = absorbAll GossipRecord.runtimeId GossipRecord.version m.get
    (records.filter fun r ↦ r.runtimeId ≠ x)

theorem Applied.refl (h : m.WellFormed x) : Applied m m [] x := ⟨h, rfl, rfl, rfl⟩

theorem Applied.trans {m₁ m₂ : MeshMembership} {rs : List GossipRecord}
    (h : Applied m m₁ records x) (h' : Applied m₁ m₂ rs x) : Applied m m₂ (records ++ rs) x := by
  refine ⟨h'.wellFormed, h'.own.trans h.own, h'.anchor.trans h.anchor, ?_⟩
  rw [h'.get, h.get, List.filter_append, absorbAll_append]

theorem WellFormed.setPeer (h : m.WellFormed x) {p : PeerState} (hne : p.record.runtimeId ≠ x) :
    { m with peers := AList.insert p.record.runtimeId p m.peers }.WellFormed x := by
  refine ⟨h.id, h.own, fun k q hq ↦ ?_⟩
  rw [Map.lookup_insert_eq] at hq
  split at hq
  case isTrue hk =>
    cases hq
    exact ⟨hk.symm, hk ▸ hne⟩
  case isFalse => exact h.peer k q hq

theorem WellFormed.get_setPeer (h : m.WellFormed x) {p : PeerState}
    (hne : p.record.runtimeId ≠ x) :
    { m with peers := AList.insert p.record.runtimeId p m.peers }.get =
      Function.update m.get p.record.runtimeId (some p.record) := by
  funext k
  by_cases hk : k = x
  · rw [hk, (h.setPeer hne).get_self, Function.update_of_ne hne.symm, h.get_self]
  · rw [(h.setPeer hne).get_of_ne hk, Map.lookup_insert_eq, Function.update_apply]
    split
    · rfl
    · rw [h.get_of_ne hk]

theorem WellFormed.applyGossipRecord (h : m.WellFormed x) :
    Applied m (m.applyGossipRecord record).2 [record] x := by
  rw [MeshMembership.applyGossipRecord]
  by_cases hx : record.runtimeId = x
  · rw [if_pos (hx.trans h.id.symm)]
    refine ⟨h, rfl, rfl, ?_⟩
    rw [List.filter_cons_of_neg (by simp [hx]), List.filter_nil]
    rfl
  rw [if_neg (by rwa [h.id])]
  have hfilter : [record].filter (fun r ↦ r.runtimeId ≠ x) = [record] :=
    List.filter_cons_of_pos (by simpa using hx)
  have hget := h.get_of_ne hx
  have hset := @get_setPeer _ _ h ⟨record, .connected⟩ hx
  cases hp : m.peers.lookup record.runtimeId with
  | none =>
    rw [hp] at hget
    refine ⟨@setPeer _ _ h ⟨record, .connected⟩ hx, rfl, rfl, ?_⟩
    rw [hfilter]
    exact hset.trans (absorb_of_eq_none hget).symm
  | some peer =>
    rw [hp] at hget
    simp only
    by_cases hle : record.version ≤ peer.record.version
    · rw [if_pos hle]
      refine ⟨h, rfl, rfl, ?_⟩
      rw [hfilter]
      exact ((absorb_of_eq_some hget).trans (if_neg (not_lt.mpr hle))).symm
    · rw [if_neg hle]
      refine ⟨@setPeer _ _ h ⟨record, .connected⟩ hx, rfl, rfl, ?_⟩
      rw [hfilter]
      exact hset.trans ((absorb_of_eq_some hget).trans (if_pos (not_le.mp hle))).symm

theorem WellFormed.applyGossipRecords (h : m.WellFormed x) :
    Applied m (m.applyGossipRecords records) records x := by
  induction records using List.reverseRecOn with
  | nil => exact .refl h
  | append_singleton records record ih =>
    rw [MeshMembership.applyGossipRecords, List.foldl_append]
    exact ih.trans ih.wellFormed.applyGossipRecord

def admits (verify : VerifySchnorr) (m : MeshMembership) (ready : ReadyRecord) : Bool :=
  decide (ready.runtimeId ≠ m.localRuntimeId) &&
    decide (m.expectedRelayPubkey = some ready.relayPubkey) &&
    (ready.verifyAttestation verify).isOk

def seeds (verify : VerifySchnorr) (m : MeshMembership)
    (records : List (ReadyRecord × Fin (2 ^ 64))) : List GossipRecord :=
  (records.filter fun e ↦ m.admits verify e.1).map fun e ↦ seedRecord e.1 e.2

variable {verify : VerifySchnorr} {ready ready' : List (ReadyRecord × Fin (2 ^ 64))}

theorem seeds_append : m.seeds verify (ready ++ ready') =
    m.seeds verify ready ++ m.seeds verify ready' := by
  rw [seeds, List.filter_append, List.map_append, seeds, seeds]

theorem WellFormed.applyReadyRecord (h : m.WellFormed x) (verify : VerifySchnorr)
    (entry : ReadyRecord × Fin (2 ^ 64)) :
    Applied m (m.applyReadyRecord verify entry) (m.seeds verify [entry]) x := by
  obtain ⟨r, now⟩ := entry
  rw [MeshMembership.applyReadyRecord, seeds]
  have hout (hno : m.admits verify r = false) :
      [(r, now)].filter (fun e ↦ m.admits verify e.1) = [] :=
    List.filter_cons_of_neg (by simp [hno])
  split
  case isTrue hid =>
    rw [hout (by simp [admits, hid])]
    exact .refl h
  case isFalse hid =>
    split
    case isTrue hforeign =>
      rw [hout (by simp [admits, hforeign])]
      exact ⟨⟨h.id, h.own, h.peer⟩, rfl, rfl, rfl⟩
    case isFalse hours =>
      cases hv : r.verifyAttestation verify with
      | error _ =>
        rw [hout (by simp [admits, hv, Except.isOk, Except.toBool])]
        exact .refl h
      | ok _ =>
        have hin : m.admits verify r = true := by
          simp only [ne_eq, not_not] at hours
          simp [admits, hid, hours, hv, Except.isOk, Except.toBool]
        have hsingle : [(r, now)].filter (fun e ↦ m.admits verify e.1) = [(r, now)] :=
          List.filter_cons_of_pos hin
        rw [hsingle]
        exact h.applyGossipRecord

theorem seeds_congr {m' : MeshMembership} (hid : m'.localRuntimeId = m.localRuntimeId)
    (hanchor : m'.expectedRelayPubkey = m.expectedRelayPubkey) :
    m'.seeds verify ready = m.seeds verify ready := by
  rw [seeds, seeds]
  congr 2
  funext e
  rw [admits, admits, hid, hanchor]

theorem WellFormed.applyReadyRecords (h : m.WellFormed x) :
    Applied m (m.applyReadyRecords verify ready) (m.seeds verify ready) x := by
  induction ready using List.reverseRecOn with
  | nil => exact .refl h
  | append_singleton ready entry ih =>
    have hlast := ih.wellFormed.applyReadyRecord verify entry
    rw [seeds_congr (ih.wellFormed.id.trans h.id.symm) ih.anchor] at hlast
    rw [MeshMembership.applyReadyRecords, List.foldl_append, List.foldl_cons, List.foldl_nil,
      ← MeshMembership.applyReadyRecords, seeds_append]
    exact ih.trans hlast

structure Changed (m m' : MeshMembership) (record : GossipRecord) : Prop where
  id : m'.localRuntimeId = m.localRuntimeId
  own : m'.localRecord = record
  peers : m'.peers = m.peers
  anchor : m'.expectedRelayPubkey = m.expectedRelayPubkey

theorem localChange_frame (m : MeshMembership) (change : LocalChange) (now : Fin (2 ^ 64)) :
    m.Changed (m.localChange change now) (change.bump now m.localRecord) := by
  cases change with
  | heartbeat => exact ⟨rfl, rfl, rfl, rfl⟩
  | drain => exact ⟨rfl, rfl, rfl, rfl⟩

theorem WellFormed.localChange (h : m.WellFormed x) (change : LocalChange) (now : Fin (2 ^ 64)) :
    (m.localChange change now).WellFormed x := by
  have hframe := m.localChange_frame change now
  refine ⟨hframe.id.trans h.id, ?_, fun k p hp ↦ h.peer k p (hframe.peers ▸ hp)⟩
  rw [hframe.own, change.bump_runtimeId, h.own]

end MeshMembership

end Buzz.Mesh
