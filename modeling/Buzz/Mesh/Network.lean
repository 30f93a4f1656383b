import Buzz.Mesh.Membership

namespace Buzz.Mesh

open Buzz.Lib Buzz.Lib.AntiEntropy Buzz.Nostr
open Buzz.Relay.Tunnel (RuntimeId)

/-- A runtime that feeds what it receives to both tables; `links` are the peers with which it has
installed a connection. -/
structure MeshNode where
  membership : MeshMembership
  gossip : GossipState
  links : List RuntimeId

structure Boot where
  endpointAddrs : List String
  protoVersion : UInt16
  capabilities : List String
  now : Fin (2 ^ 64)
  relayPubkey : Option String

namespace MeshNode

def boot (runtimeId : RuntimeId) (b : Boot) : MeshNode :=
  let localRecord := { GossipRecord.new runtimeId b.endpointAddrs b.protoVersion b.now with
    capabilities := b.capabilities }
  let membership := MeshMembership.new localRecord
  { membership := match b.relayPubkey with
      | none => membership
      | some pubkeyHex => membership.withExpectedRelayPubkey pubkeyHex
    gossip := .new localRecord
    links := [] }

def localChange (n : MeshNode) (change : LocalChange) (now : Fin (2 ^ 64)) : MeshNode :=
  { n with
    membership := n.membership.localChange change now
    gossip := (n.gossip.updateLocal n.membership.localRuntimeId change.apply now).2 }

def applyReady (verify : VerifySchnorr) (n : MeshNode)
    (ready : List (ReadyRecord × Fin (2 ^ 64))) : MeshNode :=
  { n with
    membership := n.membership.applyReadyRecords verify ready
    gossip := (n.gossip.applyDelta (n.membership.seeds verify ready)).2 }

def applyDelta (n : MeshNode) (records : List GossipRecord) : MeshNode :=
  { n with
    membership := n.membership.applyGossipRecords records
    gossip := (n.gossip.applyDelta records).2 }

def link (n : MeshNode) (remote : RuntimeId) : MeshNode := { n with links := remote :: n.links }

end MeshNode

structure Frame where
  src : RuntimeId
  dst : RuntimeId
  message : GossipMessage
deriving DecidableEq

structure Network where
  nodes : RuntimeId → MeshNode
  sent : List Frame

/-- `deliver` hands over a frame that was sent, again or late or never. -/
inductive Op
  | change (node : RuntimeId) (change : LocalChange) (now : Fin (2 ^ 64))
  | tick (node : RuntimeId) (now : Fin (2 ^ 64))
  | rescan (node : RuntimeId) (ready : List (ReadyRecord × Fin (2 ^ 64)))
  | dial (node remote : RuntimeId)
  | accept (node remote : RuntimeId) (rescan : Option (List (ReadyRecord × Fin (2 ^ 64))))
  | deliver (frame : ℕ)

namespace Network

def boot (boots : RuntimeId → Boot) : Network :=
  ⟨fun runtimeId ↦ .boot runtimeId (boots runtimeId), []⟩

def set (m : Network) (runtimeId : RuntimeId) (n : MeshNode) (frames : List Frame) : Network :=
  ⟨Function.update m.nodes runtimeId n, m.sent ++ frames⟩

/-- The admission of an inbound connection: an unknown id gets one registry rescan. -/
def isKnownPeer (verify : VerifySchnorr) (n : MeshNode) (remote : RuntimeId)
    (rescan : Option (List (ReadyRecord × Fin (2 ^ 64)))) : Option (Bool × MeshNode) :=
  match n.membership.hasPeer remote, rescan with
  | true, none => some (true, n)
  | true, some _ => none
  | false, none => some (false, n)
  | false, some ready =>
    let n := n.applyReady verify ready
    some (n.membership.hasPeer remote, n)

def receive (m : Network) (f : Frame) : Network :=
  let n := m.nodes f.dst
  match decodeMessage f.message with
  | .error _ => m
  | .ok (.digest _ entries) => m.set f.dst n [⟨f.dst, f.src, n.membership.deltaFor entries⟩]
  | .ok (.delta _ records) => m.set f.dst (n.applyDelta records) []

def step (verify : VerifySchnorr) (m : Network) : Op → Option Network
  | .change x change now => some (m.set x ((m.nodes x).localChange change now) [])
  | .tick x now =>
    let n := (m.nodes x).localChange .heartbeat now
    some (m.set x n (n.links.map fun y ↦ ⟨x, y, n.membership.digest⟩))
  | .rescan x ready => some (m.set x ((m.nodes x).applyReady verify ready) [])
  | .dial x y =>
    let n := m.nodes x
    if n.membership.records.any fun record ↦
        decide (record.runtimeId = y) && decide (y ≠ n.membership.localRuntimeId) &&
          !record.draining then
      some (m.set x (n.link y) [])
    else none
  | .accept x y rescan => do
    let (known, n) ← isKnownPeer verify (m.nodes x) y rescan
    some (m.set x (if known then n.link y else n) [])
  | .deliver i => do
    let f ← m.sent[i]?
    if f.src ∈ (m.nodes f.dst).links then some (m.receive f) else none

def run (verify : VerifySchnorr) (m : Network) (ops : List Op) : Option Network :=
  ops.foldlM (step verify) m

end Network

namespace Op

def changeAt (z : RuntimeId) : Op → Option (LocalChange × Fin (2 ^ 64))
  | change x c now => if x = z then some (c, now) else none
  | tick x now => if x = z then some (.heartbeat, now) else none
  | _ => none

def ownAt (z : RuntimeId) (op : Op) (record : GossipRecord) : GossipRecord :=
  match op.changeAt z with
  | none => record
  | some (c, now) => c.bump now record

/-- A step by which `x` or `y` may come to know of something from elsewhere. -/
def Disturbs (m : Network) (x y : RuntimeId) : Op → Prop
  | change z _ _ => z = x ∨ z = y
  | tick z _ => z = x ∨ z = y
  | rescan z _ => z = x ∨ z = y
  | dial _ _ => False
  | accept z _ ready => ready.isSome ∧ (z = x ∨ z = y)
  | deliver i => ∃ f, m.sent[i]? = some f ∧ (f.dst = x ∨ f.dst = y) ∧ ¬(f.src = x ∨ f.src = y)

def presented : Op → List (RuntimeId × ReadyRecord)
  | rescan x ready => ready.map fun e ↦ (x, e.1)
  | accept x _ (some ready) => ready.map fun e ↦ (x, e.1)
  | _ => []

end Op

/-- Some node was shown a ready record of `k` that its relay's key attests. -/
def Attested (verify : VerifySchnorr) (boots : RuntimeId → Boot) (ops : List Op) (k : RuntimeId) :
    Prop :=
  ∃ op ∈ ops, ∃ e ∈ op.presented, e.2.runtimeId = k ∧
    (boots e.1).relayPubkey = some e.2.relayPubkey ∧ e.2.verifyAttestation verify = .ok ()

/-- What a table holds of each record. -/
abbrev Levels := RuntimeId → WithBot (Fin (2 ^ 64))

namespace MeshNode

def table (n : MeshNode) : Replica RuntimeId GossipRecord := n.membership.get

def own (n : MeshNode) : GossipRecord := n.membership.localRecord

def levels (n : MeshNode) : Levels := level GossipRecord.version n.table

structure Good (n : MeshNode) (x : RuntimeId) : Prop where
  wellFormed : n.membership.WellFormed x
  agree : n.gossip.get = n.table
  linked : ∀ y ∈ n.links, n.membership.hasPeer y = true

variable {n n' : MeshNode} {x k : RuntimeId} {records : List GossipRecord}

theorem Good.keyed (h : n.Good x) : Keyed GossipRecord.runtimeId n.table := h.wellFormed.keyed

theorem Good.table_self (h : n.Good x) : n.table x = some n.own := h.wellFormed.get_self

theorem Good.levels_self (h : n.Good x) : n.levels x = n.own.version :=
  level_of_eq_some h.table_self

theorem Good.hasPeer_iff (h : n.Good x) :
    n.membership.hasPeer k = true ↔ k ≠ x ∧ (n.table k).isSome := h.wellFormed.hasPeer_iff

theorem Good.gossip_keyed (h : n.Good x) : Keyed GossipRecord.runtimeId n.gossip.get := by
  rw [h.agree]
  exact h.keyed

theorem Good.perm_records (h : n.Good x) : n.gossip.values.Perm n.membership.records := by
  refine (List.perm_ext_iff_of_nodup ?_ ?_).mpr fun r ↦ ?_
  · exact (GossipState.nodup_keys_values h.gossip_keyed).of_map _
  · exact h.wellFormed.nodup_records.of_map _
  · rw [GossipState.mem_values h.gossip_keyed, h.wellFormed.mem_records, h.agree, table]

/-- The two implementations answer alike. -/
theorem Good.digest_eq (h : n.Good x) : n.gossip.digest = n.membership.digest :=
  digestOf_congr h.perm_records (GossipState.nodup_keys_values h.gossip_keyed)

theorem Good.deltaFor_eq (h : n.Good x) (digest : List GossipDigestEntry) :
    n.gossip.deltaFor digest = n.membership.deltaFor digest :=
  deltaOf_congr h.perm_records (GossipState.nodup_keys_values h.gossip_keyed)

structure Learns (n n' : MeshNode) (records : List GossipRecord) (x : RuntimeId) : Prop where
  good : n'.Good x
  own : n'.own = n.own
  anchor : n'.membership.expectedRelayPubkey = n.membership.expectedRelayPubkey
  links : n'.links = n.links
  table : n'.table = absorbAll GossipRecord.runtimeId GossipRecord.version n.table records

theorem Learns.levels_eq (h : n.Learns n' records x) :
    n'.levels = n.levels ⊔ offer GossipRecord.runtimeId GossipRecord.version records := by
  rw [levels, h.table]
  exact level_absorbAll

theorem Learns.levels_le (h : n.Learns n' records x) : n.levels ≤ n'.levels := by
  rw [h.levels_eq]
  exact le_sup_left

theorem Good.linked_of_le (h : n.Good x) (hw : n'.membership.WellFormed x)
    (hle : n.levels ≤ n'.levels) {y : RuntimeId} (hy : y ∈ n.links) :
    n'.membership.hasPeer y = true := by
  obtain ⟨hne, hsome⟩ := h.hasPeer_iff.mp (h.linked y hy)
  exact hw.hasPeer_iff.mpr ⟨hne, isSome_of_level_le (hle y) hsome⟩

theorem Good.learns {m : MeshMembership} {g : GossipState} (h : n.Good x)
    (happlied : n.membership.Applied m records x)
    (hown : ∀ r ∈ records, r.runtimeId = x → r.version ≤ n.own.version)
    (hgossip : g.get =
      absorbAll GossipRecord.runtimeId GossipRecord.version n.gossip.get records) :
    n.Learns { n with membership := m, gossip := g } records x := by
  have hstale : ∀ r ∈ records, decide (r.runtimeId ≠ x) = false →
      (r.version : WithBot (Fin (2 ^ 64))) ≤ n.levels r.runtimeId := by
    intro r hr hx
    have hid : r.runtimeId = x := by simpa using hx
    rw [hid, h.levels_self]
    exact WithBot.coe_le_coe.mpr (hown r hr hid)
  have htable : m.get =
      absorbAll GossipRecord.runtimeId GossipRecord.version n.membership.get records := by
    rw [happlied.get]
    exact absorbAll_filter hstale
  have hle : n.levels ≤ level GossipRecord.version m.get := by
    rw [htable]
    exact level_le_absorbAll
  refine ⟨⟨happlied.wellFormed, ?_, fun y ↦ ?_⟩, happlied.own, happlied.anchor, rfl, htable⟩
  · rw [hgossip, h.agree]
    exact htable.symm
  · exact @linked_of_le _ { n with membership := m, gossip := g } _ h happlied.wellFormed hle y

theorem Good.applyDelta (h : n.Good x)
    (hown : ∀ r ∈ records, r.runtimeId = x → r.version ≤ n.own.version) :
    n.Learns (n.applyDelta records) records x :=
  h.learns h.wellFormed.applyGossipRecords hown GossipState.get_applyDelta

theorem Good.applyReady (h : n.Good x) (verify : VerifySchnorr)
    (ready : List (ReadyRecord × Fin (2 ^ 64))) :
    n.Learns (n.applyReady verify ready) (n.membership.seeds verify ready) x := by
  refine h.learns h.wellFormed.applyReadyRecords ?_ GossipState.get_applyDelta
  intro r hr hid
  obtain ⟨e, he, rfl⟩ := List.mem_map.mp hr
  have hadmits := (List.mem_filter.mp he).2
  simp only [MeshMembership.admits, h.wellFormed.id, Bool.and_eq_true, decide_eq_true_eq]
    at hadmits
  exact absurd hid hadmits.1.1

theorem Good.localChange (h : n.Good x) (change : LocalChange) (now : Fin (2 ^ 64)) :
    (n.localChange change now).Good x ∧
      (n.localChange change now).own = change.bump now n.own ∧
      ∀ k, (n.localChange change now).table k =
        if k = x then some (change.bump now n.own) else n.table k := by
  have hframe := n.membership.localChange_frame change now
  have hwell := h.wellFormed.localChange change now
  have hown : (n.localChange change now).own = change.bump now n.own := hframe.own
  have htable (k : RuntimeId) : (n.localChange change now).table k =
      if k = x then some (change.bump now n.own) else n.table k := by
    by_cases hk : k = x
    · rw [if_pos hk, hk, ← hown]
      exact hwell.get_self
    · rw [if_neg hk, table, table, h.wellFormed.get_of_ne hk]
      refine (hwell.get_of_ne hk).trans ?_
      exact congrArg (fun peers : Map RuntimeId PeerState ↦
        (peers.lookup k).map PeerState.record) hframe.peers
  refine ⟨⟨hwell, funext fun k ↦ ?_, fun y hy ↦ ?_⟩, hown, htable⟩
  · have hself : n.gossip.get n.membership.localRuntimeId = some n.own := by
      rw [h.agree, h.wellFormed.id, h.table_self]
    rw [htable, MeshNode.localChange, GossipState.get_updateLocal hself, h.wellFormed.id, h.agree]
    rfl
  · rw [MeshMembership.hasPeer, MeshNode.localChange, hframe.peers]
    exact h.linked y hy

theorem Good.link (h : n.Good x) {y : RuntimeId} (hy : n.membership.hasPeer y = true) :
    (n.link y).Good x :=
  ⟨h.wellFormed, h.agree, fun _ hz ↦ (List.mem_cons.mp hz).elim (fun heq ↦ heq ▸ hy) (h.linked _)⟩

theorem boot_own (x : RuntimeId) (b : Boot) : (boot x b).own =
    { GossipRecord.new x b.endpointAddrs b.protoVersion b.now with
      capabilities := b.capabilities } := by
  rw [boot, own]
  cases b.relayPubkey with
  | none => rfl
  | some pubkeyHex => rfl

theorem boot_peers (x : RuntimeId) (b : Boot) : (boot x b).membership.peers = ∅ := by
  rw [boot]
  cases b.relayPubkey with
  | none => rfl
  | some pubkeyHex => rfl

theorem boot_localRuntimeId (x : RuntimeId) (b : Boot) :
    (boot x b).membership.localRuntimeId = x := by
  rw [boot]
  cases b.relayPubkey with
  | none => rfl
  | some pubkeyHex => rfl

theorem boot_expectedRelayPubkey (x : RuntimeId) (b : Boot) :
    (boot x b).membership.expectedRelayPubkey = b.relayPubkey := by
  rw [boot]
  cases h : b.relayPubkey with
  | none => rfl
  | some pubkeyHex => rfl

theorem Good.boot (x : RuntimeId) (b : Boot) : (boot x b).Good x := by
  have hwell : (MeshNode.boot x b).membership.WellFormed x := by
    refine ⟨boot_localRuntimeId x b, ?_, fun k p hp ↦ ?_⟩
    · exact congrArg GossipRecord.runtimeId (boot_own x b)
    · rw [boot_peers] at hp
      cases hp
  refine ⟨hwell, funext fun k ↦ ?_, fun y hy ↦ nomatch hy⟩
  rw [MeshNode.boot, GossipState.get_new, ← MeshNode.boot]
  split
  case isTrue hk =>
    rw [hk]
    exact (congrArg some (boot_own x b)).symm.trans hwell.get_self.symm
  case isFalse hk => rw [table, hwell.get_of_ne hk, boot_peers]; rfl

end MeshNode

/-- A message tells of nothing newer than `d`. -/
def Reports (d : Levels) : GossipMessage → Prop
  | .digest v entries => v = gossipPayloadVersion ∧
      ∀ e ∈ entries, (e.version : WithBot (Fin (2 ^ 64))) ≤ d e.runtimeId
  | .delta v records => v = gossipPayloadVersion ∧
      ∀ r ∈ records, (r.version : WithBot (Fin (2 ^ 64))) ≤ d r.runtimeId

theorem Reports.mono {d d' : Levels} {message : GossipMessage} (h : Reports d message)
    (hle : d ≤ d') : Reports d' message := by
  cases message with
  | digest v entries => exact ⟨h.1, fun e he ↦ (h.2 e he).trans (hle _)⟩
  | delta v records => exact ⟨h.1, fun r hr ↦ (h.2 r hr).trans (hle _)⟩

theorem Reports.decodeMessage {d : Levels} {message : GossipMessage} (h : Reports d message) :
    decodeMessage message = .ok message := by
  cases message with
  | digest v entries => exact if_neg (not_not.mpr h.1)
  | delta v records => exact if_neg (not_not.mpr h.1)

theorem Attested.append {verify : VerifySchnorr} {boots : RuntimeId → Boot} {ops : List Op}
    {op : Op} {k : RuntimeId} (h : Attested verify boots ops k) :
    Attested verify boots (ops ++ [op]) k := by
  obtain ⟨op', hop', he⟩ := h
  exact ⟨op', List.mem_append_left _ hop', he⟩

namespace MeshNode.Good

variable {n : MeshNode} {x : RuntimeId}

theorem reports_digest (h : n.Good x) : Reports n.levels n.membership.digest := by
  refine ⟨rfl, fun e he ↦ ?_⟩
  obtain ⟨r, hr, rfl⟩ := (mem_of_digestOf rfl).mp he
  have hlevel : n.levels r.runtimeId = r.version :=
    level_of_eq_some (h.wellFormed.mem_records.mp hr)
  exact hlevel.ge

theorem isDelta_deltaFor (h : n.Good x) (digest : List GossipDigestEntry) :
    ∃ rs, n.membership.deltaFor digest = .delta gossipPayloadVersion rs ∧
      IsDelta GossipRecord.runtimeId GossipRecord.version n.table (reported digest) rs :=
  deltaOf_spec fun _ ↦ h.wellFormed.mem_records

theorem reports_deltaFor (h : n.Good x) (digest : List GossipDigestEntry) :
    Reports n.levels (n.membership.deltaFor digest) := by
  obtain ⟨rs, hrs, hdelta⟩ := h.isDelta_deltaFor digest
  rw [hrs]
  refine ⟨rfl, fun r hr ↦ ?_⟩
  have hlevel : n.levels r.runtimeId = r.version := level_of_eq_some ((hdelta r).mp hr).1
  exact hlevel.ge

end MeshNode.Good

namespace Network

variable {verify : VerifySchnorr} {boots : RuntimeId → Boot} {ops : List Op} {op : Op}
  {m m' : Network} {x y k : RuntimeId} {n' : MeshNode} {frames : List Frame}

def levels (m : Network) (x : RuntimeId) : Levels := (m.nodes x).levels

structure Inv (verify : VerifySchnorr) (boots : RuntimeId → Boot) (ops : List Op) (m : Network) :
    Prop where
  good : ∀ x, (m.nodes x).Good x
  anchor : ∀ x, (m.nodes x).membership.expectedRelayPubkey = (boots x).relayPubkey
  bounded : ∀ x k, m.levels x k ≤ m.levels k k
  started : ∀ x, ((1 : Fin (2 ^ 64)) : WithBot (Fin (2 ^ 64))) ≤ m.levels x x
  linked : ∀ f ∈ m.sent, f.dst ∈ (m.nodes f.src).links
  reports : ∀ f ∈ m.sent, Reports (m.levels f.src) f.message
  attested : ∀ x k, (m.nodes x).membership.hasPeer k = true → Attested verify boots ops k

structure Turn (verify : VerifySchnorr) (boots : RuntimeId → Boot) (ops : List Op) (op : Op)
    (m : Network) (x : RuntimeId) (n' : MeshNode) (frames : List Frame) : Prop where
  good : n'.Good x
  anchor : n'.membership.expectedRelayPubkey = (m.nodes x).membership.expectedRelayPubkey
  links : ∀ y ∈ (m.nodes x).links, y ∈ n'.links
  rises : m.levels x ≤ n'.levels
  bounded : ∀ k, k ≠ x → n'.levels k ≤ m.levels k k
  sends : ∀ f ∈ frames, f.src = x ∧ f.dst ∈ n'.links ∧ Reports n'.levels f.message
  attested : ∀ k, n'.membership.hasPeer k = true → Attested verify boots (ops ++ [op]) k
  own : n'.own = op.ownAt x (m.nodes x).own
  elsewhere : ∀ z, z ≠ x → op.changeAt z = none

theorem nodes_set_self : (m.set x n' frames).nodes x = n' := Function.update_self ..

theorem nodes_set_of_ne (h : y ≠ x) : (m.set x n' frames).nodes y = m.nodes y :=
  Function.update_of_ne h ..

theorem levels_set_self : (m.set x n' frames).levels x = n'.levels := by
  rw [levels, nodes_set_self]

theorem levels_set_of_ne (h : y ≠ x) : (m.set x n' frames).levels y = m.levels y := by
  rw [levels, nodes_set_of_ne h, levels]

theorem Turn.levels_le (h : Turn verify boots ops op m x n' frames) (y : RuntimeId) :
    m.levels y ≤ (m.set x n' frames).levels y := by
  by_cases hy : y = x
  · rw [hy, levels_set_self]
    exact h.rises
  · rw [levels_set_of_ne hy]

theorem Turn.links_mono (h : Turn verify boots ops op m x n' frames)
    (hk : k ∈ (m.nodes y).links) : k ∈ ((m.set x n' frames).nodes y).links := by
  by_cases hy : y = x
  · subst hy
    rw [nodes_set_self]
    exact h.links k hk
  · rwa [nodes_set_of_ne hy]

theorem Inv.turn (h : m.Inv verify boots ops) (ht : Turn verify boots ops op m x n' frames) :
    (m.set x n' frames).Inv verify boots (ops ++ [op]) := by
  refine ⟨?_, ?_, ?_, fun y ↦ (h.started y).trans (ht.levels_le y y), ?_, ?_, ?_⟩
  · intro y
    by_cases hy : y = x
    · rw [hy, nodes_set_self]
      exact ht.good
    · rw [nodes_set_of_ne hy]
      exact h.good y
  · intro y
    by_cases hy : y = x
    · rw [hy, nodes_set_self, ht.anchor]
      exact h.anchor x
    · rw [nodes_set_of_ne hy]
      exact h.anchor y
  · intro y k
    by_cases hyk : y = k
    · rw [hyk]
    refine le_trans ?_ (ht.levels_le k k)
    by_cases hy : y = x
    · rw [hy, levels_set_self]
      exact ht.bounded k fun hk ↦ hyk (hy.trans hk.symm)
    · rw [levels_set_of_ne hy]
      exact h.bounded y k
  · intro f hf
    rcases List.mem_append.mp hf with hf | hf
    · exact ht.links_mono (h.linked f hf)
    · obtain ⟨hsrc, hdst, -⟩ := ht.sends f hf
      rw [hsrc, nodes_set_self]
      exact hdst
  · intro f hf
    rcases List.mem_append.mp hf with hf | hf
    · exact (h.reports f hf).mono (ht.levels_le f.src)
    · obtain ⟨hsrc, -, hreports⟩ := ht.sends f hf
      rw [hsrc, levels_set_self]
      exact hreports
  · intro y k hk
    by_cases hy : y = x
    · rw [hy, nodes_set_self] at hk
      exact ht.attested k hk
    · rw [nodes_set_of_ne hy] at hk
      exact Attested.append (h.attested y k hk)

/-- A node that does nothing. -/
theorem Inv.idle (h : m.Inv verify boots ops) (x : RuntimeId) (hop : ∀ z, op.changeAt z = none) :
    Turn verify boots ops op m x (m.nodes x) [] where
  good := h.good x
  anchor := rfl
  links _ hy := hy
  rises := le_rfl
  bounded k _ := h.bounded x k
  sends _ hf := nomatch hf
  attested k hk := Attested.append (h.attested x k hk)
  own := by rw [Op.ownAt, hop]
  elsewhere z _ := hop z

/-- A node that takes in records which their owners know of. -/
theorem Inv.learns (h : m.Inv verify boots ops) {records : List GossipRecord}
    (hlearns : (m.nodes x).Learns n' records x) (hop : ∀ z, op.changeAt z = none)
    (hbounded : ∀ r ∈ records, r.runtimeId ≠ x → r.version ≤ m.levels r.runtimeId r.runtimeId)
    (hattested : ∀ r ∈ records, r.runtimeId ≠ x →
      Attested verify boots (ops ++ [op]) r.runtimeId) :
    Turn verify boots ops op m x n' [] := by
  have horigin {k : RuntimeId} {r : GossipRecord} (hr : n'.table k = some r) :
      (m.nodes x).table k = some r ∨ r ∈ records ∧ r.runtimeId = k := by
    have hkey := hlearns.good.keyed k r hr
    rw [hlearns.table] at hr
    exact (absorbAll_eq_some hr).imp_right fun hmem ↦ ⟨hmem, hkey⟩
  refine ⟨hlearns.good, hlearns.anchor, fun y hy ↦ hlearns.links ▸ hy, hlearns.levels_le, ?_,
    (fun _ hf ↦ by cases hf), ?_, ?_, fun z _ ↦ hop z⟩
  · intro k hk
    cases hr : n'.table k with
    | none =>
      rw [MeshNode.levels, level_of_eq_none hr]
      exact bot_le
    | some r =>
      rw [MeshNode.levels, level_of_eq_some hr]
      rcases horigin hr with hold | ⟨hmem, rfl⟩
      · exact (level_of_eq_some hold).ge.trans (h.bounded x k)
      · exact hbounded r hmem hk
  · intro k hk
    obtain ⟨hne, hsome⟩ := hlearns.good.hasPeer_iff.mp hk
    obtain ⟨r, hr⟩ := Option.isSome_iff_exists.mp hsome
    rcases horigin hr with hold | ⟨hmem, rfl⟩
    · have hpeer : (m.nodes x).membership.hasPeer k = true :=
        (h.good x).hasPeer_iff.mpr ⟨hne, Option.isSome_iff_exists.mpr ⟨r, hold⟩⟩
      exact Attested.append (h.attested x k hpeer)
    · exact hattested r hmem hne
  · rw [Op.ownAt, hop]
    exact hlearns.own

theorem Inv.rescans (h : m.Inv verify boots ops) (x : RuntimeId)
    {ready : List (ReadyRecord × Fin (2 ^ 64))} (hop : ∀ z, op.changeAt z = none)
    (hpresented : op.presented = ready.map fun e ↦ (x, e.1)) :
    Turn verify boots ops op m x ((m.nodes x).applyReady verify ready) [] := by
  refine h.learns ((h.good x).applyReady verify ready) hop ?_ ?_
  · intro r hr _
    obtain ⟨e, -, rfl⟩ := List.mem_map.mp hr
    exact h.started _
  · intro r hr _
    obtain ⟨e, he, rfl⟩ := List.mem_map.mp hr
    obtain ⟨he, hadmits⟩ := List.mem_filter.mp he
    simp only [MeshMembership.admits, h.anchor, Bool.and_eq_true, decide_eq_true_eq] at hadmits
    refine ⟨op, List.mem_append_right _ List.mem_cons_self, (x, e.1), ?_, rfl, hadmits.1.2, ?_⟩
    · rw [hpresented]
      exact List.mem_map_of_mem he
    · cases hv : e.1.verifyAttestation verify with
      | error _ =>
        rw [hv] at hadmits
        exact absurd hadmits.2 Bool.false_ne_true
      | ok _ => rfl

theorem Inv.delta_bounded (h : m.Inv verify boots ops) {f : Frame} (hf : f ∈ m.sent) {v : UInt8}
    {records : List GossipRecord} (hmessage : f.message = .delta v records) {r : GossipRecord}
    (hr : r ∈ records) : (r.version : WithBot (Fin (2 ^ 64))) ≤ m.levels f.src r.runtimeId := by
  have hreports : Reports (m.levels f.src) (.delta v records) := hmessage ▸ h.reports f hf
  exact hreports.2 r hr

theorem Inv.learns_delta (h : m.Inv verify boots ops) {f : Frame} (hf : f ∈ m.sent) {v : UInt8}
    {records : List GossipRecord} (hmessage : f.message = .delta v records) :
    (m.nodes f.dst).Learns ((m.nodes f.dst).applyDelta records) records f.dst := by
  refine (h.good f.dst).applyDelta fun r hr hid ↦ ?_
  have hle := (h.delta_bounded hf hmessage hr).trans (h.bounded _ _)
  rw [hid, levels, (h.good f.dst).levels_self] at hle
  exact WithBot.coe_le_coe.mp hle

theorem Inv.applies (h : m.Inv verify boots ops) {f : Frame} (hf : f ∈ m.sent) {v : UInt8}
    {records : List GossipRecord} (hmessage : f.message = .delta v records)
    (hlink : f.src ∈ (m.nodes f.dst).links) (hop : ∀ z, op.changeAt z = none) :
    Turn verify boots ops op m f.dst ((m.nodes f.dst).applyDelta records) [] := by
  refine h.learns (h.learns_delta hf hmessage) hop ?_ ?_
  · intro r hr _
    exact (h.delta_bounded hf hmessage hr).trans (h.bounded _ _)
  · intro r hr _
    by_cases hid : r.runtimeId = f.src
    · rw [hid]
      exact Attested.append (h.attested f.dst f.src ((h.good f.dst).linked _ hlink))
    · have hsome : ((m.nodes f.src).table r.runtimeId).isSome :=
        isSome_iff_bot_lt.mpr ((WithBot.bot_lt_coe _).trans_le (h.delta_bounded hf hmessage hr))
      exact Attested.append (h.attested f.src _ ((h.good f.src).hasPeer_iff.mpr ⟨hid, hsome⟩))

theorem Inv.changes (h : m.Inv verify boots ops) {change : LocalChange} {now : Fin (2 ^ 64)}
    (hself : op.changeAt x = some (change, now)) (hop : ∀ z, z ≠ x → op.changeAt z = none) :
    Turn verify boots ops op m x ((m.nodes x).localChange change now) [] := by
  obtain ⟨hgood, hown, htable⟩ := (h.good x).localChange change now
  have hframe := (m.nodes x).membership.localChange_frame change now
  have hlevels {k : RuntimeId} (hk : k ≠ x) :
      ((m.nodes x).localChange change now).levels k = m.levels x k := by
    rw [MeshNode.levels, level, htable, if_neg hk]
    rfl
  refine ⟨hgood, hframe.anchor, fun _ hy ↦ hy, ?_, ?_, (fun _ hf ↦ by cases hf), ?_, ?_, hop⟩
  · intro k
    by_cases hk : k = x
    · rw [hk, levels, (h.good x).levels_self, hgood.levels_self, hown]
      exact WithBot.coe_le_coe.mpr (change.le_bump_version now _)
    · rw [hlevels hk]
  · intro k hk
    rw [hlevels hk]
    exact h.bounded x k
  · intro k hk
    rw [MeshMembership.hasPeer, MeshNode.localChange, hframe.peers] at hk
    exact Attested.append (h.attested x k hk)
  · rw [hown, Op.ownAt, hself]

theorem Turn.link (h : Turn verify boots ops op m x n' [])
    (hy : n'.membership.hasPeer y = true) : Turn verify boots ops op m x (n'.link y) [] where
  good := h.good.link hy
  anchor := h.anchor
  links k hk := List.mem_cons_of_mem _ (h.links k hk)
  rises := h.rises
  bounded := h.bounded
  sends _ hf := nomatch hf
  attested := h.attested
  own := h.own
  elsewhere := h.elsewhere

theorem Turn.send (h : Turn verify boots ops op m x n' [])
    (hsends : ∀ f ∈ frames, f.src = x ∧ f.dst ∈ n'.links ∧ Reports n'.levels f.message) :
    Turn verify boots ops op m x n' frames :=
  { h with sends := hsends }

end Network

end Buzz.Mesh
