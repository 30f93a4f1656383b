import Buzz.Lib.AntiEntropy
import Buzz.Lib.Collections
import Buzz.Relay.Directory
import Mathlib.Data.List.Sort
import Mathlib.Data.String.Basic

namespace Buzz.Mesh

open Buzz.Lib Buzz.Lib.AntiEntropy Buzz.Nostr
open Buzz.Relay.Tunnel (RuntimeId)

def gossipPayloadVersion : UInt8 := 1

/-- `load` is the bit pattern of an `f32`; nothing computes with it. -/
structure GossipRecord where
  runtimeId : RuntimeId
  endpointAddrs : List String
  protoVersion : UInt16
  load : UInt32
  draining : Bool
  capabilities : List String
  version : Fin (2 ^ 64)
  heartbeatMillis : Fin (2 ^ 64)
deriving DecidableEq

def GossipRecord.new (runtimeId : RuntimeId) (endpointAddrs : List String) (protoVersion : UInt16)
    (now : Fin (2 ^ 64)) : GossipRecord where
  runtimeId := runtimeId
  endpointAddrs := endpointAddrs
  protoVersion := protoVersion
  load := 0
  draining := false
  capabilities := []
  version := 1
  heartbeatMillis := now

structure GossipDigestEntry where
  runtimeId : RuntimeId
  version : Fin (2 ^ 64)
deriving DecidableEq

inductive GossipMessage
  | digest (version : UInt8) (entries : List GossipDigestEntry)
  | delta (version : UInt8) (records : List GossipRecord)
deriving DecidableEq

def decodeMessage (message : GossipMessage) : Except String GossipMessage :=
  let version := match message with
    | .digest version _ => version
    | .delta version _ => version
  if version ≠ gossipPayloadVersion then
    .error s!"unknown gossip payload version {version}"
  else .ok message

def saturatingSucc (v : Fin (2 ^ 64)) : Fin (2 ^ 64) :=
  if h : v.val + 1 < 2 ^ 64 then ⟨v.val + 1, h⟩ else v

theorem le_saturatingSucc (v : Fin (2 ^ 64)) : v ≤ saturatingSucc v := by
  rw [saturatingSucc]
  split
  · exact Fin.le_def.mpr (Nat.le_succ v.val)
  · exact le_rfl

def sortByHex {α : Type} (runtimeId : α → RuntimeId) (l : List α) : List α :=
  l.insertionSort fun a b ↦ hexEncode (runtimeId a) ≤ hexEncode (runtimeId b)

def remoteVersions (digest : List GossipDigestEntry) : Map RuntimeId (Fin (2 ^ 64)) :=
  digest.foldl (fun m e ↦ AList.insert e.runtimeId e.version m) ∅

def digestOf (records : List GossipRecord) : GossipMessage :=
  .digest gossipPayloadVersion
    (sortByHex GossipDigestEntry.runtimeId (records.map fun r ↦ ⟨r.runtimeId, r.version⟩))

def deltaOf (records : List GossipRecord) (digest : List GossipDigestEntry) : GossipMessage :=
  let remote := remoteVersions digest
  .delta gossipPayloadVersion (sortByHex GossipRecord.runtimeId (records.filter fun r ↦
    match remote.lookup r.runtimeId with
    | none => true
    | some v => v < r.version))

structure GossipState where
  records : Map RuntimeId GossipRecord

namespace GossipState

def new (localRecord : GossipRecord) : GossipState :=
  ⟨AList.insert localRecord.runtimeId localRecord ∅⟩

def values (s : GossipState) : List GossipRecord := s.records.entries.map Sigma.snd

def get (s : GossipState) (runtimeId : RuntimeId) : Option GossipRecord :=
  s.records.lookup runtimeId

def updateLocal (s : GossipState) (runtimeId : RuntimeId) (update : GossipRecord → GossipRecord)
    (now : Fin (2 ^ 64)) : Option GossipRecord × GossipState :=
  match s.records.lookup runtimeId with
  | none => (none, s)
  | some record =>
    let record := update record
    let record := { record with version := saturatingSucc record.version, heartbeatMillis := now }
    (some record, ⟨AList.insert runtimeId record s.records⟩)

def digest (s : GossipState) : GossipMessage := digestOf s.values

def deltaFor (s : GossipState) (digest : List GossipDigestEntry) : GossipMessage :=
  deltaOf s.values digest

def applyRecord (s : GossipState) (record : GossipRecord) : List RuntimeId × GossipState :=
  let shouldApply := match s.records.lookup record.runtimeId with
    | none => true
    | some existing => record.version > existing.version
  if shouldApply then ([record.runtimeId], ⟨AList.insert record.runtimeId record s.records⟩)
  else ([], s)

def applyDelta (s : GossipState) (records : List GossipRecord) : List RuntimeId × GossipState :=
  records.foldl (fun (changed, s) record ↦
    let (ids, s') := s.applyRecord record
    (changed ++ ids, s')) ([], s)

end GossipState

section Sorting

variable {α : Type} {runtimeId : α → RuntimeId} {l l₁ l₂ : List α}

theorem mem_sortByHex {a : α} : a ∈ sortByHex runtimeId l ↔ a ∈ l := List.mem_insertionSort _

/-- Records with distinct ids are sent in one order, however they were collected. -/
theorem sortByHex_congr (hperm : l₁.Perm l₂) (hids : (l₁.map runtimeId).Nodup) :
    sortByHex runtimeId l₁ = sortByHex runtimeId l₂ := by
  let le (a b : α) : Prop := hexEncode (runtimeId a) ≤ hexEncode (runtimeId b)
  have htotal : Std.Total le := ⟨fun _ _ ↦ le_total _ _⟩
  have htrans : IsTrans α le := ⟨fun _ _ _ ↦ le_trans⟩
  have hsorted (l : List α) : (sortByHex runtimeId l).Pairwise le :=
    List.pairwise_insertionSort le l
  refine List.Perm.eq_of_pairwise ?_ (hsorted l₁) (hsorted l₂) ?_
  · intro a b ha hb hab hba
    have hid : runtimeId a = runtimeId b := hexEncode_injective (le_antisymm hab hba)
    exact List.inj_on_of_nodup_map hids (mem_sortByHex.mp ha)
      (hperm.mem_iff.mpr (mem_sortByHex.mp hb)) hid
  · exact ((List.perm_insertionSort le l₁).trans hperm).trans (List.perm_insertionSort le l₂).symm

end Sorting

section Messages

variable {records records' : List GossipRecord} {digest entries : List GossipDigestEntry}
  {v : UInt8}

theorem digestOf_congr (hperm : records.Perm records')
    (hids : (records.map GossipRecord.runtimeId).Nodup) : digestOf records = digestOf records' := by
  rw [digestOf, digestOf, sortByHex_congr (hperm.map _)]
  rw [List.map_map]
  exact hids

theorem deltaOf_congr (hperm : records.Perm records')
    (hids : (records.map GossipRecord.runtimeId).Nodup) :
    deltaOf records digest = deltaOf records' digest := by
  rw [deltaOf, deltaOf, sortByHex_congr (hperm.filter _)]
  exact hids.sublist (List.filter_sublist.map _)

theorem mem_of_digestOf (h : digestOf records = .digest v entries) {e : GossipDigestEntry} :
    e ∈ entries ↔ ∃ r ∈ records, ⟨r.runtimeId, r.version⟩ = e := by
  cases h
  rw [mem_sortByHex, List.mem_map]

theorem mem_of_lookup_remoteVersions {k : RuntimeId} {v : Fin (2 ^ 64)}
    (h : (remoteVersions digest).lookup k = some v) : ⟨k, v⟩ ∈ digest := by
  induction digest using List.reverseRecOn with
  | nil => cases h
  | append_singleton digest e ih =>
    rw [remoteVersions, List.foldl_append, List.foldl_cons, List.foldl_nil,
      Map.lookup_insert_eq] at h
    split at h
    case isTrue hk =>
      cases h
      rw [hk]
      exact List.mem_append_right _ List.mem_cons_self
    case isFalse => exact List.mem_append_left _ (ih h)

def reported (digest : List GossipDigestEntry) (k : RuntimeId) : WithBot (Fin (2 ^ 64)) :=
  (remoteVersions digest).lookup k

theorem reported_le {d : RuntimeId → WithBot (Fin (2 ^ 64))}
    (h : ∀ e ∈ digest, (e.version : WithBot (Fin (2 ^ 64))) ≤ d e.runtimeId) :
    reported digest ≤ d := by
  intro k
  rw [reported]
  cases hk : (remoteVersions digest).lookup k with
  | none => exact bot_le
  | some v => exact h _ (mem_of_lookup_remoteVersions hk)

theorem deltaOf_spec {t : Replica RuntimeId GossipRecord}
    (hmem : ∀ r, r ∈ records ↔ t r.runtimeId = some r) :
    ∃ rs, deltaOf records digest = .delta gossipPayloadVersion rs ∧
      IsDelta GossipRecord.runtimeId GossipRecord.version t (reported digest) rs := by
  refine ⟨_, rfl, fun r ↦ ?_⟩
  rw [mem_sortByHex, List.mem_filter, hmem, reported]
  refine and_congr_right fun _ ↦ ?_
  cases (remoteVersions digest).lookup r.runtimeId with
  | none => exact iff_of_true rfl (WithBot.bot_lt_coe _)
  | some v => exact decide_eq_true_iff.trans WithBot.coe_lt_coe.symm

end Messages

namespace GossipState

variable {s : GossipState} {record : GossipRecord} {records : List GossipRecord}

theorem nodup_keys_values {s : GossipState} (h : Keyed GossipRecord.runtimeId s.get) :
    (s.values.map GossipRecord.runtimeId).Nodup := by
  have hkeys : s.values.map GossipRecord.runtimeId = s.records.entries.keys := by
    rw [values, List.map_map]
    exact List.map_congr_left fun e he ↦ h e.1 e.2 (Map.mem_entries_iff.mp he)
  rw [hkeys]
  exact s.records.nodupKeys

theorem mem_values (h : Keyed GossipRecord.runtimeId s.get) :
    record ∈ s.values ↔ s.get record.runtimeId = some record := by
  rw [values, List.mem_map]
  constructor
  · rintro ⟨e, he, rfl⟩
    have hget := Map.mem_entries_iff.mp he
    rw [h e.1 e.2 hget]
    exact hget
  · intro hget
    exact ⟨⟨record.runtimeId, record⟩, Map.mem_entries_iff.mpr hget, rfl⟩

theorem get_new (localRecord : GossipRecord) (k : RuntimeId) :
    (new localRecord).get k = if k = localRecord.runtimeId then some localRecord else none := by
  rw [get, new, Map.lookup_insert_eq]
  rfl

theorem get_applyRecord : (s.applyRecord record).2.get =
    absorb GossipRecord.runtimeId GossipRecord.version s.get record := by
  funext k
  rw [applyRecord]
  cases h : s.records.lookup record.runtimeId with
  | none =>
    rw [if_pos rfl, absorb_of_eq_none h, get, Map.lookup_insert_eq, Function.update_apply]
    rfl
  | some existing =>
    rw [absorb_of_eq_some h]
    by_cases hlt : existing.version < record.version
    · rw [if_pos (decide_eq_true hlt), if_pos hlt, get, Map.lookup_insert_eq,
        Function.update_apply]
      rfl
    · rw [if_neg (by simpa using hlt), if_neg hlt]

theorem get_applyDelta : (s.applyDelta records).2.get =
    absorbAll GossipRecord.runtimeId GossipRecord.version s.get records := by
  rw [applyDelta]
  generalize ([] : List RuntimeId) = changed
  induction records generalizing s changed with
  | nil => rfl
  | cons record records ih =>
    rw [List.foldl_cons, ih, get_applyRecord]
    rfl

theorem get_updateLocal {k : RuntimeId} {update : GossipRecord → GossipRecord}
    {now : Fin (2 ^ 64)} {runtimeId : RuntimeId} (h : s.get runtimeId = some record) :
    (s.updateLocal runtimeId update now).2.get k =
      if k = runtimeId then some { update record with
        version := saturatingSucc (update record).version, heartbeatMillis := now }
      else s.get k := by
  rw [get] at h
  rw [updateLocal, h, get, Map.lookup_insert_eq]
  rfl

end GossipState

end Buzz.Mesh
