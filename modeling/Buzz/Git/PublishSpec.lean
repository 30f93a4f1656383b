import Buzz.Git.Publish
import Buzz.Lib.OptimisticLog

namespace Buzz.Git

open Buzz.Lib Buzz.Lib.Hex Buzz.Nostr

section Digest

variable {b : Backend}

theorem toList_digestOf (text : String) :
    (digestOf b text).toList = hexDigits 64 (b.sha256 text).val :=
  String.toList_ofList

theorem digestFromManifestKey_contentKey (text : String) :
    digestFromManifestKey (contentKey b "manifests" text) = .ok (digestOf b text) := by
  have hkey : (contentKey b "manifests" text).toList =
      "manifests/".toList ++ (digestOf b text).toList := by
    simp only [contentKey, String.toList_append]
    rfl
  have hstrip : stripPrefix "manifests/" (contentKey b "manifests" text) =
      some (digestOf b text) := by
    rw [stripPrefix, hkey, if_pos (List.isPrefixOf_iff_prefix.mpr (List.prefix_append _ _)),
      show "manifests/".length = "manifests/".toList.length from rfl, List.drop_left,
      String.ofList_toList]
  rw [digestFromManifestKey, hstrip]

theorem contentKey_manifests (text : String) :
    contentKey b "manifests" text = "manifests/" ++ digestOf b text := by
  rw [contentKey]
  rfl

theorem isWhiteSpace_of_isLowerHexDigit {c : Char} (h : isLowerHexDigit c = true) :
    isWhiteSpace c = false := by
  simp only [isLowerHexDigit, Char.isDigit, Bool.or_eq_true, Bool.and_eq_true,
    decide_eq_true_eq] at h
  have hrange : 0x30 ≤ c.toNat ∧ c.toNat ≤ 0x66 := by
    rcases h with ⟨hlo, hhi⟩ | ⟨hlo, hhi⟩
    · have hlo' : 0x30 ≤ c.toNat := hlo
      have hhi' : c.toNat ≤ 0x39 := hhi
      omega
    · have hlo' : 0x61 ≤ c.toNat := hlo
      have hhi' : c.toNat ≤ 0x66 := hhi
      omega
  simp only [isWhiteSpace, Bool.or_eq_false_iff, Bool.and_eq_false_iff, decide_eq_false_iff_not,
    beq_eq_false_iff_ne]
  omega

theorem trim_digestOf (text : String) : trim (digestOf b text) = digestOf b text := by
  have hnone (c : Char) (hc : c ∈ hexDigits 64 (b.sha256 text).val) : isWhiteSpace c = false :=
    isWhiteSpace_of_isLowerHexDigit (isLowerHexDigit_of_mem_hexDigits hc)
  have hdrop (cs : List Char) (h : ∀ c ∈ cs, isWhiteSpace c = false) :
      cs.dropWhile isWhiteSpace = cs := by
    cases cs with
    | nil => rfl
    | cons c cs => rw [List.dropWhile_cons, h c List.mem_cons_self, if_neg Bool.false_ne_true]
  rw [trim, toList_digestOf, hdrop _ hnone,
    hdrop _ fun c hc ↦ hnone c (List.mem_reverse.mp hc), List.reverse_reverse]
  rfl

theorem digestOf_inj {text text' : String} (h : digestOf b text = digestOf b text') :
    b.sha256 text = b.sha256 text' :=
  hexEncode_injective h

end Digest

section Refs

def AllSha1 (refs : Refs) : Prop := ∀ e ∈ refs.entries, isSha1Hex e.2 = true

theorem isSha1Hex_hexOid (oid : Fin (2 ^ 160)) : isSha1Hex (hexOid oid) = true := by
  have hlist : (hexOid oid).toList = hexDigits 40 oid.val := String.toList_ofList
  have hlength : (hexOid oid).length = 40 := by
    rw [← String.length_toList, hlist, length_hexDigits]
  rw [isSha1Hex, hlength, hlist, beq_self_eq_true, Bool.true_and, List.all_eq_true]
  intro c hc
  have hlower := isLowerHexDigit_of_mem_hexDigits hc
  simp only [isLowerHexDigit, isHexDigit, Bool.or_eq_true] at hlower ⊢
  exact .inl hlower

theorem AllSha1.empty : AllSha1 ∅ := by
  intro e he
  cases he

theorem AllSha1.applyCommand {refs : Refs} (h : AllSha1 refs) (command : RefCommand) :
    AllSha1 (applyCommand refs command) := by
  intro e he
  rw [Git.applyCommand] at he
  cases hnew : command.new with
  | none =>
    rw [hnew] at he
    exact h e (List.mem_of_mem_filter he)
  | some oid =>
    rw [hnew] at he
    rcases SortedMap.mem_insertEntry he with rfl | he
    · exact isSha1Hex_hexOid oid
    · exact h e he

theorem AllSha1.afterReceivePack {refs : Refs} (h : AllSha1 refs) (commands : List RefCommand) :
    AllSha1 (afterReceivePack refs commands) :=
  List.foldlRecOn commands Git.applyCommand h fun _ hrefs command _ ↦ hrefs.applyCommand command

theorem get_applyCommand (refs : Refs) (command : RefCommand) :
    (applyCommand refs command).get =
      Function.update refs.get command.update.1 command.update.2 := by
  funext name
  rw [applyCommand, RefCommand.update, Function.update_apply]
  cases command.new with
  | none => exact SortedMap.get_erase
  | some oid => exact SortedMap.get_insert

theorem get_afterReceivePack (refs : Refs) (commands : List RefCommand) :
    (afterReceivePack refs commands).get =
      applyUpdates (commands.map RefCommand.update) refs.get := by
  induction commands generalizing refs with
  | nil => rfl
  | cons command commands ih =>
    rw [List.map_cons, applyUpdates_cons, ← get_applyCommand]
    exact ih _

theorem foldlM_snapshotLine {lines : List (String × String)} {acc refs : Refs}
    (hsorted : (acc.entries ++ lines).Pairwise fun a b ↦ StringLt a.1 b.1)
    (hsha : ∀ e ∈ lines, isSha1Hex e.2 = true)
    (h : lines.foldlM snapshotLine acc = .ok refs) : refs.entries = acc.entries ++ lines := by
  induction lines generalizing acc with
  | nil =>
    cases h
    rw [List.append_nil]
  | cons line lines ih =>
    have hacc := (List.pairwise_append.mp hsorted).2.2
    have hlast : (acc.insert line.1 line.2).entries = acc.entries ++ [line] :=
      SortedMap.insertEntry_last fun e he ↦ hacc e he line List.mem_cons_self
    rw [List.foldlM_cons, snapshotLine, hsha line List.mem_cons_self] at h
    split at h
    · next hfalse => cases hfalse
    split at h
    · cases h
    · rw [List.append_cons] at hsorted ⊢
      rw [← hlast] at hsorted ⊢
      exact ih hsorted (fun e he ↦ hsha e (List.mem_cons_of_mem _ he)) h

theorem snapshotRefs_entries {workspace refs : Refs} (hsha : AllSha1 workspace)
    (h : snapshotRefs workspace.entries = .ok refs) : refs = workspace := by
  have hsorted : ((∅ : Refs).entries ++ workspace.entries).Pairwise
      fun a b ↦ StringLt a.1 b.1 := workspace.sorted
  have hentries : refs.entries = workspace.entries := foldlM_snapshotLine hsorted hsha h
  cases refs
  cases workspace
  cases hentries
  rfl

end Refs

structure ComposedFrom (parent : ParentState) (commands : List RefCommand) (m : Manifest) :
    Prop where
  version : m.version = manifestVersion
  parentDigest : m.parent = parent.parentDigest
  refs : m.refs = afterReceivePack parent.parent.refs commands

theorem composeDelta_ok {parent : ParentState} {limits : PublishLimits} {work : PackWork}
    {failure : Option CasError} {refs : Refs} {head : String} {m : Manifest}
    (h : composeDelta parent limits work failure refs head = .ok m) :
    ∃ key, m = composeAfter parent.parent parent.parentDigest head refs key := by
  rw [composeDelta] at h
  simp only at h
  split at h
  · cases h
  · exact ⟨none, (Except.ok.inj h).symm⟩
  · split at h
    · cases h
    split at h
    · cases h
    split at h
    · cases h
    split at h
    · cases h
    · next key _ => exact ⟨some key, (Except.ok.inj h).symm⟩

theorem prepareManifest_ok {parent : ParentState} {limits : PublishLimits} {work : PackWork}
    {commands : List RefCommand} {head : String} {m : Manifest}
    (hsha : AllSha1 parent.parent.refs)
    (h : prepareManifest parent limits work
      (afterReceivePack parent.parent.refs commands).entries head = .ok m) :
    ComposedFrom parent commands m := by
  rw [prepareManifest] at h
  split at h
  · cases h
  next refs hsnapshot =>
  rw [snapshotRefs_entries (hsha.afterReceivePack commands) hsnapshot] at h
  simp only at h
  split at h
  · cases h
  next manifest hcompose =>
  split at h
  · cases h
  cases h
  rw [composeManifest] at hcompose
  split at hcompose
  · split at hcompose
    · cases hcompose
      exact ⟨rfl, rfl, rfl⟩
    · obtain ⟨key, rfl⟩ := composeDelta_ok hcompose
      exact ⟨rfl, rfl, rfl⟩
  · obtain ⟨key, rfl⟩ := composeDelta_ok hcompose
    exact ⟨rfl, rfl, rfl⟩

theorem getVerifiedLimited_ok {b : Backend} {objects : Objects} {key expected text : String}
    {max : ℕ} (h : getVerifiedLimited b objects key expected max = .ok text) :
    objects.lookup key = some text := by
  rw [getVerifiedLimited, getLimited, getObject] at h
  cases hlookup : objects.lookup key with
  | none =>
    rw [hlookup] at h
    cases h
  | some text' =>
    rw [hlookup] at h
    simp only [verifyDigest] at h
    split at h
    · next hlimited =>
      split at hlimited
      · cases hlimited
      cases hlimited
      split at h
      · next hverify =>
        split at hverify
        · cases hverify
        cases hverify
        cases h
        rfl
      · cases h
    · cases h
    · cases h

theorem loadManifest_ok {b : Backend} {objects : Objects} {etag : ETag} {body : String}
    {parent : ParentState} (h : loadManifest b objects etag body = .ok parent) :
    ∃ text m, objects.lookup ("manifests/" ++ trim body) = some text ∧
      Manifest.fromBytes text = .ok m ∧ parent = .fromLoaded etag (trim body) m := by
  rw [loadManifest] at h
  split at h
  · cases h
  split at h
  · cases h
  next text hget =>
  split at h
  · cases h
  next m hparse =>
  split at h
  · cases h
  · exact ⟨text, m, getVerifiedLimited_ok hget, hparse, (Except.ok.inj h).symm⟩

end Buzz.Git
