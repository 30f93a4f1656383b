import Buzz.Lib.Attempt
import Buzz.Lib.Decimal
import Buzz.Lib.Shell
import Buzz.Lib.Texts
import Buzz.Lib.JsonRoundTrip
import Buzz.Nostr.Event

namespace Buzz.Git

open Buzz.Lib Buzz.Lib.Hex Buzz.Nostr

structure HookRefUpdate where
  oldOid : String
  newOid : String
  refName : String
  isAncestor : Bool
deriving DecidableEq

structure HookCallbackRequest where
  repoId : String
  repoOwner : String
  communityId : String
  pusherPubkey : String
  refUpdates : List HookRefUpdate
  timestamp : UInt64
  signature : String
deriving DecidableEq

section Hmac

def byteLen (s : String) : ℕ := Utf8.len s.toList

def HookRefUpdate.text (r : HookRefUpdate) : List Char :=
  r.oldOid.toList ++ (r.newOid.toList ++ ((toString (byteLen r.refName)).toList ++ ':' ::
    (r.refName.toList ++ [if r.isAncestor then '1' else '0'])))

namespace HookCallbackRequest

variable (req : HookCallbackRequest)

def refsSorted : List HookRefUpdate :=
  req.refUpdates.mergeSort fun a b ↦
    Shell.bytesLe (Utf8.encode a.refName.toList) (Utf8.encode b.refName.toList)

/-- The text that `compute_hmac` feeds, piece by piece. -/
def payloadText : List Char :=
  (toString (byteLen req.repoId)).toList ++ ':' :: (req.repoId.toList ++ '|' ::
    (req.repoOwner.toList ++ '|' :: (req.communityId.toList ++ '|' ::
      (req.pusherPubkey.toList ++ '|' :: (req.refsSorted.flatMap HookRefUpdate.text ++ '|' ::
        (toString req.timestamp.toNat).toList)))))

def canonicalPayload : List UInt8 := Utf8.encode req.payloadText

def computeHmac (hmac : List UInt8 → List UInt8 → List UInt8) (secret : String) : List UInt8 :=
  hmac (Utf8.encode secret.toList) req.canonicalPayload

def verifyHmac (hmac : List UInt8 → List UInt8 → List UInt8) (secret : String) : Bool :=
  match decodeBytes req.signature.toList with
  | some provided => req.computeHmac hmac secret == provided
  | none => false

end HookCallbackRequest

end Hmac

section Validate

def isPubkeyHex (s : String) : Bool := byteLen s == 64 && s.toList.all isLowerHexDigit

def isOid (s : String) : Bool := byteLen s == 40 && s.toList.all isHexDigit

def isRefName (s : String) : Bool :=
  s ≠ "" && byteLen s ≤ 256 && "refs/".toList.isPrefixOf s.toList &&
    !decide ("..".toList <:+: s.toList) &&
    (Utf8.encode s.toList).all fun b ↦ !(b ≤ 0x20 || b == 0x7f)

def HookRefUpdate.validate (r : HookRefUpdate) : Except String Unit := do
  require (isOid r.oldOid) "invalid old_oid"
  require (isOid r.newOid) "invalid new_oid"
  require (isRefName r.refName) "invalid ref_name"

/-- The structural checks of `hook_policy_check`, which come before the signature. -/
def HookCallbackRequest.validate (req : HookCallbackRequest) : Except String Uuid := do
  require (req.repoId ≠ "" ∧ byteLen req.repoId ≤ 64) "invalid repo_id"
  require (isPubkeyHex req.repoOwner) "invalid repo_owner"
  require (isPubkeyHex req.pusherPubkey) "invalid pusher_pubkey"
  let community ← okOr (parseUuid req.communityId) "invalid community_id"
  require (req.refUpdates ≠ [] ∧ req.refUpdates.length ≤ 500) "invalid ref_updates count"
  req.refUpdates.forM HookRefUpdate.validate
  return community

end Validate

section Decode

def decodeText : Json → Option String
  | .str s => some s
  | _ => none

def decodeFlag : Json → Option Bool
  | .bool b => some b
  | _ => none

def decodeU64 : Json → Option UInt64
  | .num lexeme =>
    (Decimal.parseDigits lexeme.toList).bind fun n ↦
      if n < 2 ^ 64 then some (UInt64.ofNat n) else none
  | _ => none

def HookRefUpdate.decode : Json → Option HookRefUpdate
  | .obj fields => do
    guard (Json.noDuplicateField ["old_oid", "new_oid", "ref_name", "is_ancestor"] fields = true)
    let oldOid ← (fields.lookup "old_oid").bind decodeText
    let newOid ← (fields.lookup "new_oid").bind decodeText
    let refName ← (fields.lookup "ref_name").bind decodeText
    let isAncestor ← (fields.lookup "is_ancestor").bind decodeFlag
    return ⟨oldOid, newOid, refName, isAncestor⟩
  | _ => none

def decodeUpdates : Json → Option (List HookRefUpdate)
  | .arr elems => elems.mapM HookRefUpdate.decode
  | _ => none

def HookCallbackRequest.decode : Json → Option HookCallbackRequest
  | .obj fields => do
    guard (Json.noDuplicateField ["repo_id", "repo_owner", "community_id", "pusher_pubkey",
      "ref_updates", "timestamp", "signature"] fields = true)
    let repoId ← (fields.lookup "repo_id").bind decodeText
    let repoOwner ← (fields.lookup "repo_owner").bind decodeText
    let communityId ← (fields.lookup "community_id").bind decodeText
    let pusherPubkey ← (fields.lookup "pusher_pubkey").bind decodeText
    let refUpdates ← (fields.lookup "ref_updates").bind decodeUpdates
    let timestamp ← (fields.lookup "timestamp").bind decodeU64
    let signature ← (fields.lookup "signature").bind decodeText
    return ⟨repoId, repoOwner, communityId, pusherPubkey, refUpdates, timestamp, signature⟩
  | _ => none

def HookCallbackRequest.fromJson (body : String) : Option HookCallbackRequest :=
  (Json.parseRaw body).bind decode

end Decode

section Uuid

def isUuidChar (c : Char) : Bool := isHexDigit c || "urn:uuid:{}-".toList.contains c

theorem isHexDigit_of_digitValue {d : Char} {v : ℕ} (h : digitValue d = some v) :
    isHexDigit d = true := by
  rw [digitValue] at h
  split_ifs at h with hdigit hlower hupper
  · simp [isHexDigit, hdigit]
  · simp [isHexDigit, hlower]
  · simp [isHexDigit, hupper]

theorem isHexDigit_of_parseHex {cs : List Char} {n : ℕ} (h : parseHex cs = some n) :
    ∀ c ∈ cs, isHexDigit c = true := by
  induction cs using List.reverseRecOn generalizing n with
  | nil => simp
  | append_singleton cs d ih =>
    rw [parseHex_concat] at h
    obtain ⟨m, hm, hd⟩ := Option.bind_eq_some_iff.mp h
    obtain ⟨v, hv, -⟩ := Option.map_eq_some_iff.mp hd
    intro c hc
    rcases List.mem_append.mp hc with hc | hc
    · exact ih hm c hc
    · rw [List.mem_singleton.mp hc]
      exact isHexDigit_of_digitValue hv

theorem isHexDigit_of_uuidOfDigits {cs : List Char} {u : Uuid} (h : uuidOfDigits cs = some u) :
    ∀ c ∈ cs, isHexDigit c = true := by
  rw [uuidOfDigits] at h
  split at h
  · obtain ⟨n, hn, -⟩ := Option.bind_eq_some_iff.mp h
    exact isHexDigit_of_parseHex hn
  · cases h

theorem mem_drop_cases {cs : List Char} {i : ℕ} {c d : Char} (hd : cs[i]? = some d)
    (hc : c ∈ cs.drop i) : c = d ∨ c ∈ cs.drop (i + 1) := by
  obtain ⟨hi, hget⟩ := List.getElem?_eq_some_iff.mp hd
  rw [List.drop_eq_getElem_cons hi, hget] at hc
  exact List.mem_cons.mp hc

theorem mem_take_or_drop {cs : List Char} {c : Char} (i k : ℕ) (hc : c ∈ cs.drop i) :
    c ∈ (cs.drop i).take k ∨ c ∈ cs.drop (i + k) := by
  rw [← List.take_append_drop k (cs.drop i), List.drop_drop] at hc
  exact List.mem_append.mp hc

theorem isUuidChar_of_parseHyphenated {cs : List Char} {u : Uuid}
    (h : parseHyphenated cs = some u) : ∀ c ∈ cs, isUuidChar c = true := by
  rw [parseHyphenated] at h
  split at h
  · rename_i hform
    obtain ⟨-, h₈, h₁₃, h₁₈, h₂₃⟩ := hform
    have hhex := isHexDigit_of_uuidOfDigits h
    have hdigit {c : Char} (hc : c ∈ cs.take 8 ++ (cs.drop 9).take 4 ++ (cs.drop 14).take 4 ++
        (cs.drop 19).take 4 ++ cs.drop 24) : isUuidChar c = true := by
      rw [isUuidChar, hhex c hc, Bool.true_or]
    intro c hc
    rw [← List.drop_zero (l := cs)] at hc
    rcases mem_take_or_drop 0 8 hc with hc | hc
    · rw [List.drop_zero] at hc
      exact hdigit (by simp [hc])
    rcases mem_drop_cases h₈ hc with rfl | hc
    · decide
    rcases mem_take_or_drop 9 4 hc with hc | hc
    · exact hdigit (by simp [hc])
    rcases mem_drop_cases h₁₃ hc with rfl | hc
    · decide
    rcases mem_take_or_drop 14 4 hc with hc | hc
    · exact hdigit (by simp [hc])
    rcases mem_drop_cases h₁₈ hc with rfl | hc
    · decide
    rcases mem_take_or_drop 19 4 hc with hc | hc
    · exact hdigit (by simp [hc])
    rcases mem_drop_cases h₂₃ hc with rfl | hc
    · decide
    · exact hdigit (by simp [hc])
  · cases h

theorem isUuidChar_of_parseUuid {s : String} {u : Uuid} (h : parseUuid s = some u) :
    ∀ c ∈ s.toList, isUuidChar c = true := by
  rw [parseUuid] at h
  generalize s.toList = cs at h
  split at h
  · exact fun c hc ↦ by rw [isUuidChar, isHexDigit_of_uuidOfDigits h c hc, Bool.true_or]
  split at h
  · exact isUuidChar_of_parseHyphenated h
  split at h
  · rename_i hbraces
    obtain ⟨hlen, hhead, hlast⟩ := hbraces
    have hmiddle := isUuidChar_of_parseHyphenated h
    cases cs with
    | nil => cases hhead
    | cons d cs =>
      obtain rfl : d = '\x7b' := by simpa using hhead
      have hne : cs ≠ [] := by
        rintro rfl
        simp at hlen
      intro c hc
      rcases List.mem_cons.mp hc with rfl | hc
      · decide
      rw [← List.dropLast_append_getLast hne] at hc
      rcases List.mem_append.mp hc with hc | hc
      · exact hmiddle c hc
      · rw [List.getLast?_cons_of_ne_nil hne, List.getLast?_eq_some_getLast hne] at hlast
        rw [List.mem_singleton.mp hc, Option.some.inj hlast]
        decide
  split at h
  · rename_i hurn
    have hprefix : ∀ c ∈ "urn:uuid:".toList, isUuidChar c = true :=
      List.all_eq_true.mp (by decide)
    intro c hc
    rw [← List.take_append_drop 9 cs] at hc
    rcases List.mem_append.mp hc with hc | hc
    · exact hprefix c (hurn.2 ▸ hc)
    · exact isUuidChar_of_parseHyphenated h c hc
  · cases h

end Uuid

section Injective

theorem length_prefixed_inj {s s' : String} {rest rest' : List Char}
    (h : (toString (byteLen s)).toList ++ ':' :: (s.toList ++ rest) =
      (toString (byteLen s')).toList ++ ':' :: (s'.toList ++ rest')) : s = s' ∧ rest = rest' := by
  have hcolon (n : ℕ) : ':' ∉ (toString n).toList := by
    intro hmem
    rw [Decimal.toList_toString] at hmem
    have hdigit := List.all_eq_true.mp (Decimal.all_isDigit_toDigits n) _ hmem
    cases hdigit
  have hsplit := splitOnce_append (hcolon (byteLen s)) (s.toList ++ rest)
  rw [h, splitOnce_append (hcolon _)] at hsplit
  obtain ⟨hlen, htext⟩ := Prod.mk.inj (Option.some.inj hsplit)
  have hsize : byteLen s' = byteLen s := by
    rw [Decimal.toList_toString, Decimal.toList_toString] at hlen
    have hparse := Decimal.parseDigits_toDigits (byteLen s')
    rw [hlen, Decimal.parseDigits_toDigits] at hparse
    exact (Option.some.inj hparse).symm
  obtain ⟨hs, hrest⟩ := Utf8.append_inj htext hsize
  exact ⟨(String.toList_inj.mp hs).symm, hrest.symm⟩

theorem separated_inj {s s' : List Char} {rest rest' : List Char} (hs : '|' ∉ s) (hs' : '|' ∉ s')
    (h : s ++ '|' :: rest = s' ++ '|' :: rest') : s = s' ∧ rest = rest' := by
  have hsplit := splitOnce_append hs rest
  rw [h, splitOnce_append hs'] at hsplit
  obtain ⟨hs, hrest⟩ := Prod.mk.inj (Option.some.inj hsplit)
  exact ⟨hs.symm, hrest.symm⟩

namespace HookRefUpdate

theorem validate_eq_ok {r : HookRefUpdate} {u : Unit} :
    r.validate = .ok u ↔ isOid r.oldOid = true ∧ isOid r.newOid = true ∧
      isRefName r.refName = true := by
  simp only [validate, bind_eq_ok, require_eq_ok, exists_const]

variable {r r' : HookRefUpdate} {rest rest' : List Char}

theorem text_append (r : HookRefUpdate) (rest : List Char) :
    r.text ++ rest = r.oldOid.toList ++ (r.newOid.toList ++
      ((toString (byteLen r.refName)).toList ++
        ':' :: (r.refName.toList ++ (if r.isAncestor then '1' else '0') :: rest))) := by
  simp [text]

theorem text_inj (h : r.validate = .ok ()) (h' : r'.validate = .ok ())
    (heq : r.text ++ rest = r'.text ++ rest') : r = r' ∧ rest = rest' := by
  obtain ⟨hold, hnew, -⟩ := validate_eq_ok.mp h
  obtain ⟨hold', hnew', -⟩ := validate_eq_ok.mp h'
  simp only [isOid, Bool.and_eq_true, beq_iff_eq] at hold hnew hold' hnew'
  rw [text_append, text_append] at heq
  obtain ⟨holds, heq⟩ := Utf8.append_inj heq (hold.1.trans hold'.1.symm)
  obtain ⟨hnews, heq⟩ := Utf8.append_inj heq (hnew.1.trans hnew'.1.symm)
  obtain ⟨hnames, heq⟩ := length_prefixed_inj heq
  obtain ⟨hflag, hrest⟩ := List.cons.inj heq
  have hanc : r.isAncestor = r'.isAncestor := by
    cases hr : r.isAncestor <;> cases hr' : r'.isAncestor <;> simp [hr, hr'] at hflag ⊢
  refine ⟨?_, hrest⟩
  rw [String.toList_inj] at holds hnews
  cases r
  cases r'
  simp_all

/-- An update begins with a hexadecimal digit. -/
theorem text_ne_bar (h : r.validate = .ok ()) : r.text ++ rest ≠ '|' :: rest' := by
  obtain ⟨hold, -⟩ := validate_eq_ok.mp h
  simp only [isOid, Bool.and_eq_true, beq_iff_eq, List.all_eq_true] at hold
  obtain ⟨hlen, hhex⟩ := hold
  rw [text_append]
  cases hold : r.oldOid.toList with
  | nil => simp [byteLen, hold] at hlen
  | cons c cs =>
    intro heq
    have hc := hhex c (by simp [hold])
    obtain rfl : c = '|' := (List.cons.inj heq).1
    cases hc

theorem texts_inj {us us' : List HookRefUpdate} (hus : ∀ u ∈ us, u.validate = .ok ())
    (hus' : ∀ u ∈ us', u.validate = .ok ())
    (heq : us.flatMap text ++ '|' :: rest = us'.flatMap text ++ '|' :: rest') :
    us = us' ∧ rest = rest' := by
  induction us generalizing us' with
  | nil =>
    cases us' with
    | nil => exact ⟨rfl, (List.cons.inj heq).2⟩
    | cons u' us' =>
      rw [List.flatMap_cons, List.append_assoc] at heq
      exact absurd heq.symm (text_ne_bar (hus' u' (by simp)))
  | cons u us ih =>
    cases us' with
    | nil =>
      rw [List.flatMap_cons, List.append_assoc] at heq
      exact absurd heq (text_ne_bar (hus u (by simp)))
    | cons u' us' =>
      rw [List.flatMap_cons, List.flatMap_cons, List.append_assoc, List.append_assoc] at heq
      obtain ⟨hu, heq⟩ := text_inj (hus u (by simp)) (hus' u' (by simp)) heq
      obtain ⟨htail, hrest⟩ := ih (fun v hv ↦ hus v (by simp [hv]))
        (fun v hv ↦ hus' v (by simp [hv])) heq
      exact ⟨by rw [hu, htail], hrest⟩

end HookRefUpdate

namespace HookCallbackRequest

structure SamePush (req req' : HookCallbackRequest) : Prop where
  repoId : req.repoId = req'.repoId
  repoOwner : req.repoOwner = req'.repoOwner
  communityId : req.communityId = req'.communityId
  pusherPubkey : req.pusherPubkey = req'.pusherPubkey
  refUpdates : req.refUpdates.Perm req'.refUpdates
  timestamp : req.timestamp = req'.timestamp

variable {req req' : HookCallbackRequest}

theorem validate_eq_ok {community : Uuid} : req.validate = .ok community ↔
    (req.repoId ≠ "" ∧ byteLen req.repoId ≤ 64) ∧ isPubkeyHex req.repoOwner = true ∧
      isPubkeyHex req.pusherPubkey = true ∧ parseUuid req.communityId = some community ∧
      (req.refUpdates ≠ [] ∧ req.refUpdates.length ≤ 500) ∧
      ∀ u ∈ req.refUpdates, u.validate = .ok () := by
  simp only [validate, bind_eq_ok, require_eq_ok, okOr_eq_ok, exists_const, forM_eq_ok]
  constructor
  · rintro ⟨hrepo, howner, hpusher, u, hu, hcount, hupdates, hret⟩
    cases hret
    exact ⟨hrepo, howner, hpusher, hu, hcount, hupdates⟩
  · rintro ⟨hrepo, howner, hpusher, hu, hcount, hupdates⟩
    exact ⟨hrepo, howner, hpusher, community, hu, hcount, hupdates, rfl⟩

theorem canonicalPayload_inj {community community' : Uuid} (h : req.validate = .ok community)
    (h' : req'.validate = .ok community') (heq : req.canonicalPayload = req'.canonicalPayload) :
    SamePush req req' := by
  obtain ⟨-, howner, hpusher, hcommunity, -, hupdates⟩ := validate_eq_ok.mp h
  obtain ⟨-, howner', hpusher', hcommunity', -, hupdates'⟩ := validate_eq_ok.mp h'
  simp only [isPubkeyHex, Bool.and_eq_true, beq_iff_eq] at howner hpusher howner' hpusher'
  have hbar {s : String} {u : Uuid} (hs : parseUuid s = some u) : '|' ∉ s.toList := by
    intro hmem
    have hchar := isUuidChar_of_parseUuid hs _ hmem
    revert hchar
    decide
  have hperm (req : HookCallbackRequest) : req.refsSorted.Perm req.refUpdates :=
    List.mergeSort_perm _ _
  have heq := Utf8.encode_injective heq
  obtain ⟨hrepo, heq⟩ := length_prefixed_inj heq
  obtain ⟨howners, heq⟩ := Utf8.append_inj (List.cons.inj heq).2 (howner.1.trans howner'.1.symm)
  obtain ⟨hcommunities, heq⟩ := separated_inj (hbar hcommunity) (hbar hcommunity')
    (List.cons.inj heq).2
  obtain ⟨hpushers, heq⟩ := Utf8.append_inj heq (hpusher.1.trans hpusher'.1.symm)
  obtain ⟨hrefs, htime⟩ := HookRefUpdate.texts_inj
    (fun u hu ↦ hupdates u ((hperm req).mem_iff.mp hu))
    (fun u hu ↦ hupdates' u ((hperm req').mem_iff.mp hu)) (List.cons.inj heq).2
  have hstamp : req.timestamp = req'.timestamp := by
    rw [Decimal.toList_toString, Decimal.toList_toString] at htime
    have hparse := Decimal.parseDigits_toDigits req.timestamp.toNat
    rw [htime, Decimal.parseDigits_toDigits] at hparse
    exact (UInt64.toNat_inj.mp (Option.some.inj hparse)).symm
  refine ⟨hrepo, String.toList_inj.mp howners, String.toList_inj.mp hcommunities,
    String.toList_inj.mp hpushers, ?_, hstamp⟩
  exact (hperm req).symm.trans (hrefs ▸ hperm req')

theorem computeHmac_eq_of_verify {hmac : List UInt8 → List UInt8 → List UInt8} {secret : String}
    (h : req.verifyHmac hmac secret = true) :
    decodeBytes req.signature.toList = some (req.computeHmac hmac secret) := by
  rw [verifyHmac] at h
  split at h
  · rename_i provided hprovided
    rw [hprovided, beq_iff_eq.mp h]
  · cases h

theorem samePush_of_signature {hmac : List UInt8 → List UInt8 → List UInt8} {secret : String}
    {community community' : Uuid} (h : req.validate = .ok community)
    (h' : req'.validate = .ok community') (hverify : req.verifyHmac hmac secret = true)
    (hverify' : req'.verifyHmac hmac secret = true) (hsig : req.signature = req'.signature)
    (hcollision : req.computeHmac hmac secret = req'.computeHmac hmac secret →
      req.canonicalPayload = req'.canonicalPayload) : SamePush req req' := by
  have hdecode := computeHmac_eq_of_verify hverify
  rw [hsig, computeHmac_eq_of_verify hverify'] at hdecode
  exact canonicalPayload_inj h h' (hcollision (Option.some.inj hdecode).symm)

/-- The payload does not tell the order in which distinct refs came. -/
theorem canonicalPayload_perm (req : HookCallbackRequest) {us : List HookRefUpdate}
    (hperm : us.Perm req.refUpdates)
    (hnames : (req.refUpdates.map HookRefUpdate.refName).Nodup) :
    { req with refUpdates := us }.canonicalPayload = req.canonicalPayload := by
  have hsorted (req : HookCallbackRequest) : req.refsSorted.Pairwise fun a b ↦
      Shell.bytesLe (Utf8.encode a.refName.toList) (Utf8.encode b.refName.toList) = true := by
    apply List.pairwise_mergeSort
    · exact fun _ _ _ hab hbc ↦ Shell.bytesLe_trans hab hbc
    · exact fun _ _ ↦ Shell.bytesLe_total _ _
  have heq : { req with refUpdates := us }.refsSorted = req.refsSorted := by
    refine List.Perm.eq_of_pairwise ?_ (hsorted _) (hsorted _)
      ((List.mergeSort_perm _ _).trans (hperm.trans (List.mergeSort_perm _ _).symm))
    intro a b ha hb hab hba
    have hname := Utf8.encode_injective (Shell.bytesLe_antisymm hab hba)
    have hmem := hperm.mem_iff.mp ((List.mergeSort_perm _ _).mem_iff.mp ha)
    exact List.inj_on_of_nodup_map hnames hmem ((List.mergeSort_perm _ _).mem_iff.mp hb)
      (String.toList_inj.mp hname)
  simp only [canonicalPayload, payloadText, heq]

end HookCallbackRequest

end Injective

end Buzz.Git
