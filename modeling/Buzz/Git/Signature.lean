import Buzz.Audit.Service
import Buzz.Lib.Decimal
import Buzz.Lib.Hex
import Buzz.Lib.Texts
import Mathlib.Data.Bool.AllAny
import Mathlib.Data.List.Basic

namespace Buzz.GitSign

open Buzz.Audit Buzz.Lib

def domainSeparator : String := "nostr:git:v1:"

/-- 100 MB. -/
def maxPayload : ℕ := 100 * 1024 * 1024

def validateHexField (val : String) (expectedLen : ℕ) : Bool :=
  val.toList.length = expectedLen && val.toList.all Hex.isLowerHexDigit

def stripPrefix (front cs : List Char) : Option (List Char) :=
  if front.isPrefixOf cs then some (cs.drop front.length) else none

def parseDecimalU32 (cs : List Char) : Option ℕ :=
  if cs = [] then none
  else if cs.head? = some '+' ∨ cs.head? = some '-' then none
  else if 1 < cs.length ∧ cs.head? = some '0' then none
  else if cs.all Char.isDigit = false then none
  else (Decimal.parseDigits (Decimal.stripPlus cs)).filter fun n ↦ decide (n < 2 ^ 32)

def validateClause (clause : List Char) : Bool :=
  if clause = [] then false
  else
    match stripPrefix "kind=".toList clause with
    | some val => (parseDecimalU32 val).any fun n ↦ decide (n ≤ 65535)
    | none =>
      match stripPrefix "created_at<".toList clause with
      | some val => (parseDecimalU32 val).isSome
      | none =>
        match stripPrefix "created_at>".toList clause with
        | some val => (parseDecimalU32 val).isSome
        | none => false

def validateConditions (conditions : String) : Bool :=
  conditions.isEmpty || (conditions.toList.splitOn '&').all validateClause

/-- The `oa` of an envelope, as `parse_envelope` and `load_auth_tag` let it through. -/
structure OwnerAttestation where
  owner : String
  conditions : String
  sig : String
  owner_hex : validateHexField owner 64 = true
  conditions_valid : validateConditions conditions = true
  sig_hex : validateHexField sig 128 = true
deriving DecidableEq

/-- What one signature is about. -/
structure Signed where
  t : UInt64
  oa : Option OwnerAttestation
  payload : Bytes
deriving DecidableEq

def OwnerAttestation.binding (oa : OwnerAttestation) : Bytes :=
  utf8 oa.owner ++ utf8 ":" ++ (utf8 oa.conditions ++ utf8 ":" ++ (utf8 oa.sig ++ utf8 ":"))

def oaBinding : Option OwnerAttestation → Bytes
  | some oa => oa.binding
  | none => []

/-- The bytes `compute_signing_hash` feeds to SHA-256. -/
def signingPreimage (x : Signed) : Bytes :=
  utf8 domainSeparator ++ (utf8 (toString x.t.toNat) ++ utf8 ":" ++ (oaBinding x.oa ++ x.payload))

def computeSigningHash (x : Signed) : Bytes := Sha256.digest (signingPreimage x)

structure Envelope where
  pk : String
  sig : String
  t : UInt64
  oa : Option OwnerAttestation
  pk_hex : validateHexField pk 64 = true
  sig_hex : validateHexField sig 128 = true
  t_le : t.toNat ≤ 4294967295

def Envelope.signed (e : Envelope) (payload : Bytes) : Signed := ⟨e.t, e.oa, payload⟩

/-- `schnorr pk sig message`: the key is on the curve and the signature verifies. -/
abbrev Schnorr := String → String → Bytes → Bool

/-- The owner of an attestation is a key of the curve and not the signer. -/
def Envelope.ownerAllowed (e : Envelope) (publicKey : String → Bool) : Bool :=
  e.oa.all fun oa ↦ publicKey oa.owner && decide (oa.owner ≠ e.pk)

def doVerify (publicKey : String → Bool) (schnorr : Schnorr) (e : Envelope) (payload : Bytes) :
    Bool :=
  e.ownerAllowed publicKey && decide (payload.length ≤ maxPayload) &&
    schnorr e.pk e.sig (computeSigningHash (e.signed payload))

def SignedOnly (schnorr : Schnorr) (pk sig : String) (x : Signed) : Prop :=
  ∀ digest, schnorr pk sig digest = true → digest = computeSigningHash x

/-- Nothing else than `x` can be presented under what was signed for `x`: not to the hash, and,
unless SHA-256 collides on the two, not to a verifier. -/
def CommitsAgainst (x y : Signed) : Prop :=
  (signingPreimage y = signingPreimage x → y = x) ∧
    ((computeSigningHash y = computeSigningHash x → signingPreimage y = signingPreimage x) →
      ∀ publicKey schnorr e payload, e.signed payload = y → SignedOnly schnorr e.pk e.sig x →
        doVerify publicKey schnorr e payload = true → y = x)

/-- The attestation of `x` reads as the start of the payload of `y`, which has none. -/
def Resplit (x y : Signed) : Prop :=
  x.t = y.t ∧ y.oa = none ∧ ∃ oa, x.oa = some oa ∧ y.payload = oa.binding ++ x.payload

theorem utf8EncodeChar_eq {c : Char} (h : c.toNat < 128) :
    String.utf8EncodeChar c = [UInt8.ofNat c.toNat] :=
  String.utf8EncodeChar_eq_singleton (Char.utf8Size_eq_one_iff.mpr (Nat.le_of_lt_succ h))

theorem utf8_eq_map {s : String} (h : ∀ c ∈ s.toList, c.toNat < 128) :
    utf8 s = s.toList.map fun c ↦ UInt8.ofNat c.toNat := by
  rw [utf8, ← String.utf8Encode_toList, List.utf8Encode, List.data_toByteArray,
    List.toList_toArray]
  generalize s.toList = cs at h
  induction cs with
  | nil => rfl
  | cons c cs ih =>
    rw [List.flatMap_cons, utf8EncodeChar_eq (h c List.mem_cons_self),
      ih fun c hc ↦ h c (List.mem_cons_of_mem _ hc)]
    rfl

/-- ASCII, and no colon. -/
def isPlain (c : Char) : Bool := decide (c.toNat < 128) && c != ':'

theorem colon_notMem_utf8 {s : String} (h : ∀ c ∈ s.toList, isPlain c = true) :
    (58 : UInt8) ∉ utf8 s := by
  have hascii : ∀ c ∈ s.toList, c.toNat < 128 ∧ c ≠ ':' := fun c hc ↦ by
    simpa [isPlain] using h c hc
  rw [utf8_eq_map fun c hc ↦ (hascii c hc).1]
  intro hmem
  obtain ⟨c, hc, hbyte⟩ := List.mem_map.mp hmem
  obtain ⟨hlt, hne⟩ := hascii c hc
  apply hne
  have hnat := congrArg UInt8.toNat hbyte
  rw [UInt8.toNat_ofNat', Nat.mod_eq_of_lt (by omega)] at hnat
  exact Char.toNat_inj.mp hnat

theorem isPlain_of_isDigit {c : Char} (h : c.isDigit = true) : isPlain c = true := by
  simp only [Char.isDigit, Bool.and_eq_true, decide_eq_true_eq] at h
  have hle : c.toNat ≤ 57 := h.2
  have hne : c ≠ ':' := by
    rintro rfl
    exact absurd hle (by decide)
  simp only [isPlain, Bool.and_eq_true, decide_eq_true_eq, bne_iff_ne]
  exact ⟨by omega, hne⟩

theorem isPlain_of_isLowerHexDigit {c : Char} (h : Hex.isLowerHexDigit c = true) :
    isPlain c = true := by
  obtain ⟨n, hn, -, rfl⟩ := Hex.digitValue_of_isLowerHexDigit h
  have key : ∀ x : Fin 16, isPlain (Nat.digitChar x) = true := by decide
  exact key ⟨n, hn⟩

theorem isPlain_of_validateHexField {val : String} {expectedLen : ℕ}
    (h : validateHexField val expectedLen = true) : ∀ c ∈ val.toList, isPlain c = true := by
  intro c hc
  rw [validateHexField, Bool.and_eq_true, List.all_eq_true] at h
  exact isPlain_of_isLowerHexDigit (h.2 c hc)

section Conditions

variable {P : Char → Prop}

theorem forall_of_parseDecimalU32 (hdigit : ∀ c, c.isDigit = true → P c) {cs : List Char}
    (h : (parseDecimalU32 cs).isSome = true) : ∀ c ∈ cs, P c := by
  have hall : cs.all Char.isDigit = true := by
    by_contra hnot
    rw [Bool.not_eq_true] at hnot
    simp only [parseDecimalU32, hnot] at h
    split_ifs at h <;> simp at h
  exact fun c hc ↦ hdigit c (List.all_eq_true.mp hall c hc)

theorem forall_of_stripPrefix {front cs val : List Char} (h : stripPrefix front cs = some val)
    (hfront : ∀ c ∈ front, P c) (hval : ∀ c ∈ val, P c) : ∀ c ∈ cs, P c := by
  rw [stripPrefix] at h
  split_ifs at h with hprefix
  obtain ⟨tail, rfl⟩ := List.isPrefixOf_iff_prefix.mp hprefix
  cases h
  rw [List.drop_left] at hval
  intro c hc
  exact (List.mem_append.mp hc).elim (hfront c) (hval c)

def conditionMarks : List Char := "kind=created_at<>&".toList

theorem forall_of_validateClause (hdigit : ∀ c, c.isDigit = true → P c)
    (hmark : ∀ c ∈ conditionMarks, P c) {clause : List Char} (h : validateClause clause = true) :
    ∀ c ∈ clause, P c := by
  have hfront {front : List Char} (hsub : front.all (· ∈ conditionMarks) = true) :
      ∀ c ∈ front, P c :=
    fun c hc ↦ hmark c (List.all_iff_forall_prop.mp hsub c hc)
  rw [validateClause] at h
  split_ifs at h
  split at h
  · next val hstrip =>
    have hsome : (parseDecimalU32 val).isSome = true := by
      cases hparse : parseDecimalU32 val with
      | none => simp [hparse] at h
      | some n => rfl
    exact forall_of_stripPrefix hstrip (hfront (by decide))
      (forall_of_parseDecimalU32 hdigit hsome)
  · split at h
    · next val hstrip =>
      exact forall_of_stripPrefix hstrip (hfront (by decide))
        (forall_of_parseDecimalU32 hdigit h)
    · split at h
      · next val hstrip =>
        exact forall_of_stripPrefix hstrip (hfront (by decide))
          (forall_of_parseDecimalU32 hdigit h)
      · cases h

theorem forall_of_validateConditions (hdigit : ∀ c, c.isDigit = true → P c)
    (hmark : ∀ c ∈ conditionMarks, P c) {conditions : String}
    (h : validateConditions conditions = true) : ∀ c ∈ conditions.toList, P c := by
  intro c hc
  rw [validateConditions, Bool.or_eq_true] at h
  rcases h with h | h
  · rw [String.isEmpty_iff.mp h] at hc
    cases hc
  · rcases mem_splitOn_or '&' hc with rfl | ⟨clause, hclause, hc⟩
    · exact hmark '&' (by decide)
    · exact forall_of_validateClause hdigit hmark (List.all_eq_true.mp h clause hclause) c hc

theorem isPlain_of_validateConditions {conditions : String}
    (h : validateConditions conditions = true) : ∀ c ∈ conditions.toList, isPlain c = true :=
  forall_of_validateConditions (fun _ ↦ isPlain_of_isDigit)
    (List.all_iff_forall_prop.mp (by decide)) h

end Conditions

theorem field_inj {a b : String} (ha : ∀ c ∈ a.toList, isPlain c = true)
    (hb : ∀ c ∈ b.toList, isPlain c = true) {rest rest' : Bytes}
    (h : utf8 a ++ utf8 ":" ++ rest = utf8 b ++ utf8 ":" ++ rest') : a = b ∧ rest = rest' := by
  have hcolon : utf8 ":" = [58] := rfl
  rw [hcolon, List.append_assoc, List.append_assoc] at h
  obtain ⟨hfield, hrest⟩ := append_cons_cancel (colon_notMem_utf8 ha) (colon_notMem_utf8 hb) h
  exact ⟨utf8_injective hfield, hrest⟩

theorem toString_inj {a b : ℕ} (h : toString a = toString b) : a = b := by
  have hdigits := congrArg String.toList h
  rw [Decimal.toList_toString, Decimal.toList_toString] at hdigits
  have hparse := congrArg Decimal.parseDigits hdigits
  rw [Decimal.parseDigits_toDigits, Decimal.parseDigits_toDigits] at hparse
  exact Option.some.inj hparse

theorem isPlain_of_mem_toString {n : ℕ} : ∀ c ∈ (toString n).toList, isPlain c = true := by
  intro c hc
  rw [Decimal.toList_toString] at hc
  exact isPlain_of_isDigit (Nat.isDigit_of_mem_toDigits (by decide) (by decide) hc)

theorem OwnerAttestation.binding_inj {oa oa' : OwnerAttestation} {p p' : Bytes}
    (h : oa.binding ++ p = oa'.binding ++ p') : oa = oa' ∧ p = p' := by
  simp only [OwnerAttestation.binding, List.append_assoc] at h
  simp only [← List.append_assoc (utf8 _) (utf8 ":")] at h
  obtain ⟨howner, h⟩ := field_inj (isPlain_of_validateHexField oa.owner_hex)
    (isPlain_of_validateHexField oa'.owner_hex) h
  obtain ⟨hconditions, h⟩ := field_inj (isPlain_of_validateConditions oa.conditions_valid)
    (isPlain_of_validateConditions oa'.conditions_valid) h
  obtain ⟨hsig, hp⟩ := field_inj (isPlain_of_validateHexField oa.sig_hex)
    (isPlain_of_validateHexField oa'.sig_hex) h
  cases oa
  cases oa'
  cases howner
  cases hconditions
  cases hsig
  exact ⟨rfl, hp⟩

theorem signingPreimage_eq_iff {x y : Signed} :
    signingPreimage x = signingPreimage y ↔
      x.t = y.t ∧ oaBinding x.oa ++ x.payload = oaBinding y.oa ++ y.payload := by
  constructor
  · intro h
    have h := List.append_cancel_left h
    obtain ⟨ht, hrest⟩ := field_inj isPlain_of_mem_toString isPlain_of_mem_toString h
    exact ⟨UInt64.toNat_inj.mp (toString_inj ht), hrest⟩
  · rintro ⟨ht, hrest⟩
    rw [signingPreimage, signingPreimage, ht, hrest]

/-- Two triples are hashed alike only if they are equal or one is the other re-split. -/
theorem eq_or_resplit {x y : Signed} (h : signingPreimage x = signingPreimage y) :
    x = y ∨ Resplit x y ∨ Resplit y x := by
  obtain ⟨t, oa, payload⟩ := x
  obtain ⟨t', oa', payload'⟩ := y
  obtain ⟨rfl, hrest⟩ := signingPreimage_eq_iff.mp h
  cases oa with
  | none =>
    cases oa' with
    | none =>
      obtain rfl : payload = payload' := hrest
      exact .inl rfl
    | some oa' => exact .inr (.inr ⟨rfl, rfl, oa', rfl, hrest⟩)
  | some oa =>
    cases oa' with
    | none => exact .inr (.inl ⟨rfl, rfl, oa, rfl, hrest.symm⟩)
    | some oa' =>
      obtain ⟨rfl, rfl⟩ := OwnerAttestation.binding_inj hrest
      exact .inl rfl

theorem Resplit.signingPreimage_eq {x y : Signed} (h : Resplit x y) :
    signingPreimage x = signingPreimage y := by
  obtain ⟨ht, hnone, oa, hoa, hpayload⟩ := h
  apply signingPreimage_eq_iff.mpr
  rw [hoa, hnone, hpayload]
  exact ⟨ht, rfl⟩

theorem Resplit.ne {x y : Signed} (h : Resplit x y) : x ≠ y := by
  obtain ⟨-, hnone, oa, hoa, -⟩ := h
  rintro rfl
  rw [hoa] at hnone
  cases hnone

/-- A signature commits to its triple unless an attestation can pass for the start of a payload. -/
theorem commitsAgainst_iff (x y : Signed) :
    CommitsAgainst x y ↔ ¬Resplit x y ∧ ¬Resplit y x := by
  constructor
  · intro h
    refine ⟨fun hsplit ↦ ?_, fun hsplit ↦ ?_⟩
    · exact hsplit.ne (h.1 hsplit.signingPreimage_eq.symm).symm
    · exact hsplit.ne (h.1 hsplit.signingPreimage_eq)
  · rintro ⟨hxy, hyx⟩
    have hinj : signingPreimage y = signingPreimage x → y = x := fun heq ↦ by
      rcases eq_or_resplit heq with heq | h | h
      · exact heq
      · exact absurd h hyx
      · exact absurd h hxy
    refine ⟨hinj, fun hfree publicKey schnorr e payload hy honly hverify ↦ ?_⟩
    rw [doVerify, Bool.and_eq_true, hy] at hverify
    exact hinj (hfree (honly _ hverify.2))

theorem doVerify_resplit {x y : Signed} (h : Resplit x y ∨ Resplit y x)
    {publicKey : String → Bool} {schnorr : Schnorr} {e : Envelope} {payload : Bytes}
    (hy : e.signed payload = y) (howner : e.ownerAllowed publicKey = true)
    (hlen : payload.length ≤ maxPayload)
    (hsig : schnorr e.pk e.sig (computeSigningHash x) = true) :
    doVerify publicKey schnorr e payload = true := by
  have heq : signingPreimage y = signingPreimage x := by
    rcases h with h | h
    · exact h.signingPreimage_eq.symm
    · exact h.signingPreimage_eq
  rw [doVerify, Bool.and_eq_true, Bool.and_eq_true, decide_eq_true_eq, hy, computeSigningHash, heq]
  exact ⟨⟨howner, hlen⟩, hsig⟩

theorem validateHexField_replicate {c : Char} (h : Hex.isLowerHexDigit c = true) (n : ℕ) :
    validateHexField (String.ofList (List.replicate n c)) n = true := by
  rw [validateHexField, String.toList_ofList, Bool.and_eq_true, decide_eq_true_eq, List.all_eq_true]
  exact ⟨List.length_replicate, fun d hd ↦ List.eq_of_mem_replicate hd ▸ h⟩

def ownerOfMain : OwnerAttestation where
  owner := String.ofList (List.replicate 64 'a')
  conditions := "kind=1"
  sig := String.ofList (List.replicate 128 'b')
  owner_hex := validateHexField_replicate (by decide) 64
  conditions_valid := by decide
  sig_hex := validateHexField_replicate (by decide) 128

def attestedCommit : Signed := ⟨1700000000, some ownerOfMain, utf8 "tree"⟩

def strippedCommit : Signed := ⟨1700000000, none, ownerOfMain.binding ++ utf8 "tree"⟩

theorem length_utf8 {s : String} (h : ∀ c ∈ s.toList, isPlain c = true) :
    (utf8 s).length = s.toList.length := by
  have hascii : ∀ c ∈ s.toList, c.toNat < 128 := fun c hc ↦ by
    have hplain := h c hc
    simp only [isPlain, Bool.and_eq_true, decide_eq_true_eq] at hplain
    exact hplain.1
  rw [utf8_eq_map hascii, List.length_map]

theorem length_utf8_of_validateHexField {val : String} {expectedLen : ℕ}
    (h : validateHexField val expectedLen = true) : (utf8 val).length = expectedLen := by
  rw [length_utf8 (isPlain_of_validateHexField h)]
  rw [validateHexField, Bool.and_eq_true, decide_eq_true_eq] at h
  exact h.1

theorem length_strippedCommit : strippedCommit.payload.length ≤ maxPayload := by
  have howner := length_utf8_of_validateHexField ownerOfMain.owner_hex
  have hsig := length_utf8_of_validateHexField ownerOfMain.sig_hex
  have hconditions : (utf8 ownerOfMain.conditions).length = 6 := rfl
  have hcolon : (utf8 ":").length = 1 := rfl
  have htree : (utf8 "tree").length = 4 := rfl
  have hpayload : strippedCommit.payload = ownerOfMain.binding ++ utf8 "tree" := rfl
  have hmax : maxPayload = 104857600 := by norm_num [maxPayload]
  simp only [hpayload, hmax, OwnerAttestation.binding, List.length_append, howner, hsig,
    hconditions, hcolon, htree]
  norm_num

/-- Whoever holds the signature of a delegated commit presents it without its owner. -/
theorem attestation_stripped :
    ¬CommitsAgainst attestedCommit strippedCommit ∧
      ∀ publicKey schnorr e payload, e.signed payload = strippedCommit →
        schnorr e.pk e.sig (computeSigningHash attestedCommit) = true →
          doVerify publicKey schnorr e payload = true := by
  have h : Resplit attestedCommit strippedCommit := ⟨rfl, rfl, ownerOfMain, rfl, rfl⟩
  refine ⟨fun hcommits ↦ ?_, fun publicKey schnorr e payload he hsig ↦ ?_⟩
  · exact h.ne (hcommits.1 h.signingPreimage_eq.symm).symm
  · have howner : e.ownerAllowed publicKey = true := by
      rw [Envelope.ownerAllowed, show e.oa = none from congrArg Signed.oa he, Option.all_none]
    apply doVerify_resplit (.inl h) he howner _ hsig
    have hpayload := congrArg Signed.payload he
    rw [show payload = strippedCommit.payload from hpayload]
    exact length_strippedCommit

end Buzz.GitSign
