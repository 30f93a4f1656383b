import Buzz.Lib.Collections
import Buzz.Lib.Jsonb
import Buzz.Lib.Sha256
import Buzz.Nostr.Event

namespace Buzz.Audit

open Buzz.Lib Buzz.Lib.Json Buzz.Lib.Sha256 Buzz.Nostr

abbrev Bytes := List UInt8

/-- The libraries an audit entry passes through: how floats and instants are written, and the
key of the advisory lock of a community. -/
structure Codec where
  floats : FloatText
  toRfc3339 : ℤ → String
  lockKey : CommunityId → UInt64

inductive AuditAction
  | eventCreated
  | eventDeleted
  | channelCreated
  | channelUpdated
  | channelDeleted
  | memberAdded
  | memberRemoved
  | authSuccess
  | authFailure
  | rateLimitExceeded
  | mediaUploaded
deriving DecidableEq, Repr

namespace AuditAction

def asStr : AuditAction → String
  | eventCreated => "event_created"
  | eventDeleted => "event_deleted"
  | channelCreated => "channel_created"
  | channelUpdated => "channel_updated"
  | channelDeleted => "channel_deleted"
  | memberAdded => "member_added"
  | memberRemoved => "member_removed"
  | authSuccess => "auth_success"
  | authFailure => "auth_failure"
  | rateLimitExceeded => "rate_limit_exceeded"
  | mediaUploaded => "media_uploaded"

def all : List AuditAction :=
  [eventCreated, eventDeleted, channelCreated, channelUpdated, channelDeleted, memberAdded,
    memberRemoved, authSuccess, authFailure, rateLimitExceeded, mediaUploaded]

def fromStr (s : String) : Option AuditAction := all.find? fun a ↦ a.asStr == s

theorem fromStr_asStr (a : AuditAction) : fromStr a.asStr = some a := by
  cases a <;> decide

end AuditAction

/-- The instant is in nanoseconds since the epoch, UTC. -/
structure AuditEntry where
  communityId : CommunityId
  seq : ℤ
  hash : Bytes
  prevHash : Option Bytes
  action : AuditAction
  actorPubkey : Option Bytes
  objectId : Option String
  detail : Json
  createdAt : ℤ

/-- JSON context as the server holds it: no object repeats a key, and every number is a 64-bit
integer or a finite float. -/
structure Detail (k : Codec) where
  json : Json
  keyed : json.Keyed
  written : ∀ t ∈ json.numbers, k.floats.Written t

structure NewAuditEntry (k : Codec) where
  communityId : CommunityId
  action : AuditAction
  actorPubkey : Option Bytes
  objectId : Option String
  detail : Detail k

def genesisHash : Bytes := List.replicate 32 0

/-- `trunc_subsecs(6)`. -/
def toStoragePrecision (createdAt : ℤ) : ℤ := createdAt - createdAt % 1000

def utf8 (s : String) : Bytes := s.toByteArray.data.toList

def uuidBytes (c : CommunityId) : Bytes := bigEndian 16 c.val

def seqBytes (seq : ℤ) : Bytes := bigEndian 8 (seq % 2 ^ 64).toNat

def optionBytes : Option Bytes → Bytes
  | some bytes => 1 :: bytes
  | none => [0]

def canonicalJson (value : Json) : Bytes := utf8 (String.ofList value.canonical.render)

/-- Who acted on what, and the context: the part of the pre-image without fixed widths. -/
def contextBytes (actorPubkey : Option Bytes) (objectId : Option String) (detail : Json) : Bytes :=
  optionBytes actorPubkey ++ optionBytes (objectId.map utf8) ++ canonicalJson detail

def preimage (k : Codec) (entry : AuditEntry) : Bytes :=
  uuidBytes entry.communityId ++ seqBytes entry.seq ++
    utf8 (k.toRfc3339 (toStoragePrecision entry.createdAt)) ++ utf8 entry.action.asStr ++
    contextBytes entry.actorPubkey entry.objectId entry.detail ++ entry.prevHash.getD genesisHash

def computeHash (k : Codec) (entry : AuditEntry) : Bytes := digest (preimage k entry)

theorem utf8_injective : Function.Injective utf8 := by
  intro s t h
  have hdata : s.toByteArray.data = t.toByteArray.data := Array.toList_inj.mp h
  exact String.toByteArray_inj.mp (ByteArray.ext hdata)

theorem uuidBytes_injective : Function.Injective uuidBytes := by
  intro c c' h
  have hpow : (256 : ℕ) ^ 16 = 2 ^ 128 := by norm_num
  exact Fin.ext (bigEndian_injective (by rw [hpow]; exact c.isLt) (by rw [hpow]; exact c'.isLt) h)

theorem seqBytes_injective {a b : ℤ} (ha : 0 ≤ a ∧ a < 2 ^ 63) (hb : 0 ≤ b ∧ b < 2 ^ 63)
    (h : seqBytes a = seqBytes b) : a = b := by
  have hpow : (256 : ℕ) ^ 8 = 2 ^ 64 := by norm_num
  have hnat : (a % 2 ^ 64).toNat = (b % 2 ^ 64).toNat :=
    bigEndian_injective (by rw [hpow]; omega) (by rw [hpow]; omega) h
  omega

theorem toStoragePrecision_of_micros (micros : ℤ) :
    toStoragePrecision (1000 * micros) = 1000 * micros := by
  rw [toStoragePrecision, Int.mul_emod_right, sub_zero]

theorem toStoragePrecision_idem (t : ℤ) :
    toStoragePrecision (toStoragePrecision t) = toStoragePrecision t := by
  simp only [toStoragePrecision]
  omega

theorem canonicalJson_inj {v w : Json} (hv : v.Keyed) (hw : w.Keyed)
    (hnumv : ∀ t ∈ v.numbers, NumberLexeme t) (hnumw : ∀ t ∈ w.numbers, NumberLexeme t) :
    canonicalJson v = canonicalJson w ↔ v.canonical = w.canonical := by
  constructor
  · intro h
    have htext := congrArg String.toList (utf8_injective h)
    rw [String.toList_ofList, String.toList_ofList] at htext
    exact render_canonical_injective hv hw hnumv hnumw htext
  · intro h
    rw [canonicalJson, canonicalJson, h]

/-- `panicked` is a column that cannot be decoded. -/
inductive AuditError
  | chainViolation (seq : ℤ)
  | hashMismatch (seq : ℤ)
  | unknownAction
  | panicked
deriving DecidableEq, Repr

/-- A row of `audit_log`, the instant in microseconds since the epoch. -/
structure AuditRow where
  communityId : CommunityId
  seq : ℤ
  hash : Bytes
  prevHash : Option Bytes
  action : String
  actorPubkey : Option Bytes
  objectId : Option String
  detail : Option Json
  createdAt : ℤ

abbrev AuditLog := List AuditRow

variable (k : Codec)

def rowOf (entry : AuditEntry) : AuditRow where
  communityId := entry.communityId
  seq := entry.seq
  hash := entry.hash
  prevHash := entry.prevHash
  action := entry.action.asStr
  actorPubkey := entry.actorPubkey
  objectId := entry.objectId
  detail := some entry.detail.toJsonb
  createdAt := entry.createdAt / 1000

def rowToAuditEntry (row : AuditRow) : Except AuditError AuditEntry :=
  match AuditAction.fromStr row.action with
  | none => .error .unknownAction
  | some action =>
    match row.detail.bind k.floats.fromJsonb with
    | none => .error .panicked
    | some detail => .ok
      { communityId := row.communityId, seq := row.seq, hash := row.hash, prevHash := row.prevHash,
        action, actorPubkey := row.actorPubkey, objectId := row.objectId, detail,
        createdAt := 1000 * row.createdAt }

def chainHead (log : AuditLog) (c : CommunityId) : Option AuditRow :=
  (log.filter (·.communityId = c)).foldl
    (fun best row ↦
      match best with
      | none => some row
      | some b => if b.seq < row.seq then some row else some b)
    none

def buildEntry (head : Option AuditRow) (entry : NewAuditEntry k) (now : ℤ) : AuditEntry :=
  let built : AuditEntry :=
    { communityId := entry.communityId, seq := (head.map AuditRow.seq).getD 0 + 1, hash := [],
      prevHash := head.map AuditRow.hash, action := entry.action,
      actorPubkey := entry.actorPubkey, objectId := entry.objectId,
      detail := entry.detail.json, createdAt := toStoragePrecision now }
  { built with hash := computeHash k built }

/-- What the columns and the constraints of `audit_log` take. -/
def insertable (log : AuditLog) (entry : AuditEntry) : Bool :=
  decide (entry.seq < 2 ^ 63) && !(entry.objectId.any hasNul) &&
    !(entry.detail.strings.any hasNul) &&
    log.all fun row ↦ row.communityId ≠ entry.communityId ||
      (row.seq ≠ entry.seq && row.hash ≠ entry.hash)

def between (fromSeq toSeq seq : ℤ) : Bool := decide (fromSeq ≤ seq ∧ seq ≤ toSeq)

def readRange (log : AuditLog) (c : CommunityId) (fromSeq toSeq : ℤ) : List AuditRow :=
  ((log.filter (·.communityId = c)).filter fun row ↦ between fromSeq toSeq row.seq).insertionSort
    fun a b ↦ a.seq ≤ b.seq

def verifyRows (expectedPrev : Option Bytes) : List AuditRow → Except AuditError Bool
  | [] => .ok true
  | row :: rows =>
    match rowToAuditEntry k row with
    | .error e => .error e
    | .ok entry =>
      if expectedPrev.isSome ∧ entry.prevHash ≠ expectedPrev then
        .error (.chainViolation entry.seq)
      else if computeHash k entry ≠ entry.hash then .error (.hashMismatch entry.seq)
      else verifyRows (some entry.hash) rows

def verifyChain (log : AuditLog) (c : CommunityId) (fromSeq toSeq : ℤ) :
    Except AuditError Bool :=
  let rows := readRange log c fromSeq toSeq
  if rows.isEmpty then .ok false else verifyRows k none rows

/-- Each entry names the hash of the one before it; the first, `prev` if there is one. -/
def Links (prev : Option Bytes) : List AuditEntry → Prop
  | [] => True
  | entry :: entries =>
    (prev.isSome = true → entry.prevHash = prev) ∧ Links (some entry.hash) entries

variable {k}

/-- What the verifier accepts: rows that decode to a linked list of correctly hashed entries. -/
theorem verifyRows_ok_iff {prev : Option Bytes} {rows : List AuditRow} :
    verifyRows k prev rows = .ok true ↔
      ∃ entries, List.Forall₂ (fun row entry ↦ rowToAuditEntry k row = .ok entry) rows entries ∧
        Links prev entries ∧ ∀ entry ∈ entries, computeHash k entry = entry.hash := by
  induction rows generalizing prev with
  | nil =>
    refine ⟨fun _ ↦ ⟨[], .nil, trivial, nofun⟩, fun _ ↦ rfl⟩
  | cons row rows ih =>
    rw [verifyRows]
    constructor
    · intro h
      split at h
      · cases h
      · next entry hentry =>
        split at h
        · cases h
        · next hlink =>
          split at h
          · cases h
          · next hhash =>
            obtain ⟨entries, hrows, hlinks, hhashes⟩ := ih.mp h
            rw [not_not] at hhash
            refine ⟨entry :: entries, .cons hentry hrows, ⟨fun hprev ↦ ?_, hlinks⟩, ?_⟩
            · by_contra hne
              exact hlink ⟨hprev, hne⟩
            · intro e he
              rcases List.mem_cons.mp he with rfl | he
              · exact hhash
              · exact hhashes e he
    · intro ⟨entries, hrows, hlinks, hhashes⟩
      cases hrows with
      | @cons _ entry _ entries hentry hrows =>
        obtain ⟨hlink, hlinks⟩ := hlinks
        have hnot : ¬(prev.isSome = true ∧ entry.prevHash ≠ prev) := fun h ↦ h.2 (hlink h.1)
        have hhash := hhashes entry List.mem_cons_self
        simp only [hentry, if_neg hnot, if_neg (not_not.mpr hhash)]
        exact ih.mpr ⟨entries, hrows, hlinks, fun e he ↦ hhashes e (List.mem_cons_of_mem _ he)⟩

theorem between_iff {fromSeq toSeq seq : ℤ} :
    between fromSeq toSeq seq = true ↔ fromSeq ≤ seq ∧ seq ≤ toSeq :=
  decide_eq_true_iff

theorem mem_readRange {log : AuditLog} {c : CommunityId} {fromSeq toSeq : ℤ} {row : AuditRow} :
    row ∈ readRange log c fromSeq toSeq ↔
      row ∈ log ∧ row.communityId = c ∧ fromSeq ≤ row.seq ∧ row.seq ≤ toSeq := by
  rw [readRange, List.mem_insertionSort, List.mem_filter, List.mem_filter, between_iff,
    decide_eq_true_eq, and_assoc]

/-- Verification succeeds on the rows of a non-empty range. -/
theorem verifyChain_ok_iff {log : AuditLog} {c : CommunityId} {fromSeq toSeq : ℤ} :
    verifyChain k log c fromSeq toSeq = .ok true ↔
      readRange log c fromSeq toSeq ≠ [] ∧
        verifyRows k none (readRange log c fromSeq toSeq) = .ok true := by
  rw [verifyChain]
  cases hrows : readRange log c fromSeq toSeq with
  | nil => exact ⟨nofun, fun h ↦ absurd rfl h.1⟩
  | cons row rows => exact ⟨fun h ↦ ⟨List.cons_ne_nil _ _, h⟩, fun h ↦ h.2⟩

end Buzz.Audit
