import Buzz.Git.Manifest
import Buzz.Lib.Collections
import Buzz.Nostr.Event

namespace Buzz.Git

open Buzz.Lib Buzz.Lib.Hex Buzz.Nostr

inductive S3Error
  | httpFailWithBody (status : ℕ) (body : String)
  | transport (message : String)

inductive StoreError
  | notFound (key : String)
  | objectTooLarge (key : String) (size max : ℕ)
  | digestMismatch (key expected actual : String)
  | backend (error : S3Error)

inductive HydrateError
  | invalidPointer
  | manifest (error : ManifestError)
  | store (error : StoreError)
  | hydrate (message : String)
  | resourceLimit (message : String)

inductive CasError
  | conflict (winnerManifest : Manifest) (winnerManifestKey : String)
  | manifestReadFailed (message : String)
  | manifestInvalid (error : ManifestError)
  | backend (error : StoreError)
  | packCapture (message : String)
  | resourceLimit (message : String)

abbrev ETag := String

inductive Precond
  | ifNoneMatchStar
  | ifMatch (etag : ETag)

inductive CasOutcome
  | won (etag : ETag)
  | lostRace

structure ResponseData where
  status : ℕ
  etag : Option ETag

def isSuccessStatus (status : ℕ) : Bool := 200 ≤ status && status < 300

def classifyCas : Except S3Error ResponseData → Except StoreError CasOutcome
  | .ok resp =>
    if isSuccessStatus resp.status then
      match resp.etag with
      | some etag => .ok (.won etag)
      | none => .error (.backend (.httpFailWithBody resp.status
          ("CAS succeeded but response missing ETag header " ++
            "(backend does not satisfy ETag-token consistency)")))
    else .error (.backend (.httpFailWithBody resp.status "unexpected status"))
  | .error (.httpFailWithBody status body) =>
    if status = 412 then .ok .lostRace else .error (.backend (.httpFailWithBody status body))
  | .error e => .error (.backend e)

/-- The hash behind content keys, and the tag that the object store derives from a body. -/
structure Backend where
  sha256 : String → Fin (2 ^ 256)
  etagOf : String → ETag

abbrev Objects := Map String String

section Load

variable (b : Backend)

def digestOf (text : String) : String := hexEncode (b.sha256 text)

def contentKey (dir text : String) : String := dir ++ "/" ++ digestOf b text

def getObject (objects : Objects) (key : String) : Except StoreError String :=
  match objects.lookup key with
  | some text => .ok text
  | none => .error (.notFound key)

def verifyDigest (key expected text : String) : Except StoreError String :=
  if digestOf b text ≠ expected then .error (.digestMismatch key expected (digestOf b text))
  else .ok text

def getVerified (objects : Objects) (key expected : String) : Except StoreError String :=
  match getObject objects key with
  | .ok text => verifyDigest b key expected text
  | .error e => .error e

def getLimited (objects : Objects) (key : String) (max : ℕ) : Except StoreError String :=
  match getObject objects key with
  | .ok text => if text.utf8ByteSize > max then .error (.objectTooLarge key text.utf8ByteSize max)
      else .ok text
  | .error e => .error e

def maxManifestBytes : ℕ := 4 * 1024 * 1024

def getVerifiedLimited (objects : Objects) (key expected : String) (max : ℕ) :
    Except HydrateError String :=
  match getLimited objects key max with
  | .ok text =>
    match verifyDigest b key expected text with
    | .ok text => .ok text
    | .error e => .error (.store e)
  | .error (.objectTooLarge _ size max) => .error (.resourceLimit ("object " ++ key ++ " is " ++
      toString size ++ " bytes (max " ++ toString max ++ ")"))
  | .error e => .error (.store e)

def isWhiteSpace (c : Char) : Bool :=
  (0x09 ≤ c.toNat && c.toNat ≤ 0x0d) || c.toNat == 0x20 || c.toNat == 0x85 || c.toNat == 0xa0 ||
    c.toNat == 0x1680 || (0x2000 ≤ c.toNat && c.toNat ≤ 0x200a) || c.toNat == 0x2028 ||
    c.toNat == 0x2029 || c.toNat == 0x202f || c.toNat == 0x205f || c.toNat == 0x3000

def trim (s : String) : String :=
  String.ofList (((s.toList.dropWhile isWhiteSpace).reverse.dropWhile isWhiteSpace).reverse)

def isHexDigest (s : String) : Bool := s.length == 64 && s.toList.all isHexDigit

/-- The pointer that a push starts from. -/
structure ParentState where
  ifMatch : Option ETag
  parentDigest : Option String
  parent : Manifest

def ParentState.fresh : ParentState :=
  ⟨none, none, ⟨manifestVersion, "", ∅, [], none⟩⟩

def ParentState.fromLoaded (etag : ETag) (digest : String) (parent : Manifest) : ParentState :=
  ⟨some etag, some digest, parent⟩

/-- `load_pointer` after its first request, which gave the tag and the body of the pointer. -/
def loadManifest (objects : Objects) (etag : ETag) (body : String) :
    Except HydrateError ParentState :=
  let digest := trim body
  if !isHexDigest digest then .error .invalidPointer
  else
    match getVerifiedLimited b objects ("manifests/" ++ digest) digest maxManifestBytes with
    | .error e => .error e
    | .ok text =>
      match Manifest.fromBytes text with
      | .error e => .error (.manifest e)
      | .ok manifest =>
        match manifest.validate with
        | some e => .error (.manifest e)
        | none => .ok (.fromLoaded etag digest manifest)

def readWinnerAfterConflict (objects : Objects) (pointer : Option String) : CasError :=
  match pointer with
  | none => .manifestReadFailed "pointer vanished after LostRace (no-delete rule violated)"
  | some body =>
    let digest := trim body
    if !isHexDigest digest then
      .manifestReadFailed ("winner pointer body is not a 64-char hex digest (got " ++
        toString digest.utf8ByteSize ++ " chars)")
    else
      match getVerified b objects ("manifests/" ++ digest) digest with
      | .error (.digestMismatch _ _ _) => .manifestReadFailed "winner manifest digest mismatch"
      | .error (.notFound _) => .manifestReadFailed "winner pointer names missing manifest"
      | .error e => .backend e
      | .ok text =>
        match Manifest.fromBytes text with
        | .error _ => .manifestReadFailed "parse winner manifest"
        | .ok winner => .conflict winner ("manifests/" ++ digest)

end Load

section Compose

structure RefCommand where
  name : String
  new : Option (Fin (2 ^ 160))

def hexOid (oid : Fin (2 ^ 160)) : String := String.ofList (hexDigits 40 oid.val)

def RefCommand.update (command : RefCommand) : String × Option String :=
  (command.name, command.new.map hexOid)

def applyCommand (refs : Refs) (command : RefCommand) : Refs :=
  match command.new with
  | some oid => refs.insert command.name (hexOid oid)
  | none => refs.erase command.name

def afterReceivePack (refs : Refs) (commands : List RefCommand) : Refs :=
  commands.foldl applyCommand refs

def isSha1Hex (oid : String) : Bool := oid.length == 40 && oid.toList.all isHexDigit

/-- A line of `for-each-ref`; a malformed object id is skipped. -/
def snapshotLine (refs : Refs) (line : String × String) : Except CasError Refs :=
  if !isSha1Hex line.2 then .ok refs
  else if refs.len ≥ maxManifestRefs ∧ !refs.containsKey line.1 then
    .error (.resourceLimit ("workspace contains more than " ++ toString maxManifestRefs ++ " refs"))
  else .ok (refs.insert line.1 line.2)

def snapshotRefs (lines : List (String × String)) : Except CasError Refs :=
  lines.foldlM snapshotLine ∅

def isBranchName (name : String) : Bool := "refs/heads/".toList.isPrefixOf name.toList

def isPublishedBranch (refs : Refs) (name : String) : Bool :=
  isBranchName name && refs.containsKey name

def resolvePublishedHead (refs : Refs) (observedHead parentHead : String) : String :=
  if isPublishedBranch refs observedHead then observedHead
  else if isPublishedBranch refs parentHead then parentHead
  else
    match ["refs/heads/main", "refs/heads/master"].find? refs.containsKey with
    | some preferred => preferred
    | none =>
      match refs.keys.find? isBranchName with
      | some branch => branch
      | none => if !observedHead.isEmpty then observedHead else parentHead

def composeAfter (parent : Manifest) (parentDigest : Option String) (head : String) (refs : Refs)
    (newPackKey : Option String) : Manifest :=
  let packs :=
    match newPackKey with
    | some key => if parent.packs.any (· == key) then parent.packs else parent.packs ++ [key]
    | none => parent.packs
  ⟨manifestVersion, head, refs, sortDedup packs, parentDigest⟩

def composeCompactedAfter (parentDigest : Option String) (head : String) (refs : Refs)
    (compactedPackKeys : List String) : Manifest :=
  ⟨manifestVersion, head, refs, sortDedup compactedPackKeys, parentDigest⟩

def shouldCompact (parentPackCount threshold : ℕ) : Bool := parentPackCount ≥ threshold

/-- The outcomes of packing: the keys of a compaction, the size of a delta pack if there is
anything new, and the key it was stored under. -/
structure PackWork where
  compaction : Except CasError (List String)
  delta : Except CasError (Option ℕ)
  packKey : Except StoreError String

structure PublishLimits where
  parentHydratedBytes : ℕ
  maxRepoBytes : ℕ

def compactionRequired (packsBefore : ℕ) (failure : Option CasError) : CasError :=
  failure.getD (.resourceLimit ("repository already names " ++ toString packsBefore ++
    " packs and compaction failed"))

def composeDelta (parent : ParentState) (limits : PublishLimits) (work : PackWork)
    (compactionFailure : Option CasError) (refsAfter : Refs) (head : String) :
    Except CasError Manifest :=
  let compose := composeAfter parent.parent parent.parentDigest head refsAfter
  match work.delta with
  | .error e => .error e
  | .ok none => .ok (compose none)
  | .ok (some bytes) =>
    let packsBefore := parent.parent.packs.length
    let totalBytes := limits.parentHydratedBytes + bytes
    if packsBefore ≥ maxManifestPacks then .error (compactionRequired packsBefore compactionFailure)
    else if totalBytes ≥ 2 ^ 64 then .error (.resourceLimit "repo byte count overflowed u64")
    else if totalBytes > limits.maxRepoBytes then
      .error (.resourceLimit ("repo would need " ++ toString totalBytes ++
        " hydrated bytes (max " ++ toString limits.maxRepoBytes ++ ")"))
    else
      match work.packKey with
      | .error e => .error (.backend e)
      | .ok key => .ok (compose (some key))

def composeManifest (parent : ParentState) (limits : PublishLimits) (work : PackWork)
    (refsAfter : Refs) (head : String) : Except CasError Manifest :=
  if shouldCompact parent.parent.packs.length packCompactionThreshold then
    match work.compaction with
    | .ok keys => .ok (composeCompactedAfter parent.parentDigest head refsAfter keys)
    | .error e => composeDelta parent limits work (some e) refsAfter head
  else composeDelta parent limits work none refsAfter head

/-- `cas_publish_inner` up to the first write of the manifest. -/
def prepareManifest (parent : ParentState) (limits : PublishLimits) (work : PackWork)
    (lines : List (String × String)) (headObserved : String) : Except CasError Manifest :=
  match snapshotRefs lines with
  | .error e => .error e
  | .ok refsAfter =>
    let head := resolvePublishedHead refsAfter headObserved parent.parent.head
    match composeManifest parent limits work refsAfter head with
    | .error e => .error e
    | .ok manifest =>
      match manifest.validate with
      | some e => .error (.manifestInvalid e)
      | none => .ok manifest

def digestFromManifestKey (key : String) : Except CasError String :=
  match stripPrefix "manifests/" key with
  | some digest => .ok digest
  | none => .error (.backend (.backend (.httpFailWithBody 500
      ("put_manifest returned non-standard key: " ++ key))))

def seedManifest : Manifest := ⟨manifestVersion, "refs/heads/main", ∅, [], none⟩

end Compose

section Machine

abbrev PushId := ℕ

inductive PushError
  | hydrate (error : HydrateError)
  | cas (error : CasError)

/-- How far a push, or the announcement of the repository, has come. -/
inductive Phase
  | observed (etag : ETag) (body : String)
  | hydrated (parent : ParentState)
  | received (parent : ParentState) (commands : List RefCommand) (workspace : Refs) (head : String)
  | composed (parent : ParentState) (commands : List RefCommand) (manifest : Manifest)
  | uploaded (parent : ParentState) (commands : List RefCommand) (manifest : Manifest)
      (manifestKey digest : String)
  | rejected
  | failed (error : PushError)
  | lostRace
  | conflict (error : CasError)
  | unclear (error : StoreError)
  | success (manifest : Manifest) (manifestKey : String)
  | seeding (digest : String)
  | seedLost (digest : String)
  | seedFailed
  | seeded

/-- A write of the pointer that took effect; `push` is `none` for an announcement. -/
structure Commit where
  push : Option PushId
  commands : List RefCommand
  manifest : Manifest
  digest : String

/-- The object store of one repository and the pushes to it. `commits` are the manifests that were
ever under the pointer, newest first, and `uploads` the texts given to `put_manifest`. -/
structure RepoState where
  objects : Objects := ∅
  pointer : Option String := none
  pushes : Map PushId Phase := ∅
  commits : List Commit := []
  uploads : List String := []

/-- A step of a push. `applied` tells whether the conditional write took effect, `response` what
the client was told. -/
inductive Action
  | getPointer (push : PushId)
  | getManifest (push : PushId)
  | receivePack (push : PushId) (commands : List RefCommand) (head : String) (ok : Bool)
  | compose (push : PushId) (limits : PublishLimits) (work : PackWork)
  | putManifest (push : PushId)
  | putPointer (push : PushId) (applied : Bool) (response : Except S3Error ResponseData)
  | readWinner (push : PushId)
  | fail (push : PushId) (error : PushError)
  | announce (push : PushId)
  | seedPointer (push : PushId) (applied : Bool) (response : Except S3Error ResponseData)
  | checkSeed (push : PushId)

def Precond.holds (b : Backend) (pointer : Option String) : Precond → Bool
  | .ifNoneMatchStar => pointer.isNone
  | .ifMatch etag => pointer.any fun body ↦ b.etagOf body == etag

/-- A conditional write takes effect only under its precondition, a success status is sent only
when it did, and 412 only when it did not. Any other response leaves the outcome open. -/
def Precond.allows (b : Backend) (pointer : Option String) (precond : Precond) (applied : Bool) :
    Except S3Error ResponseData → Bool
  | .ok resp => (!applied || precond.holds b pointer) && (!isSuccessStatus resp.status || applied)
  | .error (.httpFailWithBody status _) =>
    (!applied || precond.holds b pointer) && !(status == 412 && applied)
  | .error (.transport _) => !applied || precond.holds b pointer

def ParentState.precond (parent : ParentState) : Precond :=
  match parent.ifMatch with
  | some etag => .ifMatch etag
  | none => .ifNoneMatchStar

/-- Before the conditional write. -/
def Phase.isPending : Phase → Bool
  | .observed _ _ | .hydrated _ | .received _ _ _ _ | .composed _ _ _ | .uploaded _ _ _ _ _ => true
  | _ => false

def Phase.mayHavePublished : Phase → Bool
  | .unclear _ | .success _ _ => true
  | _ => false

namespace RepoState

def setPhase (s : RepoState) (push : PushId) (phase : Phase) : RepoState :=
  { s with pushes := AList.insert push phase s.pushes }

/-- `put_manifest`: an object that exists is left alone. -/
def upload (b : Backend) (s : RepoState) (text : String) : RepoState :=
  let key := contentKey b "manifests" text
  { s with
    objects := if key ∈ s.objects then s.objects else AList.insert key text s.objects
    uploads := text :: s.uploads }

def write (s : RepoState) (commit : Commit) : RepoState :=
  { s with pointer := some commit.digest, commits := commit :: s.commits }

end RepoState

def afterPut (manifest : Manifest) (manifestKey : String) :
    Except StoreError CasOutcome → Phase
  | .ok (.won _) => .success manifest manifestKey
  | .ok .lostRace => .lostRace
  | .error e => .unclear e

def afterSeed (digest : String) : Except StoreError CasOutcome → Phase
  | .ok (.won _) => .seeded
  | .ok .lostRace => .seedLost digest
  | .error _ => .seedFailed

def step (b : Backend) (s : RepoState) : Action → Option RepoState
  | .getPointer push =>
    match s.pushes.lookup push, s.pointer with
    | none, none => some (s.setPhase push (.hydrated .fresh))
    | none, some body => some (s.setPhase push (.observed (b.etagOf body) body))
    | _, _ => none
  | .getManifest push =>
    match s.pushes.lookup push with
    | some (.observed etag body) =>
      match loadManifest b s.objects etag body with
      | .ok parent => some (s.setPhase push (.hydrated parent))
      | .error e => some (s.setPhase push (.failed (.hydrate e)))
    | _ => none
  | .receivePack push commands head ok =>
    match s.pushes.lookup push with
    | some (.hydrated parent) =>
      if ok then some (s.setPhase push
        (.received parent commands (afterReceivePack parent.parent.refs commands) head))
      else some (s.setPhase push .rejected)
    | _ => none
  | .compose push limits work =>
    match s.pushes.lookup push with
    | some (.received parent commands workspace head) =>
      match prepareManifest parent limits work workspace.entries head with
      | .ok manifest => some (s.setPhase push (.composed parent commands manifest))
      | .error e => some (s.setPhase push (.failed (.cas e)))
    | _ => none
  | .putManifest push =>
    match s.pushes.lookup push with
    | some (.composed parent commands manifest) =>
      let key := contentKey b "manifests" manifest.canonicalBytes
      let s := s.upload b manifest.canonicalBytes
      match digestFromManifestKey key with
      | .ok digest => some (s.setPhase push (.uploaded parent commands manifest key digest))
      | .error e => some (s.setPhase push (.failed (.cas e)))
    | _ => none
  | .putPointer push applied response =>
    match s.pushes.lookup push with
    | some (.uploaded parent commands manifest key digest) =>
      if parent.precond.allows b s.pointer applied response then
        let s := if applied then s.write ⟨some push, commands, manifest, digest⟩ else s
        some (s.setPhase push (afterPut manifest key (classifyCas response)))
      else none
    | _ => none
  | .readWinner push =>
    match s.pushes.lookup push with
    | some .lostRace =>
      some (s.setPhase push (.conflict (readWinnerAfterConflict b s.objects s.pointer)))
    | _ => none
  | .fail push error =>
    match s.pushes.lookup push with
    | none => some (s.setPhase push (.failed error))
    | some phase => if phase.isPending then some (s.setPhase push (.failed error)) else none
  | .announce push =>
    match s.pushes.lookup push with
    | none =>
      let s := s.upload b seedManifest.canonicalBytes
      some (s.setPhase push (.seeding (digestOf b seedManifest.canonicalBytes)))
    | _ => none
  | .seedPointer push applied response =>
    match s.pushes.lookup push with
    | some (.seeding digest) =>
      if Precond.ifNoneMatchStar.allows b s.pointer applied response then
        let s := if applied then s.write ⟨none, [], seedManifest, digest⟩ else s
        some (s.setPhase push (afterSeed digest (classifyCas response)))
      else none
    | _ => none
  | .checkSeed push =>
    match s.pushes.lookup push, s.pointer with
    | some (.seedLost digest), some body =>
      some (s.setPhase push (if trim body = digest then .seeded else .seedFailed))
    | some (.seedLost _), none => some (s.setPhase push .seedFailed)
    | _, _ => none

def run (b : Backend) (actions : List Action) : Option RepoState :=
  actions.foldlM (step b) {}

end Machine

end Buzz.Git
