import Buzz.Nostr.Event

namespace Buzz.Core

open Buzz.Nostr

def eventKindU32 (event : Event) : ℕ := event.kind.val

def kindPersona : ℕ := 30175
def kindEventReminder : ℕ := 30300
def kindPushLease : ℕ := 30350
def kindDmVisibility : ℕ := 30622
def kindAgentTurnMetric : ℕ := 44200

def authorOnlyKinds : List ℕ := [kindEventReminder, kindPushLease]

def isPersonaSharedKind (kind : ℕ) : Bool := kind == kindPersona

/-- One round of the loop in `persona_event_is_shared`; `none` is its early `return false`. -/
def countShared (count : ℕ) (tag : Tag) : Option ℕ :=
  let parts := tag.asSlice
  if parts.length = 2 ∧ parts[0]? = some "shared" then
    if parts[1]? = some "true" then some (count + 1) else none
  else if parts[0]? = some "shared" then none
  else some count

def personaEventIsShared (event : Event) : Bool :=
  event.tags.foldlM countShared 0 == some 1

def isUnsharedPersonaEvent (event : Event) (requester : PublicKey) : Bool :=
  isPersonaSharedKind (eventKindU32 event) && event.pubkey != requester &&
    !personaEventIsShared event

def isAuthorOnlyEvent (event : Event) (requester : PublicKey) : Bool :=
  authorOnlyKinds.contains (eventKindU32 event) && event.pubkey != requester

/-- The two kinds whose content is private to the viewer that a `p` tag names. -/
def isOwnerOnlyKind (kind : ℕ) : Bool := kind == kindDmVisibility || kind == kindAgentTurnMetric

def readerAuthorizedForEvent (event : Event) (readerPubkeyHex : String) : Bool :=
  if isOwnerOnlyKind (eventKindU32 event) then
    (event.tags.filter fun t ↦ t.kind == "p").any fun t ↦ t.content == some readerPubkeyHex
  else true

/-- The gate of the pull paths, over all gated classes. -/
def eventVisibleToReader (event : Event) (requester : PublicKey) : Bool :=
  if isAuthorOnlyEvent event requester then false
  else if isUnsharedPersonaEvent event requester then false
  else readerAuthorizedForEvent event (hexEncode requester)

structure Visible (event : Event) (reader : PublicKey) : Prop where
  authorOnly : eventKindU32 event ∈ authorOnlyKinds → event.pubkey = reader
  persona : eventKindU32 event = kindPersona →
    event.pubkey = reader ∨ personaEventIsShared event = true
  owner : isOwnerOnlyKind (eventKindU32 event) = true → hexEncode reader ∈ event.tagContents "p"

theorem readerAuthorizedForEvent_iff {event : Event} {hex : String} :
    readerAuthorizedForEvent event hex = true ↔
      (isOwnerOnlyKind (eventKindU32 event) = true → hex ∈ event.tagContents "p") := by
  have hany : ((event.tags.filter fun t ↦ t.kind == "p").any fun t ↦ t.content == some hex) = true ↔
      hex ∈ event.tagContents "p" := by
    simp only [List.any_eq_true, beq_iff_eq, Event.tagContents, List.mem_filterMap]
  unfold readerAuthorizedForEvent
  split
  · next h => simp only [hany, h, true_implies]
  · next h => simp only [h, Bool.false_eq_true, false_implies]

theorem eventVisibleToReader_iff {event : Event} {reader : PublicKey} :
    eventVisibleToReader event reader = true ↔ Visible event reader := by
  unfold eventVisibleToReader
  have hauthor : isAuthorOnlyEvent event reader = false ↔
      (eventKindU32 event ∈ authorOnlyKinds → event.pubkey = reader) := by
    simp [isAuthorOnlyEvent]
  have hpersona : isUnsharedPersonaEvent event reader = false ↔
      (eventKindU32 event = kindPersona →
        event.pubkey = reader ∨ personaEventIsShared event = true) := by
    simp only [isUnsharedPersonaEvent, isPersonaSharedKind]
    by_cases hk : eventKindU32 event = kindPersona
    · by_cases hp : event.pubkey = reader
      · simp [hk, hp]
      · simp [hk, hp]
    · simp [hk]
  constructor
  · intro h
    split_ifs at h with h₁ h₂
    exact ⟨hauthor.mp (by simpa using h₁), hpersona.mp (by simpa using h₂),
      readerAuthorizedForEvent_iff.mp h⟩
  · intro h
    rw [hauthor.mpr h.authorOnly, hpersona.mpr h.persona]
    exact readerAuthorizedForEvent_iff.mpr h.owner

end Buzz.Core
