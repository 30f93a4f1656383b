import Buzz.Lib.JsonSplice
import Buzz.Relay.Subscription

namespace Buzz.Relay

open Buzz.Lib Buzz.Nostr

section Serialization

def tagValue (t : Tag) : Json := .arr (t.asSlice.map .str)

def eventFields (event : Event) : List (String × Json) :=
  [("id", .str (hexEncode event.id)), ("pubkey", .str (hexEncode event.pubkey)),
    ("created_at", .num (toString event.createdAt.toNat)),
    ("kind", .num (toString event.kind.val)), ("tags", .arr (event.tags.map tagValue)),
    ("content", .str event.content),
    ("sig", .str (String.ofList (Hex.hexDigits 128 event.sig.val)))]

def eventJson (event : Event) : String := String.ofList (Json.obj (eventFields event)).render

def eventValue (event : Event) : Json := Json.ofFields (eventFields event)

end Serialization

/-- `ClientMessage::parse` on the subscription id of a `REQ` or `COUNT`. -/
def acceptedSubId (subId : SubId) : Bool := !subId.isEmpty && subId.utf8ByteSize ≤ 256

namespace RelayMessage

def eventArray (subId : SubId) (event : Event) : Json :=
  .arr [.str "EVENT", .str subId, eventValue event]

/-- `RelayMessage::event`, the frame of historical delivery. -/
def event (subId : SubId) (event : Event) : String :=
  String.ofList (eventArray subId event).render

end RelayMessage

def eventFrameForSub (subId : SubId) (eventJson : String) : String :=
  "[\"EVENT\",\"" ++ subId ++ "\"," ++ eventJson ++ "]"

def cacheFrame (eventJson : String) (frames : Map SubId String) (subId : SubId) :
    Map SubId String :=
  if subId ∈ frames then frames
  else AList.insert subId (eventFrameForSub subId eventJson) frames

def fanoutFrameCache (subIds : List SubId) (eventJson : String) : Map SubId String :=
  subIds.foldl (cacheFrame eventJson) ∅

/-- A frame that a connection's buffer has taken, with the subscription it was made for. -/
structure Sent where
  recipient : SubKey
  frame : String

/-- One round of the send loop; `none` where the source panics on a missing frame. -/
def sendFanoutFrame (accepts : ℕ → Bool) (frames : Map SubId String) (acc : List Sent × ℕ)
    (x : SubKey × ℕ) : Option (List Sent × ℕ) :=
  (frames.lookup x.1.2).map fun frame ↦
    if accepts x.2 then (acc.1 ++ [⟨x.1, frame⟩], acc.2) else (acc.1, acc.2 + 1)

def sendFanoutFrames (accepts : ℕ → Bool) (recipients : List SubKey)
    (frames : Map SubId String) : Option (List Sent × ℕ) :=
  recipients.zipIdx.foldlM (sendFanoutFrame accepts frames) ([], 0)

section Historical

open Buzz.Lib.Json

theorem parsesField_of_canonical {field : String × Json} (h : field.2.Canonical) :
    ParsesField ofFields field (renderField field.1 field.2.render) :=
  ⟨_, rfl, h.parses fun _ ↦ id⟩

theorem canonical_tagValue (t : Tag) : (tagValue t).Canonical := by
  refine .arr ?_
  intro v hv
  obtain ⟨s, _, rfl⟩ := List.mem_map.mp hv
  exact .str s

theorem canonical_eventFields {event : Event} {field : String × Json}
    (h : field ∈ eventFields event) : field.2.Canonical := by
  have htags : (Json.arr (event.tags.map tagValue)).Canonical := by
    refine .arr ?_
    intro v hv
    obtain ⟨t, _, rfl⟩ := List.mem_map.mp hv
    exact canonical_tagValue t
  simp only [eventFields, List.mem_cons, List.not_mem_nil, or_false] at h
  rcases h with rfl | rfl | rfl | rfl | rfl | rfl | rfl
  · exact .str _
  · exact .str _
  · exact .nat _
  · exact .nat _
  · exact htags
  · exact .str _
  · exact .str _

theorem parses_eventJson (event : Event) :
    Parses ofFields (eventValue event) (eventJson event).toList := by
  rw [eventJson, String.toList_ofList, render]
  refine parses_obj (List.forall₂_map_right_iff.mpr (List.forall₂_same.mpr ?_))
  intro field hfield
  exact parsesField_of_canonical (canonical_eventFields hfield)

theorem ofFields_event (id pubkey createdAt kind tags content sig : Json) :
    ofFields [("id", id), ("pubkey", pubkey), ("created_at", createdAt), ("kind", kind),
      ("tags", tags), ("content", content), ("sig", sig)] =
    .obj [("content", content), ("created_at", createdAt), ("id", id), ("kind", kind),
      ("pubkey", pubkey), ("sig", sig), ("tags", tags)] := by
  simp [ofFields, insertField, keyLt]

theorem ofFields_event_sorted (id pubkey createdAt kind tags content sig : Json) :
    ofFields [("content", content), ("created_at", createdAt), ("id", id), ("kind", kind),
      ("pubkey", pubkey), ("sig", sig), ("tags", tags)] =
    .obj [("content", content), ("created_at", createdAt), ("id", id), ("kind", kind),
      ("pubkey", pubkey), ("sig", sig), ("tags", tags)] := by
  simp [ofFields, insertField, keyLt]

theorem canonical_eventValue (event : Event) : (eventValue event).Canonical := by
  have hfields (field : String × Json) : field ∈ eventFields event → field.2.Canonical :=
    canonical_eventFields
  unfold eventValue eventFields at *
  rw [ofFields_event]
  refine .obj (ofFields_event_sorted _ _ _ _ _ _ _) ?_
  intro field hfield
  refine hfields field ?_
  simp only [List.mem_cons, List.not_mem_nil, or_false] at hfield ⊢
  tauto

/-- A historical frame reads as the array it was built from. -/
theorem parse_event (subId : SubId) (event : Event) :
    parse (RelayMessage.event subId event) = some (RelayMessage.eventArray subId event) := by
  have hcanonical : (RelayMessage.eventArray subId event).Canonical := by
    refine .arr ?_
    intro v hv
    simp only [List.mem_cons, List.not_mem_nil, or_false] at hv
    rcases hv with rfl | rfl | rfl
    · exact .str _
    · exact .str _
    · exact canonical_eventValue event
  refine Parses.parse ?_
  rw [RelayMessage.event, String.toList_ofList]
  exact hcanonical.parses fun _ ↦ id

end Historical

section Live

open Buzz.Lib.Json

theorem toList_eventFrameForSub (subId : SubId) (eventJson : String) :
    (eventFrameForSub subId eventJson).toList =
      '[' :: (renderStr "EVENT".toList ++ ',' :: '"' ::
        (subId.toList ++ '"' :: ',' :: (eventJson.toList ++ [']']))) := by
  have hevent : renderStr "EVENT".toList = "\"EVENT\"".toList := by decide
  rw [hevent]
  simp [eventFrameForSub, String.toList_append]

theorem toList_eventJson (event : Event) : ∃ t, (eventJson event).toList = '{' :: '"' :: t := by
  rw [eventJson, String.toList_ofList, render]
  exact ⟨_, rfl⟩

/-- A live frame reads as the historical one exactly when its subscription id needs no escape. -/
theorem parse_eventFrameForSub_iff (subId : SubId) (event : Event) :
    parse (eventFrameForSub subId (eventJson event)) =
      some (RelayMessage.eventArray subId event) ↔ Clean subId.toList := by
  constructor
  · intro h
    obtain ⟨t, ht⟩ := toList_eventJson event
    rw [parse, toList_eventFrameForSub, ht] at h
    exact clean_of_parse_splice h rfl
  · intro h
    refine Parses.parse ?_
    have hframe : (eventFrameForSub subId (eventJson event)).toList =
        renderArr [renderStr "EVENT".toList, renderStr subId.toList, (eventJson event).toList] := by
      rw [toList_eventFrameForSub, renderStr_of_clean h]
      simp [renderArr, joinComma]
    rw [hframe]
    exact parses_arr (.cons (parses_str _) (.cons (parses_str _)
      (.cons (parses_eventJson event) .nil)))

end Live

section Sending

variable {eventJson : String}

theorem lookup_foldl_cacheFrame {subIds : List SubId} {frames : Map SubId String}
    (h : ∀ s f, frames.lookup s = some f → f = eventFrameForSub s eventJson) {subId : SubId}
    (hmem : subId ∈ subIds ∨ subId ∈ frames) :
    (subIds.foldl (cacheFrame eventJson) frames).lookup subId =
      some (eventFrameForSub subId eventJson) := by
  induction subIds generalizing frames with
  | nil =>
    obtain ⟨f, hf⟩ := Option.isSome_iff_exists.mp
      (AList.lookup_isSome.mpr (hmem.resolve_left List.not_mem_nil))
    rw [List.foldl_nil, hf, h subId f hf]
  | cons s subIds ih =>
    rw [List.foldl_cons]
    by_cases hs : s ∈ frames
    · have hstep : cacheFrame eventJson frames s = frames := if_pos hs
      rw [hstep]
      refine ih h ?_
      rcases hmem with hmem | hmem
      · rcases List.mem_cons.mp hmem with rfl | hmem
        · exact .inr hs
        · exact .inl hmem
      · exact .inr hmem
    · have hstep : cacheFrame eventJson frames s =
          AList.insert s (eventFrameForSub s eventJson) frames := if_neg hs
      rw [hstep]
      refine ih ?_ ?_
      · intro s' f hf
        rw [Map.lookup_insert_eq] at hf
        split at hf
        · next heq =>
          cases hf
          rw [heq]
        · exact h s' f hf
      · rw [AList.mem_insert]
        rcases hmem with hmem | hmem
        · rcases List.mem_cons.mp hmem with rfl | hmem
          · exact .inr (.inl rfl)
          · exact .inl hmem
        · exact .inr (.inr hmem)

theorem lookup_fanoutFrameCache {subIds : List SubId} {subId : SubId} (h : subId ∈ subIds) :
    (fanoutFrameCache subIds eventJson).lookup subId =
      some (eventFrameForSub subId eventJson) := by
  refine lookup_foldl_cacheFrame ?_ (.inl h)
  intro s f hf
  rw [AList.lookup_empty] at hf
  cases hf

theorem foldlM_sendFanoutFrame {accepts : ℕ → Bool} {frames : Map SubId String}
    {xs : List (SubKey × ℕ)} (h : ∀ x ∈ xs, frames.lookup x.1.2 =
      some (eventFrameForSub x.1.2 eventJson)) (acc : List Sent × ℕ) :
    xs.foldlM (sendFanoutFrame accepts frames) acc =
      some (acc.1 ++ (xs.filter fun x ↦ accepts x.2).map
          (fun x ↦ ⟨x.1, eventFrameForSub x.1.2 eventJson⟩),
        acc.2 + (xs.filter fun x ↦ !accepts x.2).length) := by
  induction xs generalizing acc with
  | nil => simp
  | cons x xs ih =>
    have hx := h x List.mem_cons_self
    have hxs := ih fun y hy ↦ h y (List.mem_cons_of_mem x hy)
    rw [List.foldlM_cons, sendFanoutFrame, hx, Option.map_some, Option.bind_eq_bind,
      Option.bind_some]
    by_cases ha : accepts x.2
    · rw [if_pos ha, hxs]
      simp [ha]
    · rw [if_neg ha, hxs]
      simp [ha]
      omega

end Sending

/-- What the send loop of a fan-out hands to the connections. -/
def fanoutSent (accepts : ℕ → Bool) (recipients : List SubKey) (event : Event) : List Sent :=
  (recipients.zipIdx.filter fun x ↦ accepts x.2).map fun x ↦
    ⟨x.1, eventFrameForSub x.1.2 (eventJson event)⟩

/-- With the frame cache of its own recipients the loop never panics, and each recipient is sent
the frame of its own subscription id. -/
theorem sendFanoutFrames_eq (accepts : ℕ → Bool) (recipients : List SubKey) (event : Event) :
    sendFanoutFrames accepts recipients
        (fanoutFrameCache (recipients.map (·.2)) (eventJson event)) =
      some (fanoutSent accepts recipients event,
        (recipients.zipIdx.filter fun x ↦ !accepts x.2).length) := by
  have hcover : ∀ x ∈ recipients.zipIdx,
      (fanoutFrameCache (recipients.map (·.2)) (eventJson event)).lookup x.1.2 =
        some (eventFrameForSub x.1.2 (eventJson event)) := by
    intro x hx
    exact lookup_fanoutFrameCache (List.mem_map_of_mem (List.fst_mem_of_mem_zipIdx hx))
  rw [sendFanoutFrames, foldlM_sendFanoutFrame hcover]
  simp [fanoutSent]

/-- The splicing path agrees with the serializing path exactly on the ids that need no escape,
and whatever the recipients, each is sent the frame of its own id. -/
theorem live_frames_agree_iff (event : Event) :
    (∀ subId, Json.parse (eventFrameForSub subId (eventJson event)) =
        Json.parse (RelayMessage.event subId event) ↔ Json.Clean subId.toList) ∧
      (∀ subId, Json.parse (RelayMessage.event subId event) =
        some (RelayMessage.eventArray subId event)) ∧
      ∀ accepts recipients, ∃ sent dropped, sendFanoutFrames accepts recipients
          (fanoutFrameCache (recipients.map (·.2)) (eventJson event)) = some (sent, dropped) ∧
        sent.map (·.recipient) = (recipients.zipIdx.filter fun x ↦ accepts x.2).map (·.1) ∧
        ∀ s ∈ sent, s.frame = eventFrameForSub s.recipient.2 (eventJson event) := by
  refine ⟨?_, fun subId ↦ parse_event subId event, ?_⟩
  · intro subId
    rw [parse_event]
    exact parse_eventFrameForSub_iff subId event
  · intro accepts recipients
    refine ⟨_, _, sendFanoutFrames_eq accepts recipients event, ?_, ?_⟩
    · simp [fanoutSent, Function.comp_def]
    · intro s hs
      obtain ⟨x, _, rfl⟩ := List.mem_map.mp hs
      rfl

/-- A lone quote is an accepted subscription id and no live frame for it is the historical one. -/
theorem quote_subId_diverges :
    acceptedSubId "\"" = true ∧
      Json.parse (eventFrameForSub "\"" (eventJson ⟨0, 0, 0, 1, [], "hi", 0⟩)) ≠
        Json.parse (RelayMessage.event "\"" ⟨0, 0, 0, 1, [], "hi", 0⟩) := by
  refine ⟨by decide, ?_⟩
  rw [parse_event]
  intro h
  have hclean := (parse_eventFrameForSub_iff _ _).mp h '"' List.mem_cons_self
  exact hclean.1 rfl

end Buzz.Relay
