import Mathlib.Algebra.Order.BigOperators.Group.List
import Mathlib.Data.List.Perm.Basic
import Mathlib.Tactic.Ring
import Buzz.Audio.Placement
import Buzz.Lib.Runs

namespace Buzz.Audio

open Buzz.Lib Buzz.Nostr Buzz.Relay.Tunnel

theorem perm_cons_eraseP {α : Type*} {l : List α} {p : α → Bool} {a : α}
    (h : l.find? p = some a) : l.Perm (a :: l.eraseP p) := by
  induction l with
  | nil => nomatch h
  | cons b l ih =>
    rw [List.find?_cons] at h
    cases hb : p b with
    | true =>
      rw [hb] at h
      cases h
      rw [List.eraseP_cons_of_pos hb]
    | false =>
      rw [hb] at h
      rw [List.eraseP_cons_of_neg (by rw [hb]; exact Bool.noConfusion)]
      exact ((ih h).cons b).trans (List.Perm.swap a b _)

theorem perm_cons_eraseIdx {α : Type*} {l : List α} {i : ℕ} {a : α} (h : l[i]? = some a) :
    l.Perm (a :: l.eraseIdx i) := by
  obtain ⟨hi, rfl⟩ := List.getElem?_eq_some_iff.mp h
  exact (List.getElem_cons_eraseIdx_perm hi).symm

namespace Huddle

variable {h : Huddle} {x y z : Participant} {c : RuntimeId × Uuid} {p : Prefixed}
  {q : RuntimeId} {frame : Frame}

def delivered (h : Huddle) (q : RuntimeId) (payload : Prefixed) : Puts :=
  match (h.rooms q).getUnambiguousByChannel h.key.2 with
  | none => []
  | some room =>
    match payload with
    | [] => []
    | authorIndex :: rest => room.deliverPrefixed authorIndex (authorIndex :: rest)

/-- The copies in the channel `c` of `p` that come of puts into the room of a pod. -/
def podWeight (c : RuntimeId × Uuid) (p : Prefixed) (q : RuntimeId) (puts : Puts) : ℕ :=
  (puts.map fun put ↦ ((q, put.1), put.2)).count (c, p)

def putWeight (h : Huddle) (c : RuntimeId × Uuid) (p : Prefixed) (put : Uuid × Prefixed) : ℕ :=
  match h.sink put.1 with
  | none => if ((h.owner, put.1), put.2) = (c, p) then 1 else 0
  | some pod => podWeight c p pod.val (h.delivered pod.val put.2)

def ownerWeight (h : Huddle) (c : RuntimeId × Uuid) (p : Prefixed) (puts : Puts) : ℕ :=
  (puts.map (h.putWeight c p)).sum

def dgramWeight (h : Huddle) (c : RuntimeId × Uuid) (p : Prefixed)
    (e : RuntimeId × MeshDatagram) : ℕ :=
  if e.1 = h.owner then h.ownerWeight c p (h.delivered e.1 e.2.payload)
  else podWeight c p e.1 (h.delivered e.1 e.2.payload)

def queuedWeight (h : Huddle) (c : RuntimeId × Uuid) (p : Prefixed)
    (e : (Uuid × h.Remote) × Prefixed) : ℕ :=
  podWeight c p e.1.2.val (h.delivered e.1.2.val e.2)

def speakWeight (h : Huddle) (c : RuntimeId × Uuid) (p : Prefixed) (z : Participant)
    (frame : Frame) : ℕ :=
  if z.host = h.owner then
    h.ownerWeight c p
      (((h.rooms h.owner).lookup h.key).elim [] fun r ↦ r.broadcastFrame z.ownerId frame)
  else h.ownerWeight c p (h.delivered h.owner (z.index :: frame))

end Huddle

namespace Traffic

variable {h : Huddle} {t t' : Traffic h} {c : RuntimeId × Uuid} {p : Prefixed} {q : RuntimeId}
  {puts : Puts} {op : MediaOp}

/-- The copies in the channel `c` of `p`, there and to come. -/
def owed (c : RuntimeId × Uuid) (p : Prefixed) (t : Traffic h) : ℕ :=
  t.heard.count (c, p) + (t.queued.map (h.queuedWeight c p)).sum +
    (t.inFlight.map (h.dgramWeight c p)).sum

/-- No pod has seen a later generation of the session. -/
def Live (t : Traffic h) : Prop :=
  ∀ q known, (t.floor q).lookup h.key.2 = some known → known ≤ h.fenced.generation

/-- Datagrams carry the fence of the huddle. -/
def Fenced (t : Traffic h) : Prop := ∀ e ∈ t.inFlight, e.2.fenced = h.fenced

theorem owed_routeOwner :
    (t.routeOwner puts).owed c p = t.owed c p + h.ownerWeight c p puts := by
  have hsplit : (puts.filterMap fun put ↦
      if (h.sink put.1).isNone then some ((h.owner, put.1), put.2) else none).count (c, p) +
      ((puts.filterMap fun put ↦ (h.sink put.1).map fun pod ↦ ((put.1, pod), put.2)).map
        (h.queuedWeight c p)).sum = h.ownerWeight c p puts := by
    rw [Huddle.ownerWeight]
    induction puts with
    | nil => rfl
    | cons put puts ih =>
      rw [List.map_cons, List.sum_cons, ← ih, Huddle.putWeight]
      cases hsink : h.sink put.1 with
      | none =>
        simp only [List.filterMap_cons, hsink, Option.isNone_none, if_true, Option.map_none,
          List.count_cons, beq_iff_eq]
        omega
      | some pod =>
        simp only [List.filterMap_cons, hsink, Option.isNone_some, Bool.false_eq_true, if_false,
          Option.map_some, List.map_cons, List.sum_cons, Huddle.queuedWeight]
        omega
  simp only [owed, routeOwner, List.count_append, List.map_append, List.sum_append, ← hsplit]
  omega

theorem owed_route : (t.route q puts).owed c p = t.owed c p +
    if q = h.owner then h.ownerWeight c p puts else Huddle.podWeight c p q puts := by
  rw [route]
  split
  · exact owed_routeOwner
  · simp only [owed, List.count_append, Huddle.podWeight]
    omega

theorem check_of_live {seen : GenerationFloor} {session : Uuid} {generation : UInt64}
    (hlive : ∀ known, seen.lookup session = some known → known ≤ generation) :
    ∃ advanced seen', seen.check session generation = (.accept advanced, seen') ∧
      ∀ known, seen'.lookup session = some known → known ≤ generation := by
  have hinsert : ∀ known, (AList.insert session generation seen).lookup session = some known →
      known ≤ generation := by
    intro known hknown
    rw [Map.lookup_insert_eq, if_pos rfl] at hknown
    rw [Option.some.inj hknown]
    exact UInt64.le_refl known
  rw [GenerationFloor.check]
  cases hseen : seen.lookup session with
  | none => exact ⟨false, _, rfl, hinsert⟩
  | some known =>
    have hle := hlive known hseen
    simp only
    rw [if_neg (UInt64.not_lt.mpr hle)]
    split
    · exact ⟨true, _, rfl, hinsert⟩
    · exact ⟨false, seen, rfl, hlive⟩

theorem onMediaDatagram_of_live {dgram : MeshDatagram} (hfenced : dgram.fenced = h.fenced)
    {seen : GenerationFloor}
    (hlive : ∀ known, seen.lookup h.key.2 = some known → known ≤ h.fenced.generation) :
    ∃ seen', (h.rooms q).onMediaDatagram seen dgram = (h.delivered q dgram.payload, seen') ∧
      ∀ known, seen'.lookup h.key.2 = some known → known ≤ h.fenced.generation := by
  obtain ⟨advanced, seen', hcheck, hlive'⟩ := check_of_live hlive
  refine ⟨seen', ?_, hlive'⟩
  rw [Manager.onMediaDatagram, hfenced, h.session, hcheck, Huddle.delivered]
  cases (h.rooms q).getUnambiguousByChannel h.key.2 with
  | none => rfl
  | some room =>
    cases dgram.payload with
    | nil => rfl
    | cons authorIndex rest => rfl

theorem land_of_live {dgram : MeshDatagram} (hfenced : dgram.fenced = h.fenced)
    (hlive : t.Live) :
    ∃ seen', t.land q dgram =
        { t with floor := Function.update t.floor q seen' }.route q
          (h.delivered q dgram.payload) ∧
      ∀ known, seen'.lookup h.key.2 = some known → known ≤ h.fenced.generation := by
  obtain ⟨seen', hdgram, hseen⟩ := onMediaDatagram_of_live (q := q) hfenced (hlive q)
  exact ⟨seen', by rw [land, hdgram], hseen⟩

@[simp] theorem floor_route : (t.route q puts).floor = t.floor := by
  rw [route]
  split <;> rfl

@[simp] theorem inFlight_route : (t.route q puts).inFlight = t.inFlight := by
  rw [route]
  split <;> rfl

inductive Moves (t : Traffic h) : MediaOp → Traffic h → Prop
  | spokeHere (z : Participant) (frame : Frame) (r : Room) : z ∈ h.participants →
      z.host = h.owner → (h.rooms h.owner).lookup h.key = some r →
      Moves t (.speak z frame) (t.routeOwner (r.broadcastFrame z.ownerId frame))
  | spokeAway (z : Participant) (frame : Frame) : z ∈ h.participants → z.host ≠ h.owner →
      Moves t (.speak z frame) (t.forwardMedia z frame)
  | shipped (peerId : Uuid) (next : (Uuid × h.Remote) × Prefixed) :
      t.queued.Perm (next :: (t.shipNext next).queued) →
      Moves t (.ship peerId) (t.shipNext next)
  | arrived (i : ℕ) (e : RuntimeId × MeshDatagram) : t.inFlight.Perm (e :: t.inFlight.eraseIdx i) →
      Moves t (.arrive i) ({ t with inFlight := t.inFlight.eraseIdx i }.land e.1 e.2)

theorem step_moves (hstep : t.step op = some t') : t.Moves op t' := by
  cases op with
  | speak z frame =>
    rw [step] at hstep
    split_ifs at hstep with hz hhost
    · obtain ⟨r, hr, rfl⟩ := Option.map_eq_some_iff.mp hstep
      exact .spokeHere z frame r hz hhost hr
    · cases hstep
      exact .spokeAway z frame hz hhost
  | ship peerId =>
    obtain ⟨next, hnext, rfl⟩ := Option.map_eq_some_iff.mp hstep
    have hid : next.1.1 = peerId := by simpa using List.find?_some hnext
    refine .shipped peerId next ?_
    have hperm := perm_cons_eraseP hnext
    rw [← hid] at hperm
    exact hperm
  | arrive i =>
    obtain ⟨e, he, rfl⟩ := Option.map_eq_some_iff.mp hstep
    exact .arrived i e (perm_cons_eraseIdx he)

/-- The fence holds and the datagrams carry it. -/
structure Sound (t : Traffic h) : Prop where
  live : t.Live
  fenced : t.Fenced

theorem sound_start (h : Huddle) : (start h).Sound := ⟨h.live, nofun⟩

theorem Sound.land (ht : t.Sound) {dgram : MeshDatagram} (hfenced : dgram.fenced = h.fenced) :
    (t.land q dgram).Sound := by
  obtain ⟨seen', heq, hseen⟩ := land_of_live (q := q) hfenced ht.live
  rw [heq]
  constructor
  · intro q' known hknown
    rw [floor_route] at hknown
    dsimp only at hknown
    by_cases hq : q' = q
    · subst hq
      rw [Function.update_self] at hknown
      exact hseen known hknown
    · rw [Function.update_of_ne hq] at hknown
      exact ht.live q' known hknown
  · intro e he
    rw [inFlight_route] at he
    exact ht.fenced e he

theorem Sound.step (ht : t.Sound) (hstep : t.step op = some t') : t'.Sound := by
  cases step_moves hstep with
  | spokeHere z frame r => exact ⟨ht.live, ht.fenced⟩
  | spokeAway z frame =>
    refine ⟨ht.live, fun e he ↦ ?_⟩
    rcases List.mem_append.mp he with he | he
    · exact ht.fenced e he
    · rw [List.mem_singleton.mp he]
      rfl
  | shipped peerId next =>
    refine ⟨ht.live, fun e he ↦ ?_⟩
    rcases List.mem_append.mp he with he | he
    · exact ht.fenced e he
    · rw [List.mem_singleton.mp he]
  | arrived i e hperm =>
    have hrest : { t with inFlight := t.inFlight.eraseIdx i }.Sound :=
      ⟨ht.live, fun e he ↦ ht.fenced e (hperm.mem_iff.mpr (List.mem_cons_of_mem _ he))⟩
    exact hrest.land (ht.fenced e (hperm.mem_iff.mpr List.mem_cons_self))

/-- The copies a step adds. -/
def gain (h : Huddle) (c : RuntimeId × Uuid) (p : Prefixed) : MediaOp → ℕ
  | .speak z frame => h.speakWeight c p z frame
  | _ => 0

/-- Only sending adds copies; shipping and arriving move them on. -/
theorem owed_step (ht : t.Sound) (hstep : t.step op = some t') :
    t'.owed c p = t.owed c p + gain h c p op := by
  cases step_moves hstep with
  | spokeHere z frame r _ hhost hr =>
    rw [owed_routeOwner, gain, Huddle.speakWeight, if_pos hhost, hr]
    rfl
  | spokeAway z frame _ hhost =>
    have hweight : h.dgramWeight c p
        (h.owner, mediaDatagram z.index h.fenced (t.sessionSeq z.ownerId) frame) =
          h.speakWeight c p z frame := by
      rw [Huddle.dgramWeight, if_pos rfl, Huddle.speakWeight, if_neg hhost]
      rfl
    simp only [owed, forwardMedia, List.map_append, List.sum_append, List.map_cons, List.map_nil,
      List.sum_cons, List.sum_nil, hweight, gain]
    omega
  | shipped peerId next hperm =>
    have hsum := (hperm.map (h.queuedWeight c p)).sum_eq
    have hweight : h.dgramWeight c p
        (next.1.2.val, ⟨h.fenced, t.sinkSeq next.1.1, next.2⟩) = h.queuedWeight c p next := by
      rw [Huddle.dgramWeight, if_neg next.1.2.property, Huddle.queuedWeight]
    rw [List.map_cons, List.sum_cons] at hsum
    rw [owed, owed, hsum]
    simp only [shipNext, List.map_append, List.sum_append, List.map_cons, List.map_nil,
      List.sum_cons, List.sum_nil, hweight, gain]
    omega
  | arrived i e hperm =>
    have hfenced := ht.fenced e (hperm.mem_iff.mpr List.mem_cons_self)
    obtain ⟨seen', heq, -⟩ := land_of_live (t := { t with inFlight := t.inFlight.eraseIdx i })
      (q := e.1) hfenced ht.live
    have hsum := (hperm.map (h.dgramWeight c p)).sum_eq
    rw [List.map_cons, List.sum_cons] at hsum
    rw [heq, owed_route]
    simp only [owed, hsum, Huddle.dgramWeight, gain]
    omega

theorem run_sound {ops : List MediaOp} (hrun : (start h).run ops = some t) : t.Sound := by
  induction ops using List.reverseRecOn generalizing t with
  | nil =>
    cases hrun
    exact sound_start h
  | append_singleton ops op ih =>
    obtain ⟨t₀, hrun, hstep⟩ := foldlM_concat_eq_some.mp hrun
    exact (ih hrun).step hstep

end Traffic

namespace Huddle

variable {h : Huddle} {x y z : Participant} {q : RuntimeId} {r : Room} {frame : Frame}
  {p p' : Prefixed} {puts : Puts}

theorem seats_of_lookup (hr : (h.rooms q).lookup h.key = some r) :
    (h.rooms q).seats h.key = r.peers.entries := by
  rw [Manager.seats, hr]
  rfl

theorem nodup_seats (rooms : Manager) (key : RoomKey) :
    ((rooms.seats key).map Sigma.fst).Nodup := by
  rw [Manager.seats]
  cases rooms.lookup key with
  | none => exact List.nodup_nil
  | some r => exact r.peers.nodupKeys

theorem nodup_ownerId (h : Huddle) : (h.participants.map (·.ownerId)).Nodup := by
  have hperm := h.seats_owner.map Sigma.fst
  rw [List.map_map] at hperm
  exact hperm.nodup_iff.mp (nodup_seats _ _)

theorem nodup_index (h : Huddle) : (h.participants.map fun z ↦ z.index.toNat).Nodup := by
  have hperm := h.seats_owner.map fun e ↦ e.2.peerIndex
  rw [List.map_map] at hperm
  refine hperm.nodup_iff.mp ?_
  rw [Manager.seats]
  cases hr : (h.rooms h.owner).lookup h.key with
  | none => exact List.nodup_nil
  | some r => exact (h.sound _ r hr).covers.used_nodup

theorem eq_of_ownerId (hy : y ∈ h.participants) (hz : z ∈ h.participants)
    (heq : y.ownerId = z.ownerId) : y = z :=
  List.inj_on_of_nodup_map h.nodup_ownerId hy hz heq

theorem eq_of_index (hy : y ∈ h.participants) (hz : z ∈ h.participants)
    (heq : y.index = z.index) : y = z :=
  List.inj_on_of_nodup_map h.nodup_index hy hz (congrArg UInt8.toNat heq)

theorem nodup_localId (hq : q ≠ h.owner) :
    ((h.participants.filter fun z ↦ z.host = q).map (·.localId)).Nodup := by
  have hperm := (h.seats_host q hq).map Sigma.fst
  rw [List.map_map] at hperm
  exact hperm.nodup_iff.mp (nodup_seats _ _)

theorem eq_of_channel (hy : y ∈ h.participants) (hz : z ∈ h.participants)
    (heq : y.channel = z.channel) : y = z := by
  obtain ⟨hhost, hlocal⟩ := Prod.mk.injEq .. ▸ heq
  by_cases howner : z.host = h.owner
  · rw [h.local_id y hy (hhost.trans howner), h.local_id z hz howner] at hlocal
    exact eq_of_ownerId hy hz hlocal
  · refine List.inj_on_of_nodup_map (nodup_localId howner) ?_ ?_ hlocal
    · exact List.mem_filter.mpr ⟨hy, decide_eq_true hhost⟩
    · exact List.mem_filter.mpr ⟨hz, decide_eq_true rfl⟩

theorem sink_eq (hz : z ∈ h.participants) :
    h.sink z.ownerId = if hhost : z.host ≠ h.owner then some ⟨z.host, hhost⟩ else none := by
  have hfind : (h.participants.find? fun w ↦ w.ownerId = z.ownerId) = some z := by
    cases hfind : h.participants.find? fun w ↦ w.ownerId = z.ownerId with
    | none => exact absurd (decide_eq_true rfl) (List.find?_eq_none.mp hfind z hz)
    | some w =>
      have hid : w.ownerId = z.ownerId := by simpa using List.find?_some hfind
      rw [eq_of_ownerId (List.mem_of_find?_eq_some hfind) hz hid]
  rw [sink, hfind, Option.bind_some]

theorem exists_ownerRoom (hz : z ∈ h.participants) :
    ∃ r, (h.rooms h.owner).lookup h.key = some r := by
  have hmem := h.seats_owner.mem_iff.mpr (List.mem_map_of_mem hz)
  rw [Manager.seats] at hmem
  cases hr : (h.rooms h.owner).lookup h.key with
  | none =>
    rw [hr] at hmem
    exact absurd hmem List.not_mem_nil
  | some r => exact ⟨r, rfl⟩

theorem exists_hostRoom (hz : z ∈ h.participants) (hhost : z.host ≠ h.owner) :
    ∃ r, (h.rooms z.host).lookup h.key = some r := by
  have hmem := (h.seats_host z.host hhost).mem_iff.mpr
    (List.mem_map_of_mem (List.mem_filter.mpr ⟨hz, decide_eq_true rfl⟩))
  rw [Manager.seats] at hmem
  cases hr : (h.rooms z.host).lookup h.key with
  | none =>
    rw [hr] at hmem
    exact absurd hmem List.not_mem_nil
  | some r => exact ⟨r, rfl⟩

instance : Decidable (h.Unambiguous q) := inferInstanceAs (Decidable (_ = true))

theorem delivered_of_unambiguous (hu : h.Unambiguous q)
    (hr : (h.rooms q).lookup h.key = some r) {a : UInt8} :
    h.delivered q (a :: frame) = r.deliverPrefixed a (a :: frame) := by
  have hroom : (h.rooms q).getUnambiguousByChannel h.key.2 = some r := by
    have hmem : ⟨h.key, r⟩ ∈ (h.rooms q).entries.filter fun e ↦ e.1.2 = h.key.2 :=
      List.mem_filter.mpr ⟨Map.mem_entries_iff.mpr hr, decide_eq_true rfl⟩
    rw [Unambiguous, Manager.getUnambiguousByChannel] at hu
    rw [Manager.getUnambiguousByChannel]
    split at hu
    · next e he =>
      rw [he] at hmem
      rw [← List.mem_singleton.mp hmem]
    · cases hu
  rw [delivered, hroom]

theorem delivered_of_not_unambiguous (hu : ¬h.Unambiguous q) : h.delivered q p = [] := by
  have hnone : (h.rooms q).getUnambiguousByChannel h.key.2 = none :=
    Option.not_isSome_iff_eq_none.mp hu
  rw [delivered, hnone]

theorem deliverPrefixed_perm {peerId : Participant → Uuid} {l : List Participant}
    (hseats : r.peers.entries.Perm (l.map (Participant.seatAt peerId))) {a : UInt8} :
    (r.deliverPrefixed a p).Perm
      ((l.filter fun z ↦ z.index ≠ a).map fun z ↦ (peerId z, p)) := by
  have hperm := (hseats.filter fun e ↦ decide (e.2.peerIndex ≠ a.toNat)).map fun e ↦ (e.1, p)
  rw [List.filter_map, List.map_map] at hperm
  have hfilter : (l.filter ((fun e ↦ decide (e.2.peerIndex ≠ a.toNat)) ∘
      Participant.seatAt peerId)) = l.filter fun z ↦ z.index ≠ a :=
    List.filter_congr fun z _ ↦ by
      simp only [Function.comp_apply, Participant.seatAt, ne_eq, UInt8.toNat_inj]
  rw [hfilter] at hperm
  exact hperm

theorem broadcastFrame_perm (hx : x ∈ h.participants)
    (hr : (h.rooms h.owner).lookup h.key = some r) :
    (r.broadcastFrame x.ownerId frame).Perm
      ((h.participants.filter fun z ↦ z ≠ x).map fun z ↦ (z.ownerId, x.index :: frame)) := by
  have hseats := h.seats_owner
  rw [seats_of_lookup hr] at hseats
  have hlookup : r.peers.lookup x.ownerId = some ⟨x.pubkey, x.index.toNat⟩ :=
    Map.mem_entries_iff.mp (hseats.mem_iff.mpr (List.mem_map_of_mem hx))
  rw [Room.broadcastFrame, hlookup]
  have hperm := (hseats.filter fun e ↦ decide (e.1 ≠ x.ownerId)).map fun e ↦
    (e.1, UInt8.ofNat x.index.toNat :: frame)
  rw [List.filter_map, List.map_map] at hperm
  have hfilter : (h.participants.filter ((fun e ↦ decide (e.1 ≠ x.ownerId)) ∘
      Participant.seatAt (·.ownerId))) = h.participants.filter fun z ↦ z ≠ x :=
    List.filter_congr fun z hz ↦
      decide_eq_decide.mpr (not_congr ⟨eq_of_ownerId hz hx, congrArg Participant.ownerId⟩)
  rw [hfilter] at hperm
  simp only [UInt8.ofNat_toNat] at hperm ⊢
  exact hperm

theorem filter_index (hx : x ∈ h.participants) {l : List Participant}
    (hl : ∀ z ∈ l, z ∈ h.participants) :
    (l.filter fun z ↦ z.index ≠ x.index) = l.filter fun z ↦ z ≠ x :=
  List.filter_congr fun z hz ↦
    decide_eq_decide.mpr (not_congr ⟨eq_of_index (hl z hz) hx, congrArg _⟩)

theorem count_channel (hy : y ∈ h.participants) {l : List Participant} (hl : l.Nodup)
    (hmem : ∀ z ∈ l, z ∈ h.participants) :
    (l.map fun z ↦ (z.channel, p)).count (y.channel, p) = if y ∈ l then 1 else 0 := by
  have hinj : ∀ z ∈ l, ∀ w ∈ l, (z.channel, p) = (w.channel, p) → z = w := fun z hz w hw heq ↦
    eq_of_channel (hmem z hz) (hmem w hw) (Prod.mk.injEq .. ▸ heq).1
  rw [List.Nodup.count (List.Nodup.map_on hinj hl)]
  congr 1
  rw [List.mem_map, eq_iff_iff]
  constructor
  · rintro ⟨z, hz, heq⟩
    rw [← eq_of_channel (hmem z hz) hy (Prod.mk.injEq .. ▸ heq).1]
    exact hz
  · exact fun hy ↦ ⟨y, hy, rfl⟩

theorem nodup_participants (h : Huddle) : h.participants.Nodup := h.nodup_ownerId.of_map _

/-- A datagram that reaches a pod is heard once by each of its clients but its author. -/
theorem podWeight_delivered (hx : x ∈ h.participants) (hy : y ∈ h.participants)
    (hq : q ≠ h.owner) :
    podWeight y.channel (x.index :: frame) q (h.delivered q (x.index :: frame)) =
      if h.Unambiguous q ∧ y.host = q ∧ y ≠ x then 1 else 0 := by
  by_cases hhost : y.host = q
  · subst hhost
    by_cases hu : h.Unambiguous y.host
    · obtain ⟨r, hr⟩ := exists_hostRoom hy hq
      have hseats := h.seats_host y.host hq
      rw [seats_of_lookup hr] at hseats
      have hperm := deliverPrefixed_perm hseats (p := x.index :: frame) (a := x.index)
      rw [filter_index hx fun z hz ↦ (List.mem_filter.mp hz).1] at hperm
      have hputs := hperm.map fun put ↦ ((y.host, put.1), put.2)
      have hchannel : (((h.participants.filter fun z ↦ z.host = y.host).filter fun z ↦ z ≠ x).map
          fun z ↦ (z.localId, x.index :: frame)).map (fun put ↦ ((y.host, put.1), put.2)) =
          ((h.participants.filter fun z ↦ z.host = y.host).filter fun z ↦ z ≠ x).map
            fun z ↦ (z.channel, x.index :: frame) := by
        rw [List.map_map]
        refine List.map_congr_left fun z hz ↦ ?_
        have hzhost : z.host = y.host :=
          of_decide_eq_true (List.mem_filter.mp (List.mem_filter.mp hz).1).2
        rw [Participant.channel, hzhost]
        rfl
      rw [podWeight, delivered_of_unambiguous hu hr, hputs.count_eq, hchannel,
        count_channel hy ((h.nodup_participants.filter _).filter _) fun z hz ↦
          (List.mem_filter.mp (List.mem_filter.mp hz).1).1]
      congr 1
      simp [hy, hu]
    · rw [delivered_of_not_unambiguous hu, if_neg fun h ↦ hu h.1]
      rfl
  · rw [if_neg fun h ↦ hhost h.2.1, podWeight, List.count_eq_zero]
    intro hmem
    obtain ⟨put, -, heq⟩ := List.mem_map.mp hmem
    exact hhost (congrArg (fun e ↦ e.1.1) heq).symm

/-- A put into the owner's room for `z` is a copy for `z` itself, or one datagram to its pod. -/
theorem putWeight_eq (hx : x ∈ h.participants) (hy : y ∈ h.participants)
    (hz : z ∈ h.participants) :
    h.putWeight y.channel (x.index :: frame) (z.ownerId, x.index :: frame) =
      if z.host = h.owner then if y = z then 1 else 0
      else if h.Unambiguous z.host ∧ y.host = z.host ∧ y ≠ x then 1 else 0 := by
  rw [putWeight, sink_eq hz]
  by_cases hhost : z.host = h.owner
  · rw [dif_neg (not_not.mpr hhost), if_pos hhost]
    simp only
    congr 1
    have hchannel : (h.owner, z.ownerId) = z.channel := by
      rw [Participant.channel, h.local_id z hz hhost, hhost]
    rw [hchannel, Prod.mk.injEq, eq_iff_iff]
    constructor
    · exact fun heq ↦ eq_of_channel hy hz heq.1.symm
    · rintro rfl
      exact ⟨rfl, rfl⟩
  · rw [dif_pos hhost, if_neg hhost]
    exact podWeight_delivered hx hy hhost

def others (h : Huddle) (x : Participant) (q : RuntimeId) : ℕ :=
  h.participants.countP fun z ↦ z ≠ x ∧ z.host = q

def copies (h : Huddle) (x y : Participant) : ℕ :=
  if y = x then 0
  else if y.host = h.owner then 1
  else if h.Unambiguous y.host then h.others x y.host else 0

theorem sum_ite_eq_countP {α : Type*} (l : List α) (f : α → Prop) [DecidablePred f] :
    (l.map fun a ↦ if f a then 1 else 0).sum = l.countP f := by
  induction l with
  | nil => rfl
  | cons a l ih =>
    rw [List.map_cons, List.sum_cons, ih, List.countP_cons]
    simp only [decide_eq_true_eq]
    omega

theorem ownerWeight_others (hx : x ∈ h.participants) (hy : y ∈ h.participants) :
    h.ownerWeight y.channel (x.index :: frame)
      ((h.participants.filter fun z ↦ z ≠ x).map fun z ↦ (z.ownerId, x.index :: frame)) =
        h.copies x y := by
  have hput : ∀ z ∈ h.participants.filter fun z ↦ z ≠ x,
      (h.putWeight y.channel (x.index :: frame) ∘ fun z ↦ (z.ownerId, x.index :: frame)) z =
        if (z.host = h.owner ∧ z = y) ∨ (z.host ≠ h.owner ∧ h.Unambiguous z.host ∧
          y.host = z.host ∧ y ≠ x) then 1 else 0 := by
    intro z hz
    rw [Function.comp_apply, putWeight_eq hx hy (List.mem_filter.mp hz).1]
    by_cases hhost : z.host = h.owner
    · simp [hhost, eq_comm]
    · simp [hhost]
  rw [ownerWeight, List.map_map, List.map_congr_left hput, sum_ite_eq_countP, List.countP_filter,
    copies]
  split_ifs with hyx howner hu
  · subst hyx
    refine List.countP_eq_zero.mpr fun z _ ↦ ?_
    simp only [Bool.and_eq_true, decide_eq_true_eq, not_and]
    rintro (⟨-, rfl⟩ | ⟨-, -, -, hne⟩)
    · simp
    · exact (hne rfl).elim
  · have hself : ∀ z ∈ h.participants, (decide ((z.host = h.owner ∧ z = y) ∨ (z.host ≠ h.owner ∧
        h.Unambiguous z.host ∧ y.host = z.host ∧ y ≠ x)) && decide (z ≠ x)) = true ↔
          (z == y) = true := by
      intro z _
      simp only [Bool.and_eq_true, decide_eq_true_eq, beq_iff_eq]
      constructor
      · rintro ⟨⟨-, rfl⟩ | ⟨hhost, -, heq, -⟩, -⟩
        · rfl
        · exact (hhost (heq ▸ howner)).elim
      · rintro rfl
        exact ⟨.inl ⟨howner, rfl⟩, hyx⟩
    rw [List.countP_congr hself]
    exact List.count_eq_one_of_mem h.nodup_participants hy
  · refine List.countP_congr fun z _ ↦ ?_
    simp only [Bool.and_eq_true, decide_eq_true_eq]
    constructor
    · rintro ⟨⟨hhost, rfl⟩ | ⟨-, -, heq, -⟩, hne⟩
      · exact (howner hhost).elim
      · exact ⟨hne, heq.symm⟩
    · rintro ⟨hne, heq⟩
      exact ⟨.inr ⟨heq ▸ howner, heq ▸ hu, heq.symm, hyx⟩, hne⟩
  · refine List.countP_eq_zero.mpr fun z _ ↦ ?_
    simp only [Bool.and_eq_true, decide_eq_true_eq, not_and]
    rintro (⟨hhost, rfl⟩ | ⟨-, hu', heq, -⟩)
    · exact (howner hhost).elim
    · exact (hu (heq ▸ hu')).elim

theorem putWeight_of_ne {c : RuntimeId × Uuid} {peerId : Uuid} (hne : p' ≠ p) :
    h.putWeight c p (peerId, p') = 0 := by
  have hpod (q : RuntimeId) : podWeight c p q (h.delivered q p') = 0 := by
    rw [podWeight, List.count_eq_zero]
    intro hmem
    obtain ⟨put, hput, heq⟩ := List.mem_map.mp hmem
    have hpayload : put.2 = p' := by
      rw [delivered] at hput
      split at hput
      · cases hput
      · split at hput
        · cases hput
        · obtain ⟨e, -, rfl⟩ := List.mem_map.mp hput
          rfl
    exact hne (hpayload.symm.trans (Prod.mk.injEq .. ▸ heq).2)
  rw [putWeight]
  split
  · rw [if_neg fun heq ↦ hne (Prod.mk.injEq .. ▸ heq).2]
  · exact hpod _

def sent (h : Huddle) (x y : Participant) : ℕ :=
  if x.host = h.owner ∨ h.Unambiguous h.owner then h.copies x y else 0

theorem ownerWeight_delivered (hx : x ∈ h.participants) (hy : y ∈ h.participants)
    (hu : h.Unambiguous h.owner) :
    h.ownerWeight y.channel (x.index :: frame) (h.delivered h.owner (x.index :: frame)) =
      h.copies x y := by
  obtain ⟨r, hr⟩ := exists_ownerRoom hx
  have hseats := h.seats_owner
  rw [seats_of_lookup hr] at hseats
  have hperm := deliverPrefixed_perm hseats (p := x.index :: frame) (a := x.index)
  rw [filter_index hx fun z hz ↦ hz] at hperm
  rw [delivered_of_unambiguous hu hr, ← ownerWeight_others hx hy]
  exact (hperm.map _).sum_eq

theorem speakWeight_self (hx : x ∈ h.participants) (hy : y ∈ h.participants) :
    h.speakWeight y.channel (x.index :: frame) x frame = h.sent x y := by
  rw [speakWeight, sent]
  by_cases hhost : x.host = h.owner
  · obtain ⟨r, hr⟩ := exists_ownerRoom hx
    rw [if_pos hhost, if_pos (.inl hhost), hr, ← ownerWeight_others hx hy]
    exact ((broadcastFrame_perm hx hr).map _).sum_eq
  · rw [if_neg hhost]
    by_cases hu : h.Unambiguous h.owner
    · rw [if_pos (.inr hu), ownerWeight_delivered hx hy hu]
    · rw [if_neg (not_or.mpr ⟨hhost, hu⟩), delivered_of_not_unambiguous hu]
      rfl

theorem speakWeight_of_ne {c : RuntimeId × Uuid} (hz : z ∈ h.participants)
    (hne : z.index :: frame ≠ p) : h.speakWeight c p z frame = 0 := by
  have hsum {puts : Puts} (hputs : ∀ put ∈ puts, put.2 = z.index :: frame) :
      h.ownerWeight c p puts = 0 := by
    refine List.sum_eq_zero fun n hn ↦ ?_
    obtain ⟨put, hput, rfl⟩ := List.mem_map.mp hn
    exact putWeight_of_ne (by rw [hputs put hput]; exact hne)
  rw [speakWeight]
  split
  · obtain ⟨r, hr⟩ := exists_ownerRoom hz
    rw [hr]
    refine hsum fun put hput ↦ ?_
    have hmem := (broadcastFrame_perm hz hr).mem_iff.mp hput
    obtain ⟨w, -, rfl⟩ := List.mem_map.mp hmem
    rfl
  · refine hsum fun put hput ↦ ?_
    rw [delivered] at hput
    split at hput
    · cases hput
    · obtain ⟨e, -, rfl⟩ := List.mem_map.mp hput
      rfl

end Huddle

namespace Traffic

variable {h : Huddle} {t t' : Traffic h} {x y : Participant} {frame : Frame} {op : MediaOp}

theorem gain_eq (hx : x ∈ h.participants) (hy : y ∈ h.participants)
    (hstep : t.step op = some t') :
    gain h y.channel (x.index :: frame) op = Huddle.spoken x frame [op] * h.sent x y := by
  cases op with
  | speak z f =>
    have hz : z ∈ h.participants := by
      rw [step] at hstep
      split_ifs at hstep with hz <;> exact hz
    by_cases heq : z = x ∧ f = frame
    · obtain ⟨rfl, rfl⟩ := heq
      rw [gain, Huddle.speakWeight_self hx hy]
      simp [Huddle.spoken]
    · have hne : z.index :: f ≠ x.index :: frame := fun hcons ↦
        heq ⟨Huddle.eq_of_index hz hx (List.head_eq_of_cons_eq hcons),
          List.tail_eq_of_cons_eq hcons⟩
      rw [gain, Huddle.speakWeight_of_ne hz hne]
      simp [Huddle.spoken, heq]
  | ship peerId => simp [gain, Huddle.spoken]
  | arrive i => simp [gain, Huddle.spoken]

/-- Along a run the copies that are there or to come are those of the frames sent. -/
theorem owed_run (hx : x ∈ h.participants) (hy : y ∈ h.participants) {ops : List MediaOp}
    (hrun : (start h).run ops = some t) :
    t.owed y.channel (x.index :: frame) = Huddle.spoken x frame ops * h.sent x y := by
  induction ops using List.reverseRecOn generalizing t with
  | nil =>
    cases hrun
    simp [owed, start, Huddle.spoken]
  | append_singleton ops op ih =>
    obtain ⟨t₀, hrun, hstep⟩ := foldlM_concat_eq_some.mp hrun
    have hspoken : Huddle.spoken x frame (ops ++ [op]) =
        Huddle.spoken x frame ops + Huddle.spoken x frame [op] := by
      rw [Huddle.spoken, List.countP_append]
      rfl
    rw [owed_step (run_sound hrun) hstep, ih hrun, gain_eq hx hy hstep, hspoken, Nat.add_mul]

theorem Quiet.owed_eq (ht : t.Quiet) {c : RuntimeId × Uuid} {p : Prefixed} :
    t.owed c p = t.heard.count (c, p) := by
  rw [owed, ht.1, ht.2]
  rfl

def fanOut (h : Huddle) : ℕ :=
  ((h.rooms h.owner).getUnambiguousByChannel h.key.2).elim 0 fun r ↦ r.peers.entries.length

theorem length_delivered {p : Prefixed} : (h.delivered h.owner p).length ≤ fanOut h := by
  rw [Huddle.delivered, fanOut]
  cases (h.rooms h.owner).getUnambiguousByChannel h.key.2 with
  | none => exact Nat.zero_le _
  | some r =>
    cases p with
    | nil => exact Nat.zero_le _
    | cons a rest =>
      simp only [Room.deliverPrefixed, List.length_map, Option.elim_some]
      exact List.length_filter_le _ _

/-- What is still to be done, in steps. -/
def pending (t : Traffic h) : ℕ :=
  (t.inFlight.map fun e ↦ if e.1 = h.owner then 2 * fanOut h + 1 else 1).sum + 2 * t.queued.length

theorem pending_shipNext {next : (Uuid × h.Remote) × Prefixed}
    (hperm : t.queued.Perm (next :: (t.shipNext next).queued)) :
    (t.shipNext next).pending < t.pending := by
  have hlen := hperm.length_eq
  rw [List.length_cons] at hlen
  have hinFlight : ((t.shipNext next).inFlight.map fun e ↦
      if e.1 = h.owner then 2 * fanOut h + 1 else 1).sum =
      (t.inFlight.map fun e ↦ if e.1 = h.owner then 2 * fanOut h + 1 else 1).sum + 1 := by
    simp only [shipNext, List.map_append, List.sum_append, List.map_cons, List.map_nil,
      List.sum_cons, List.sum_nil, if_neg next.1.2.property, Nat.add_zero]
  rw [pending, pending, hinFlight]
  omega

theorem length_queued_route {q : RuntimeId} (puts : Puts) :
    (t.route q puts).queued.length ≤
      t.queued.length + if q = h.owner then puts.length else 0 := by
  rw [route]
  split
  · simp only [routeOwner, List.length_append]
    have := List.length_filterMap_le
      (fun put ↦ (h.sink put.1).map fun pod ↦ ((put.1, pod), put.2)) puts
    omega
  · exact Nat.le_refl _

theorem pending_land (ht : t.Sound) {i : ℕ} {e : RuntimeId × MeshDatagram}
    (hperm : t.inFlight.Perm (e :: t.inFlight.eraseIdx i)) :
    ({ t with inFlight := t.inFlight.eraseIdx i }.land e.1 e.2).pending < t.pending := by
  have hfenced := ht.fenced e (hperm.mem_iff.mpr List.mem_cons_self)
  obtain ⟨seen', heq, -⟩ := land_of_live (t := { t with inFlight := t.inFlight.eraseIdx i })
    (q := e.1) hfenced ht.live
  have hsum := (hperm.map fun e ↦ if e.1 = h.owner then 2 * fanOut h + 1 else 1).sum_eq
  rw [List.map_cons, List.sum_cons] at hsum
  have hqueued := length_queued_route
    (t := { t with inFlight := t.inFlight.eraseIdx i, floor := Function.update t.floor e.1 seen' })
    (q := e.1) (h.delivered e.1 e.2.payload)
  rw [heq, pending, pending, hsum, inFlight_route]
  dsimp only at hqueued ⊢
  by_cases howner : e.1 = h.owner
  · have hlen : (h.delivered e.1 e.2.payload).length ≤ fanOut h := by
      rw [howner]
      exact length_delivered
    rw [if_pos howner] at hqueued ⊢
    omega
  · rw [if_neg howner] at hqueued ⊢
    omega

/-- From every state the sinks and the network can finish what is under way. -/
theorem exists_quiet (n : ℕ) (t : Traffic h) (ht : t.Sound) (hn : t.pending ≤ n) :
    ∃ ops t', t.run ops = some t' ∧ t'.Quiet ∧
      ∀ z frame, Huddle.spoken z frame ops = 0 := by
  induction n using Nat.strong_induction_on generalizing t with
  | _ n ih =>
    have hone {op : MediaOp} {t₁ : Traffic h} (hstep : t.step op = some t₁)
        (hlt : t₁.pending < t.pending) (hop : ∀ z frame, Huddle.spoken z frame [op] = 0) :
        ∃ ops t', t.run ops = some t' ∧ t'.Quiet ∧
          ∀ z frame, Huddle.spoken z frame ops = 0 := by
      obtain ⟨ops, t', hrun, hquiet, hsilent⟩ :=
        ih t₁.pending (Nat.lt_of_lt_of_le hlt hn) t₁ (ht.step hstep) (Nat.le_refl _)
      refine ⟨op :: ops, t', ?_, hquiet, fun z frame ↦ ?_⟩
      · rw [run, List.foldlM_cons, hstep]
        exact hrun
      · have hcons := hop z frame
        have hrest := hsilent z frame
        rw [Huddle.spoken] at hcons hrest ⊢
        rw [← List.singleton_append, List.countP_append, hcons, hrest]
    cases hqueued : t.queued with
    | cons next rest =>
      have hfind : (t.queued.find? fun e ↦ e.1.1 = next.1.1) = some next := by
        rw [hqueued]
        simp
      have hstep : t.step (.ship next.1.1) = some (t.shipNext next) := by
        rw [step, hfind]
        rfl
      exact hone hstep (pending_shipNext (perm_cons_eraseP hfind)) fun _ _ ↦ rfl
    | nil =>
      cases hinFlight : t.inFlight with
      | nil => exact ⟨[], t, rfl, ⟨hqueued, hinFlight⟩, fun _ _ ↦ rfl⟩
      | cons e rest =>
        have hget : t.inFlight[0]? = some e := by
          rw [hinFlight]
          rfl
        have hstep : t.step (.arrive 0) =
            some ({ t with inFlight := t.inFlight.eraseIdx 0 }.land e.1 e.2) := by
          rw [step, hget]
          rfl
        exact hone hstep (pending_land ht (perm_cons_eraseIdx hget)) fun _ _ ↦ rfl

/-- Some run sends one frame of `x` and lets it arrive everywhere. -/
theorem exists_run_once (hx : x ∈ h.participants) (frame : Frame) :
    ∃ ops t, (start h).run ops = some t ∧ t.Quiet ∧ Huddle.spoken x frame ops = 1 := by
  obtain ⟨t₁, hstep⟩ : ∃ t₁, (start h).step (.speak x frame) = some t₁ := by
    rw [step, if_pos hx]
    split
    · obtain ⟨r, hr⟩ := Huddle.exists_ownerRoom hx
      rw [hr]
      exact ⟨_, rfl⟩
    · exact ⟨_, rfl⟩
  obtain ⟨ops, t, hrun, hquiet, hsilent⟩ :=
    exists_quiet _ t₁ ((sound_start h).step hstep) (Nat.le_refl _)
  refine ⟨.speak x frame :: ops, t, ?_, hquiet, ?_⟩
  · rw [run, List.foldlM_cons, hstep]
    exact hrun
  · have hrest := hsilent x frame
    rw [Huddle.spoken] at hrest ⊢
    rw [List.countP_cons, hrest]
    simp

end Traffic

namespace Huddle

variable {h : Huddle} {x y : Participant}

theorem others_eq_one_iff (hy : y ∈ h.participants) (hyx : y ≠ x) :
    h.others x y.host = 1 ↔
      ∀ z ∈ h.participants, z ≠ x → z.host = y.host → z = y := by
  have hself : y ∈ h.participants.filter fun z ↦ z ≠ x ∧ z.host = y.host :=
    List.mem_filter.mpr ⟨hy, decide_eq_true ⟨hyx, rfl⟩⟩
  rw [others, List.countP_eq_length_filter]
  constructor
  · intro hone z hz hzx hhost
    obtain ⟨w, hw⟩ := List.length_eq_one_iff.mp hone
    have hzmem : z ∈ h.participants.filter fun z ↦ z ≠ x ∧ z.host = y.host :=
      List.mem_filter.mpr ⟨hz, decide_eq_true ⟨hzx, hhost⟩⟩
    rw [hw] at hself hzmem
    exact (List.mem_singleton.mp hzmem).trans (List.mem_singleton.mp hself).symm
  · intro hunique
    have hall : ∀ z ∈ h.participants.filter fun z ↦ z ≠ x ∧ z.host = y.host, z = y := by
      intro z hz
      obtain ⟨hz, hzy⟩ := List.mem_filter.mp hz
      exact hunique z hz (of_decide_eq_true hzy).1 (of_decide_eq_true hzy).2
    have hnodup := h.nodup_participants.filter fun z ↦ decide (z ≠ x ∧ z.host = y.host)
    rw [List.eq_replicate_of_mem hall] at hnodup
    have hle := List.nodup_replicate.mp hnodup
    have hpos := List.length_pos_of_mem hself
    omega

theorem sent_eq_one (hyx : y ≠ x) :
    h.sent x y = 1 ↔ (x.host = h.owner ∨ h.Unambiguous h.owner) ∧
      (y.host ≠ h.owner → h.Unambiguous y.host ∧ h.others x y.host = 1) := by
  rw [sent, copies, if_neg hyx]
  split_ifs with howner hhost hu
  · simp [howner, hhost]
  · simp [howner, hhost, hu]
  · simp [howner, hhost, hu]
  · simp [howner]

/-- There is one copy for every other client iff no two of them share a pod that dials in. -/
theorem forall_sent_iff : (∀ y ∈ h.participants, y ≠ x → h.sent x y = 1) ↔ h.Separate x := by
  constructor
  · intro hone
    have hsent (y) (hy : y ∈ h.participants) (hyx : y ≠ x) := (sent_eq_one hyx).mp (hone y hy hyx)
    refine ⟨fun y hy z hz hyx hzx hhost howner ↦ ?_, fun y hy hyx howner ↦ ?_,
      fun y hy hyx hx ↦ ?_⟩
    · have hothers := ((hsent z hz hzx).2 (hhost ▸ howner)).2
      exact (others_eq_one_iff hz hzx).mp hothers y hy hyx hhost
    · exact ((hsent y hy hyx).2 howner).1
    · exact (hsent y hy hyx).1.resolve_left hx
  · intro hsep y hy hyx
    refine (sent_eq_one hyx).mpr ⟨?_, fun howner ↦ ⟨hsep.finds y hy hyx howner, ?_⟩⟩
    · by_cases hx : x.host = h.owner
      · exact .inl hx
      · exact .inr (hsep.finds_owner y hy hyx hx)
    · refine (others_eq_one_iff hy hyx).mpr fun z hz hzx hhost ↦ ?_
      exact hsep.single z hz y hy hzx hyx hhost (hhost ▸ howner)

/-- Cross-pod audio reaches every other participant exactly once iff no pod but the owner's hosts
two of them. -/
theorem heardOnce_iff (h : Huddle) (x : Participant) (hx : x ∈ h.participants) :
    h.HeardOnce x ↔ h.Separate x := by
  rw [← forall_sent_iff]
  constructor
  · intro honce y hy hyx
    obtain ⟨ops, t, hrun, hquiet, hspoken⟩ := Traffic.exists_run_once hx []
    have hcount := (honce ops t hrun hquiet []).1 y hy hyx
    rw [← hquiet.owed_eq, Traffic.owed_run hx hy hrun, hspoken, Nat.one_mul] at hcount
    exact hcount
  · intro hsent ops t hrun hquiet frame
    refine ⟨fun y hy hyx ↦ ?_, ?_⟩
    · rw [← hquiet.owed_eq, Traffic.owed_run hx hy hrun, hsent y hy hyx, Nat.mul_one]
    · rw [← hquiet.owed_eq, Traffic.owed_run hx hx hrun]
      simp [sent, copies]

def ann : Participant := ⟨"ann", 0, 0, 1, 1⟩

def onePerPod : List Join := [.here "ann" 2 1, .away 1 "bob" 2 2 12]

def sharedPod : List Join := onePerPod ++ [.away 1 "cid" 2 3 13]

theorem onePerPod_placed : ((empty 0 (5, 6) 1).place onePerPod).isSome = true := by decide

theorem sharedPod_placed : ((empty 0 (5, 6) 1).place sharedPod).isSome = true := by decide

theorem ann_heardOnce_onePerPod :
    (((empty 0 (5, 6) 1).place onePerPod).get onePerPod_placed).HeardOnce ann :=
  (heardOnce_iff _ ann (by decide)).mpr ⟨by decide, by decide, by decide⟩

/-- Both clients of the shared pod get each copy that the owner makes for either of them. -/
theorem sharedPod_hears_twice :
    ann ∈ (((empty 0 (5, 6) 1).place sharedPod).get sharedPod_placed).participants ∧
      ¬(((empty 0 (5, 6) 1).place sharedPod).get sharedPod_placed).HeardOnce ann := by
  refine ⟨by decide, fun honce ↦ ?_⟩
  have hbob := (honce [.speak ann [7], .ship 2, .ship 3, .arrive 0, .arrive 0] _ rfl
    ⟨rfl, rfl⟩ [7]).1 ⟨"bob", 1, 1, 12, 2⟩ (by decide) (by decide)
  revert hbob
  decide

end Huddle

end Buzz.Audio
