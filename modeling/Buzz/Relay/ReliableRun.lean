import Buzz.Relay.ReliableStream

namespace Buzz.Relay.Tunnel

open Function Buzz.Lib Buzz.Nostr

inductive Side
  | opener
  | acceptor
deriving DecidableEq, Repr

def Side.peer : Side → Side
  | opener => acceptor
  | acceptor => opener

/-- Both ends of a stream, the frames each side has under way, and what the callers saw: the byte
strings a side has sent, those its peer has received, and whether a call on them failed. -/
structure StreamPair where
  ends : Side → ReliableMeshStream
  wire : Side → List MeshStreamFrame
  sent : Side → List (List UInt8)
  received : Side → List (List UInt8)
  broken : Side → Bool

inductive StreamOp
  | sendBytes (side : Side) (communityId : CommunityId) (bytes : List UInt8)
      (answers : ℕ → Except MeshError Unit)
  | sendGoodbye (side : Side) (communityId : CommunityId) (reason : GoodbyeReason)
      (answers : ℕ → Except MeshError Unit)
  | recvValidated (side : Side) (r : Redis)

namespace StreamPair

def opened (fenced : FencedHeader) (communities : Side → Option CommunityId) : StreamPair where
  ends side := ⟨fenced, communities side⟩
  wire _ := []
  sent _ := []
  received _ := []
  broken _ := false

/-- Record a call that sends, with the byte string it was given. -/
def pushed (t : StreamPair) (side : Side) (bytes : List (List UInt8)) :
    ReliableMeshStream × List MeshStreamFrame × Except ReliableFrameError Unit → StreamPair
  | (s, frames, .ok ()) =>
    { t with
      ends := update t.ends side s
      wire := update t.wire side (t.wire side ++ frames)
      sent := update t.sent side (t.sent side ++ bytes) }
  | (s, frames, .error _) =>
    { t with
      ends := update t.ends side s
      wire := update t.wire side (t.wire side ++ frames)
      broken := update t.broken side true }

/-- Record a call that receives the first frame of `side`. -/
def popped (t : StreamPair) (side : Side) (frames : List MeshStreamFrame) :
    Except ReliableFrameError (ReliableMeshStream × ReliableFrame) → StreamPair
  | .ok (s, .data payload) =>
    { t with
      ends := update t.ends side.peer s
      wire := update t.wire side frames
      received := update t.received side (t.received side ++ [payload]) }
  | .ok (s, .goodbye _) =>
    { t with ends := update t.ends side.peer s, wire := update t.wire side frames }
  | .error _ => { t with wire := update t.wire side frames, broken := update t.broken side true }

def step (t : StreamPair) : StreamOp → StreamPair
  | .sendBytes side communityId bytes answers =>
    t.pushed side [bytes] ((t.ends side).sendBytes answers communityId bytes)
  | .sendGoodbye side communityId reason answers =>
    t.pushed side [] ((t.ends side).sendGoodbye answers communityId reason)
  | .recvValidated side r =>
    match t.wire side.peer with
    | [] => t
    | frame :: frames => t.popped side.peer frames ((t.ends side).recvValidated r frame)

def run (t : StreamPair) (ops : List StreamOp) : StreamPair := ops.foldl step t

end StreamPair

def MeshStreamFrame.tunnelled : MeshStreamFrame → List UInt8
  | .data _ payload =>
    match ReliableWireFrame.decode payload with
    | .ok (.data _ bytes) => bytes
    | _ => []
  | _ => []

section Calls

variable {s s' : ReliableMeshStream} {communityId : CommunityId}
  {answers : ℕ → Except MeshError Unit} {frames : List MeshStreamFrame}

open ReliableMeshStream

theorem sendFrames_initial (i : ℕ) : (sendFrames answers i frames).1 <+: frames := by
  induction frames generalizing i with
  | nil => simp [sendFrames]
  | cons frame frames ih =>
    rw [sendFrames]
    split
    · simp
    · simpa using ih (i + 1)

theorem sendFrames_ok {i : ℕ} (h : (sendFrames answers i frames).2 = .ok ()) :
    (sendFrames answers i frames).1 = frames := by
  induction frames generalizing i with
  | nil => simp [sendFrames]
  | cons frame frames ih =>
    rw [sendFrames] at h ⊢
    split at h
    · cases h
    · simpa using ih h

theorem sendFrames_taken (hanswers : ∀ i, answers i = .ok ()) (i : ℕ) :
    sendFrames answers i frames = (frames, .ok ()) := by
  induction frames generalizing i with
  | nil => simp [sendFrames]
  | cons frame frames ih => simp [sendFrames, hanswers, ih]

theorem ensureOutboundCommunity_ok (h : s.ensureOutboundCommunity communityId = .ok s') :
    s' = ⟨s.fenced, some communityId⟩ := by
  obtain ⟨fenced, latched⟩ := s
  rw [ensureOutboundCommunity] at h
  cases latched with
  | none => exact (Except.ok.inj h).symm
  | some expected =>
    simp only at h
    split at h
    · cases h
    next hsame =>
    rw [← not_not.mp hsame]
    exact (Except.ok.inj h).symm

theorem ensureOutboundCommunity_of_latched
    (h : s.communityId = none ∨ s.communityId = some communityId) :
    s.ensureOutboundCommunity communityId = .ok ⟨s.fenced, some communityId⟩ := by
  obtain ⟨fenced, latched⟩ := s
  rcases h with rfl | rfl
  · simp [ensureOutboundCommunity]
  · simp [ensureOutboundCommunity]

theorem validateFrameFence_ok {r : Redis} {fenced : FencedHeader}
    (h : s.validateFrameFence r communityId fenced = .ok s') :
    s' = ⟨s.fenced, some communityId⟩ := by
  obtain ⟨pinned, latched⟩ := s
  rw [validateFrameFence] at h
  split at h
  · cases h
  cases latched with
  | none =>
    simp only at h
    split at h
    · cases h
    · exact (Except.ok.inj h).symm
  | some expected =>
    simp only at h
    split at h
    · cases h
    next hsame =>
    split at h
    · cases h
    · rw [← not_not.mp hsame]
      exact (Except.ok.inj h).symm

theorem validateFrameFence_of_latched {r : Redis}
    (hlatched : s.communityId = none ∨ s.communityId = some communityId)
    (hr : validateFencedHeader r communityId s.fenced = .ok ()) :
    s.validateFrameFence r communityId s.fenced = .ok ⟨s.fenced, some communityId⟩ := by
  obtain ⟨fenced, latched⟩ := s
  rcases hlatched with rfl | rfl
  · simp_all [validateFrameFence]
  · simp_all [validateFrameFence]

/-- What a receiver gets from a frame that the other side made. -/
theorem recvValidated_encode (r : Redis) (frame : ReliableWireFrame) (fenced : FencedHeader) :
    s.recvValidated r (.data fenced frame.encode) =
      (s.validateFrameFence r frame.communityId fenced).map fun s' ↦
        (s', match frame with
          | .data _ payload => .data payload
          | .goodbye _ reason => .goodbye reason) := by
  rw [recvValidated, ReliableWireFrame.decode_encode]
  simp only
  cases s.validateFrameFence r frame.communityId fenced with
  | error e => simp [Except.map]
  | ok s' => cases frame <;> simp [Except.map]

end Calls

section Sent

variable {s : ReliableMeshStream} {fenced : FencedHeader}

def Framed (fenced : FencedHeader) (frame : MeshStreamFrame) : Prop :=
  ∃ f : ReliableWireFrame, frame = .data fenced f.encode

/-- What a sending call leaves: its frames, and if it succeeds all the bytes it was given. -/
structure Pushes (fenced : FencedHeader) (bytes : List (List UInt8))
    (call : ReliableMeshStream × List MeshStreamFrame × Except ReliableFrameError Unit) : Prop where
  pinned : call.1.fenced = fenced
  framed : ∀ frame ∈ call.2.1, Framed fenced frame
  bytes : call.2.2 = .ok () → call.2.1.flatMap MeshStreamFrame.tunnelled = bytes.flatten

theorem flatMap_dataFrame (communityId : CommunityId) (chunks : List (List UInt8)) :
    (chunks.map (s.dataFrame communityId)).flatMap MeshStreamFrame.tunnelled = chunks.flatten := by
  induction chunks with
  | nil => simp
  | cons chunk chunks ih =>
    simp only [List.map_cons, List.flatMap_cons, ih, List.flatten_cons]
    simp [ReliableMeshStream.dataFrame, MeshStreamFrame.tunnelled, ReliableWireFrame.decode_encode]

theorem pushes_sendBytes (hs : s.fenced = fenced) (answers : ℕ → Except MeshError Unit)
    (communityId : CommunityId) (bytes : List UInt8) :
    Pushes fenced [bytes] (s.sendBytes answers communityId bytes) := by
  rw [ReliableMeshStream.sendBytes]
  cases hensure : s.ensureOutboundCommunity communityId with
  | error e => exact ⟨hs, by simp, by simp⟩
  | ok s' =>
    have hpinned : s'.fenced = fenced := by simpa [ensureOutboundCommunity_ok hensure] using hs
    refine ⟨hpinned, ?_, ?_⟩
    · intro frame hframe
      obtain ⟨chunk, -, rfl⟩ := List.mem_map.mp ((sendFrames_initial 0).subset hframe)
      exact ⟨.data communityId chunk, by rw [ReliableMeshStream.dataFrame, hpinned]⟩
    · intro hok
      simp only at hok ⊢
      rw [sendFrames_ok hok, flatMap_dataFrame, flatten_chunks (by simp [maxReliablePayloadBytes])]
      simp

theorem pushes_sendGoodbye (hs : s.fenced = fenced) (answers : ℕ → Except MeshError Unit)
    (communityId : CommunityId) (reason : GoodbyeReason) :
    Pushes fenced [] (s.sendGoodbye answers communityId reason) := by
  rw [ReliableMeshStream.sendGoodbye]
  cases hensure : s.ensureOutboundCommunity communityId with
  | error e => exact ⟨hs, by simp, by simp⟩
  | ok s' =>
    have hpinned : s'.fenced = fenced := by simpa [ensureOutboundCommunity_ok hensure] using hs
    refine ⟨hpinned, ?_, ?_⟩
    · intro frame hframe
      have hgoodbye := (sendFrames_initial 0).subset hframe
      exact ⟨.goodbye communityId reason, by simpa [hpinned] using hgoodbye⟩
    · intro hok
      simp only at hok ⊢
      rw [sendFrames_ok hok]
      simp [MeshStreamFrame.tunnelled, ReliableWireFrame.decode_encode]

end Sent

/-- What holds of the frames of one side: unless a call on them failed, the peer has received all
that was sent, but for what is under way. -/
structure Accounted (fenced : FencedHeader) (t : StreamPair) (side : Side) : Prop where
  pinned : (t.ends side).fenced = fenced
  framed : ∀ frame ∈ t.wire side, Framed fenced frame
  balance : t.broken side = false →
    (t.received side).flatten ++ (t.wire side).flatMap MeshStreamFrame.tunnelled =
      (t.sent side).flatten

namespace StreamPair

variable {t : StreamPair} {fenced : FencedHeader}

theorem accounted_pushed (h : ∀ side, Accounted fenced t side) {side : Side}
    {bytes : List (List UInt8)}
    {call : ReliableMeshStream × List MeshStreamFrame × Except ReliableFrameError Unit}
    (hcall : Pushes fenced bytes call) (side' : Side) :
    Accounted fenced (t.pushed side bytes call) side' := by
  obtain ⟨s, frames, result⟩ := call
  by_cases hside : side' = side
  · subst hside
    have hframed : ∀ frame ∈ t.wire side' ++ frames, Framed fenced frame := by
      intro frame hframe
      rcases List.mem_append.mp hframe with hold | hnew
      · exact (h side').framed frame hold
      · exact hcall.framed frame hnew
    cases result with
    | error e => exact ⟨by simpa [pushed] using hcall.pinned, by simpa [pushed] using hframed,
        by simp [pushed]⟩
    | ok _ =>
      refine ⟨by simpa [pushed] using hcall.pinned, by simpa [pushed] using hframed, ?_⟩
      intro hbroken
      have hbalance := (h side').balance hbroken
      have hbytes := hcall.bytes rfl
      simp only at hbytes
      simp only [pushed, update_self, List.flatMap_append, List.flatten_append, hbytes]
      rw [← List.append_assoc, hbalance]
  · obtain ⟨hpinned, hframed, hbalance⟩ := h side'
    cases result with
    | error e => constructor <;> simpa [pushed, hside]
    | ok _ => constructor <;> simpa [pushed, hside]

theorem accounted_popped (h : ∀ side, Accounted fenced t side) {side : Side}
    {frame : MeshStreamFrame} {frames : List MeshStreamFrame} (hwire : t.wire side = frame :: frames)
    (r : Redis) (side' : Side) :
    Accounted fenced (t.popped side frames ((t.ends side.peer).recvValidated r frame)) side' := by
  obtain ⟨f, rfl⟩ := (h side).framed frame (by simp [hwire])
  have hframed : ∀ frame ∈ frames, Framed fenced frame :=
    fun frame hframe ↦ (h side).framed frame (by simp [hwire, hframe])
  have hends (s : ReliableMeshStream) (hs : s.fenced = fenced) :
      (update t.ends side.peer s side').fenced = fenced := by
    by_cases hpeer : side' = side.peer
    · simpa [hpeer] using hs
    · simpa [hpeer] using (h side').pinned
  rw [recvValidated_encode]
  cases hfence : (t.ends side.peer).validateFrameFence r f.communityId fenced with
  | error e =>
    by_cases hside : side' = side
    · subst hside
      exact ⟨(h side').pinned, by simpa [popped, Except.map] using hframed,
        by simp [popped, Except.map]⟩
    · obtain ⟨hpinned, hold, hbalance⟩ := h side'
      constructor <;> simpa [popped, Except.map, hside]
  | ok s' =>
    have hs' : s'.fenced = fenced := by
      simpa [validateFrameFence_ok hfence] using (h side.peer).pinned
    by_cases hside : side' = side
    · subst hside
      have hbalance := (h side').balance
      rw [hwire] at hbalance
      cases f with
      | data communityId payload =>
        refine ⟨hends s' hs', by simpa [popped, Except.map] using hframed, ?_⟩
        intro hbroken
        simpa [popped, Except.map, MeshStreamFrame.tunnelled, ReliableWireFrame.decode_encode]
          using hbalance hbroken
      | goodbye communityId reason =>
        refine ⟨hends s' hs', by simpa [popped, Except.map] using hframed, ?_⟩
        intro hbroken
        simpa [popped, Except.map, MeshStreamFrame.tunnelled, ReliableWireFrame.decode_encode]
          using hbalance hbroken
    · obtain ⟨-, hold, hbalance⟩ := h side'
      cases f with
      | data communityId payload =>
        exact ⟨hends s' hs', by simpa [popped, Except.map, hside] using hold,
          by simpa [popped, Except.map, hside] using hbalance⟩
      | goodbye communityId reason =>
        exact ⟨hends s' hs', by simpa [popped, Except.map, hside] using hold,
          by simpa [popped, Except.map, hside] using hbalance⟩

theorem accounted_step (h : ∀ side, Accounted fenced t side) (op : StreamOp) (side : Side) :
    Accounted fenced (t.step op) side := by
  cases op with
  | sendBytes sender communityId bytes answers =>
    exact accounted_pushed h (pushes_sendBytes (h sender).pinned answers communityId bytes) side
  | sendGoodbye sender communityId reason answers =>
    exact accounted_pushed h (pushes_sendGoodbye (h sender).pinned answers communityId reason) side
  | recvValidated receiver r =>
    rw [step]
    split
    · exact h side
    · next frame frames hwire =>
      have hpeer : receiver.peer.peer = receiver := by cases receiver <;> rfl
      have hpopped := accounted_popped h hwire r side
      rwa [hpeer] at hpopped

theorem accounted_run (communities : Side → Option CommunityId) (ops : List StreamOp) (side : Side) :
    Accounted fenced ((opened fenced communities).run ops) side := by
  have hall : ∀ side, Accounted fenced ((opened fenced communities).run ops) side := by
    apply List.foldlRecOn (motive := fun t ↦ ∀ side, Accounted fenced t side) ops step
    · intro side
      exact ⟨rfl, by simp [opened], by simp [opened]⟩
    · exact fun t ht op _ ↦ accounted_step ht op
  exact hall side

end StreamPair

/-- A call for one community that nothing refuses: the transport takes every frame, and the
directory that a receiver asks confirms the session. -/
def StreamOp.Undisturbed (fenced : FencedHeader) (communityId : CommunityId) : StreamOp → Prop
  | .sendBytes _ c _ answers => c = communityId ∧ ∀ i, answers i = .ok ()
  | .sendGoodbye _ c _ answers => c = communityId ∧ ∀ i, answers i = .ok ()
  | .recvValidated _ r => validateFencedHeader r communityId fenced = .ok ()

structure Unbroken (fenced : FencedHeader) (communityId : CommunityId) (t : StreamPair) : Prop where
  pinned : ∀ side, (t.ends side).fenced = fenced
  latched : ∀ side, (t.ends side).communityId = none ∨ (t.ends side).communityId = some communityId
  framed : ∀ side, ∀ frame ∈ t.wire side, ∃ f : ReliableWireFrame,
    frame = .data fenced f.encode ∧ f.communityId = communityId
  unbroken : ∀ side, t.broken side = false

namespace StreamPair

variable {t : StreamPair} {fenced : FencedHeader} {communityId : CommunityId}

theorem unbroken_pushed (h : Unbroken fenced communityId t) {side : Side}
    {bytes : List (List UInt8)} {frames : List MeshStreamFrame}
    (hframes : ∀ frame ∈ frames, ∃ f : ReliableWireFrame,
      frame = .data fenced f.encode ∧ f.communityId = communityId) :
    Unbroken fenced communityId
      (t.pushed side bytes (⟨fenced, some communityId⟩, frames, .ok ())) := by
  constructor
  · intro side'
    by_cases hside : side' = side
    · simp [pushed, hside]
    · simpa [pushed, hside] using h.pinned side'
  · intro side'
    by_cases hside : side' = side
    · simp [pushed, hside]
    · simpa [pushed, hside] using h.latched side'
  · intro side' frame hframe
    by_cases hside : side' = side
    · subst hside
      simp only [pushed, update_self, List.mem_append] at hframe
      exact hframe.elim (h.framed side' frame) (hframes frame)
    · exact h.framed side' frame (by simpa [pushed, hside] using hframe)
  · exact h.unbroken

theorem unbroken_popped (h : Unbroken fenced communityId t) {side : Side} {frame : MeshStreamFrame}
    {frames : List MeshStreamFrame} (hwire : t.wire side = frame :: frames) {r : Redis}
    (hr : validateFencedHeader r communityId fenced = .ok ()) :
    Unbroken fenced communityId
      (t.popped side frames ((t.ends side.peer).recvValidated r frame)) := by
  obtain ⟨f, rfl, hf⟩ := h.framed side frame (by simp [hwire])
  have hpinned := h.pinned side.peer
  have hvalid : (t.ends side.peer).validateFrameFence r communityId fenced =
      .ok ⟨fenced, some communityId⟩ := by
    have hfence := validateFrameFence_of_latched (h.latched side.peer) (r := r) (by rwa [hpinned])
    rwa [hpinned] at hfence
  rw [recvValidated_encode, hf, hvalid]
  have hends (side' : Side) : let s := update t.ends side.peer ⟨fenced, some communityId⟩ side'
      s.fenced = fenced ∧ (s.communityId = none ∨ s.communityId = some communityId) := by
    by_cases hpeer : side' = side.peer
    · simp [hpeer]
    · simpa [hpeer] using ⟨h.pinned side', h.latched side'⟩
  have hwired (side' : Side) : ∀ frame ∈ update t.wire side frames side',
      ∃ f : ReliableWireFrame, frame = .data fenced f.encode ∧ f.communityId = communityId := by
    intro frame hframe
    by_cases hside : side' = side
    · subst hside
      rw [update_self] at hframe
      exact h.framed side' frame (by simp [hwire, hframe])
    · rw [update_of_ne hside] at hframe
      exact h.framed side' frame hframe
  cases f with
  | data _ payload =>
    exact ⟨fun side' ↦ (hends side').1, fun side' ↦ (hends side').2, hwired, h.unbroken⟩
  | goodbye _ reason =>
    exact ⟨fun side' ↦ (hends side').1, fun side' ↦ (hends side').2, hwired, h.unbroken⟩

theorem unbroken_step (h : Unbroken fenced communityId t) {op : StreamOp}
    (hop : op.Undisturbed fenced communityId) : Unbroken fenced communityId (t.step op) := by
  cases op with
  | sendBytes side c bytes answers =>
    obtain ⟨rfl, hanswers⟩ := hop
    rw [step, ReliableMeshStream.sendBytes,
      ensureOutboundCommunity_of_latched (h.latched side), h.pinned side]
    simp only [sendFrames_taken hanswers]
    apply unbroken_pushed h
    intro frame hframe
    obtain ⟨chunk, -, rfl⟩ := List.mem_map.mp hframe
    exact ⟨.data c chunk, rfl, rfl⟩
  | sendGoodbye side c reason answers =>
    obtain ⟨rfl, hanswers⟩ := hop
    rw [step, ReliableMeshStream.sendGoodbye,
      ensureOutboundCommunity_of_latched (h.latched side), h.pinned side]
    simp only [sendFrames_taken hanswers]
    apply unbroken_pushed h
    intro frame hframe
    exact ⟨.goodbye c reason, by simpa using hframe, rfl⟩
  | recvValidated side r =>
    rw [step]
    split
    · exact h
    · next frame frames hwire =>
      have hpeer : side.peer.peer = side := by cases side <;> rfl
      have hpopped := unbroken_popped h hwire hop
      rwa [hpeer] at hpopped

theorem unbroken_run {communities : Side → Option CommunityId}
    (hcommunities : ∀ side, communities side = none ∨ communities side = some communityId)
    {ops : List StreamOp} (hops : ∀ op ∈ ops, op.Undisturbed fenced communityId) :
    Unbroken fenced communityId ((opened fenced communities).run ops) := by
  apply List.foldlRecOn (motive := Unbroken fenced communityId) ops step
  · exact ⟨fun _ ↦ rfl, hcommunities, by simp [opened], fun _ ↦ rfl⟩
  · exact fun t ht op hop ↦ unbroken_step ht (hops op hop)

/-- Each call of the receiver takes one frame of the sender and touches nothing the sender sent. -/
theorem recv_all (t : StreamPair) (side : Side) (r : Redis) (n : ℕ) :
    (t.run (List.replicate n (.recvValidated side.peer r))).wire side = (t.wire side).drop n ∧
      (t.run (List.replicate n (.recvValidated side.peer r))).sent = t.sent := by
  have hpeer : side.peer.peer = side := by cases side <;> rfl
  induction n generalizing t with
  | zero => simp [run]
  | succ n ih =>
    rw [List.replicate_succ, run, List.foldl_cons]
    obtain ⟨hwire, hsent⟩ := ih (t.step (.recvValidated side.peer r))
    rw [run] at hwire hsent
    rw [hwire, hsent, step, hpeer]
    split
    · next hnil => simp [hnil]
    · next frame frames hcons =>
      rw [hcons, List.drop_succ_cons]
      rcases (t.ends side.peer).recvValidated r frame with e | ⟨s, _ | _⟩
      · simp [popped]
      · simp [popped]
      · simp [popped]

end StreamPair

/-- Frames are read back as they were written, and byte strings arrive as they were sent: at any
point of any interleaving what was received, followed by what is under way, is what was sent. -/
theorem reliable_stream_round_trip :
    (∀ frame : ReliableWireFrame, ReliableWireFrame.decode frame.encode = .ok frame) ∧
    (∀ bytes frame, ReliableWireFrame.decode bytes = .ok frame → frame.encode = bytes) ∧
    (∀ fenced communities ops side, let t := (StreamPair.opened fenced communities).run ops
      t.broken side = false →
        (t.received side).flatten ++ (t.wire side).flatMap MeshStreamFrame.tunnelled =
          (t.sent side).flatten) ∧
    ∀ fenced communityId communities ops,
      (∀ side, communities side = none ∨ communities side = some communityId) →
      (∀ op ∈ ops, op.Undisturbed fenced communityId) →
      ∀ side r, validateFencedHeader r communityId fenced = .ok () →
        let t := (StreamPair.opened fenced communities).run ops
        let t' := t.run (List.replicate (t.wire side).length (.recvValidated side.peer r))
        t.broken side = false ∧ t'.broken side = false ∧ t'.sent side = t.sent side ∧
          (t'.received side).flatten = (t.sent side).flatten := by
  refine ⟨ReliableWireFrame.decode_encode, fun _ _ h ↦ ReliableWireFrame.encode_of_decode h,
    fun fenced communities ops side ↦ (StreamPair.accounted_run communities ops side).balance, ?_⟩
  intro fenced communityId communities ops hcommunities hops side r hr t t'
  have hrun : t' = (StreamPair.opened fenced communities).run
      (ops ++ List.replicate (t.wire side).length (.recvValidated side.peer r)) := by
    rw [StreamPair.run, List.foldl_append]
    rfl
  have hops' : ∀ op ∈ ops ++ List.replicate (t.wire side).length (.recvValidated side.peer r),
      op.Undisturbed fenced communityId := by
    intro op hop
    rcases List.mem_append.mp hop with hop | hop
    · exact hops op hop
    · rw [List.eq_of_mem_replicate hop]
      exact hr
  have hunbroken : t'.broken side = false := by
    rw [hrun]
    exact (StreamPair.unbroken_run hcommunities hops').unbroken side
  obtain ⟨hwire, hsent⟩ := t.recv_all side r (t.wire side).length
  have hbalance : t'.broken side = false → (t'.received side).flatten ++
      (t'.wire side).flatMap MeshStreamFrame.tunnelled = (t'.sent side).flatten := by
    rw [hrun]
    exact (StreamPair.accounted_run communities _ side).balance
  refine ⟨(StreamPair.unbroken_run hcommunities hops).unbroken side, hunbroken,
    congrFun hsent side, ?_⟩
  have hdrained : t'.wire side = [] := by simpa using hwire
  rw [← congrFun hsent side]
  simpa [hdrained] using hbalance hunbroken

def leasedSession : Redis := (acquire 30000 (Redis.empty 0) 5 6 7 .reliableStream).1

/-- The opener knows the community of the session, the acceptor learns it from the first frame. -/
def knownToOpener : Side → Option CommunityId
  | .opener => some 5
  | .acceptor => none

def bothWays : List StreamOp :=
  [.sendBytes .opener 5 [1, 2, 3] fun _ ↦ .ok (), .recvValidated .acceptor leasedSession,
    .sendBytes .acceptor 5 [] fun _ ↦ .ok (), .sendBytes .acceptor 5 [4] fun _ ↦ .ok (),
    .recvValidated .opener leasedSession,
    .sendBytes .opener 5 (List.replicate 70000 0) fun _ ↦ .ok (),
    .sendGoodbye .opener 5 .sessionEnded fun _ ↦ .ok ()]

theorem reliable_stream_round_trip_bothWays :
    let t := (StreamPair.opened ⟨6, 1, 7⟩ knownToOpener).run bothWays
    let t' := t.run (List.replicate (t.wire .opener).length
      (.recvValidated Side.opener.peer leasedSession))
    t.broken .opener = false ∧ t'.broken .opener = false ∧ t'.sent .opener = t.sent .opener ∧
      (t'.received .opener).flatten = (t.sent .opener).flatten := by
  have hleased : validateFencedHeader leasedSession 5 ⟨6, 1, 7⟩ = .ok () := by
    decide +kernel
  have hknown : ∀ side, knownToOpener side = none ∨ knownToOpener side = some 5 := by
    intro side
    cases side with
    | opener => exact .inr rfl
    | acceptor => exact .inl rfl
  refine reliable_stream_round_trip.2.2.2 ⟨6, 1, 7⟩ 5 knownToOpener bothWays hknown ?_ .opener _
    hleased
  intro op hop
  simp only [bothWays, List.mem_cons, List.not_mem_nil, or_false] at hop
  obtain rfl | rfl | rfl | rfl | rfl | rfl | rfl := hop
  · exact ⟨rfl, fun _ ↦ rfl⟩
  · exact hleased
  · exact ⟨rfl, fun _ ↦ rfl⟩
  · exact ⟨rfl, fun _ ↦ rfl⟩
  · exact hleased
  · exact ⟨rfl, fun _ ↦ rfl⟩
  · exact ⟨rfl, fun _ ↦ rfl⟩

end Buzz.Relay.Tunnel
