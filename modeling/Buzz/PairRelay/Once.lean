import Buzz.Lib.JsonRoundTrip
import Buzz.PairRelay.Dedup
import Buzz.PairRelay.Limits

namespace Buzz.PairRelay

open Buzz.Lib Buzz.Nostr

section Runs

variable {setup : Setup} {E : Json → Prop} {ops : List Op} {s s' : Server} {op : Op}

structure Server.Inv (setup : Setup) (E : Json → Prop) (s : Server) : Prop where
  dedup : s.view.Dedup setup E
  counted : s.view.Counted
  subscribed : s.view.Subscribed
  budgeted : s.view.Budgeted

theorem inv_initial : Server.Inv setup E {} where
  dedup := by
    refine ⟨List.nodup_nil, ?_, ?_, nofun, ?_, nofun, List.Pairwise.nil⟩
    · exact fun _ _ h ↦ nomatch h
    · rintro _ _ (h | ⟨_, h⟩)
      · cases h
      · cases h
    · rintro _ _ (h | ⟨_, h⟩)
      · cases h
      · cases h
  counted := ⟨rfl, Nat.zero_le _⟩
  subscribed := ⟨List.nodup_nil, List.nodup_nil, nofun⟩
  budgeted := by
    refine ⟨?_, ?_, ?_⟩
    · exact fun _ _ _ h ↦ nomatch h
    · exact fun _ _ _ h ↦ nomatch h
    · intro p block hblock _
      rw [List.eq_nil_of_infix_nil hblock]
      exact Nat.zero_le _

theorem Server.Inv.step (h : s.Inv setup E) (hE : setup.NoCollision E) (hop : op.Submits E)
    (hstep : step setup s op = some s') : s'.Inv setup E := by
  have hmoved := moved_of_step hstep
  exact ⟨h.dedup.moved hE hop hmoved, h.counted.moved hmoved, h.subscribed.moved hmoved,
    h.budgeted.moved hmoved⟩

/-- The events that a run submits. -/
def Submitted (ops : List Op) (ev : Json) : Prop :=
  ∃ c frame now, Op.frame c frame now ∈ ops ∧ frame.submitted = some ev

theorem inv_of_run (hE : setup.NoCollision E) (hops : ∀ op ∈ ops, op.Submits E)
    (h : run setup ops = some s) : s.Inv setup E := by
  induction ops using List.reverseRecOn generalizing s with
  | nil =>
    cases h
    exact inv_initial
  | append_singleton ops op ih =>
    obtain ⟨s₁, hrun, hstep⟩ := foldlM_concat_eq_some.mp h
    have hinv := ih (fun op hop ↦ hops op (List.mem_append_left _ hop)) hrun
    exact hinv.step hE (hops op (List.mem_append_right _ List.mem_cons_self)) hstep

theorem submits_of_mem (h : op ∈ ops) : op.Submits (Submitted ops) := by
  cases op with
  | frame c f now => exact fun ev hev ↦ ⟨c, f, now, h, hev⟩
  | _ => trivial

end Runs

section Channels

variable (s : Server) (c i : ℕ)

def Server.queueOf : Option (List OutMsg) := s.conns[i]?.map fun conn ↦ conn.channel.queue

theorem queueOf_setStage (stage : Stage) : (s.setStage c stage).queueOf i = s.queueOf i := by
  rw [Server.queueOf, Server.setStage, Server.modify, List.getElem?_modify, Server.queueOf]
  cases s.conns[i]? with
  | none => simp
  | some conn =>
    by_cases hi : c = i
    · simp [hi]
    · simp [hi]

theorem queueOf_modify (channel : Channel) :
    (s.modify c fun conn ↦ { conn with channel }).queueOf i =
      if c = i then (s.queueOf i).map fun _ ↦ channel.queue else s.queueOf i := by
  rw [Server.queueOf, Server.modify, List.getElem?_modify, Server.queueOf]
  by_cases hi : c = i
  · simp only [hi, if_true, Option.map_eq_map, Option.map_map]
    rfl
  · simp [hi]

theorem Channel.queue_getD_trySend (ch : Channel) (m : OutMsg) :
    ((ch.trySend m).getD ch).queue = ch.queue ∨ ((ch.trySend m).getD ch).queue = ch.queue ++ [m] := by
  unfold Channel.trySend
  split
  · exact .inr rfl
  · exact .inl rfl

/-- A message is put at the end of the connection's queue, or dropped. -/
theorem queueOf_send (m : OutMsg) {queue : List OutMsg} (h : s.queueOf i = some queue) :
    (s.send c m).queueOf i = some queue ∨ i = c ∧ (s.send c m).queueOf i = some (queue ++ [m]) := by
  obtain ⟨conn, hconn, rfl⟩ := Option.map_eq_some_iff.mp h
  rw [Server.queueOf, Server.send, Server.modify, List.getElem?_modify, hconn]
  by_cases hi : c = i
  · simp only [hi, if_true, Option.map_eq_map, Option.map_some, Option.some.injEq, true_and]
    exact conn.channel.queue_getD_trySend m
  · simp [hi]

theorem Channel.queue_of_trySend {ch ch' : Channel} {m : OutMsg} (h : ch.trySend m = some ch') :
    ch'.queue = ch.queue ++ [m] := by
  unfold Channel.trySend at h
  split at h
  · cases h
    rfl
  · cases h

end Channels

/-- A delivery by a step goes to the one connection whose live subscription names the pubkey that
the event's tag names: its queue gets the event, the others at most a reply to their own event. -/
structure RightParty (s s' : Server) (d : Delivery) : Prop where
  names : ∃ obj tags, asObject d.pending.event = some obj ∧
    (obj.lookup "tags").bind asArray = some tags ∧ recipient tags = .ok d.pending.pValue
  matching : s.relay.matching d.pending.pValue = [⟨d.connId, d.subId, d.pending.pValue⟩]
  attached : ∃ conn, s.conns[d.connId]? = some conn ∧ conn.subId = some d.subId ∧
    conn.stage.attached = true
  handed : ∃ queue queue', s.queueOf d.connId = some queue ∧ s'.queueOf d.connId = some queue' ∧
    queue ++ [.text (makeEvent d.subId d.pending.event)] <+: queue'
  others : ∀ i ≠ d.connId, ∀ queue, s.queueOf i = some queue →
    s'.queueOf i = some queue ∨
      s'.queueOf i = some (queue ++ [.text (makeOk d.pending.eventId true "")])

section Delivering

variable {setup : Setup} {E : Json → Prop} {s s' : Server} {op : Op}

theorem right_party {c now stamp : ℕ} (h : s.Inv setup E)
    (hstep : step setup s (.deliver c now stamp) = some s') : s'.deliveries = s.deliveries ∨
      ∃ d, s'.deliveries = d :: s.deliveries ∧ RightParty s s' d := by
  simp only [step] at hstep
  split at hstep
  case h_2 => cases hstep
  case h_1 p hstage =>
    split at hstep
    case isFalse => cases hstep
    case isTrue hnow =>
      rcases deliverSingle_cases s p now stamp with
        ⟨sub, channel, hmatching, -, haccepts, hres⟩ | ⟨answer, delivered, hres, hanswer, -⟩
      · right
        rw [hres] at hstep
        cases hstep
        refine ⟨⟨p, sub.connId, sub.subId, stamp⟩, rfl, ?_⟩
        obtain ⟨hsub, hp⟩ : sub ∈ s.relay.subs ∧ sub.pValue = p.pValue := by
          have hmem : sub ∈ s.relay.matching p.pValue := by
            rw [hmatching]
            exact List.mem_cons_self
          obtain ⟨hsub, hp⟩ := List.mem_filter.mp hmem
          exact ⟨hsub, of_decide_eq_true hp⟩
        obtain ⟨conn, hconn, htry⟩ := Option.bind_eq_some_iff.mp haccepts
        rw [s.stageOf_eq] at hstage
        obtain ⟨-, t₀, -, haccepted⟩ := h.dedup.known c p (.inl hstage)
        obtain ⟨⟨obj, hobj, -, htags⟩, -⟩ := of_validateEvent haccepted.valid
        obtain ⟨hsubId, stage, hattached, hstage'⟩ := h.subscribed.owner sub hsub
        have hqueue : s.queueOf sub.connId = some conn.channel.queue := by
          rw [Server.queueOf, hconn, Option.map_some]
        have hmodify := queueOf_modify s sub.connId
        refine ⟨⟨obj, htags.choose, hobj, htags.choose_spec⟩, ?_, ⟨conn, hconn, ?_, ?_⟩, ?_, ?_⟩
        · rw [hmatching, ← hp]
        · have hids : s.subIds[sub.connId]? = some conn.subId := by
            rw [Server.subIds, List.getElem?_map, hconn, Option.map_some]
          exact Option.some.inj (hids.symm.trans hsubId)
        · have hstages : s.stages[sub.connId]? = some conn.stage := by
            rw [Server.stages, List.getElem?_map, hconn, Option.map_some]
          rw [Option.some.inj (hstages.symm.trans hattached)]
          exact hstage'
        · have hsent := hmodify sub.connId channel
          rw [if_pos rfl, hqueue, Option.map_some, Channel.queue_of_trySend htry] at hsent
          rcases queueOf_send _ c sub.connId (.text (makeOk p.eventId true "")) hsent with
            hsame | ⟨-, hmore⟩
          · exact ⟨_, _, hqueue, (queueOf_setStage _ _ _ _).trans hsame, List.prefix_rfl⟩
          · exact ⟨_, _, hqueue, (queueOf_setStage _ _ _ _).trans hmore, List.prefix_append _ _⟩
        · intro i hi queue hqueue
          have hsame := hmodify i channel
          rw [if_neg hi.symm, hqueue] at hsame
          rcases queueOf_send _ c i (.text (makeOk p.eventId true "")) hsame with hsame | ⟨-, hmore⟩
          · exact .inl ((queueOf_setStage _ _ _ _).trans hsame)
          · exact .inr ((queueOf_setStage _ _ _ _).trans hmore)
      · left
        rw [hres] at hstep
        dsimp only at hstep
        split at hstep
        · exact (hanswer rfl).elim
        · cases hstep
          rfl
        · cases hstep
          rfl

theorem delivers (h : s.Inv setup E) (hstep : step setup s op = some s') :
    s'.deliveries = s.deliveries ∨ ∃ d, s'.deliveries = d :: s.deliveries ∧ RightParty s s' d := by
  have hmoved : Moved setup s.view op s'.view := moved_of_step hstep
  have hkeep {v' : View} (hmoved : Moved setup s.view op v') :
      v'.deliveries = s.deliveries ∨ ∃ c now stamp, op = .deliver c now stamp := by
    cases hmoved with
    | framed c frame now _ _ hframed =>
      left
      cases hframed with
      | quiet | leave | verified | subscribed | unsubscribed => rfl
    | delivered c now stamp | undelivered c now stamp => exact .inr ⟨c, now, stamp, rfl⟩
    | _ => exact .inl rfl
  rcases hkeep hmoved with hsame | ⟨c, now, stamp, rfl⟩
  · exact .inl hsame
  · exact right_party h hstep

theorem retry {c : ℕ} {p : Pending} {reason : String} (h : s.Inv setup E)
    (hstage : s.stageOf c = some (.undelivered p reason)) :
    ∃ s', step setup s (.unreserve c) = some s' ∧ ∀ now stamp,
      (s'.relay.reserveId p.id now stamp).1 = .ok false ∨
        (s'.relay.reserveId p.id now stamp).1 = .error () ∧
          dedupCap ≤ (s'.relay.kept now).length := by
  obtain ⟨-, hmem⟩ := @Relay.unreserveId_spec s.relay p.id h.dedup.nodup
  refine ⟨_, by simp only [step, hstage]; rfl, fun now stamp ↦ ?_⟩
  exact Relay.reserveId_of_free fun e he ↦ ((hmem e).mp (List.mem_of_mem_filter he)).2

end Delivering

/-- What holds of the relay in every state of a run. -/
structure PairsOnce (setup : Setup) (s : Server) : Prop where
  once : s.deliveries.Pairwise fun later earlier ↦ later.pending.id = earlier.pending.id →
    ∀ c, eventCreatedAt earlier.pending.event = some c → ¬Fresh c (setup.wallSecs later.time)
  right : ∀ op s', step setup s op = some s' → s'.deliveries = s.deliveries ∨
    ∃ d, s'.deliveries = d :: s.deliveries ∧ RightParty s s' d
  unique : (s.relay.subs.map Sub.pValue).Nodup
  budget : ∀ p block, block <:+: s.view.times p → View.WithinBudget block →
    block.length ≤ maxDeliveredPerP
  retry : ∀ c p reason, s.stageOf c = some (.undelivered p reason) →
    ∃ s', step setup s (.unreserve c) = some s' ∧ ∀ now stamp,
      (s'.relay.reserveId p.id now stamp).1 = .ok false ∨
        (s'.relay.reserveId p.id now stamp).1 = .error () ∧ dedupCap ≤ (s'.relay.kept now).length
  slots : s.relay.connCount = s.stages.countP Stage.live + s.rejecting
  bounded : s.stages.countP Stage.live ≤ maxConns

/-- A pairing relay delivers each event once while it is fresh, to the one party that its tag names,
as long as no two of the events submitted collide under the hash. -/
theorem pair_relay_delivers_once {setup : Setup} {ops : List Op} {s : Server}
    (h : run setup ops = some s) (hE : setup.NoCollision (Submitted ops)) : PairsOnce setup s := by
  have hinv := inv_of_run hE (fun op hop ↦ submits_of_mem hop) h
  have honce := hinv.dedup.once.imp fun {later earlier} hstale hid ↦
    fun c (hc : eventCreatedAt earlier.pending.event = some c) ↦
      Setup.Stale.not_fresh (hstale hid) hc
  exact {
    once := honce
    right := fun op s' hstep ↦ delivers hinv hstep
    unique := hinv.subscribed.recipients
    budget := hinv.budgeted.within
    retry := fun c p reason hstage ↦ retry hinv hstage
    slots := hinv.counted.count
    bounded := hinv.counted.bound }

section Pairing

def senderHex : String := "79be667ef9dcbbac55a06295ce870b07029bfcdb2dce28d959f2815b16f81798"
def recipientHex : String := "c6047f9441ed7d6d3045406e95c07cd85c778e4b8cef3ca7abac09b95c709ee5"
def idHex : String := "dd29605d92da8e825fedd19d88e57ef36582c0d0169cffe575e7b84167e5d80a"

def sigHex : String := "c6982a297ae7780d73e6230e542ad96df9c8ce4333e660dc5880cff049d9f2f8" ++
  "f3d964624380f1213115c465a10256f69358c4186cc02428bab48110d549a51c"

def pairingFilter : Json := .obj [("#p", .arr [.str recipientHex])]

def pairingEvent : Json := .obj [
  ("content", .str (String.ofList ("AgA".toList ++ List.replicate 129 'A'))),
  ("created_at", .num "0"), ("id", .str idHex), ("kind", .num "24134"),
  ("pubkey", .str senderHex), ("sig", .str sigHex),
  ("tags", .arr [.arr [.str "p", .str recipientHex]])]

def reqText : String := String.ofList (Json.arr [.str "REQ", .str "s", pairingFilter]).render

def eventText : String := String.ofList (Json.arr [.str "EVENT", pairingEvent]).render

theorem canonical_cons {v : Json} {vs : List Json} (hv : v.Canonical) (hvs : ∀ w ∈ vs, w.Canonical) :
    ∀ w ∈ v :: vs, w.Canonical :=
  List.forall_mem_cons.mpr ⟨hv, hvs⟩

theorem canonical_strs (ss : List String) : (Json.arr (ss.map .str)).Canonical := by
  refine .arr fun v hv ↦ ?_
  obtain ⟨s, -, rfl⟩ := List.mem_map.mp hv
  exact .str s

theorem canonical_filter : pairingFilter.Canonical := by
  refine .obj rfl ?_
  simp only [List.forall_mem_cons, List.not_mem_nil, false_imp_iff, implies_true, and_true]
  exact canonical_strs [recipientHex]

theorem canonical_event : pairingEvent.Canonical := by
  refine .obj rfl ?_
  simp only [List.forall_mem_cons, List.not_mem_nil, false_imp_iff, implies_true, and_true]
  refine ⟨.str _, .nat 0, .str _, .nat 24134, .str _, .str _, .arr (canonical_cons ?_ nofun)⟩
  exact canonical_strs ["p", recipientHex]

theorem parse_render {v : Json} (h : v.Canonical) :
    Json.parse (String.ofList v.render) = some v := by
  apply Json.Parses.parse
  rw [String.toList_ofList]
  exact h.parses fun _ ↦ id

theorem parse_reqText : Json.parse reqText = some (.arr [.str "REQ", .str "s", pairingFilter]) :=
  parse_render (.arr (canonical_cons (.str _) (canonical_cons (.str _)
    (canonical_cons canonical_filter nofun))))

theorem parse_eventText : Json.parse eventText = some (.arr [.str "EVENT", pairingEvent]) :=
  parse_render (.arr (canonical_cons (.str _) (canonical_cons canonical_event nofun)))

theorem submitted_reqText : (Frame.text reqText).submitted = none := by
  rw [Frame.submitted, parse_reqText]

theorem submitted_eventText : (Frame.text eventText).submitted = some pairingEvent := by
  rw [Frame.submitted, parse_eventText]

def oneEvent : Setup where
  crypto :=
    { digest := fun _ ↦ 0xdd29605d92da8e825fedd19d88e57ef36582c0d0169cffe575e7b84167e5d80a
      isXOnlyKey := fun key ↦ decodeHex32 senderHex = some key
      verifySchnorr := fun sig id key ↦ decodeHex64 sigHex = some sig ∧
        decodeHex32 idHex = some id ∧ decodeHex32 senderHex = some key }
  epoch := 0

def pairingOps : List Op :=
  [.request, .request, .upgraded 0 0, .upgraded 1 0, .frame 0 (.text reqText) 0,
    .frame 1 (.text eventText) 1, .reserve 1 2 3, .deliver 1 4 5]

theorem submitted_pairingOps {ev : Json} (h : Submitted pairingOps ev) : ev = pairingEvent := by
  obtain ⟨c, frame, now, hmem, hev⟩ := h
  simp only [pairingOps, List.mem_cons, reduceCtorEq, false_or, Op.frame.injEq, List.not_mem_nil,
    or_false] at hmem
  rcases hmem with ⟨-, rfl, -⟩ | ⟨-, rfl, -⟩
  · rw [submitted_reqText] at hev
    cases hev
  · rw [submitted_eventText] at hev
    exact (Option.some.inj hev).symm

theorem noCollision_oneEvent : oneEvent.NoCollision (Submitted pairingOps) := by
  intro ev ev' hev hev' hashed hashed' h h' _
  rw [submitted_pairingOps hev] at h
  rw [submitted_pairingOps hev'] at h'
  exact Except.ok.inj (h.symm.trans h')

theorem run_pairingOps :
    (run oneEvent pairingOps).any (fun s ↦ s.deliveries.length = 1) = true := by
  simp only [run, pairingOps, List.foldlM_cons, List.foldlM_nil, step, Server.handleFrame,
    Server.handleText, parse_reqText, parse_eventText]
  decide +kernel

theorem pair_relay_delivers_event :
    ∃ s, run oneEvent pairingOps = some s ∧ s.deliveries.length = 1 ∧ PairsOnce oneEvent s := by
  obtain ⟨s, hs, hlength⟩ := (Option.any_eq_true _ _).mp run_pairingOps
  exact ⟨s, hs, of_decide_eq_true hlength, pair_relay_delivers_once hs noCollision_oneEvent⟩

end Pairing

end Buzz.PairRelay
