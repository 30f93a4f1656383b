import Buzz.Lib.JsonRoundTrip
import Buzz.Pairing.Agreement

namespace Buzz.Pairing

open Buzz.Lib Buzz.Nostr

def sealedEvent (P : Primitives) (keys : SecretKey) (peer : PublicKey) (m : PairingMessage)
    (rand : Rand) : Event :=
  let body : Body := ⟨P.publicKey keys, .ofNat (rand.now - rand.jitter % 31), pairingKind,
    [⟨"p", [hexEncode peer]⟩], .sealed ⟨s(P.publicKey keys, peer), P.toJson m, rand.nonce⟩⟩
  { body with id := P.eventId body, sig := .signed (P.publicKey keys) body }

/-- A message that encrypts, within the size limits of both ends. -/
structure Fits (P : Primitives) (m : PairingMessage) : Prop where
  encrypts : P.encryptError (P.toJson m) = none
  content : ¬(P.sealedLen (P.toJson m) < 132 ∨ 87472 < P.sealedLen (P.toJson m))
  plain : ¬65535 < (P.toJson m).utf8ByteSize

section

variable {P : Primitives} (hsign : ∀ b, P.signError b = none)
include hsign

theorem buildEvent_eq {s : PairingSession} {peer : PublicKey} {m : PairingMessage} {rand : Rand}
    (hpeer : s.peerPubkey = some peer) (hfits : Fits P m) :
    s.buildEvent P m rand = .ok (sealedEvent P s.keys peer m rand) := by
  have hencrypt : encrypt P s.keys peer (P.toJson m) rand.nonce =
      .ok (.sealed ⟨s(P.publicKey s.keys, peer), P.toJson m, rand.nonce⟩) := by
    unfold encrypt
    rw [hfits.encrypts]
  refine bind_eq_ok.mpr ⟨peer, okOr_eq_ok.mpr hpeer, bind_eq_ok.mpr ⟨_, hencrypt, ?_⟩⟩
  rw [signWithKeys, hsign]
  rfl

omit hsign in
theorem read_sealedEvent {r : PairingSession} {keys : SecretKey} {m : PairingMessage} {rand : Rand}
    (hfits : Fits P m)
    (hpeer : r.peerPubkey = none ∨ r.peerPubkey = some (P.publicKey keys))
    (hfresh : (sealedEvent P keys (P.publicKey r.keys) m rand).id ∉ r.processedIds) :
    r.validateEventBasics P (sealedEvent P keys (P.publicKey r.keys) m rand) = .ok () ∧
      r.validateEventFromPeer P (sealedEvent P keys (P.publicKey r.keys) m rand) = .ok () ∧
      r.decryptMessage P (sealedEvent P keys (P.publicKey r.keys) m rand) = .ok m := by
  have hverify : verify P (sealedEvent P keys (P.publicKey r.keys) m rand) = .ok () :=
    if_pos ⟨rfl, rfl⟩
  have hbasics :
      r.validateEventBasics P (sealedEvent P keys (P.publicKey r.keys) m rand) = .ok () := by
    have htag : r.hasPTag P (sealedEvent P keys (P.publicKey r.keys) m rand) = true := by
      simp [PairingSession.hasPTag, sealedEvent, Tag.content, PairingSession.pubkey]
    simp only [PairingSession.validateEventBasics, hverify]
    rw [if_neg hfresh, if_neg (fun h ↦ h rfl), if_pos htag]
  refine ⟨hbasics, ?_, ?_⟩
  · rw [PairingSession.validateEventFromPeer, hbasics]
    rcases hpeer with hpeer | hpeer
    · rw [hpeer]
      rfl
    · rw [hpeer]
      exact if_neg fun h ↦ h rfl
  · refine ite_error_eq_ok.mpr ⟨hfits.content, bind_eq_ok.mpr ⟨P.toJson m, ?_, ?_⟩⟩
    · exact if_pos Sym2.eq_swap
    · rw [ite_error_eq_ok]
      refine ⟨hfits.plain, ?_⟩
      rw [P.fromJson_toJson]

end

namespace PairingSession

variable {P : Primitives} {s : PairingSession} {now : ℕ} {e : Event}

theorem guards_ok {α : Type} {state : SessionState} {role : Role} {x : Except PairingError α}
    {a : α} (hnow : s.isExpired now = false) (hstate : s.state = state) (hrole : s.role = role)
    (hx : x = .ok a) : (do
      s.checkExpired now
      s.expectState state
      s.expectRole role
      x) = .ok a := by
  refine bind_eq_ok.mpr ⟨(), ?_, bind_eq_ok.mpr ⟨(), ?_, bind_eq_ok.mpr ⟨(), ?_, hx⟩⟩⟩
  · exact if_neg (by rw [hnow]; exact Bool.false_ne_true)
  · exact if_neg (not_not.mpr hstate)
  · exact if_neg (not_not.mpr hrole)

theorem readOffer_ok (hnow : s.isExpired now = false) (hstate : s.state = .waiting)
    (hrole : s.role = .source) (hbasics : s.validateEventBasics P e = .ok ())
    (hread : s.decryptMessage P e = .ok (.offer (hexEncode s.sessionId) 1)) :
    s.readOffer P now e = .ok () := by
  refine guards_ok hnow hstate hrole (bind_eq_ok.mpr ⟨(), hbasics, bind_eq_ok.mpr ⟨_, hread, ?_⟩⟩)
  dsimp only
  rw [if_neg (not_not.mpr rfl), if_pos (hexDecode_hexEncode _)]

theorem readOffer_wrong {sid : String} (hnow : s.isExpired now = false) (hstate : s.state = .waiting)
    (hrole : s.role = .source) (hbasics : s.validateEventBasics P e = .ok ())
    (hread : s.decryptMessage P e = .ok (.offer sid 1)) (hsid : hexDecode sid ≠ some s.sessionId) :
    s.readOffer P now e = .error .invalidSessionId := by
  have hexpired : s.checkExpired now = .ok () := if_neg (by rw [hnow]; exact Bool.false_ne_true)
  have hwaiting : s.expectState .waiting = .ok () := if_neg (not_not.mpr hstate)
  have hsource : s.expectRole .source = .ok () := if_neg (not_not.mpr hrole)
  simp only [readOffer, hexpired, hwaiting, hsource, hbasics, hread, bind, Except.bind]
  rw [if_neg (not_not.mpr rfl), if_neg hsid]

theorem confirmSas_ok {rand : Rand} {sasInput : Bytes32} {peer : PublicKey}
    (hnow : s.isExpired now = false) (hstate : s.state = .confirming) (hrole : s.role = .source)
    (hinput : s.sasInput = some sasInput) (hpeer : s.peerPubkey = some peer)
    (hbuild : s.buildEvent P (.sasConfirm (hexEncode
      (P.deriveTranscriptHash s.sessionId (s.pubkey P) peer sasInput s.sessionSecret))) rand =
        .ok e) :
    s.confirmSas P now rand = (.ok e, { s with state := .transferring }) :=
  attempt_of_eq_ok (guards_ok hnow hstate hrole (bind_eq_ok.mpr ⟨sasInput, okOr_eq_ok.mpr hinput,
    bind_eq_ok.mpr ⟨peer, okOr_eq_ok.mpr hpeer, hbuild⟩⟩))

theorem sendPayload_ok {t : PayloadType} {p : String} {rand : Rand}
    (hnow : s.isExpired now = false) (hstate : s.state = .transferring) (hrole : s.role = .source)
    (hbuild : s.buildEvent P (.payload t p) rand = .ok e) :
    s.sendPayload P now t p rand = (.ok e, { s with state := .payloadExchanged }) :=
  attempt_of_eq_ok (guards_ok hnow hstate hrole hbuild)

theorem handleComplete_ok (hnow : s.isExpired now = false) (hstate : s.state = .payloadExchanged)
    (hrole : s.role = .source) (hpeer : s.validateEventFromPeer P e = .ok ())
    (hread : s.decryptMessage P e = .ok (.complete true)) :
    s.handleComplete P now e = (.ok (), { s.recordEvent e with state := .completed }) := by
  refine attempt_of_eq_ok (a := PairingMessage.complete true) ?_
  exact guards_ok hnow hstate hrole (bind_eq_ok.mpr ⟨(), hpeer, hread⟩)

theorem handleSasConfirm_ok {sasInput : Bytes32} {peer : PublicKey} {code : ℕ}
    (hnow : s.isExpired now = false) (hstate : s.state = .confirming) (hrole : s.role = .target)
    (hinput : s.sasInput = some sasInput) (hpeer : s.peerPubkey = some peer)
    (hcode : s.sasCode = some code) (hvalid : s.validateEventFromPeer P e = .ok ())
    (hread : s.decryptMessage P e = .ok (.sasConfirm (hexEncode
      (P.deriveTranscriptHash s.sessionId peer (s.pubkey P) sasInput s.sessionSecret)))) :
    s.handleSasConfirm P now e = (.ok (Primitives.formatSas code),
      { s.recordEvent e with state := .awaitingConfirmation }) := by
  refine (attempt_of_eq_ok (a := true) ?_).trans ?_
  · refine guards_ok hnow hstate hrole (bind_eq_ok.mpr ⟨(), hvalid, bind_eq_ok.mpr ⟨_, hread, ?_⟩⟩)
    refine bind_eq_ok.mpr ⟨_, rfl, bind_eq_ok.mpr ⟨sasInput, okOr_eq_ok.mpr hinput, ?_⟩⟩
    refine bind_eq_ok.mpr ⟨peer, okOr_eq_ok.mpr hpeer, ?_⟩
    dsimp only
    rw [hexDecode_hexEncode, beq_self_eq_true]
  · rw [hcode]

theorem confirmTargetSas_ok (hnow : s.isExpired now = false)
    (hstate : s.state = .awaitingConfirmation) (hrole : s.role = .target) :
    s.confirmTargetSas now = (.ok (), { s with state := .transferring }) := by
  refine attempt_of_eq_ok (a := ()) (bind_eq_ok.mpr ⟨(), ?_, bind_eq_ok.mpr ⟨(), ?_, ?_⟩⟩)
  · exact if_neg (by rw [hnow]; exact Bool.false_ne_true)
  · exact if_neg (not_not.mpr hstate)
  · exact if_neg (not_not.mpr hrole)

theorem handlePayload_ok {t : PayloadType} {p : String} (hnow : s.isExpired now = false)
    (hstate : s.state = .transferring) (hrole : s.role = .target)
    (hpeer : s.validateEventFromPeer P e = .ok ())
    (hread : s.decryptMessage P e = .ok (.payload t p)) :
    s.handlePayload P now e = (.ok (t, p), { s.recordEvent e with state := .payloadExchanged }) := by
  refine attempt_of_eq_ok (a := PairingMessage.payload t p) ?_
  exact guards_ok hnow hstate hrole (bind_eq_ok.mpr ⟨(), hpeer, hread⟩)

theorem sendComplete_ok {rand : Rand} (hnow : s.isExpired now = false)
    (hstate : s.state = .payloadExchanged) (hrole : s.role = .target)
    (hbuild : s.buildEvent P (.complete true) rand = .ok e) :
    s.sendComplete P now rand = (.ok e, { s with state := .completed }) :=
  attempt_of_eq_ok (guards_ok hnow hstate hrole hbuild)

end PairingSession

theorem newTarget_ok {P : Primitives} (hsign : ∀ b, P.signError b = none) {keys : SecretKey}
    {qr : QrPayload} {now : ℕ} {rand : Rand} {ecdh : Bytes32}
    (hkey : P.sharedKey keys qr.sourcePubkey = .ok ecdh)
    (hfits : Fits P (.offer (hexEncode (P.deriveSessionId qr.sessionSecret)) 1)) :
    newTarget P keys qr now rand = .ok
      ({ role := .target
         state := .confirming
         keys := keys
         sessionSecret := qr.sessionSecret
         relayUrls := qr.relays
         peerPubkey := some qr.sourcePubkey
         sessionId := P.deriveSessionId qr.sessionSecret
         sasCode := some (P.deriveSas ecdh qr.sessionSecret).1
         sasInput := some (P.deriveSas ecdh qr.sessionSecret).2
         processedIds := ∅
         createdAt := now
         timeout := defaultTimeout },
        sealedEvent P keys qr.sourcePubkey
          (.offer (hexEncode (P.deriveSessionId qr.sessionSecret)) 1) rand) := by
  rw [newTarget, hkey]
  refine bind_eq_ok.mpr ⟨ecdh, rfl, bind_eq_ok.mpr ⟨_, buildEvent_eq hsign rfl hfits, rfl⟩⟩

namespace Setup

variable {P : Primitives} (X : Setup P) {I : Intruder PublicKey Bytes32} {tr : List Entry}
  {s s' : System} {c : Call} {a : Except PairingError Answer}

theorem Runs.source {source source' target : PairingSession} {published : List Event} {now : ℕ}
    (h : X.Runs I tr ⟨source, target, published⟩) (m : Method)
    (hok : Admissible P I ⟨source, target, published⟩ ⟨.source, now, m⟩)
    (hcall : source.call P now m = (a, source')) :
    X.Runs I (tr ++ [(⟨.source, now, m⟩, a)]) ⟨source', target, published ++ publishes a⟩ := by
  have hsnoc := Answers.snoc _ h hok
  simp only [System.step, System.session, hcall, System.put] at hsnoc
  exact hsnoc

theorem Runs.target {source target target' : PairingSession} {published : List Event} {now : ℕ}
    (h : X.Runs I tr ⟨source, target, published⟩) (m : Method)
    (hok : Admissible P I ⟨source, target, published⟩ ⟨.target, now, m⟩)
    (hcall : target.call P now m = (a, target')) :
    X.Runs I (tr ++ [(⟨.target, now, m⟩, a)]) ⟨source, target', published ++ publishes a⟩ := by
  have hsnoc := Answers.snoc _ h hok
  simp only [System.step, System.session, hcall, System.put] at hsnoc
  exact hsnoc

theorem canDeliver_of_mem {published : List Event} {e : Event} (h : e ∈ published) :
    CanDeliver P I published e := by
  constructor
  · cases hcontent : e.content with
    | sealed b => exact .inl ⟨e, h, hcontent⟩
    | text t => trivial
  · cases hsig : e.sig with
    | signed signer body => exact .inr ⟨e, h, hsig⟩
    | other bytes => trivial

/-- Conditions under which nothing but the other party can make a call fail. -/
structure Clear (now : ℕ) (t : PayloadType) (p : String) (rand : ℕ → Rand) : Prop where
  sign : ∀ b, P.signError b = none
  offer : Fits P (.offer (hexEncode X.sessionId) 1)
  sasConfirm : ∀ hash, Fits P (.sasConfirm (hexEncode hash))
  payload : Fits P (.payload t p)
  complete : Fits P (.complete true)
  inTime : now - X.sourceStart ≤ defaultTimeout ∧ now - X.targetStart ≤ defaultTimeout
  newComplete : (sealedEvent P X.targetKeys X.sourcePubkey (.complete true) (rand 3)).id ≠
    (sealedEvent P X.targetKeys X.sourcePubkey (.offer (hexEncode X.sessionId) 1) (rand 0)).id
  newPayload : ∀ hash, (sealedEvent P X.sourceKeys X.targetPubkey (.payload t p) (rand 2)).id ≠
    (sealedEvent P X.sourceKeys X.targetPubkey (.sasConfirm hash) (rand 1)).id
  first : rand 0 = X.rand

def sourceAt (ecdh : Bytes32) (state : SessionState) (ids : Finset EventId) : PairingSession :=
  { X.source with
    peerPubkey := some X.targetPubkey
    sasCode := some (P.deriveSas ecdh X.secret).1
    sasInput := some (P.deriveSas ecdh X.secret).2
    state := state
    processedIds := ids }

def targetAt (ecdh : Bytes32) (state : SessionState) (ids : Finset EventId) : PairingSession :=
  { role := .target
    state := state
    keys := X.targetKeys
    sessionSecret := X.secret
    relayUrls := [X.relayUrl]
    peerPubkey := some X.sourcePubkey
    sessionId := X.sessionId
    sasCode := some (P.deriveSas ecdh X.secret).1
    sasInput := some (P.deriveSas ecdh X.secret).2
    processedIds := ids
    createdAt := X.targetStart
    timeout := defaultTimeout }

def transcriptHash (ecdh : Bytes32) : Bytes32 :=
  P.deriveTranscriptHash X.sessionId X.sourcePubkey X.targetPubkey (P.deriveSas ecdh X.secret).2
    X.secret

variable {X} {now : ℕ} {t : PayloadType} {p : String} {rand : ℕ → Rand} {ecdh : Bytes32}
  {ids : Finset EventId} {m : PairingMessage} {r : Rand}

theorem Clear.joined_eq (h : X.Clear now t p rand) :
    ∃ ecdh, P.sharedKey X.targetKeys X.sourcePubkey = .ok ecdh ∧
      X.target = X.targetAt ecdh .confirming ∅ ∧
      X.offer = sealedEvent P X.targetKeys X.sourcePubkey (.offer (hexEncode X.sessionId) 1)
        (rand 0) := by
  have hjoin := X.joined
  rw [newTarget] at hjoin
  split at hjoin
  · cases hjoin
  · rename_i ecdh hkey
    obtain ⟨_, hecdh, hjoin⟩ := bind_eq_ok.mp hjoin
    cases hecdh
    obtain ⟨offer, hoffer, hjoin⟩ := bind_eq_ok.mp hjoin
    obtain ⟨htarget, hevent⟩ := Prod.mk.inj (Except.ok.inj hjoin)
    refine ⟨ecdh, hkey, htarget.symm, ?_⟩
    have hbuild := (buildEvent_eq h.sign rfl h.offer).symm.trans hoffer
    rw [← hevent, ← Except.ok.inj hbuild, h.first]
    rfl

theorem Clear.source_live (h : X.Clear now t p rand) {source : PairingSession}
    (hstart : source.createdAt = X.sourceStart) (htimeout : source.timeout = defaultTimeout) :
    source.isExpired now = false := by
  rw [PairingSession.isExpired, hstart, htimeout]
  exact decide_eq_false (Nat.not_lt.mpr h.inTime.1)

theorem Clear.target_live (h : X.Clear now t p rand) (state : SessionState) :
    (X.targetAt ecdh state ids).isExpired now = false :=
  decide_eq_false (Nat.not_lt.mpr h.inTime.2)

theorem read_source (X : Setup P) (ecdh : Bytes32) (state : SessionState) (hfits : Fits P m)
    (hfresh : (sealedEvent P X.targetKeys X.sourcePubkey m r).id ∉ ids) :
    (X.sourceAt ecdh state ids).validateEventFromPeer P
        (sealedEvent P X.targetKeys X.sourcePubkey m r) = .ok () ∧
      (X.sourceAt ecdh state ids).decryptMessage P
        (sealedEvent P X.targetKeys X.sourcePubkey m r) = .ok m :=
  (read_sealedEvent (r := X.sourceAt ecdh state ids) hfits (.inr rfl) hfresh).2

theorem read_target (X : Setup P) (ecdh : Bytes32) (state : SessionState) (hfits : Fits P m)
    (hfresh : (sealedEvent P X.sourceKeys X.targetPubkey m r).id ∉ ids) :
    (X.targetAt ecdh state ids).validateEventFromPeer P
        (sealedEvent P X.sourceKeys X.targetPubkey m r) = .ok () ∧
      (X.targetAt ecdh state ids).decryptMessage P
        (sealedEvent P X.sourceKeys X.targetPubkey m r) = .ok m :=
  (read_sealedEvent (r := X.targetAt ecdh state ids) hfits (.inr rfl) hfresh).2

theorem Clear.handleOffer (h : X.Clear now t p rand)
    (hkey : P.sharedKey X.targetKeys X.sourcePubkey = .ok ecdh)
    (hoffer : X.offer = sealedEvent P X.targetKeys X.sourcePubkey
      (.offer (hexEncode X.sessionId) 1) (rand 0)) :
    X.source.call P now (.handleOffer X.offer) =
      (.ok (.sas (Primitives.formatSas (P.deriveSas ecdh X.secret).1)),
        X.sourceAt ecdh .confirming (insert X.offer.id ∅)) := by
  have hkey' : P.sharedKey X.sourceKeys X.targetPubkey = .ok ecdh := by
    rw [targetPubkey, P.sharedKey_comm]
    exact hkey
  have hread := read_sealedEvent (r := X.source) h.offer (.inl rfl)
    (Finset.notMem_empty (sealedEvent P X.targetKeys X.sourcePubkey
      (.offer (hexEncode X.sessionId) 1) (rand 0)).id)
  have hread' : X.source.readOffer P now X.offer = .ok () := by
    rw [hoffer]
    exact PairingSession.readOffer_ok (h.source_live rfl rfl) rfl rfl hread.1 hread.2.2
  have hauthor : X.offer.pubkey = X.targetPubkey := by
    rw [hoffer]
    rfl
  have hcall : X.source.handleOffer P now X.offer =
      (.ok (Primitives.formatSas (P.deriveSas ecdh X.secret).1),
        X.sourceAt ecdh .confirming (insert X.offer.id ∅)) := by
    refine (attempt_of_eq_ok hread').trans ?_
    dsimp only
    rw [hauthor, show X.source.keys = X.sourceKeys from rfl, hkey']
    rfl
  exact congrArg (PairingSession.answer .sas) hcall

theorem Clear.confirmSas (h : X.Clear now t p rand) :
    (X.sourceAt ecdh .confirming ids).call P now (.confirmSas r) =
      (.ok (.event (sealedEvent P X.sourceKeys X.targetPubkey
        (.sasConfirm (hexEncode (X.transcriptHash ecdh))) r)), X.sourceAt ecdh .transferring ids) :=
  congrArg (PairingSession.answer .event) (PairingSession.confirmSas_ok (h.source_live rfl rfl)
    rfl rfl rfl rfl (buildEvent_eq h.sign rfl (h.sasConfirm _)))

theorem Clear.handleSasConfirm (h : X.Clear now t p rand) {e : Event}
    (he : e = sealedEvent P X.sourceKeys X.targetPubkey
      (.sasConfirm (hexEncode (X.transcriptHash ecdh))) r) :
    (X.targetAt ecdh .confirming ∅).call P now (.handleSasConfirm e) =
      (.ok (.sas (Primitives.formatSas (P.deriveSas ecdh X.secret).1)),
        X.targetAt ecdh .awaitingConfirmation (insert e.id ∅)) := by
  rw [he]
  have hread := read_target X ecdh .confirming (h.sasConfirm (X.transcriptHash ecdh))
    (Finset.notMem_empty (sealedEvent P X.sourceKeys X.targetPubkey _ r).id)
  exact congrArg (PairingSession.answer .sas) (PairingSession.handleSasConfirm_ok
    (h.target_live _) rfl rfl rfl rfl rfl hread.1 hread.2)

theorem Clear.confirmTargetSas (h : X.Clear now t p rand) :
    (X.targetAt ecdh .awaitingConfirmation ids).call P now .confirmTargetSas =
      (.ok .unit, X.targetAt ecdh .transferring ids) :=
  congrArg (PairingSession.answer fun _ ↦ .unit)
    (PairingSession.confirmTargetSas_ok (h.target_live _) rfl rfl)

theorem Clear.sendPayload (h : X.Clear now t p rand) :
    (X.sourceAt ecdh .transferring ids).call P now (.sendPayload t p r) =
      (.ok (.event (sealedEvent P X.sourceKeys X.targetPubkey (.payload t p) r)),
        X.sourceAt ecdh .payloadExchanged ids) :=
  congrArg (PairingSession.answer .event) (PairingSession.sendPayload_ok (h.source_live rfl rfl)
    rfl rfl (buildEvent_eq h.sign rfl h.payload))

theorem Clear.handlePayload (h : X.Clear now t p rand) {e : Event}
    (he : e = sealedEvent P X.sourceKeys X.targetPubkey (.payload t p) r) (hfresh : e.id ∉ ids) :
    (X.targetAt ecdh .transferring ids).call P now (.handlePayload e) =
      (.ok (.payload t p), X.targetAt ecdh .payloadExchanged (insert e.id ids)) := by
  rw [he] at hfresh ⊢
  have hread := read_target X ecdh .transferring h.payload hfresh
  exact congrArg (PairingSession.answer fun q ↦ .payload q.1 q.2)
    (PairingSession.handlePayload_ok (h.target_live _) rfl rfl hread.1 hread.2)

theorem Clear.sendComplete (h : X.Clear now t p rand) :
    (X.targetAt ecdh .payloadExchanged ids).call P now (.sendComplete r) =
      (.ok (.event (sealedEvent P X.targetKeys X.sourcePubkey (.complete true) r)),
        X.targetAt ecdh .completed ids) :=
  congrArg (PairingSession.answer .event) (PairingSession.sendComplete_ok (h.target_live _)
    rfl rfl (buildEvent_eq h.sign rfl h.complete))

theorem Clear.handleComplete (h : X.Clear now t p rand) {e : Event}
    (he : e = sealedEvent P X.targetKeys X.sourcePubkey (.complete true) r) (hfresh : e.id ∉ ids) :
    (X.sourceAt ecdh .payloadExchanged ids).call P now (.handleComplete e) =
      (.ok .unit, X.sourceAt ecdh .completed (insert e.id ids)) := by
  rw [he] at hfresh ⊢
  have hread := read_source X ecdh .payloadExchanged h.complete hfresh
  exact congrArg (PairingSession.answer fun _ ↦ .unit)
    (PairingSession.handleComplete_ok (h.source_live rfl rfl) rfl rfl hread.1 hread.2)

/-- An offer with another session id is refused, and changes nothing. -/
theorem handleOffer_wrong {keys : SecretKey} {sid : String} (hnow : X.source.isExpired now = false)
    (hfits : Fits P (.offer sid 1)) (hsid : hexDecode sid ≠ some X.sessionId) :
    X.source.call P now (.handleOffer (sealedEvent P keys X.sourcePubkey (.offer sid 1) r)) =
      (.error .invalidSessionId, X.source) := by
  have hread : X.source.validateEventBasics P
      (sealedEvent P keys (P.publicKey X.source.keys) (.offer sid 1) r) = .ok () ∧ _ ∧ _ :=
    read_sealedEvent hfits (.inl rfl) (Finset.notMem_empty _)
  have hwrong : X.source.readOffer P now (sealedEvent P keys X.sourcePubkey (.offer sid 1) r) =
      .error .invalidSessionId :=
    PairingSession.readOffer_wrong hnow rfl rfl hread.1 hread.2.2 hsid
  have hcall : X.source.handleOffer P now (sealedEvent P keys X.sourcePubkey (.offer sid 1) r) =
      (.error .invalidSessionId, X.source) := by
    rw [PairingSession.handleOffer, hwrong]
    rfl
  exact congrArg (PairingSession.answer .sas) hcall

/-- From where nothing has happened yet, without interference and in time, the target gets the
source's payload and both complete. -/
theorem Clear.completes (h : X.Clear now t p rand) (hstart : X.Runs I tr X.init) :
    ∃ pre rest e s, tr <+: pre ∧
      X.Runs I (pre ++ (⟨.target, now, .handlePayload e⟩, .ok (.payload t p)) :: rest) s ∧
      s.source.state = .completed ∧ s.target.state = .completed := by
  obtain ⟨ecdh, hkey, htarget, hoffer⟩ := h.joined_eq
  have hrun₀ : X.Runs I tr ⟨X.source, X.targetAt ecdh .confirming ∅, [X.offer]⟩ := by
    rw [← htarget]
    exact hstart
  have hrun₁ := Runs.source X hrun₀ (.handleOffer X.offer) (canDeliver_of_mem (by simp))
    (h.handleOffer hkey hoffer)
  have hrun₂ := Runs.source X hrun₁ (.confirmSas (rand 1)) trivial h.confirmSas
  have hrun₃ := Runs.target X hrun₂ (.handleSasConfirm _) (canDeliver_of_mem (by simp [publishes]))
    (h.handleSasConfirm (r := rand 1) rfl)
  have hrun₄ := Runs.target X hrun₃ .confirmTargetSas trivial h.confirmTargetSas
  have hrun₅ := Runs.source X hrun₄ (.sendPayload t p (rand 2)) trivial h.sendPayload
  have hrun₆ := Runs.target X hrun₅ (.handlePayload _) (canDeliver_of_mem (by simp [publishes]))
    (h.handlePayload (r := rand 2) rfl (by
      rw [insert_empty_eq, Finset.mem_singleton]
      exact h.newPayload _))
  have hrun₇ := Runs.target X hrun₆ (.sendComplete (rand 3)) trivial h.sendComplete
  have hrun₈ := Runs.source X hrun₇ (.handleComplete _) (canDeliver_of_mem (by simp [publishes]))
    (h.handleComplete (r := rand 3) rfl (by
      rw [insert_empty_eq, Finset.mem_singleton, hoffer]
      exact h.newComplete))
  rw [List.append_assoc, List.append_assoc] at hrun₈
  refine ⟨_, _, _, _, ?_, hrun₈, rfl, rfl⟩
  simp only [List.append_assoc]
  exact List.prefix_append tr _

end Setup

end Buzz.Pairing
