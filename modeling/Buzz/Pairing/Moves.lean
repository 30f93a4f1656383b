import Buzz.Pairing.Session

namespace Buzz.Pairing

open Buzz.Lib Buzz.Nostr

inductive Method
  | handleOffer (e : Event)
  | confirmSas (rand : Rand)
  | sendPayload (payloadType : PayloadType) (payload : String) (rand : Rand)
  | handleComplete (e : Event)
  | handleSasConfirm (e : Event)
  | confirmTargetSas
  | handlePayload (e : Event)
  | sendComplete (rand : Rand)
  | abort (reason : AbortReason) (rand : Rand)
  | handleAbort (e : Event)
  | signEvent (b : EventBuilder)

inductive Answer
  | unit
  | sas (code : String)
  | event (e : Event)
  | payload (payloadType : PayloadType) (payload : String)
  | aborted (e : Option Event)
  | reason (reason : AbortReason)

namespace PairingSession

variable (P : Primitives)

def answer {α : Type} (f : α → Answer) (r : Except PairingError α × PairingSession) :
    Except PairingError Answer × PairingSession := (r.1.map f, r.2)

def call (now : ℕ) (s : PairingSession) : Method → Except PairingError Answer × PairingSession
  | .handleOffer e => answer .sas (s.handleOffer P now e)
  | .confirmSas rand => answer .event (s.confirmSas P now rand)
  | .sendPayload payloadType payload rand =>
    answer .event (s.sendPayload P now payloadType payload rand)
  | .handleComplete e => answer (fun _ ↦ .unit) (s.handleComplete P now e)
  | .handleSasConfirm e => answer .sas (s.handleSasConfirm P now e)
  | .confirmTargetSas => answer (fun _ ↦ .unit) (s.confirmTargetSas now)
  | .handlePayload e => answer (fun p ↦ .payload p.1 p.2) (s.handlePayload P now e)
  | .sendComplete rand => answer .event (s.sendComplete P now rand)
  | .abort reason rand => answer .aborted (s.abort P reason rand)
  | .handleAbort e => answer .reason (s.handleAbort P e)
  | .signEvent b => answer .event (s.signEvent P b, s)

variable {P} {s : PairingSession} {now : ℕ} {e : Event}

def Opens (P : Primitives) (s : PairingSession) (e : Event) (message : PairingMessage) : Prop :=
  ∃ box, e.content = .sealed box ∧ box.ends = s(s.pubkey P, e.pubkey) ∧
    P.fromJson box.plain = .ok message

def Builds (P : Primitives) (s : PairingSession) (message : PairingMessage) (e : Event) : Prop :=
  ∃ peer nonce, s.peerPubkey = some peer ∧
    e.content = .sealed ⟨s(s.pubkey P, peer), P.toJson message, nonce⟩

inductive Moved (P : Primitives) (s : PairingSession) :
    Method → Except PairingError Answer → PairingSession → Prop
  | refused (m : Method) (err : PairingError) : Moved P s m (.error err) s
  | unkeyed {e : Event} {sid text : String} {version : UInt32} (err : PairingError) :
      s.state = .waiting → s.role = .source → s.Opens P e (.offer sid version) →
      hexDecode sid = some s.sessionId →
      P.sharedKey s.keys e.pubkey = .error text →
      Moved P s (.handleOffer e) (.error err) { s with peerPubkey := some e.pubkey }
  | offered {e : Event} {sid : String} {version : UInt32} {ecdh : Bytes32} :
      s.state = .waiting → s.role = .source → s.Opens P e (.offer sid version) →
      hexDecode sid = some s.sessionId → P.sharedKey s.keys e.pubkey = .ok ecdh →
      Moved P s (.handleOffer e)
        (.ok (.sas (Primitives.formatSas (P.deriveSas ecdh s.sessionSecret).1)))
        { s with
          peerPubkey := some e.pubkey
          sasCode := some (P.deriveSas ecdh s.sessionSecret).1
          sasInput := some (P.deriveSas ecdh s.sessionSecret).2
          state := .confirming
          processedIds := insert e.id s.processedIds }
  | sasConfirmed {rand : Rand} {hash : String} {e : Event} :
      s.state = .confirming → s.role = .source → s.Builds P (.sasConfirm hash) e →
      Moved P s (.confirmSas rand) (.ok (.event e)) { s with state := .transferring }
  | payloadSent {payloadType : PayloadType} {payload : String} {rand : Rand} {e : Event} :
      s.state = .transferring → s.role = .source → s.Builds P (.payload payloadType payload) e →
      Moved P s (.sendPayload payloadType payload rand) (.ok (.event e))
        { s with state := .payloadExchanged }
  | completed {e : Event} :
      s.state = .payloadExchanged → s.role = .source → s.peerPubkey.all (· = e.pubkey) →
      s.Opens P e (.complete true) →
      Moved P s (.handleComplete e) (.ok .unit) { s.recordEvent e with state := .completed }
  | failed {e : Event} (err : PairingError) :
      s.state = .payloadExchanged → s.role = .source →
      Moved P s (.handleComplete e) (.error err) { s with state := .aborted }
  | mismatched {e : Event} (err : PairingError) :
      s.state = .confirming → s.role = .target →
      Moved P s (.handleSasConfirm e) (.error err) { s with state := .aborted }
  | sasReceived {e : Event} (a : Except PairingError String) :
      s.state = .confirming → s.role = .target →
      Moved P s (.handleSasConfirm e) (a.map .sas)
        { s.recordEvent e with state := .awaitingConfirmation }
  | targetConfirmed :
      s.state = .awaitingConfirmation → s.role = .target →
      Moved P s .confirmTargetSas (.ok .unit) { s with state := .transferring }
  | payloadAccepted {e : Event} {payloadType : PayloadType} {payload : String} :
      s.state = .transferring → s.role = .target → s.peerPubkey.all (· = e.pubkey) →
      s.Opens P e (.payload payloadType payload) →
      Moved P s (.handlePayload e) (.ok (.payload payloadType payload))
        { s.recordEvent e with state := .payloadExchanged }
  | completeSent {rand : Rand} {e : Event} :
      s.state = .payloadExchanged → s.role = .target → s.Builds P (.complete true) e →
      Moved P s (.sendComplete rand) (.ok (.event e)) { s with state := .completed }
  | abortedAlone {reason : AbortReason} {rand : Rand} :
      ¬s.state.Terminal →
      Moved P s (.abort reason rand) (.ok (.aborted none)) { s with state := .aborted }
  | abortSent {reason : AbortReason} {rand : Rand} {e : Event} :
      ¬s.state.Terminal → s.Builds P (.abort reason) e →
      Moved P s (.abort reason rand) (.ok (.aborted (some e))) { s with state := .aborted }
  | abortReceived {e : Event} {reason : AbortReason} :
      ¬s.state.Terminal →
      Moved P s (.handleAbort e) (.ok (.reason reason)) { s.recordEvent e with state := .aborted }
  | signed {b : EventBuilder} {e : Event} :
      e.content = b.content → Moved P s (.signEvent b) (.ok (.event e)) s

theorem guards_eq_ok {α : Type} {state : SessionState} {role : Role} {x : Except PairingError α}
    {a : α} (h : (do
      s.checkExpired now
      s.expectState state
      s.expectRole role
      x) = .ok a) : s.isExpired now = false ∧ s.state = state ∧ s.role = role ∧ x = .ok a := by
  obtain ⟨_, hnow, h⟩ := bind_eq_ok.mp h
  obtain ⟨_, hstate, h⟩ := bind_eq_ok.mp h
  obtain ⟨_, hrole, h⟩ := bind_eq_ok.mp h
  rw [checkExpired, ite_error_eq_ok, Bool.not_eq_true] at hnow
  rw [expectState, ite_error_eq_ok, not_not] at hstate
  rw [expectRole, ite_error_eq_ok, not_not] at hrole
  exact ⟨hnow.1, hstate.1, hrole.1, h⟩

theorem decrypt_eq_ok {keys : SecretKey} {author : PublicKey} {content : Content} {plain : String}
    (h : decrypt P keys author content = .ok plain) :
    ∃ box, content = .sealed box ∧ box.ends = s(P.publicKey keys, author) ∧ box.plain = plain := by
  cases content with
  | text t =>
    simp only [decrypt] at h
    cases h
  | sealed box =>
    simp only [decrypt] at h
    split at h
    · rename_i hends
      cases h
      exact ⟨box, rfl, hends, rfl⟩
    · cases h

theorem opens_of_decryptMessage {message : PairingMessage}
    (h : s.decryptMessage P e = .ok message) : s.Opens P e message := by
  rw [decryptMessage, ite_error_eq_ok] at h
  obtain ⟨plain, hplain, h⟩ := bind_eq_ok.mp h.2
  obtain ⟨box, hbox, hends, rfl⟩ := decrypt_eq_ok hplain
  rw [ite_error_eq_ok] at h
  refine ⟨box, hbox, hends, ?_⟩
  have hjson := h.2
  split at hjson
  · cases hjson
  · rename_i hmessage
    rw [hmessage, Except.ok.inj hjson]

theorem content_of_signWithKeys {keys : SecretKey} {b : EventBuilder}
    (h : signWithKeys P keys b = .ok e) : e.content = b.content := by
  rw [signWithKeys] at h
  split at h
  · cases h
  · cases h
    rfl

theorem builds_of_buildEvent {message : PairingMessage} {rand : Rand}
    (h : s.buildEvent P message rand = .ok e) : s.Builds P message e := by
  obtain ⟨peer, hpeer, h⟩ := bind_eq_ok.mp h
  obtain ⟨content, hcontent, h⟩ := bind_eq_ok.mp h
  refine ⟨peer, rand.nonce, okOr_eq_ok.mp hpeer, ?_⟩
  rw [content_of_signWithKeys h]
  rw [encrypt] at hcontent
  split at hcontent
  · cases hcontent
  · cases hcontent
    rfl

theorem peer_of_validateEventFromPeer (h : s.validateEventFromPeer P e = .ok ()) :
    s.peerPubkey.all (· = e.pubkey) := by
  obtain ⟨_, -, h⟩ := bind_eq_ok.mp h
  cases hpeer : s.peerPubkey with
  | none => rfl
  | some expected =>
    simp only [hpeer, ite_error_eq_ok, not_not] at h
    exact decide_eq_true h.1.symm

theorem read_eq_ok {message : PairingMessage} (h : (do
      s.validateEventFromPeer P e
      s.decryptMessage P e) = .ok message) :
    s.peerPubkey.all (· = e.pubkey) ∧ s.Opens P e message := by
  obtain ⟨_, hpeer, h⟩ := bind_eq_ok.mp h
  exact ⟨peer_of_validateEventFromPeer hpeer, opens_of_decryptMessage h⟩

theorem readOffer_eq_ok (h : s.readOffer P now e = .ok ()) :
    s.state = .waiting ∧ s.role = .source ∧
      ∃ sid version, s.Opens P e (.offer sid version) ∧ hexDecode sid = some s.sessionId := by
  obtain ⟨-, hstate, hrole, h⟩ := guards_eq_ok h
  obtain ⟨_, -, h⟩ := bind_eq_ok.mp h
  obtain ⟨message, hmessage, h⟩ := bind_eq_ok.mp h
  refine ⟨hstate, hrole, ?_⟩
  cases message with
  | offer sid version =>
    simp only [ite_error_eq_ok] at h
    refine ⟨sid, version, opens_of_decryptMessage hmessage, ?_⟩
    by_contra hne
    rw [if_neg hne] at h
    cases h.2
  | sasConfirm hash => cases h
  | payload t p => cases h
  | complete success => cases h
  | abort reason => cases h

def Moves (P : Primitives) (s : PairingSession) (m : Method)
    (r : Except PairingError Answer × PairingSession) : Prop := Moved P s m r.1 r.2

theorem moves_attempt {α β : Type} {m : Method} {f : β → Answer} {x : Except PairingError α}
    {k : α → Except PairingError β × PairingSession}
    (h : ∀ a, x = .ok a → s.Moves P m (answer f (k a))) :
    s.Moves P m (answer f (attempt s x k)) := by
  obtain ⟨err, -, hres⟩ | ⟨a, ha, hres⟩ := attempt_cases s x k
  · rw [hres]
    exact .refused m err
  · rw [hres]
    exact h a ha

theorem moves_handleOffer : s.Moves P (.handleOffer e) (answer .sas (s.handleOffer P now e)) := by
  apply moves_attempt
  intro _ h
  obtain ⟨hstate, hrole, sid, version, hopens, hsid⟩ := readOffer_eq_ok h
  dsimp only
  split
  · rename_i text hkey
    exact .unkeyed (.signingError text) hstate hrole hopens hsid hkey
  · rename_i ecdh hkey
    exact .offered hstate hrole hopens hsid hkey

theorem moves_confirmSas {rand : Rand} :
    s.Moves P (.confirmSas rand) (answer .event (s.confirmSas P now rand)) := by
  apply moves_attempt
  intro event h
  obtain ⟨-, hstate, hrole, h⟩ := guards_eq_ok h
  obtain ⟨sasInput, -, h⟩ := bind_eq_ok.mp h
  obtain ⟨peer, -, h⟩ := bind_eq_ok.mp h
  exact .sasConfirmed hstate hrole (builds_of_buildEvent h)

theorem moves_sendPayload {t : PayloadType} {p : String} {rand : Rand} :
    s.Moves P (.sendPayload t p rand) (answer .event (s.sendPayload P now t p rand)) := by
  apply moves_attempt
  intro event h
  obtain ⟨-, hstate, hrole, h⟩ := guards_eq_ok h
  exact .payloadSent hstate hrole (builds_of_buildEvent h)

theorem moves_handleComplete :
    s.Moves P (.handleComplete e) (answer (fun _ ↦ .unit) (s.handleComplete P now e)) := by
  apply moves_attempt
  intro message h
  obtain ⟨-, hstate, hrole, h⟩ := guards_eq_ok h
  obtain ⟨hpeer, hopens⟩ := read_eq_ok h
  cases message with
  | complete success =>
    cases success with
    | true => exact .completed hstate hrole hpeer hopens
    | false => exact .failed _ hstate hrole
  | offer sid version => exact .refused _ _
  | sasConfirm hash => exact .refused _ _
  | payload t p => exact .refused _ _
  | abort reason => exact .refused _ _

theorem moves_handleSasConfirm :
    s.Moves P (.handleSasConfirm e) (answer .sas (s.handleSasConfirm P now e)) := by
  apply moves_attempt
  intro agrees h
  obtain ⟨-, hstate, hrole, -⟩ := guards_eq_ok h
  cases agrees with
  | false => exact .mismatched _ hstate hrole
  | true =>
    dsimp only
    split
    · exact .sasReceived (.ok _) hstate hrole
    · exact .sasReceived (.error _) hstate hrole

theorem moves_confirmTargetSas :
    s.Moves P .confirmTargetSas (answer (fun _ ↦ .unit) (s.confirmTargetSas now)) := by
  apply moves_attempt
  intro _ h
  obtain ⟨_, -, h⟩ := bind_eq_ok.mp h
  obtain ⟨_, hstate, hrole⟩ := bind_eq_ok.mp h
  rw [expectState, ite_error_eq_ok, not_not] at hstate
  rw [expectRole, ite_error_eq_ok, not_not] at hrole
  exact .targetConfirmed hstate.1 hrole.1

theorem moves_handlePayload :
    s.Moves P (.handlePayload e) (answer (fun p ↦ .payload p.1 p.2) (s.handlePayload P now e)) := by
  apply moves_attempt
  intro message h
  obtain ⟨-, hstate, hrole, h⟩ := guards_eq_ok h
  obtain ⟨hpeer, hopens⟩ := read_eq_ok h
  cases message with
  | payload t p => exact .payloadAccepted hstate hrole hpeer hopens
  | offer sid version => exact .refused _ _
  | sasConfirm hash => exact .refused _ _
  | complete success => exact .refused _ _
  | abort reason => exact .refused _ _

theorem moves_sendComplete {rand : Rand} :
    s.Moves P (.sendComplete rand) (answer .event (s.sendComplete P now rand)) := by
  apply moves_attempt
  intro event h
  obtain ⟨-, hstate, hrole, h⟩ := guards_eq_ok h
  exact .completeSent hstate hrole (builds_of_buildEvent h)

theorem moves_abort {reason : AbortReason} {rand : Rand} :
    s.Moves P (.abort reason rand) (answer .aborted (s.abort P reason rand)) := by
  rw [PairingSession.abort]
  split
  · exact .refused _ _
  · rename_i hlive
    split
    · exact .abortedAlone hlive
    · exact moves_attempt fun event h ↦ .abortSent hlive (builds_of_buildEvent h)

theorem moves_handleAbort :
    s.Moves P (.handleAbort e) (answer .reason (s.handleAbort P e)) := by
  rw [PairingSession.handleAbort]
  split
  · exact .refused _ _
  · rename_i hlive
    split
    · exact .refused _ _
    · apply moves_attempt
      intro message _
      cases message with
      | abort reason => exact .abortReceived hlive
      | offer sid version => exact .refused _ _
      | sasConfirm hash => exact .refused _ _
      | payload t p => exact .refused _ _
      | complete success => exact .refused _ _

theorem moves_signEvent {b : EventBuilder} :
    s.Moves P (.signEvent b) (answer .event (s.signEvent P b, s)) := by
  cases h : s.signEvent P b with
  | error err => exact .refused _ err
  | ok event => exact .signed (content_of_signWithKeys h)

theorem moved_call (P : Primitives) (now : ℕ) (s : PairingSession) (m : Method) :
    Moved P s m (s.call P now m).1 (s.call P now m).2 := by
  cases m with
  | handleOffer e => exact moves_handleOffer
  | confirmSas rand => exact moves_confirmSas
  | sendPayload t p rand => exact moves_sendPayload
  | handleComplete e => exact moves_handleComplete
  | handleSasConfirm e => exact moves_handleSasConfirm
  | confirmTargetSas => exact moves_confirmTargetSas
  | handlePayload e => exact moves_handlePayload
  | sendComplete rand => exact moves_sendComplete
  | abort reason rand => exact moves_abort
  | handleAbort e => exact moves_handleAbort
  | signEvent b => exact moves_signEvent

end PairingSession

end Buzz.Pairing
