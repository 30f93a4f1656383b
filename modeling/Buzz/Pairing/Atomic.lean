import Buzz.Pairing.Moves
import Buzz.Pairing.Wire

namespace Buzz.Pairing

open Buzz.Lib Buzz.Nostr

def Primitives.Agrees (P : Primitives) : Prop :=
  ∀ a b, ∃ ecdh, P.sharedKey a (P.publicKey b) = .ok ecdh

def Event.Genuine (P : Primitives) (e : Event) : Prop :=
  ∀ signer body, e.sig = .signed signer body → ∃ keys, signer = P.publicKey keys

inductive Reachable (P : Primitives) : PairingSession → Prop
  | source (keys : SecretKey) (sessionSecret : Bytes32) (relayUrl : String) (now : ℕ) :
      Reachable P (newSource P keys sessionSecret relayUrl now).1
  | target {keys : SecretKey} {qr : QrPayload} {now : ℕ} {rand : Rand} {s : PairingSession}
      {offer : Event} : newTarget P keys qr now rand = .ok (s, offer) → Reachable P s
  | call {s : PairingSession} : Reachable P s → ∀ now m, Reachable P (s.call P now m).2

def PairingMessage.handler (e : Event) : PairingMessage → Method
  | .offer _ _ => .handleOffer e
  | .sasConfirm _ => .handleSasConfirm e
  | .payload _ _ => .handlePayload e
  | .complete _ => .handleComplete e
  | .abort _ => .handleAbort e

def handlers (e : Event) : List Method :=
  [.handleOffer e, .handleSasConfirm e, .handlePayload e, .handleComplete e, .handleAbort e]

/-- The refusals that end a session. -/
def Fatal (m : Method) (err : PairingError) : Prop :=
  (∃ e, m = .handleSasConfirm e) ∧ err = .transcriptMismatch ∨
    (∃ e, m = .handleComplete e) ∧
      err = .unexpectedMessage "complete(success=true)" "complete(success=false)"

namespace PairingSession

variable {P : Primitives} {s : PairingSession} {now : ℕ} {e : Event}

def HasCode (s : PairingSession) : Prop := s.sasInput ≠ none → s.sasCode ≠ none

theorem hasCode_call (h : s.HasCode) (now : ℕ) (m : Method) : (s.call P now m).2.HasCode := by
  have hmoved := moved_call P now s m
  revert hmoved
  generalize (s.call P now m).1 = r
  generalize (s.call P now m).2 = s'
  intro hmoved
  cases hmoved with
  | offered => simp [HasCode]
  | _ => exact h

theorem hasCode_of_reachable (h : Reachable P s) : s.HasCode := by
  induction h with
  | source keys sessionSecret relayUrl now => simp [HasCode, newSource]
  | target hjoined =>
    rw [newTarget] at hjoined
    split at hjoined
    · cases hjoined
    · obtain ⟨ecdh, -, hjoined⟩ := bind_eq_ok.mp hjoined
      obtain ⟨event, -, hjoined⟩ := bind_eq_ok.mp hjoined
      cases hjoined
      simp [HasCode]
  | call _ now m ih => exact hasCode_call ih now m

section Errors

theorem bind_eq_error {α β : Type} {x : Except PairingError α} {f : α → Except PairingError β}
    {err : PairingError} :
    (x >>= f) = .error err ↔ x = .error err ∨ ∃ a, x = .ok a ∧ f a = .error err := by
  cases x with
  | error err' => simp [bind, Except.bind]
  | ok a => simp [bind, Except.bind]

structure Mild (err : PairingError) : Prop where
  transcript : err ≠ .transcriptMismatch
  complete : ∀ got, err ≠ .unexpectedMessage "complete(success=true)" got

def OnlyMild {α : Type} (x : Except PairingError α) : Prop := ∀ err, x = .error err → Mild err

theorem mild_unexpected {expected got : String} (h : expected ≠ "complete(success=true)") :
    Mild (.unexpectedMessage expected got) :=
  ⟨by simp, by simp [h]⟩

theorem onlyMild_ok {α : Type} (a : α) : OnlyMild (.ok a : Except PairingError α) := by
  intro err h
  cases h

theorem onlyMild_error {α : Type} {err : PairingError} (h : Mild err) :
    OnlyMild (.error err : Except PairingError α) := by
  intro err' heq
  cases heq
  exact h

theorem OnlyMild.bind {α β : Type} {x : Except PairingError α} {f : α → Except PairingError β}
    (hx : OnlyMild x) (hf : ∀ a, x = .ok a → OnlyMild (f a)) : OnlyMild (x >>= f) := by
  intro err h
  rcases bind_eq_error.mp h with h | ⟨a, ha, h⟩
  · exact hx err h
  · exact hf a ha err h

theorem onlyMild_okOr {α : Type} (x : Option α) {err : PairingError} (h : Mild err) :
    OnlyMild (okOr x err) := by
  cases x with
  | none => exact onlyMild_error h
  | some a => exact onlyMild_ok a

theorem onlyMild_guards {α : Type} {state : SessionState} {role : Role} {x : Except PairingError α}
    (hx : OnlyMild x) : OnlyMild (do
      s.checkExpired now
      s.expectState state
      s.expectRole role
      x) := by
  refine .bind ?_ fun _ _ ↦ .bind ?_ fun _ _ ↦ .bind ?_ fun _ _ ↦ hx
  · rw [checkExpired]
    split
    · exact onlyMild_error ⟨by simp, by simp⟩
    · exact onlyMild_ok ()
  · rw [expectState]
    split
    · exact onlyMild_error (mild_unexpected (by cases state <;> decide))
    · exact onlyMild_ok ()
  · rw [expectRole]
    split
    · exact onlyMild_error (mild_unexpected (by cases role <;> decide))
    · exact onlyMild_ok ()

theorem onlyMild_validateEventBasics : OnlyMild (s.validateEventBasics P e) := by
  rw [validateEventBasics]
  split
  · exact onlyMild_error ⟨by simp, by simp⟩
  split
  · exact onlyMild_error (mild_unexpected (by decide))
  split
  · exact onlyMild_error (mild_unexpected (by decide))
  split
  · exact onlyMild_ok ()
  · exact onlyMild_error ⟨by simp, by simp⟩

theorem onlyMild_validateEventFromPeer : OnlyMild (s.validateEventFromPeer P e) := by
  rw [validateEventFromPeer]
  refine onlyMild_validateEventBasics.bind fun _ _ ↦ ?_
  split
  · split
    · exact onlyMild_error ⟨by simp, by simp⟩
    · exact onlyMild_ok ()
  · exact onlyMild_ok ()

theorem onlyMild_decryptMessage : OnlyMild (s.decryptMessage P e) := by
  rw [decryptMessage]
  split
  · exact onlyMild_error (mild_unexpected (by decide))
  refine .bind ?_ fun plain _ ↦ ?_
  · rw [decrypt.eq_def]
    split
    · split
      · exact onlyMild_ok _
      · exact onlyMild_error ⟨by simp, by simp⟩
    · exact onlyMild_error ⟨by simp, by simp⟩
  · split
    · exact onlyMild_error (mild_unexpected (by decide))
    split
    · exact onlyMild_error ⟨by simp, by simp⟩
    · exact onlyMild_ok _

theorem onlyMild_read : OnlyMild (do
    s.validateEventFromPeer P e
    s.decryptMessage P e) :=
  onlyMild_validateEventFromPeer.bind fun _ _ ↦ onlyMild_decryptMessage

end Errors

def Atomic (s : PairingSession) (m : Method) (r : Except PairingError Answer × PairingSession) :
    Prop :=
  ∀ err, r.1 = .error err →
    (Fatal m err → r.2 = { s with state := .aborted }) ∧ (¬Fatal m err → r.2 = s)

inductive Handled (P : Primitives) (s : PairingSession) (e : Event) :
    Method → Except PairingError Answer × PairingSession → Prop
  | refused {m : Method} {err : PairingError} : ¬Fatal m err → Handled P s e m (.error err, s)
  | ended {message : PairingMessage} {err : PairingError} :
      s.decryptMessage P e = .ok message → Fatal (message.handler e) err →
      Handled P s e (message.handler e) (.error err, { s with state := .aborted })
  | taken {message : PairingMessage} (a : Answer) (s' : PairingSession) :
      s.decryptMessage P e = .ok message → Handled P s e (message.handler e) (.ok a, s')

theorem Handled.atomic {m : Method} {r : Except PairingError Answer × PairingSession}
    (h : Handled P s e m r) : Atomic s m r := by
  intro err herr
  cases h with
  | refused hmild =>
    cases herr
    exact ⟨fun hfatal ↦ absurd hfatal hmild, fun _ ↦ rfl⟩
  | ended _ hfatal =>
    cases herr
    exact ⟨fun _ ↦ rfl, fun hmild ↦ absurd hfatal hmild⟩
  | taken => cases herr

theorem not_fatal_of_not_mem {m : Method} {err : PairingError} (hm : ∀ e, m ∉ handlers e) :
    ¬Fatal m err := by
  rintro (⟨⟨e, rfl⟩, -⟩ | ⟨⟨e, rfl⟩, -⟩)
  · simpa [handlers] using hm e
  · simpa [handlers] using hm e

theorem not_fatal_of_mild {m : Method} {err : PairingError} (h : Mild err) : ¬Fatal m err := by
  rintro (⟨-, rfl⟩ | ⟨-, rfl⟩)
  · exact h.transcript rfl
  · exact h.complete _ rfl

/-- A handler whose checks refuse mildly, by what its body does. -/
theorem handled_attempt {α β : Type} {m : Method} {f : β → Answer} {x : Except PairingError α}
    {k : α → Except PairingError β × PairingSession} (hx : OnlyMild x)
    (hk : ∀ a, x = .ok a → Handled P s e m (answer f (k a))) :
    Handled P s e m (answer f (attempt s x k)) := by
  obtain ⟨err, herr, hres⟩ | ⟨a, ha, hres⟩ := attempt_cases s x k
  · rw [hres]
    exact .refused (not_fatal_of_mild (hx err herr))
  · rw [hres]
    exact hk a ha

theorem sharedKey_of_validateEventBasics (hP : P.Agrees) (he : e.Genuine P)
    (h : s.validateEventBasics P e = .ok ()) : ∃ ecdh, P.sharedKey s.keys e.pubkey = .ok ecdh := by
  rw [validateEventBasics, verify] at h
  split at h
  · cases h
  · rename_i hverify
    split at hverify
    · rename_i hsigned
      obtain ⟨keys, hkeys⟩ := he _ _ hsigned.2
      rw [hkeys]
      exact hP s.keys keys
    · cases hverify

theorem handled_handleOffer (hP : P.Agrees) (he : e.Genuine P) :
    Handled P s e (.handleOffer e) (answer .sas (s.handleOffer P now e)) := by
  apply handled_attempt
  · refine onlyMild_guards (onlyMild_validateEventBasics.bind fun _ _ ↦ ?_)
    refine onlyMild_decryptMessage.bind fun message _ ↦ ?_
    cases message with
    | offer sessionIdHex version =>
      dsimp only
      split
      · exact onlyMild_error (mild_unexpected (by decide))
      split
      · exact onlyMild_ok ()
      · exact onlyMild_error ⟨by simp, by simp⟩
    | sasConfirm | payload | complete | abort =>
      exact onlyMild_error (mild_unexpected (by decide))
  · intro _ hread
    obtain ⟨-, -, -, hread⟩ := guards_eq_ok hread
    obtain ⟨_, hbasics, hread⟩ := bind_eq_ok.mp hread
    obtain ⟨message, hmessage, hread⟩ := bind_eq_ok.mp hread
    cases message with
    | offer sessionIdHex version =>
      obtain ⟨ecdh, hecdh⟩ := sharedKey_of_validateEventBasics hP he hbasics
      simp only [hecdh]
      exact .taken _ _ hmessage
    | sasConfirm | payload | complete | abort => cases hread

theorem handled_handleComplete :
    Handled P s e (.handleComplete e) (answer (fun _ ↦ .unit) (s.handleComplete P now e)) := by
  apply handled_attempt (onlyMild_guards onlyMild_read)
  intro message hread
  obtain ⟨-, -, -, hread⟩ := guards_eq_ok hread
  obtain ⟨_, -, hmessage⟩ := bind_eq_ok.mp hread
  cases message with
  | complete success =>
    cases success with
    | true => exact .taken _ _ hmessage
    | false => exact .ended hmessage (.inr ⟨⟨e, rfl⟩, rfl⟩)
  | offer | sasConfirm | payload | abort =>
    exact .refused (not_fatal_of_mild (mild_unexpected (by decide)))

theorem handled_handleSasConfirm (hcode : s.HasCode) :
    Handled P s e (.handleSasConfirm e) (answer .sas (s.handleSasConfirm P now e)) := by
  apply handled_attempt
  · refine onlyMild_guards (onlyMild_validateEventFromPeer.bind fun _ _ ↦ ?_)
    refine onlyMild_decryptMessage.bind fun message _ ↦ ?_
    cases message with
    | sasConfirm hash =>
      refine .bind (onlyMild_ok hash) fun _ _ ↦ .bind (onlyMild_okOr _ ⟨by simp, by simp⟩) ?_
      intro _ _
      exact .bind (onlyMild_okOr _ ⟨by simp, by simp⟩) fun _ _ ↦ onlyMild_ok _
    | offer | payload | complete | abort =>
      exact .bind (onlyMild_error (mild_unexpected (by decide))) fun hash h ↦ by cases h
  · intro agrees hread
    obtain ⟨-, -, -, hread⟩ := guards_eq_ok hread
    obtain ⟨_, -, hread⟩ := bind_eq_ok.mp hread
    obtain ⟨message, hmessage, hread⟩ := bind_eq_ok.mp hread
    cases message with
    | sasConfirm hash =>
      cases agrees with
      | false => exact .ended hmessage (.inl ⟨⟨e, rfl⟩, rfl⟩)
      | true =>
        obtain ⟨_, -, hread⟩ := bind_eq_ok.mp hread
        obtain ⟨sasInput, hinput, -⟩ := bind_eq_ok.mp hread
        have hinput : s.sasInput ≠ none := by simp [okOr_eq_ok.mp hinput]
        obtain ⟨code, hsome⟩ := Option.ne_none_iff_exists'.mp (hcode hinput)
        simp only [hsome]
        exact .taken _ _ hmessage
    | offer | payload | complete | abort => cases hread

theorem handled_handlePayload :
    Handled P s e (.handlePayload e)
      (answer (fun p ↦ .payload p.1 p.2) (s.handlePayload P now e)) := by
  apply handled_attempt (onlyMild_guards onlyMild_read)
  intro message hread
  obtain ⟨-, -, -, hread⟩ := guards_eq_ok hread
  obtain ⟨_, -, hmessage⟩ := bind_eq_ok.mp hread
  cases message with
  | payload t p => exact .taken _ _ hmessage
  | offer | sasConfirm | complete | abort =>
    exact .refused (not_fatal_of_mild (mild_unexpected (by decide)))

theorem handled_handleAbort :
    Handled P s e (.handleAbort e) (answer .reason (s.handleAbort P e)) := by
  rw [PairingSession.handleAbort]
  split
  · exact .refused (not_fatal_of_mild (mild_unexpected (by decide)))
  split
  · exact .refused (not_fatal_of_mild ⟨by simp, by simp⟩)
  · apply handled_attempt onlyMild_read
    intro message hread
    obtain ⟨_, -, hmessage⟩ := bind_eq_ok.mp hread
    cases message with
    | abort reason => exact .taken _ _ hmessage
    | offer | sasConfirm | payload | complete =>
      exact .refused (not_fatal_of_mild (mild_unexpected (by decide)))

theorem handled_call (now : ℕ) (hP : P.Agrees) (hcode : s.HasCode) (he : e.Genuine P) {m : Method}
    (hm : m ∈ handlers e) : Handled P s e m (s.call P now m) := by
  simp only [handlers, List.mem_cons, List.not_mem_nil, or_false] at hm
  obtain rfl | rfl | rfl | rfl | rfl := hm
  · exact handled_handleOffer hP he
  · exact handled_handleSasConfirm hcode
  · exact handled_handlePayload
  · exact handled_handleComplete
  · exact handled_handleAbort

/-- A builder changes the session only when it returns what it has built. -/
theorem atomic_attempt {α β : Type} {m : Method} {f : β → Answer} {x : Except PairingError α}
    {k : α → Except PairingError β × PairingSession} (hm : ∀ e, m ∉ handlers e)
    (hk : ∀ a, ∃ b, (k a).1 = .ok b) : Atomic s m (answer f (attempt s x k)) := by
  intro err herr
  obtain ⟨err', -, hres⟩ | ⟨a, -, hres⟩ := attempt_cases s x k
  · rw [hres]
    exact ⟨fun hfatal ↦ absurd hfatal (not_fatal_of_not_mem hm), fun _ ↦ rfl⟩
  · obtain ⟨b, hb⟩ := hk a
    simp [answer, hres, hb, Except.map] at herr

theorem atomic_same {m : Method} {err : PairingError} (hm : ∀ e, m ∉ handlers e) :
    Atomic s m (.error err, s) := by
  rintro _ -
  exact ⟨fun hfatal ↦ absurd hfatal (not_fatal_of_not_mem hm), fun _ ↦ rfl⟩

theorem atomic_call (hP : P.Agrees) (hcode : s.HasCode) {m : Method}
    (hm : ∀ e, m ∈ handlers e → e.Genuine P) : Atomic s m (s.call P now m) := by
  cases m with
  | handleOffer e | handleComplete e | handleSasConfirm e | handlePayload e | handleAbort e =>
    exact (handled_call now hP hcode (hm e (by simp [handlers])) (by simp [handlers])).atomic
  | confirmSas rand | sendPayload t p rand | confirmTargetSas | sendComplete rand =>
    exact atomic_attempt (by simp [handlers]) fun _ ↦ ⟨_, rfl⟩
  | abort reason rand =>
    rw [call, PairingSession.abort]
    split
    · exact atomic_same (by simp [handlers])
    split
    · exact fun err herr ↦ by cases herr
    · exact atomic_attempt (by simp [handlers]) fun _ ↦ ⟨_, rfl⟩
  | signEvent b =>
    rw [call]
    cases hsigned : s.signEvent P b with
    | error err => exact atomic_same (by simp [handlers])
    | ok event => exact fun err herr ↦ by cases herr

def Wrong (P : Primitives) (s : PairingSession) (e : Event) (m : Method) : Prop :=
  m ∈ handlers e ∧ ∀ message, s.decryptMessage P e = .ok message → m ≠ message.handler e

theorem refused_of_wrong (now : ℕ) (hP : P.Agrees) (hcode : s.HasCode) (he : e.Genuine P) {m : Method}
    (hm : s.Wrong P e m) : ∃ err, s.call P now m = (.error err, s) := by
  have hhandled := handled_call now hP hcode he hm.1
  revert hhandled
  generalize s.call P now m = r
  intro hhandled
  cases hhandled with
  | @refused _ err => exact ⟨err, rfl⟩
  | ended hmessage => exact absurd rfl (hm.2 _ hmessage)
  | taken _ _ hmessage => exact absurd rfl (hm.2 _ hmessage)

def calls (P : Primitives) (s : PairingSession) (l : List (ℕ × Method)) : PairingSession :=
  l.foldl (fun s c ↦ (s.call P c.1 c.2).2) s

theorem calls_of_wrong (hP : P.Agrees) (hcode : s.HasCode) (he : e.Genuine P)
    {l : List (ℕ × Method)} (hl : ∀ c ∈ l, s.Wrong P e c.2) : s.calls P l = s := by
  induction l with
  | nil => rfl
  | cons c l ih =>
    obtain ⟨hc, hl⟩ := List.forall_mem_cons.mp hl
    obtain ⟨err, hcall⟩ := refused_of_wrong c.1 hP hcode he hc
    rw [calls, List.foldl_cons, hcall]
    exact ih hl

end PairingSession

/-- A call that returns an error changes nothing, but for a transcript mismatch and a failed
completion, and handlers that an event is not for leave it to its own. -/
theorem pairing_errors_atomic {P : Primitives} {s : PairingSession} (hP : P.Agrees)
    (hs : Reachable P s) :
    (∀ now m, (∀ e, m ∈ handlers e → e.Genuine P) → s.Atomic m (s.call P now m)) ∧
    ∀ e, e.Genuine P → ∀ l : List (ℕ × Method), (∀ c ∈ l, s.Wrong P e c.2) →
      (∀ c ∈ l, ∃ err, (s.call P c.1 c.2).1 = .error err) ∧ s.calls P l = s ∧
      ∀ now message, s.decryptMessage P e = .ok message →
        (s.calls P l).call P now (message.handler e) = s.call P now (message.handler e) := by
  have hcode := PairingSession.hasCode_of_reachable hs
  refine ⟨fun now m hm ↦ PairingSession.atomic_call hP hcode hm, fun e he l hl ↦ ?_⟩
  have hsame : s.calls P l = s := PairingSession.calls_of_wrong hP hcode he hl
  refine ⟨fun c hc ↦ ?_, hsame, fun now message _ ↦ by rw [hsame]⟩
  obtain ⟨err, hcall⟩ := PairingSession.refused_of_wrong c.1 hP hcode he (hl c hc)
  exact ⟨err, by rw [hcall]⟩

section Example

def sharedKeyOrSum (keys : SecretKey) (peer : PublicKey) : Except String Bytes32 :=
  match sharedKeyOf keys peer with
  | .ok ecdh => .ok ecdh
  | .error _ => .ok (publicKeyOf keys + peer)

theorem sharedKeyOrSum_comm (a b : SecretKey) :
    sharedKeyOrSum a (publicKeyOf b) = sharedKeyOrSum b (publicKeyOf a) := by
  have hsum : publicKeyOf a + publicKeyOf b = publicKeyOf b + publicKeyOf a := by
    simp only [Fin.add_def, Nat.add_comm]
  rw [sharedKeyOrSum, sharedKeyOrSum, sharedKeyOf_comm, hsum]

def totalKeys : Primitives where
  __ := smallKeys
  sharedKey := sharedKeyOrSum
  sharedKey_comm := sharedKeyOrSum_comm

theorem agrees_totalKeys : totalKeys.Agrees := by
  intro a b
  dsimp only [totalKeys, sharedKeyOrSum]
  split
  · exact ⟨_, rfl⟩
  · exact ⟨_, rfl⟩

def waitingSource : PairingSession := (newSource totalKeys 1 7 "wss://relay.example" 0).1

def offerBody : Body :=
  ⟨totalKeys.publicKey 2, .ofNat 0, pairingKind,
    [⟨"p", [hexEncode (totalKeys.publicKey 1)]⟩],
    .sealed ⟨s(totalKeys.publicKey 1, totalKeys.publicKey 2),
      totalKeys.toJson (.offer (hexEncode waitingSource.sessionId) 1), 0⟩⟩

def offerEvent : Event :=
  { offerBody with id := totalKeys.eventId offerBody, sig := .signed (totalKeys.publicKey 2) offerBody }

theorem genuine_offerEvent : offerEvent.Genuine totalKeys := by
  intro signer body hsig
  cases hsig
  exact ⟨2, rfl⟩

theorem wrong_offerEvent {m : Method} (hm : m ∈ handlers offerEvent)
    (hoffer : m ≠ .handleOffer offerEvent) : waitingSource.Wrong totalKeys offerEvent m := by
  refine ⟨hm, fun message hmessage ↦ ?_⟩
  obtain ⟨box, hbox, -, hplain⟩ := PairingSession.opens_of_decryptMessage hmessage
  cases hbox
  rw [totalKeys.fromJson_toJson] at hplain
  cases hplain
  exact hoffer

theorem pairing_errors_atomic_offer :
    waitingSource.calls totalKeys
      [(0, .handlePayload offerEvent), (1, .handleAbort offerEvent)] = waitingSource := by
  have hwrong := (pairing_errors_atomic agrees_totalKeys (.source 1 7 "wss://relay.example" 0)).2
    offerEvent genuine_offerEvent [(0, .handlePayload offerEvent), (1, .handleAbort offerEvent)]
  refine (hwrong ?_).2.1
  simp only [List.mem_cons, List.not_mem_nil, or_false]
  rintro _ (rfl | rfl)
  · exact wrong_offerEvent (by simp [handlers]) (by simp)
  · exact wrong_offerEvent (by simp [handlers]) (by simp)

end Example

end Buzz.Pairing
