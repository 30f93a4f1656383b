import Buzz.Pairing.Run

namespace Buzz.Pairing

open Buzz.Lib Buzz.Nostr

namespace PairingSession

variable {P : Primitives} {s s' : PairingSession} {m : Method} {a : Except PairingError Answer}

/-- What no call changes. -/
structure SameParty (s s' : PairingSession) : Prop where
  role : s'.role = s.role
  keys : s'.keys = s.keys
  secret : s'.sessionSecret = s.sessionSecret
  sessionId : s'.sessionId = s.sessionId

structure SameLink (s s' : PairingSession) : Prop where
  peer : s'.peerPubkey = s.peerPubkey
  code : s'.sasCode = s.sasCode
  input : s'.sasInput = s.sasInput

theorem SameParty.refl (s : PairingSession) : SameParty s s := ⟨rfl, rfl, rfl, rfl⟩

theorem SameParty.trans {s'' : PairingSession} (h : SameParty s s') (h' : SameParty s' s'') :
    SameParty s s'' :=
  ⟨h'.role.trans h.role, h'.keys.trans h.keys, h'.secret.trans h.secret,
    h'.sessionId.trans h.sessionId⟩

theorem SameLink.refl (s : PairingSession) : SameLink s s := ⟨rfl, rfl, rfl⟩

theorem SameLink.trans {s'' : PairingSession} (h : SameLink s s') (h' : SameLink s' s'') :
    SameLink s s'' :=
  ⟨h'.peer.trans h.peer, h'.code.trans h.code, h'.input.trans h.input⟩

theorem Moved.terminal (h : Moved P s m a s') (hstate : s.state.Terminal) : s'.state = s.state := by
  have hne (state : SessionState) (hs : s.state = state) (hlive : ¬state.Terminal) : False :=
    hlive (hs ▸ hstate)
  cases h with
  | refused m err => rfl
  | signed hcontent => rfl
  | unkeyed err hs => rfl
  | offered hs => exact (hne _ hs (by decide)).elim
  | sasConfirmed hs => exact (hne _ hs (by decide)).elim
  | payloadSent hs => exact (hne _ hs (by decide)).elim
  | completed hs => exact (hne _ hs (by decide)).elim
  | failed err hs => exact (hne _ hs (by decide)).elim
  | mismatched err hs => exact (hne _ hs (by decide)).elim
  | sasReceived a hs => exact (hne _ hs (by decide)).elim
  | targetConfirmed hs => exact (hne _ hs (by decide)).elim
  | payloadAccepted hs => exact (hne _ hs (by decide)).elim
  | completeSent hs => exact (hne _ hs (by decide)).elim
  | abortedAlone hlive => exact (hlive hstate).elim
  | abortSent hlive => exact (hlive hstate).elim
  | abortReceived hlive => exact (hlive hstate).elim

end PairingSession

namespace Setup

variable {P : Primitives} (X : Setup P) {I : Intruder PublicKey Bytes32} {tr : List Entry}
  {s : System} {c : Call} {a : Except PairingError Answer}

theorem joined_cases : ∃ ecdh nonce, P.sharedKey X.targetKeys X.sourcePubkey = .ok ecdh ∧
    X.target.role = .target ∧ X.target.state = .confirming ∧ X.target.keys = X.targetKeys ∧
    X.target.sessionSecret = X.secret ∧ X.target.sessionId = X.sessionId ∧
    X.target.peerPubkey = some X.sourcePubkey ∧
    X.target.sasCode = some (P.deriveSas ecdh X.secret).1 ∧
    X.target.sasInput = some (P.deriveSas ecdh X.secret).2 ∧
    X.offer.content = .sealed ⟨s(X.targetPubkey, X.sourcePubkey),
      P.toJson (.offer (hexEncode X.sessionId) 1), nonce⟩ := by
  have hjoin := X.joined
  rw [newTarget] at hjoin
  split at hjoin
  · cases hjoin
  · rename_i ecdh hkey
    obtain ⟨_, hecdh, hjoin⟩ := bind_eq_ok.mp hjoin
    cases hecdh
    obtain ⟨offer, hoffer, hjoin⟩ := bind_eq_ok.mp hjoin
    obtain ⟨peer, nonce, hpeer, hcontent⟩ := PairingSession.builds_of_buildEvent hoffer
    obtain ⟨htarget, hevent⟩ := Prod.mk.inj (Except.ok.inj hjoin)
    refine ⟨ecdh, nonce, hkey, ?_⟩
    rw [← htarget, ← hevent, hcontent, ← Option.some.inj hpeer]
    exact ⟨rfl, rfl, rfl, rfl, rfl, rfl, rfl, rfl, rfl⟩

structure Linked (source : PairingSession) : Prop where
  peer : source.peerPubkey = some X.targetPubkey
  code : source.sasCode = X.target.sasCode
  input : source.sasInput = X.target.sasInput

/-- Every message that one session boxed for the other has its cause in the run. -/
def Caused (tr : List Entry) : PairingMessage → Prop
  | .payload t p => PayloadSent tr t p ∧ SasConfirmed tr
  | .complete _ => PayloadAccepted tr
  | _ => True

def Honest (tr : List Entry) (b : Box PublicKey String) : Prop :=
  b.ends = s(X.sourcePubkey, X.targetPubkey) ∧ ∃ m, b.plain = P.toJson m ∧ Caused tr m

def Boxes (I : Intruder PublicKey Bytes32) (tr : List Entry) (published : List Event) : Prop :=
  ∀ b, SeenBox published b → X.Honest tr b ∨ I.Foreign (Mentions P) b

structure SourceInv (tr : List Entry) (source : PairingSession) : Prop where
  same : X.source.SameParty source
  peer : source.peerPubkey = none ∨ source.peerPubkey = some X.targetPubkey
  linked : source.state ≠ .waiting → source.state ≠ .aborted → X.Linked source
  linkedAfter : SasConfirmed tr → X.Linked source
  confirmed : source.state = .transferring ∨ source.state = .payloadExchanged → SasConfirmed tr
  completed : source.state = .completed → PayloadAccepted tr

structure TargetInv (tr : List Entry) (target : PairingSession) : Prop where
  same : X.target.SameParty target
  link : X.target.SameLink target
  confirmed : target.state = .transferring → TargetConfirmed tr
  accepted : target.state = .payloadExchanged → PayloadAccepted tr
  fresh : target.state ≠ .payloadExchanged → target.state ≠ .completed →
    target.state ≠ .aborted → tr.countP isAcceptance = 0
  once : tr.countP isAcceptance ≤ 1

structure Inv (I : Intruder PublicKey Bytes32) (tr : List Entry) (s : System) : Prop where
  source : X.SourceInv tr s.source
  target : X.TargetInv tr s.target
  boxes : X.Boxes I tr s.published

variable {X}

theorem SasConfirmed.concat {entry : Entry} (h : SasConfirmed tr) :
    SasConfirmed (tr ++ [entry]) := by
  obtain ⟨now, rand, e, hmem⟩ := h
  exact ⟨now, rand, e, List.mem_append_left _ hmem⟩

theorem PayloadAccepted.concat {entry : Entry} (h : PayloadAccepted tr) :
    PayloadAccepted (tr ++ [entry]) := by
  obtain ⟨now, e, t, p, hmem⟩ := h
  exact ⟨now, e, t, p, List.mem_append_left _ hmem⟩

theorem Caused.concat {entry : Entry} {m : PairingMessage} (h : Caused tr m) :
    Caused (tr ++ [entry]) m := by
  cases m with
  | payload t p =>
    obtain ⟨⟨now, rand, e, hmem⟩, hconfirmed⟩ := h
    exact ⟨⟨now, rand, e, List.mem_append_left _ hmem⟩, SasConfirmed.concat hconfirmed⟩
  | complete success => exact PayloadAccepted.concat h
  | offer sid version => trivial
  | sasConfirm hash => trivial
  | abort reason => trivial

theorem Honest.concat {entry : Entry} {b : Box PublicKey String} (h : X.Honest tr b) :
    X.Honest (tr ++ [entry]) b := by
  obtain ⟨hends, m, hplain, hm⟩ := h
  exact ⟨hends, m, hplain, hm.concat⟩

theorem Hidden.not_canOpen (h : X.Hidden I) {b : Box PublicKey String}
    (hends : b.ends = s(X.sourcePubkey, X.targetPubkey)) : ¬I.CanOpen b := by
  rintro ⟨k, hown, hk⟩
  rw [hends, Sym2.mem_iff] at hk
  rcases hk with rfl | rfl
  · exact h.source hown
  · exact h.target hown

theorem Boxes.caused (hboxes : X.Boxes I tr s.published) (hhidden : X.Hidden I) {e : Event}
    (hdeliver : CanDeliver P I s.published e) {session : PairingSession} {m : PairingMessage}
    (hopens : session.Opens P e m)
    (hends : s(session.pubkey P, e.pubkey) = s(X.sourcePubkey, X.targetPubkey)) : Caused tr m := by
  obtain ⟨b, hcontent, hb, hjson⟩ := hopens
  have hsend : I.CanSend (Mentions P) (SeenBox s.published) b := by
    have hwrite := hdeliver.1
    rw [hcontent] at hwrite
    exact hwrite
  have hhonest := hsend.honest_or_foreign hboxes fun b hb ↦ hhidden.not_canOpen hb.1
  rcases hhonest with ⟨-, m', hplain, hm'⟩ | hforeign
  · rw [hplain, P.fromJson_toJson] at hjson
    rw [← Except.ok.inj hjson]
    exact hm'
  · exact (hhidden.not_canOpen (hb.trans hends) hforeign.1).elim

theorem Boxes.author_of_offer (hboxes : X.Boxes I tr s.published) (hhidden : X.Hidden I)
    {e : Event} (hdeliver : CanDeliver P I s.published e) {source : PairingSession}
    (hkeys : source.keys = X.sourceKeys) {sid : String} {version : UInt32}
    (hopens : source.Opens P e (.offer sid version)) (hsid : hexDecode sid = some X.sessionId) :
    e.pubkey = X.targetPubkey := by
  obtain ⟨b, hcontent, hb, hjson⟩ := hopens
  have hsend : I.CanSend (Mentions P) (SeenBox s.published) b := by
    have hwrite := hdeliver.1
    rw [hcontent] at hwrite
    exact hwrite
  have hhonest := hsend.honest_or_foreign hboxes fun b hb ↦ hhidden.not_canOpen hb.1
  rcases hhonest with ⟨hends, -⟩ | hforeign
  · rw [PairingSession.pubkey, hkeys] at hb
    exact Sym2.congr_right.mp (hb.symm.trans hends)
  · exact (hhidden.sessionId (hforeign.2 _ ⟨_, hjson, hsid⟩)).elim

theorem SourceInv.concat {entry : Entry} {source : PairingSession} (h : X.SourceInv tr source)
    (hentry : SasConfirmed (tr ++ [entry]) → SasConfirmed tr) :
    X.SourceInv (tr ++ [entry]) source where
  same := h.same
  peer := h.peer
  linked := h.linked
  linkedAfter hconfirmed := h.linkedAfter (hentry hconfirmed)
  confirmed hstate := SasConfirmed.concat (h.confirmed hstate)
  completed hstate := PayloadAccepted.concat (h.completed hstate)

/-- A call that keeps the source's peer and SAS values. -/
theorem SourceInv.move {entry : Entry} {source source' : PairingSession}
    (h : X.SourceInv tr source) (hsame : source.SameParty source') (hlink : source.SameLink source')
    (hlinked : source'.state ≠ .waiting → source'.state ≠ .aborted → X.Linked source)
    (hentry : SasConfirmed (tr ++ [entry]) → X.Linked source)
    (hconfirmed : source'.state = .transferring ∨ source'.state = .payloadExchanged →
      SasConfirmed (tr ++ [entry]))
    (hcompleted : source'.state = .completed → PayloadAccepted (tr ++ [entry])) :
    X.SourceInv (tr ++ [entry]) source' := by
  have hkeep (hl : X.Linked source) : X.Linked source' :=
    ⟨hlink.peer.trans hl.peer, hlink.code.trans hl.code, hlink.input.trans hl.input⟩
  refine ⟨h.same.trans hsame, ?_, fun h₁ h₂ ↦ hkeep (hlinked h₁ h₂), fun h₁ ↦ hkeep (hentry h₁),
    hconfirmed, hcompleted⟩
  rw [hlink.peer]
  exact h.peer

theorem sasConfirmed_concat {entry : Entry} (h : SasConfirmed (tr ++ [entry])) :
    SasConfirmed tr ∨ ∃ now rand e, entry = (⟨.source, now, .confirmSas rand⟩, .ok (.event e)) := by
  obtain ⟨now, rand, e, hmem⟩ := h
  rw [List.mem_append, List.mem_singleton] at hmem
  rcases hmem with hmem | heq
  · exact .inl ⟨now, rand, e, hmem⟩
  · exact .inr ⟨now, rand, e, heq.symm⟩

theorem SourceInv.step {m : Method} {now : ℕ} {source source' : PairingSession}
    (h : X.SourceInv tr source) (hhidden : X.Hidden I) (hboxes : X.Boxes I tr s.published)
    (hok : Admissible P I s ⟨.source, now, m⟩) (hmoved : PairingSession.Moved P source m a source') :
    X.SourceInv (tr ++ [(⟨.source, now, m⟩, a)]) source' := by
  have hrole : source.role = .source := h.same.role
  have hkeys : source.keys = X.sourceKeys := h.same.keys
  have hsid : source.sessionId = X.sessionId := h.same.sessionId
  have hold : ∀ {entry : Entry}, source.state = .transferring ∨ source.state = .payloadExchanged →
      SasConfirmed (tr ++ [entry]) := fun hstate ↦ SasConfirmed.concat (h.confirmed hstate)
  have hnot (hne : ∀ rand e, m = .confirmSas rand → a ≠ .ok (.event e)) :
      SasConfirmed (tr ++ [(⟨.source, now, m⟩, a)]) → X.Linked source := by
    intro hconfirmed
    rcases sasConfirmed_concat hconfirmed with hconfirmed | ⟨now', rand, e, heq⟩
    · exact h.linkedAfter hconfirmed
    · obtain ⟨hcall, hanswer⟩ := Prod.mk.inj heq
      obtain ⟨-, -, hm⟩ := Call.mk.inj hcall
      exact (hne rand e hm hanswer).elim
  cases hmoved with
  | refused m err =>
    exact h.concat fun hconfirmed ↦ by
      rcases sasConfirmed_concat hconfirmed with hconfirmed | ⟨now', rand, e, heq⟩
      · exact hconfirmed
      · cases (Prod.mk.inj heq).2
  | signed hcontent =>
    exact h.concat fun hconfirmed ↦ by
      rcases sasConfirmed_concat hconfirmed with hconfirmed | ⟨now', rand, e, heq⟩
      · exact hconfirmed
      · cases (Prod.mk.inj heq).1
  | @unkeyed e sid text version err hstate _ hopens hid hkey =>
    have hauthor : e.pubkey = X.targetPubkey :=
      hboxes.author_of_offer hhidden hok hkeys hopens (hid.trans (congrArg some hsid))
    obtain ⟨ecdh, nonce, hshared, -⟩ := X.joined_cases
    rw [hauthor, hkeys, targetPubkey, P.sharedKey_comm] at hkey
    rw [sourcePubkey, hkey] at hshared
    cases hshared
  | @offered e sid version ecdh hstate _ hopens hid hkey =>
    have hauthor : e.pubkey = X.targetPubkey :=
      hboxes.author_of_offer hhidden hok hkeys hopens (hid.trans (congrArg some hsid))
    obtain ⟨ecdh', nonce, hshared, -, -, -, -, -, -, hcode, hinput, -⟩ := X.joined_cases
    rw [hauthor, hkeys, targetPubkey, P.sharedKey_comm] at hkey
    rw [sourcePubkey, hkey] at hshared
    have hsecret : source.sessionSecret = X.secret := h.same.secret
    have hlinked : X.Linked { source with
        peerPubkey := some e.pubkey
        sasCode := some (P.deriveSas ecdh source.sessionSecret).1
        sasInput := some (P.deriveSas ecdh source.sessionSecret).2
        state := .confirming
        processedIds := insert e.id source.processedIds } := by
      rw [hsecret, hauthor, Except.ok.inj hshared]
      exact ⟨rfl, hcode.symm, hinput.symm⟩
    refine ⟨h.same.trans ⟨rfl, rfl, rfl, rfl⟩, .inr (congrArg some hauthor), fun _ _ ↦ hlinked,
      fun _ ↦ hlinked, ?_, ?_⟩
    · rintro (hs | hs) <;> cases hs
    · intro hs
      cases hs
  | @sasConfirmed rand hash e hstate =>
    have hl : X.Linked source := h.linked (by rw [hstate]; decide) (by rw [hstate]; decide)
    refine h.move ⟨rfl, rfl, rfl, rfl⟩ ⟨rfl, rfl, rfl⟩ (fun _ _ ↦ hl) (fun _ ↦ hl) (fun _ ↦ ?_) ?_
    · exact ⟨now, rand, e, by simp⟩
    · intro hs
      cases hs
  | payloadSent hstate =>
    have hl : X.Linked source := h.linked (by rw [hstate]; decide) (by rw [hstate]; decide)
    refine h.move ⟨rfl, rfl, rfl, rfl⟩ ⟨rfl, rfl, rfl⟩ (fun _ _ ↦ hl) (fun _ ↦ hl)
      (fun _ ↦ hold (.inl hstate)) ?_
    intro hs
    cases hs
  | completed hstate _ hpeer hopens =>
    have hl : X.Linked source := h.linked (by rw [hstate]; decide) (by rw [hstate]; decide)
    refine h.move ⟨rfl, rfl, rfl, rfl⟩ ⟨rfl, rfl, rfl⟩ (fun _ _ ↦ hl) (fun _ ↦ hl) ?_ fun _ ↦ ?_
    · rintro (hs | hs) <;> cases hs
    · rw [hl.peer, Option.all_some, decide_eq_true_iff] at hpeer
      have hcaused := hboxes.caused hhidden hok hopens (by
        rw [PairingSession.pubkey, hkeys, ← hpeer]
        rfl)
      exact PayloadAccepted.concat hcaused
  | failed err hstate =>
    have hl : X.Linked source := h.linked (by rw [hstate]; decide) (by rw [hstate]; decide)
    refine h.move ⟨rfl, rfl, rfl, rfl⟩ ⟨rfl, rfl, rfl⟩ (fun _ _ ↦ hl) (fun _ ↦ hl) ?_ ?_
    · rintro (hs | hs) <;> cases hs
    · intro hs
      cases hs
  | mismatched err _ htarget => cases hrole.symm.trans htarget
  | sasReceived a _ htarget => cases hrole.symm.trans htarget
  | targetConfirmed _ htarget => cases hrole.symm.trans htarget
  | payloadAccepted _ htarget => cases hrole.symm.trans htarget
  | completeSent _ htarget => cases hrole.symm.trans htarget
  | abortedAlone hlive =>
    refine h.move ⟨rfl, rfl, rfl, rfl⟩ ⟨rfl, rfl, rfl⟩ (fun _ hne ↦ (hne rfl).elim)
      (hnot fun rand e hm ↦ by cases hm) ?_ ?_
    · rintro (hs | hs) <;> cases hs
    · intro hs
      cases hs
  | abortSent hlive =>
    refine h.move ⟨rfl, rfl, rfl, rfl⟩ ⟨rfl, rfl, rfl⟩ (fun _ hne ↦ (hne rfl).elim)
      (hnot fun rand e hm ↦ by cases hm) ?_ ?_
    · rintro (hs | hs) <;> cases hs
    · intro hs
      cases hs
  | abortReceived hlive =>
    refine h.move ⟨rfl, rfl, rfl, rfl⟩ ⟨rfl, rfl, rfl⟩ (fun _ hne ↦ (hne rfl).elim)
      (hnot fun rand e hm ↦ by cases hm) ?_ ?_
    · rintro (hs | hs) <;> cases hs
    · intro hs
      cases hs

theorem countP_concat (tr : List Entry) (entry : Entry) :
    (tr ++ [entry]).countP isAcceptance =
      tr.countP isAcceptance + if isAcceptance entry then 1 else 0 := by
  rw [List.countP_append, List.countP_singleton]

theorem TargetConfirmed.concat {entry : Entry} (h : TargetConfirmed tr) :
    TargetConfirmed (tr ++ [entry]) := by
  obtain ⟨now, hmem⟩ := h
  exact ⟨now, List.mem_append_left _ hmem⟩

theorem TargetInv.move {entry : Entry} {target target' : PairingSession} (h : X.TargetInv tr target)
    (hentry : isAcceptance entry = false) (hsame : target.SameParty target')
    (hlink : target.SameLink target')
    (hconfirmed : target'.state = .transferring → TargetConfirmed (tr ++ [entry]))
    (haccepted : target'.state = .payloadExchanged → PayloadAccepted tr)
    (hfresh : target'.state ≠ .payloadExchanged → target'.state ≠ .completed →
      target'.state ≠ .aborted → tr.countP isAcceptance = 0) :
    X.TargetInv (tr ++ [entry]) target' := by
  have hcount : (tr ++ [entry]).countP isAcceptance = tr.countP isAcceptance := by
    rw [countP_concat, hentry]
    rfl
  refine ⟨h.same.trans hsame, h.link.trans hlink, hconfirmed,
    fun hstate ↦ PayloadAccepted.concat (haccepted hstate), ?_, ?_⟩
  · rw [hcount]
    exact hfresh
  · rw [hcount]
    exact h.once

theorem TargetInv.concat {entry : Entry} {target : PairingSession} (h : X.TargetInv tr target)
    (hentry : isAcceptance entry = false) : X.TargetInv (tr ++ [entry]) target :=
  h.move hentry (.refl _) (.refl _) (fun hstate ↦ TargetConfirmed.concat (h.confirmed hstate))
    h.accepted h.fresh

/-- What each of the target's calls does to its side of the invariant. -/
theorem TargetInv.step {m : Method} {now : ℕ} {target target' : PairingSession}
    (h : X.TargetInv tr target) (hmoved : PairingSession.Moved P target m a target') :
    X.TargetInv (tr ++ [(⟨.target, now, m⟩, a)]) target' := by
  have hrole : target.role = .target := by
    obtain ⟨ecdh, nonce, -, htarget, -⟩ := X.joined_cases
    exact h.same.role.trans htarget
  cases hmoved with
  | refused m err => exact h.concat rfl
  | signed hcontent => exact h.concat rfl
  | unkeyed err _ hsource => cases hrole.symm.trans hsource
  | offered _ hsource => cases hrole.symm.trans hsource
  | sasConfirmed _ hsource => cases hrole.symm.trans hsource
  | payloadSent _ hsource => cases hrole.symm.trans hsource
  | completed _ hsource => cases hrole.symm.trans hsource
  | failed err _ hsource => cases hrole.symm.trans hsource
  | mismatched err hstate =>
    exact h.move rfl ⟨rfl, rfl, rfl, rfl⟩ ⟨rfl, rfl, rfl⟩ (fun hs ↦ by cases hs)
      (fun hs ↦ by cases hs) fun _ _ hne ↦ (hne rfl).elim
  | sasReceived a hstate =>
    refine h.move ?_ ⟨rfl, rfl, rfl, rfl⟩ ⟨rfl, rfl, rfl⟩ (fun hs ↦ by cases hs)
      (fun hs ↦ by cases hs) fun _ _ _ ↦ ?_
    · cases a with
      | error err => rfl
      | ok code => rfl
    · exact h.fresh (by rw [hstate]; decide) (by rw [hstate]; decide) (by rw [hstate]; decide)
  | targetConfirmed hstate =>
    refine h.move rfl ⟨rfl, rfl, rfl, rfl⟩ ⟨rfl, rfl, rfl⟩ (fun _ ↦ ⟨now, by simp⟩)
      (fun hs ↦ by cases hs) fun _ _ _ ↦ ?_
    exact h.fresh (by rw [hstate]; decide) (by rw [hstate]; decide) (by rw [hstate]; decide)
  | @payloadAccepted e t p hstate =>
    have hzero : tr.countP isAcceptance = 0 :=
      h.fresh (by rw [hstate]; decide) (by rw [hstate]; decide) (by rw [hstate]; decide)
    refine ⟨h.same.trans ⟨rfl, rfl, rfl, rfl⟩, h.link.trans ⟨rfl, rfl, rfl⟩, (fun hs ↦ by cases hs),
      fun _ ↦ ⟨now, e, t, p, by simp⟩, fun hne ↦ (hne rfl).elim, ?_⟩
    rw [countP_concat, hzero]
    exact le_rfl
  | completeSent hstate =>
    exact h.move rfl ⟨rfl, rfl, rfl, rfl⟩ ⟨rfl, rfl, rfl⟩ (fun hs ↦ by cases hs)
      (fun hs ↦ by cases hs) fun _ hne ↦ (hne rfl).elim
  | abortedAlone hlive =>
    exact h.move rfl ⟨rfl, rfl, rfl, rfl⟩ ⟨rfl, rfl, rfl⟩ (fun hs ↦ by cases hs)
      (fun hs ↦ by cases hs) fun _ _ hne ↦ (hne rfl).elim
  | abortSent hlive =>
    exact h.move rfl ⟨rfl, rfl, rfl, rfl⟩ ⟨rfl, rfl, rfl⟩ (fun hs ↦ by cases hs)
      (fun hs ↦ by cases hs) fun _ _ hne ↦ (hne rfl).elim
  | abortReceived hlive =>
    exact h.move rfl ⟨rfl, rfl, rfl, rfl⟩ ⟨rfl, rfl, rfl⟩ (fun hs ↦ by cases hs)
      (fun hs ↦ by cases hs) fun _ _ hne ↦ (hne rfl).elim

theorem not_acceptance_of_source {m : Method} {now : ℕ} {source source' : PairingSession}
    (hrole : source.role = .source) (hmoved : PairingSession.Moved P source m a source') :
    isAcceptance (⟨.source, now, m⟩, a) = false := by
  cases hmoved with
  | payloadAccepted _ htarget => cases hrole.symm.trans htarget
  | sasReceived a _ htarget => cases hrole.symm.trans htarget
  | _ => rfl

theorem seenBox_append {published more : List Event} {b : Box PublicKey String}
    (h : SeenBox (published ++ more) b) : SeenBox published b ∨ SeenBox more b := by
  obtain ⟨e, he, hcontent⟩ := h
  rcases List.mem_append.mp he with he | he
  · exact .inl ⟨e, he, hcontent⟩
  · exact .inr ⟨e, he, hcontent⟩

theorem seenBox_singleton {e : Event} {b : Box PublicKey String} (h : SeenBox [e] b) :
    e.content = .sealed b := by
  obtain ⟨e', he', hcontent⟩ := h
  rwa [← List.mem_singleton.mp he']

/-- A message that a session boxes for the other one, or one without a cause for an unknown peer. -/
theorem honest_of_builds {e : Event} {session : PairingSession} {m : PairingMessage}
    {b : Box PublicKey String} (hbuilds : session.Builds P m e) (hseen : SeenBox [e] b)
    (hends : ∀ peer, session.peerPubkey = some peer →
      s(session.pubkey P, peer) = s(X.sourcePubkey, X.targetPubkey)) (hm : Caused tr m) :
    X.Honest tr b := by
  obtain ⟨peer, nonce, hpeer, hcontent⟩ := hbuilds
  rw [seenBox_singleton hseen] at hcontent
  rw [Content.sealed.inj hcontent]
  exact ⟨hends peer hpeer, m, rfl, hm⟩

/-- What a call publishes is boxed between the two sessions, or was written by the adversary. -/
theorem Boxes.step {m : Method} {now : ℕ} {party : Role} {session session' : PairingSession}
    (hboxes : X.Boxes I tr s.published) (hhidden : X.Hidden I)
    (hok : Admissible P I s ⟨party, now, m⟩) (hmoved : PairingSession.Moved P session m a session')
    (hends : ∀ peer, session.peerPubkey = some peer →
      s(session.pubkey P, peer) = s(X.sourcePubkey, X.targetPubkey))
    (hpayload : ∀ t p rand e, m = .sendPayload t p rand → a = .ok (.event e) →
      session.state = .transferring → session.role = .source →
        Caused (tr ++ [(⟨party, now, m⟩, a)]) (.payload t p))
    (hcomplete : session.state = .payloadExchanged → session.role = .target →
      Caused (tr ++ [(⟨party, now, m⟩, a)]) (.complete true)) :
    X.Boxes I (tr ++ [(⟨party, now, m⟩, a)]) (s.published ++ publishes a) := by
  intro b hseen
  rcases seenBox_append hseen with hseen | hseen
  · rcases hboxes b hseen with hhonest | hforeign
    · exact .inl hhonest.concat
    · exact .inr hforeign
  · cases hmoved with
    | sasConfirmed _ _ hbuilds => exact .inl (honest_of_builds hbuilds hseen hends trivial)
    | payloadSent hstate hrole hbuilds =>
      exact .inl (honest_of_builds hbuilds hseen hends (hpayload _ _ _ _ rfl rfl hstate hrole))
    | completeSent hstate hrole hbuilds =>
      exact .inl (honest_of_builds hbuilds hseen hends (hcomplete hstate hrole))
    | abortSent _ hbuilds => exact .inl (honest_of_builds hbuilds hseen hends trivial)
    | @signed builder e hcontent =>
      have hwrite : I.CanSend (Mentions P) (SeenBox s.published) b := by
        have hw : CanWrite P I s.published builder.content := hok
        rw [← hcontent, seenBox_singleton hseen] at hw
        exact hw
      rcases hwrite.honest_or_foreign hboxes fun b hb ↦ hhidden.not_canOpen hb.1 with hh | hf
      · exact .inl hh.concat
      · exact .inr hf
    | sasReceived r _ _ =>
      obtain ⟨e, he, -⟩ := hseen
      cases r with
      | error err => exact absurd he List.not_mem_nil
      | ok code => exact absurd he List.not_mem_nil
    | _ =>
      obtain ⟨e, he, -⟩ := hseen
      exact absurd he List.not_mem_nil

theorem Inv.init (X : Setup P) (I : Intruder PublicKey Bytes32) : X.Inv I [] X.init := by
  obtain ⟨ecdh, nonce, hkey, hrole, hstate, hkeys, hsecret, hsid, hpeer, hcode, hinput, hoffer⟩ :=
    X.joined_cases
  have hnone : ¬SasConfirmed [] := by
    rintro ⟨now, rand, e, hmem⟩
    exact absurd hmem List.not_mem_nil
  refine ⟨⟨.refl _, .inl rfl, fun hne ↦ (hne rfl).elim, fun h ↦ (hnone h).elim, ?_, ?_⟩,
    ⟨.refl _, .refl _, ?_, ?_, fun _ _ _ ↦ rfl, Nat.zero_le 1⟩, ?_⟩
  · rintro (hs | hs) <;> cases hs
  · intro hs
    cases hs
  · intro hs
    cases hstate.symm.trans hs
  · intro hs
    cases hstate.symm.trans hs
  · intro b hseen
    have hcontent := seenBox_singleton hseen
    rw [hoffer] at hcontent
    rw [← Content.sealed.inj hcontent]
    exact .inl ⟨Sym2.eq_swap, _, rfl, trivial⟩

theorem Inv.step (h : X.Inv I tr s) (hhidden : X.Hidden I) (hok : Admissible P I s c) :
    X.Inv I (tr ++ [(c, (s.step P c).1)]) (s.step P c).2 := by
  obtain ⟨party, now, m⟩ := c
  have hmoved := PairingSession.moved_call P now (s.session party) m
  cases party with
  | source =>
    have hrole : s.source.role = .source := h.source.same.role
    have hsource := h.source.step hhidden h.boxes hok hmoved
    refine ⟨hsource, h.target.concat (not_acceptance_of_source hrole hmoved), ?_⟩
    refine h.boxes.step hhidden hok hmoved ?_ ?_ ?_
    · intro peer hpeer
      rcases h.source.peer with hp | hp
      · cases hp.symm.trans hpeer
      · rw [Option.some.inj (hpeer.symm.trans hp)]
        exact congrArg (fun k ↦ s(P.publicKey k, X.targetPubkey)) h.source.same.keys
    · intro t p rand e hm hanswer hstate _
      refine ⟨⟨now, rand, e, ?_⟩, SasConfirmed.concat (h.source.confirmed (.inl hstate))⟩
      rw [hm] at hanswer ⊢
      simp [hanswer]
    · intro _ htarget
      cases hrole.symm.trans htarget
  | target =>
    obtain ⟨ecdh, nonce, -, hrole', -, hkeys', -, -, hpeer', -⟩ := X.joined_cases
    have hrole : s.target.role = .target := h.target.same.role.trans hrole'
    have hkeys : s.target.keys = X.targetKeys := h.target.same.keys.trans hkeys'
    refine ⟨h.source.concat ?_, h.target.step hmoved, ?_⟩
    · intro hconfirmed
      rcases sasConfirmed_concat hconfirmed with hconfirmed | ⟨now', rand, e, heq⟩
      · exact hconfirmed
      · cases (Prod.mk.inj heq).1
    · refine h.boxes.step hhidden hok hmoved ?_ ?_ ?_
      · intro peer hpeer
        have hsome : s.target.peerPubkey = some X.sourcePubkey := h.target.link.peer.trans hpeer'
        rw [Option.some.inj (hpeer.symm.trans hsome), Sym2.eq_swap]
        exact congrArg (fun k ↦ s(X.sourcePubkey, P.publicKey k)) hkeys
      · intro t p rand e _ _ _ hsource
        cases hrole.symm.trans hsource
      · intro hstate _
        exact PayloadAccepted.concat (h.target.accepted hstate)

theorem Runs.inv (h : X.Runs I tr s) (hhidden : X.Hidden I) : X.Inv I tr s :=
  Answers.invariant h (Inv.init X I) fun _ _ _ hinv hok ↦ hinv.step hhidden hok

theorem Linked.transcript_eq (hl : X.Linked s.source) (hsource : X.source.SameParty s.source)
    (hsame : X.target.SameParty s.target) (hlink : X.target.SameLink s.target) :
    ∃ code transcript, s.source.sasCode = some code ∧ s.target.sasCode = some code ∧
      s.source.transcript P = some transcript ∧ s.target.transcript P = some transcript := by
  obtain ⟨ecdh, nonce, -, hrole, -, hkeys, -, hsid, hpeer, hcode, hinput, -⟩ := X.joined_cases
  refine ⟨_, (X.sessionId, X.sourcePubkey, X.targetPubkey, (P.deriveSas ecdh X.secret).2),
    hl.code.trans hcode, hlink.code.trans hcode, ?_, ?_⟩
  · have hsrole : s.source.role = .source := hsource.role
    have hskeys : s.source.keys = X.sourceKeys := hsource.keys
    have hssid : s.source.sessionId = X.sessionId := hsource.sessionId
    simp only [PairingSession.transcript, hl.input, hinput, hl.peer, hsrole, hssid,
      PairingSession.pubkey, hskeys, Option.bind_some, Option.map_some, sourcePubkey]
  · simp only [PairingSession.transcript, hlink.input, hinput, hlink.peer, hpeer,
      hsame.role.trans hrole, hsame.sessionId.trans hsid, PairingSession.pubkey,
      hsame.keys.trans hkeys, Option.bind_some, Option.map_some, targetPubkey]

/-- The payload that the target's `handle_payload` returns was sent by the source before, both
users having confirmed. -/
theorem Inv.accepted (h : X.Inv I tr s) (hhidden : X.Hidden I) (hok : Admissible P I s c)
    {t : PayloadType} {p : String} (ha : (s.step P c).1 = .ok (.payload t p)) :
    c.party = .target ∧ PayloadSent tr t p ∧ SasConfirmed tr ∧ TargetConfirmed tr := by
  obtain ⟨party, now, m⟩ := c
  have hmoved := PairingSession.moved_call P now (s.session party) m
  rw [System.step] at ha
  dsimp only at ha
  rw [ha] at hmoved
  obtain ⟨ecdh, nonce, -, hrole, -, hkeys, -, -, hpeer', -⟩ := X.joined_cases
  generalize hs' : ((s.session party).call P now m).2 = session' at hmoved
  generalize hr : (Except.ok (Answer.payload t p) : Except PairingError Answer) = r at hmoved
  cases hmoved with
  | @payloadAccepted e _ _ hstate htarget hpeer hopens =>
    cases hr
    cases party with
    | source => cases htarget.symm.trans h.source.same.role
    | target =>
      have hsome : s.target.peerPubkey = some X.sourcePubkey := h.target.link.peer.trans hpeer'
      have hauthor : X.sourcePubkey = e.pubkey := by
        simpa only [System.session, hsome, Option.all_some, decide_eq_true_iff] using hpeer
      have hcaused := h.boxes.caused hhidden hok hopens (by
        rw [← hauthor, Sym2.eq_swap]
        exact congrArg (fun k ↦ s(X.sourcePubkey, P.publicKey k)) (h.target.same.keys.trans hkeys))
      exact ⟨rfl, hcaused.1, hcaused.2, h.target.confirmed hstate⟩
  | sasReceived r hstate =>
    cases r with
    | error err => cases hr
    | ok code => cases hr
  | _ => cases hr

/-- Whatever the relay does, a payload the target accepts is the one its source sent to it after
both confirmed the same SAS; the source completes after that, and nobody leaves a final state. -/
theorem pairing_agrees (X : Setup P) (hhidden : X.Hidden I) (hrun : X.Runs I tr s) :
    (∀ pre rest c t p, tr = pre ++ (c, .ok (.payload t p)) :: rest →
      c.party = .target ∧ PayloadSent pre t p ∧ SasConfirmed pre ∧ TargetConfirmed pre ∧
        s.source.peerPubkey = some (s.target.pubkey P) ∧
        ∃ code transcript, s.source.sasCode = some code ∧ s.target.sasCode = some code ∧
          s.source.transcript P = some transcript ∧ s.target.transcript P = some transcript) ∧
      tr.countP isAcceptance ≤ 1 ∧
      (s.source.state = .completed → PayloadAccepted tr) ∧
      ∀ c party, (s.session party).state.Terminal →
        ((s.step P c).2.session party).state = (s.session party).state := by
  have hinv := Runs.inv hrun hhidden
  refine ⟨?_, hinv.target.once, hinv.source.completed, ?_⟩
  · intro pre rest c t p htr
    subst htr
    obtain ⟨s₀, hrun₀, hok, ha⟩ := Answers.of_append hrun
    have haccepted := (Runs.inv hrun₀ hhidden).accepted hhidden hok ha.symm
    obtain ⟨hparty, hsent, hconfirmed, htarget⟩ := haccepted
    have hconfirmed' : SasConfirmed (pre ++ (c, .ok (.payload t p)) :: rest) := by
      obtain ⟨now, rand, e, hmem⟩ := hconfirmed
      exact ⟨now, rand, e, List.mem_append_left _ hmem⟩
    have hl := hinv.source.linkedAfter hconfirmed'
    refine ⟨hparty, hsent, hconfirmed, htarget, ?_,
      hl.transcript_eq hinv.source.same hinv.target.same hinv.target.link⟩
    obtain ⟨ecdh, nonce, -, -, -, hkeys, -⟩ := X.joined_cases
    rw [hl.peer, PairingSession.pubkey, hinv.target.same.keys, hkeys]
    rfl
  · intro c party hterminal
    have hmoved := PairingSession.moved_call P c.now (s.session c.party) c.method
    obtain ⟨called, now, m⟩ := c
    cases called with
    | source =>
      cases party with
      | source => exact hmoved.terminal hterminal
      | target => rfl
    | target =>
      cases party with
      | source => rfl
      | target => exact hmoved.terminal hterminal

end Setup

end Buzz.Pairing
