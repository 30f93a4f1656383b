import Buzz.Lib.Runs
import Buzz.Mesh.Network

namespace Buzz.Mesh

open Buzz.Lib Buzz.Lib.AntiEntropy Buzz.Nostr
open Buzz.Relay.Tunnel (RuntimeId)

namespace Network

variable {verify : VerifySchnorr} {boots : RuntimeId → Boot} {ops ops' : List Op} {op : Op}
  {m m₁ m₂ m' : Network} {x y k : RuntimeId} {n' : MeshNode} {frames : List Frame}

theorem Inv.boot (verify : VerifySchnorr) (boots : RuntimeId → Boot) :
    (Network.boot boots).Inv verify boots [] := by
  have hgood (x : RuntimeId) : (MeshNode.boot x (boots x)).Good x := .boot x (boots x)
  have hself (x : RuntimeId) : (Network.boot boots).levels x x = (1 : Fin (2 ^ 64)) := by
    rw [levels, Network.boot, (hgood x).levels_self, MeshNode.boot_own]
    rfl
  refine ⟨hgood, fun x ↦ MeshNode.boot_expectedRelayPubkey x (boots x), ?_,
    fun x ↦ (hself x).ge, (fun _ hf ↦ by cases hf), (fun _ hf ↦ by cases hf), ?_⟩
  · intro x k
    by_cases hk : k = x
    · rw [hk]
    · have hnone : (MeshNode.boot x (boots x)).table k = none := by
        rw [MeshNode.table, (hgood x).wellFormed.get_of_ne hk, MeshNode.boot_peers]
        rfl
      exact (level_of_eq_none hnone).trans_le bot_le
  · intro x k hk
    rw [MeshMembership.hasPeer, Network.boot, MeshNode.boot_peers] at hk
    cases hk

/-- What the admission of an inbound connection did. -/
theorem isKnownPeer_cases {n : MeshNode} {rescan : Option (List (ReadyRecord × Fin (2 ^ 64)))}
    {known : Bool} (h : isKnownPeer verify n y rescan = some (known, n')) :
    known = n'.membership.hasPeer y ∧
      (n' = n ∨ ∃ ready, rescan = some ready ∧ n' = n.applyReady verify ready) := by
  unfold isKnownPeer at h
  cases hpeer : n.membership.hasPeer y with
  | true =>
    rw [hpeer] at h
    cases rescan with
    | none =>
      cases h
      exact ⟨hpeer.symm, .inl rfl⟩
    | some ready => cases h
  | false =>
    rw [hpeer] at h
    cases rescan with
    | none =>
      cases h
      exact ⟨hpeer.symm, .inl rfl⟩
    | some ready =>
      cases h
      exact ⟨rfl, .inr ⟨ready, rfl, rfl⟩⟩

theorem receive_digest {f : Frame} {v : UInt8} {entries : List GossipDigestEntry}
    (hmessage : f.message = .digest v entries)
    (hreports : Reports (m.levels f.src) f.message) :
    m.receive f = m.set f.dst (m.nodes f.dst)
      [⟨f.dst, f.src, (m.nodes f.dst).membership.deltaFor entries⟩] := by
  rw [receive, hreports.decodeMessage, hmessage]

theorem receive_delta {f : Frame} {v : UInt8} {records : List GossipRecord}
    (hmessage : f.message = .delta v records) (hreports : Reports (m.levels f.src) f.message) :
    m.receive f = m.set f.dst ((m.nodes f.dst).applyDelta records) [] := by
  rw [receive, hreports.decodeMessage, hmessage]

theorem step_deliver_inv {i : ℕ} (h : step verify m (.deliver i) = some m') :
    ∃ f, m.sent[i]? = some f ∧ f.src ∈ (m.nodes f.dst).links ∧ m' = m.receive f := by
  rw [step] at h
  obtain ⟨f, hf, hrest⟩ := Option.bind_eq_some_iff.mp h
  split at hrest
  case isTrue hlink =>
    cases hrest
    exact ⟨f, hf, hlink, rfl⟩
  case isFalse => cases hrest

theorem Inv.step (h : m.Inv verify boots ops) (hstep : step verify m op = some m') :
    ∃ x n' frames, m' = m.set x n' frames ∧ Turn verify boots ops op m x n' frames := by
  cases op with
  | change x change now =>
    cases hstep
    exact ⟨x, _, _, rfl, h.changes (if_pos rfl) fun z hz ↦ if_neg hz.symm⟩
  | tick x now =>
    cases hstep
    have hturn : Turn verify boots ops (.tick x now) m x
        ((m.nodes x).localChange .heartbeat now) [] :=
      h.changes (if_pos rfl) fun z hz ↦ if_neg hz.symm
    refine ⟨x, _, _, rfl, hturn.send fun f hf ↦ ?_⟩
    obtain ⟨y, hy, rfl⟩ := List.mem_map.mp hf
    exact ⟨rfl, hy, hturn.good.reports_digest⟩
  | rescan x ready =>
    cases hstep
    exact ⟨x, _, _, rfl, h.rescans x (fun _ ↦ rfl) rfl⟩
  | dial x y =>
    rw [Network.step] at hstep
    split at hstep
    case isFalse => cases hstep
    case isTrue hany =>
      cases hstep
      refine ⟨x, _, _, rfl, (h.idle x fun _ ↦ rfl).link ?_⟩
      obtain ⟨r, hr, hcond⟩ := List.any_eq_true.mp hany
      simp only [Bool.and_eq_true, decide_eq_true_eq, (h.good x).wellFormed.id] at hcond
      obtain ⟨⟨rfl, hne⟩, -⟩ := hcond
      refine (h.good x).hasPeer_iff.mpr ⟨hne, ?_⟩
      exact Option.isSome_iff_exists.mpr ⟨r, (h.good x).wellFormed.mem_records.mp hr⟩
  | accept x y rescan =>
    rw [Network.step] at hstep
    obtain ⟨⟨known, n'⟩, hknown, hrest⟩ := Option.bind_eq_some_iff.mp hstep
    cases hrest
    obtain ⟨rfl, hn'⟩ := isKnownPeer_cases hknown
    have hturn : Turn verify boots ops (.accept x y rescan) m x n' [] := by
      rcases hn' with rfl | ⟨ready, rfl, rfl⟩
      · exact h.idle x fun _ ↦ rfl
      · exact h.rescans x (fun _ ↦ rfl) rfl
    refine ⟨x, _, _, rfl, ?_⟩
    split
    case isTrue hpeer => exact hturn.link hpeer
    case isFalse => exact hturn
  | deliver i =>
    obtain ⟨f, hf, hlink, rfl⟩ := step_deliver_inv hstep
    have hmem : f ∈ m.sent := List.mem_of_getElem? hf
    have hreports := h.reports f hmem
    cases hmessage : f.message with
    | digest v entries =>
      refine ⟨_, _, _, receive_digest hmessage hreports, (h.idle f.dst fun _ ↦ rfl).send ?_⟩
      intro g hg
      rw [List.mem_singleton.mp hg]
      exact ⟨rfl, hlink, (h.good f.dst).reports_deltaFor entries⟩
    | delta v records =>
      exact ⟨_, _, _, receive_delta hmessage hreports, h.applies hmem hmessage hlink fun _ ↦ rfl⟩

theorem Inv.step_inv (h : m.Inv verify boots ops) (hstep : Network.step verify m op = some m') :
    m'.Inv verify boots (ops ++ [op]) := by
  obtain ⟨x, n', frames, rfl, hturn⟩ := h.step hstep
  exact h.turn hturn

/-- What a run leaves as it was, or only raises. -/
structure Later (ops : List Op) (m m' : Network) : Prop where
  levels : ∀ x, m.levels x ≤ m'.levels x
  sent : m.sent <+: m'.sent
  own : ∀ x, (m'.nodes x).own = ops.foldl (fun record op ↦ op.ownAt x record) (m.nodes x).own

theorem Turn.later (h : Turn verify boots ops op m x n' frames) :
    Later [op] m (m.set x n' frames) := by
  refine ⟨h.levels_le, List.prefix_append _ _, fun y ↦ ?_⟩
  rw [List.foldl_cons, List.foldl_nil]
  by_cases hy : y = x
  · rw [hy, nodes_set_self]
    exact h.own
  · rw [nodes_set_of_ne hy, Op.ownAt, h.elsewhere y hy]

theorem Later.trans (h : Later ops m m₁) (h' : Later ops' m₁ m') : Later (ops ++ ops') m m' := by
  refine ⟨fun x ↦ (h.levels x).trans (h'.levels x), h.sent.trans h'.sent, fun x ↦ ?_⟩
  rw [h'.own, h.own, List.foldl_append]

theorem run_append (h : run verify m (ops ++ ops') = some m') :
    ∃ m₁, run verify m ops = some m₁ ∧ run verify m₁ ops' = some m' := by
  rw [run, List.foldlM_append] at h
  exact Option.bind_eq_some_iff.mp h

theorem run_cons (h : run verify m (op :: ops) = some m') :
    ∃ m₁, step verify m op = some m₁ ∧ run verify m₁ ops = some m' :=
  Option.bind_eq_some_iff.mp h

theorem Inv.run (h : m.Inv verify boots ops) (hrun : run verify m ops' = some m') :
    m'.Inv verify boots (ops ++ ops') ∧ Later ops' m m' := by
  induction ops' generalizing m ops with
  | nil =>
    cases hrun
    rw [List.append_nil]
    exact ⟨h, fun _ ↦ le_rfl, List.prefix_refl _, fun _ ↦ rfl⟩
  | cons op ops' ih =>
    obtain ⟨m₁, hstep, hrest⟩ := run_cons hrun
    obtain ⟨x, n', frames, rfl, hturn⟩ := h.step hstep
    obtain ⟨hinv, hlater⟩ := ih (h.turn hturn) hrest
    rw [List.append_assoc] at hinv
    exact ⟨hinv, hturn.later.trans hlater⟩

/-- A digest of `x` was handed to `y`, and what `y` answered was handed to `x`. -/
def Fetched (verify : VerifySchnorr) (m : Network) (ops : List Op) (x y : RuntimeId) : Prop :=
  ∃ pre i mid post m₁ v entries,
    ops = pre ++ .deliver i :: (mid ++ .deliver m₁.sent.length :: post) ∧
      run verify m pre = some m₁ ∧ m₁.sent[i]? = some ⟨x, y, .digest v entries⟩

theorem Later.frame (h : Later ops m m') {i : ℕ} {f : Frame} (hf : m.sent[i]? = some f) :
    m'.sent[i]? = some f := by
  obtain ⟨frames, hframes⟩ := h.sent
  obtain ⟨hi, -⟩ := List.getElem?_eq_some_iff.mp hf
  rw [← hframes, List.getElem?_append_left hi, hf]

/-- A digest is answered by what its receiver holds beyond it. -/
theorem Inv.asks (h : m.Inv verify boots ops) {i : ℕ} {v : UInt8}
    {entries : List GossipDigestEntry} (hstep : Network.step verify m (.deliver i) = some m')
    (hf : m.sent[i]? = some ⟨x, y, .digest v entries⟩) :
    ∃ rs, m'.sent[m.sent.length]? = some ⟨y, x, .delta gossipPayloadVersion rs⟩ ∧
      m.levels y ≤ m.levels x ⊔ offer GossipRecord.runtimeId GossipRecord.version rs := by
  obtain ⟨f, hf', -, rfl⟩ := step_deliver_inv hstep
  obtain rfl := Option.some.inj (hf'.symm.trans hf)
  have hreports := h.reports _ (List.mem_of_getElem? hf)
  obtain ⟨rs, hrs, hdelta⟩ := (h.good y).isDelta_deltaFor entries
  refine ⟨rs, ?_, ?_⟩
  · rw [receive_digest rfl hreports, ← hrs]
    exact List.getElem?_concat_length ..
  · exact (hdelta.level_le (h.good y).keyed).trans (sup_le_sup_right (reported_le hreports.2) _)

theorem Inv.tells (h : m.Inv verify boots ops) {i : ℕ} {f : Frame} {v : UInt8}
    {rs : List GossipRecord} (hstep : Network.step verify m (.deliver i) = some m')
    (hf : m.sent[i]? = some f) (hmessage : f.message = .delta v rs) :
    m' = m.set f.dst ((m.nodes f.dst).applyDelta rs) [] ∧ m'.levels f.dst =
      m.levels f.dst ⊔ offer GossipRecord.runtimeId GossipRecord.version rs := by
  obtain ⟨g, hg, -, rfl⟩ := step_deliver_inv hstep
  obtain rfl := Option.some.inj (hg.symm.trans hf)
  have hmem := List.mem_of_getElem? hf
  rw [receive_delta hmessage (h.reports _ hmem)]
  refine ⟨rfl, ?_⟩
  rw [levels_set_self]
  exact (h.learns_delta hmem hmessage).levels_eq

/-- A node that has fetched holds at least what the other held. -/
theorem Inv.fetched (h : m.Inv verify boots ops) (hrun : Network.run verify m ops' = some m')
    (hfetched : Fetched verify m ops' x y) : m.levels y ≤ m'.levels x := by
  obtain ⟨pre, i, mid, post, m₁, v, entries, rfl, hpre, hdigest⟩ := hfetched
  obtain ⟨m₁', hpre', hrun₁⟩ := run_append hrun
  cases hpre.symm.trans hpre'
  obtain ⟨m₂, hask, hrun₂⟩ := run_cons hrun₁
  obtain ⟨m₃, hmid, hrun₃⟩ := run_append hrun₂
  obtain ⟨m₄, htell, hpost⟩ := run_cons hrun₃
  obtain ⟨hinv₁, hlater₁⟩ := h.run hpre
  have hinv₂ := hinv₁.step_inv hask
  obtain ⟨hinv₃, hlater₃⟩ := hinv₂.run hmid
  have hinv₄ := hinv₃.step_inv htell
  obtain ⟨rs, hanswer, hle⟩ := hinv₁.asks hask hdigest
  obtain ⟨-, hlevels⟩ := hinv₃.tells htell (hlater₃.frame hanswer) rfl
  obtain ⟨z, n', frames, rfl, hturn⟩ := hinv₁.step hask
  calc m.levels y ≤ m₁.levels y := hlater₁.levels y
    _ ≤ m₁.levels x ⊔ offer GossipRecord.runtimeId GossipRecord.version rs := hle
    _ ≤ m₃.levels x ⊔ offer GossipRecord.runtimeId GossipRecord.version rs :=
      sup_le_sup_right ((hturn.levels_le x).trans (hlater₃.levels x)) _
    _ = m₄.levels x := hlevels.symm
    _ ≤ m'.levels x := (hinv₄.run hpost).2.levels x

/-- A run in which `x` and `y` come to know of something from each other only. -/
def Undisturbed (verify : VerifySchnorr) (m : Network) (ops : List Op) (x y : RuntimeId) : Prop :=
  ∀ pre op m₁, pre ++ [op] <+: ops → run verify m pre = some m₁ → ¬op.Disturbs m₁ x y

theorem levels_set_le {L : Levels} (hz : k = x → n'.levels ≤ L) (hk : m.levels k ≤ L) :
    (m.set x n' frames).levels k ≤ L := by
  by_cases h : k = x
  · rw [h, levels_set_self]
    exact hz h
  · rwa [levels_set_of_ne h]

/-- An undisturbed step keeps a bound on what the two hold. -/
theorem Inv.step_levels_le (h : m.Inv verify boots ops) {L : Levels}
    (hstep : Network.step verify m op = some m') (hquiet : ¬op.Disturbs m x y)
    (hL : ∀ z, z = x ∨ z = y → m.levels z ≤ L) : ∀ z, z = x ∨ z = y → m'.levels z ≤ L := by
  intro k hk
  cases op with
  | change z change now =>
    cases hstep
    exact levels_set_le (fun heq ↦ absurd (heq ▸ hk) hquiet) (hL k hk)
  | tick z now =>
    cases hstep
    exact levels_set_le (fun heq ↦ absurd (heq ▸ hk) hquiet) (hL k hk)
  | rescan z ready =>
    cases hstep
    exact levels_set_le (fun heq ↦ absurd (heq ▸ hk) hquiet) (hL k hk)
  | dial z w =>
    rw [Network.step] at hstep
    split at hstep
    case isFalse => cases hstep
    case isTrue =>
      cases hstep
      exact levels_set_le (fun heq ↦ heq ▸ hL k hk) (hL k hk)
  | accept z w rescan =>
    rw [Network.step] at hstep
    obtain ⟨⟨known, n'⟩, hknown, hrest⟩ := Option.bind_eq_some_iff.mp hstep
    cases hrest
    refine levels_set_le (fun heq ↦ ?_) (hL k hk)
    obtain ⟨-, rfl | ⟨ready, rfl, rfl⟩⟩ := isKnownPeer_cases hknown
    · rw [← heq]
      split
      · exact hL k hk
      · exact hL k hk
    · exact absurd ⟨rfl, heq ▸ hk⟩ hquiet
  | deliver i =>
    obtain ⟨f, hf, -, hm'⟩ := step_deliver_inv hstep
    have hmem := List.mem_of_getElem? hf
    cases hmessage : f.message with
    | digest v entries =>
      rw [hm', receive_digest hmessage (h.reports f hmem)]
      exact levels_set_le (fun heq ↦ heq ▸ hL k hk) (hL k hk)
    | delta v rs =>
      obtain ⟨rfl, hlevels⟩ := h.tells hstep hf hmessage
      by_cases heq : k = f.dst
      · rw [heq, hlevels]
        refine sup_le (heq ▸ hL k hk) ?_
        have hsrc : f.src = x ∨ f.src = y := by
          by_contra hno
          exact hquiet ⟨f, hf, heq ▸ hk, hno⟩
        exact offer_le_iff.mpr fun r hr ↦ (h.delta_bounded hmem hmessage hr).trans (hL _ hsrc _)
      · rw [levels_set_of_ne heq]
        exact hL k hk

/-- An undisturbed run keeps a bound on what the two hold. -/
theorem Inv.run_levels_le (h : m.Inv verify boots ops) {L : Levels}
    (hrun : Network.run verify m ops' = some m') (hquiet : Undisturbed verify m ops' x y)
    (hL : ∀ z, z = x ∨ z = y → m.levels z ≤ L) : ∀ z, z = x ∨ z = y → m'.levels z ≤ L := by
  induction ops' generalizing m ops with
  | nil =>
    cases hrun
    exact hL
  | cons op ops' ih =>
    obtain ⟨m₁, hstep, hrest⟩ := run_cons hrun
    refine ih (h.step_inv hstep) hrest ?_ (h.step_levels_le hstep ?_ hL)
    · intro pre op' m₂ hpre hm₂
      refine hquiet (op :: pre) op' m₂ ((List.prefix_cons_inj op).mpr hpre) ?_
      exact Option.bind_eq_some_iff.mpr ⟨m₁, hstep, hm₂⟩
    · exact hquiet [] op m ((List.prefix_cons_inj op).mpr List.nil_prefix) rfl

/-- Once each has fetched from the other, both hold the greatest version of every record. -/
theorem Inv.exchanged (h : m.Inv verify boots ops) (hrun : Network.run verify m ops' = some m')
    (hx : Fetched verify m ops' x y) (hy : Fetched verify m ops' y x) :
    m.levels x ⊔ m.levels y ≤ m'.levels x ∧ m.levels x ⊔ m.levels y ≤ m'.levels y ∧
      (Undisturbed verify m ops' x y → m'.levels x = m.levels x ⊔ m.levels y ∧
        m'.levels y = m.levels x ⊔ m.levels y) := by
  have hlater := (h.run hrun).2.levels
  have hlex : m.levels x ⊔ m.levels y ≤ m'.levels x := sup_le (hlater x) (h.fetched hrun hx)
  have hley : m.levels x ⊔ m.levels y ≤ m'.levels y := sup_le (h.fetched hrun hy) (hlater y)
  refine ⟨hlex, hley, fun hquiet ↦ ?_⟩
  have hbound : ∀ z, z = x ∨ z = y → m'.levels z ≤ m.levels x ⊔ m.levels y := by
    refine h.run_levels_le hrun hquiet ?_
    rintro z (rfl | rfl)
    · exact le_sup_left
    · exact le_sup_right
  exact ⟨le_antisymm (hbound x (.inl rfl)) hlex, le_antisymm (hbound y (.inr rfl)) hley⟩

end Network

open Network in
/-- In every run of the mesh the two tables of a node agree and answer alike, and whoever stands in
them was attested. Thereafter versions only grow, a local record changes by its own node's changes
only, and nodes that have fetched from each other hold the greatest version of every record. -/
theorem mesh_gossip_converges (verify : VerifySchnorr) (boots : RuntimeId → Boot)
    {before : List Op} {m : Network} (h : run verify (.boot boots) before = some m) :
    (∀ x, (m.nodes x).gossip.get = (m.nodes x).membership.get ∧
      (m.nodes x).gossip.digest = (m.nodes x).membership.digest ∧
      ∀ entries, (m.nodes x).gossip.deltaFor entries = (m.nodes x).membership.deltaFor entries) ∧
    (∀ x k, (m.nodes x).membership.hasPeer k = true → Attested verify boots before k) ∧
    ∀ after m', run verify m after = some m' →
      (∀ x, m.levels x ≤ m'.levels x) ∧
      (∀ x, (m'.nodes x).membership.localRecord =
          after.foldl (fun record op ↦ op.ownAt x record) (m.nodes x).membership.localRecord ∧
        (m'.nodes x).gossip.get x = some (m'.nodes x).membership.localRecord) ∧
      ∀ x y, Fetched verify m after x y → Fetched verify m after y x →
        m.levels x ⊔ m.levels y ≤ m'.levels x ∧ m.levels x ⊔ m.levels y ≤ m'.levels y ∧
          (Undisturbed verify m after x y → m'.levels x = m.levels x ⊔ m.levels y ∧
            m'.levels y = m.levels x ⊔ m.levels y) := by
  have hinv : m.Inv verify boots before := ((Inv.boot verify boots).run h).1
  refine ⟨fun x ↦ ?_, hinv.attested, fun after m' hrun ↦ ?_⟩
  · exact ⟨(hinv.good x).agree, (hinv.good x).digest_eq, (hinv.good x).deltaFor_eq⟩
  · obtain ⟨hinv', hlater⟩ := hinv.run hrun
    refine ⟨hlater.levels, fun x ↦ ⟨hlater.own x, ?_⟩, fun x y hx hy ↦ hinv.exchanged hrun hx hy⟩
    rw [(hinv'.good x).agree]
    exact (hinv'.good x).table_self

section Pair

def pairRelay : String := "f9308a019258c31049344f85f89d5229b531c845836f99b08601f113bce036f9"

/-- The signatures of the relay's key over the attestations of runtimes 1 and 2. -/
def pairSig (runtimeId : RuntimeId) : String :=
  if runtimeId = 1 then
    "f3f27011c7c208744c963ad8663fbd45bcec4c6325c34ec617a588d54ecbeb38" ++
      "1501d1126ba952731a38ae19a9384185302ce14c90542577cae7e0d0311ecc41"
  else
    "87eb2f5cc540b688d0c98dd6b28680cf7699a5ae135ac7d70c6c0f2d003f80e7" ++
      "cf6093a63a4907c876270fa22b73a0370d3edc4ab80ecc5c725b6d7aca6fd2c4"

def pairVerify : VerifySchnorr := fun runtimeId relayPubkey relaySig ↦
  if (runtimeId = 1 ∨ runtimeId = 2) ∧ relayPubkey = pairRelay ∧ relaySig = pairSig runtimeId then
    .ok ()
  else .error "ready registry attestation signature verification failed"

/-- Two runtimes of one deployment. -/
def pairBoots (runtimeId : RuntimeId) : Boot :=
  ⟨[s!"127.0.0.{runtimeId.val}:3478"], 1, [], 0, some pairRelay⟩

def pairReady (runtimeId : RuntimeId) : ReadyRecord :=
  ⟨runtimeId, hexEncode runtimeId, pairRelay, pairSig runtimeId, [], 1, []⟩

def pairBefore : List Op :=
  [.rescan 1 [(pairReady 2, 0)], .dial 1 2, .accept 2 1 (some [(pairReady 1, 0)]), .tick 1 5,
    .tick 2 5]

def pairAfter : List Op := [.deliver 0, .deliver 1, .deliver 2, .deliver 3]

theorem mesh_gossip_converges_pair :
    ∃ m m', Network.run pairVerify (.boot pairBoots) pairBefore = some m ∧
      Network.run pairVerify m pairAfter = some m' ∧
      m.levels 1 ⊔ m.levels 2 ≤ m'.levels 1 ∧ m.levels 1 ⊔ m.levels 2 ≤ m'.levels 2 := by
  let start := Network.run pairVerify (.boot pairBoots) pairBefore
  obtain ⟨m, hm⟩ : ∃ m, start = some m := Option.isSome_iff_exists.mp (by decide +kernel)
  obtain ⟨m', hm'⟩ : ∃ m', Network.run pairVerify m pairAfter = some m' := by
    have hsome : (start.bind fun m ↦ Network.run pairVerify m pairAfter).isSome = true := by
      decide +kernel
    rw [hm] at hsome
    exact Option.isSome_iff_exists.mp hsome
  obtain ⟨m₁, hm₁⟩ : ∃ m₁, Network.run pairVerify m [.deliver 0] = some m₁ := by
    have hsome : (start.bind fun m ↦ Network.run pairVerify m [.deliver 0]).isSome = true := by
      decide +kernel
    rw [hm] at hsome
    exact Option.isSome_iff_exists.mp hsome
  have hsent : start.map (fun m ↦ (m.sent.length, m.sent[0]?)) =
      some (2, some ⟨1, 2, .digest 1 [⟨1, 2⟩, ⟨2, 1⟩]⟩) := by
    decide +kernel
  have hsent₁ : (start.bind fun m ↦ Network.run pairVerify m [.deliver 0]).map
      (fun m ↦ (m.sent.length, m.sent[1]?)) =
        some (3, some ⟨2, 1, .digest 1 [⟨1, 1⟩, ⟨2, 2⟩]⟩) := by
    decide +kernel
  rw [hm, Option.map_some, Option.some.injEq, Prod.mk.injEq] at hsent
  rw [hm, Option.bind_some, hm₁, Option.map_some, Option.some.injEq, Prod.mk.injEq] at hsent₁
  have hfirst : Network.Fetched pairVerify m pairAfter 1 2 :=
    ⟨[], 0, [.deliver 1], [.deliver 3], m, _, _, by rw [hsent.1]; rfl, rfl, hsent.2⟩
  have hsecond : Network.Fetched pairVerify m pairAfter 2 1 :=
    ⟨[.deliver 0], 1, [.deliver 2], [], m₁, _, _, by rw [hsent₁.1]; rfl, hm₁, hsent₁.2⟩
  obtain ⟨-, -, hafter⟩ := mesh_gossip_converges pairVerify pairBoots hm
  obtain ⟨-, -, hexchanged⟩ := hafter pairAfter m' hm'
  obtain ⟨hx, hy, -⟩ := hexchanged 1 2 hfirst hsecond
  exact ⟨m, m', hm, hm', hx, hy⟩

end Pair

end Buzz.Mesh
