import Buzz.Gateway.HandlersSpec
import Buzz.Lib.Runs
import Mathlib.Data.List.Chain

namespace Buzz.Gateway

open Buzz.Lib Buzz.Nostr

namespace Server

def counters (g : Server) (id : Uuid) : List UInt32 := g.log.filterMap (Accepted.counterOf id)

def epochs (g : Server) (id : Uuid) : List ℤ := g.log.filterMap (Accepted.epochOf id)

def generations (g : Server) (id : Uuid) (relay : List UInt8) : List ℤ :=
  g.log.filterMap (Accepted.generationOf id relay)

def used (g : Server) : List Uuid := g.log.filterMap Accepted.challenge

structure MovesForward (g : Server) : Prop where
  challenges : g.used.Nodup
  counters : ∀ id, (g.counters id).Pairwise (· > ·)
  epochs : ∀ id, (g.epochs id).IsChain fun a b ↦ a = b + 1
  generations : ∀ id ∈ g.tables.installations, ∀ relay, (g.generations id relay).Pairwise (· > ·)

structure Drawn (g : Server) : Prop where
  challenges : ∀ c ∈ g.tables.challenges, c ∈ g.drawn
  installations : ∀ id ∈ g.tables.installations, id ∈ g.drawn
  delegations : ∀ key ∈ g.tables.delegations, key.1 ∈ g.drawn
  log : ∀ a ∈ g.log, a.installation ∈ g.drawn

/-- A challenge is stored, or with one handler, or spent. -/
structure ChallengesApart (g : Server) : Prop where
  held : ∀ t c, g.held t = some c → c ∈ g.drawn ∧ c ∉ g.tables.challenges ∧ c ∉ g.used
  heldOnce : ∀ t t' c, g.held t = some c → g.held t' = some c → t = t'
  spent : ∀ c ∈ g.used, c ∈ g.drawn ∧ c ∉ g.tables.challenges
  spentOnce : g.used.Nodup

structure CountersRise (g : Server) : Prop where
  rise : ∀ id, (g.counters id).Pairwise (· > ·)
  bound : ∀ id row, g.tables.installations.lookup id = some row →
    ∀ c ∈ g.counters id, (c.toNat : ℤ) ≤ row.assertionCounter

structure EpochsStep (g : Server) : Prop where
  chain : ∀ id, (g.epochs id).IsChain fun a b ↦ a = b + 1
  head : ∀ id row, g.tables.installations.lookup id = some row →
    (g.epochs id).head? = some row.endpointEpoch

structure GenerationsRise (g : Server) : Prop where
  rise : ∀ id ∈ g.tables.installations, ∀ relay, (g.generations id relay).Pairwise (· > ·)
  stored : ∀ id ∈ g.tables.installations, ∀ relay, ∀ n ∈ g.generations id relay,
    ∃ row, g.tables.delegations.lookup (id, relay) = some row ∧ n ≤ row.generation

def Heeds (g : Server) : GatewayOp → Prop
  | .reap now => ∀ key row i, g.tables.delegations.lookup key = some row →
      row.expiresAt < seconds now ∨ row.revokedAt.any (· < seconds now - day) = true →
        g.tables.installations.lookup key.1 = some i →
          Tables.reapableInstallation (seconds now) i = true
  | _ => True

variable {g g' : Server} {op : GatewayOp}

theorem mem_of_lookup {κ ν : Type} [DecidableEq κ] {m : Map κ ν} {k : κ} {v : ν}
    (h : m.lookup k = some v) : k ∈ m := AList.lookup_isSome.mp (by rw [h]; rfl)

theorem lookup_of_reap {s s' : Tables} {now : ℤ} (h : s.reapExpired now = .ok s') :
    (∀ c ∈ s'.challenges, c ∈ s.challenges) ∧
    (∀ id row, s'.installations.lookup id = some row → s.installations.lookup id = some row ∧
      Tables.reapableInstallation (seconds now) row = false) ∧
    ∀ key row, s'.delegations.lookup key = some row ↔ s.delegations.lookup key = some row ∧
      s.reapableDelegation (seconds now) key row = false := by
  simp only [Tables.reapExpired, bind_eq_ok, bindAt_eq_ok] at h
  obtain ⟨_, ⟨-, rfl⟩, hpure⟩ := h
  cases Except.ok.inj hpure
  refine ⟨fun c hc ↦ ?_, fun id row hrow ↦ ?_, fun key row ↦ ?_⟩
  · rw [← AList.lookup_isSome, Map.lookup_keepEntries] at hc
    obtain ⟨row, hrow⟩ := Option.isSome_iff_exists.mp hc
    exact mem_of_lookup (Option.filter_eq_some_iff.mp hrow).1
  · rw [Map.lookup_keepEntries, Option.filter_eq_some_iff, Bool.not_eq_true'] at hrow
    exact hrow
  · rw [Map.lookup_keepEntries, Option.filter_eq_some_iff, Bool.not_eq_true']

theorem Effect.mem_challenges (heffect : Effect g op g') {c : Uuid} (hc : c ∈ g'.tables.challenges) :
    c ∈ g.tables.challenges ∨ c ∉ g.drawn ∧ c ∈ g'.drawn := by
  cases heffect with
  | idle htables => exact .inl (htables ▸ hc)
  | put id row hfresh hdrawn htables =>
    rw [htables] at hc
    rcases (AList.mem_insert _).mp hc with rfl | hold
    · exact .inr ⟨hfresh, hdrawn⟩
    · exact .inl hold
  | consumed t id hmem htables =>
    rw [htables] at hc
    exact .inl (AList.mem_erase.mp hc).2
  | created t challenge id row hepoch hfresh hdrawn htables =>
    rw [htables] at hc
    exact .inl hc
  | advanced id next row hrow hlt htables =>
    rw [htables] at hc
    exact .inl hc
  | moved t a challenge id row row' hrow hepoch hcounter ha htables =>
    rw [htables] at hc
    exact .inl hc
  | generated t a challenge id relay row hold hid ha htables =>
    rw [htables] at hc
    exact .inl hc
  | reaped now hop hreap => exact .inl ((lookup_of_reap hreap).1 c hc)

theorem Effect.mem_installations (heffect : Effect g op g') {id : Uuid}
    (hid : id ∈ g'.tables.installations) :
    id ∈ g.tables.installations ∨ id ∉ g.drawn ∧ id ∈ g'.drawn := by
  cases heffect with
  | idle htables => exact .inl (htables ▸ hid)
  | put id row hfresh hdrawn htables =>
    rw [htables] at hid
    exact .inl hid
  | consumed t id hmem htables =>
    rw [htables] at hid
    exact .inl hid
  | created t challenge id row hepoch hfresh hdrawn htables =>
    rw [htables] at hid
    rcases (AList.mem_insert _).mp hid with rfl | hold
    · exact .inr ⟨hfresh, hdrawn⟩
    · exact .inl hold
  | advanced id next row hrow hlt htables =>
    rw [htables] at hid
    rcases (AList.mem_insert _).mp hid with rfl | hold
    · exact .inl (mem_of_lookup hrow)
    · exact .inl hold
  | moved t a challenge id row row' hrow hepoch hcounter ha htables =>
    rw [htables] at hid
    rcases (AList.mem_insert _).mp hid with rfl | hold
    · exact .inl (mem_of_lookup hrow)
    · exact .inl hold
  | generated t a challenge id relay row hold hid' ha htables =>
    rw [htables] at hid
    exact .inl hid
  | reaped now hop hreap =>
    obtain ⟨row, hrow⟩ := Option.isSome_iff_exists.mp (AList.lookup_isSome.mpr hid)
    exact .inl (mem_of_lookup ((lookup_of_reap hreap).2.1 id row hrow).1)

theorem Effect.mem_delegations (heffect : Effect g op g') {key : Uuid × List UInt8}
    (hkey : key ∈ g'.tables.delegations) :
    key ∈ g.tables.delegations ∨ key.1 ∈ g.tables.installations := by
  cases heffect with
  | idle htables => exact .inl (htables ▸ hkey)
  | put id row hfresh hdrawn htables =>
    rw [htables] at hkey
    exact .inl hkey
  | consumed t id hmem htables =>
    rw [htables] at hkey
    exact .inl hkey
  | created t challenge id row hepoch hfresh hdrawn htables =>
    rw [htables] at hkey
    exact .inl hkey
  | advanced id next row hrow hlt htables =>
    rw [htables] at hkey
    exact .inl hkey
  | moved t a challenge id row row' hrow hepoch hcounter ha htables =>
    rw [htables] at hkey
    exact .inl hkey
  | generated t a challenge id relay row hold hid ha htables =>
    rw [htables] at hkey
    rcases (AList.mem_insert _).mp hkey with rfl | hold
    · rcases hid with hinstalled | hdelegated
      · exact .inr hinstalled
      · exact .inl hdelegated
    · exact .inl hold
  | reaped now hop hreap =>
    obtain ⟨row, hrow⟩ := Option.isSome_iff_exists.mp (AList.lookup_isSome.mpr hkey)
    exact .inl (mem_of_lookup (((lookup_of_reap hreap).2.2 key row).mp hrow).1)

theorem Generated.installation {a : Accepted} {challenge id : Uuid} {relay : List UInt8} {n : ℤ}
    (h : Generated a challenge id relay n) :
    a.installation = id ∧ a.challenge = some challenge := by
  rcases h with rfl | rfl
  · exact ⟨rfl, rfl⟩
  · exact ⟨rfl, rfl⟩

theorem Moved.installation {a : Accepted} {challenge id : Uuid} {n : ℤ}
    (h : Moved a challenge id n) : a.installation = id ∧ a.challenge = some challenge := by
  rcases h with rfl | rfl
  · exact ⟨rfl, rfl⟩
  · exact ⟨rfl, rfl⟩

/-- What is logged concerns an installation that is known, or is new. -/
theorem Effect.mem_log (heffect : Effect g op g') {a : Accepted} (ha : a ∈ g'.log) : a ∈ g.log ∨
    a.installation ∈ g'.drawn ∧ a.installation ∉ g.drawn ∨ a.installation ∈ g.tables.installations ∨
    ∃ relay, (a.installation, relay) ∈ g.tables.delegations := by
  cases heffect with
  | idle _ hlog => exact .inl (hlog ▸ ha)
  | put id row hfresh hdrawn htables hlog => exact .inl (hlog ▸ ha)
  | consumed t id hmem htables hlog => exact .inl (hlog ▸ ha)
  | created t challenge id row hepoch hfresh hdrawn htables hlog =>
    rw [hlog] at ha
    rcases List.mem_cons.mp ha with rfl | hold
    · exact .inr (.inl ⟨hdrawn, hfresh⟩)
    · exact .inl hold
  | advanced id next row hrow hlt htables hlog =>
    rw [hlog] at ha
    rcases List.mem_cons.mp ha with rfl | hold
    · exact .inr (.inr (.inl (mem_of_lookup hrow)))
    · exact .inl hold
  | moved t a' challenge id row row' hrow hepoch hcounter hmoved htables hlog =>
    rw [hlog] at ha
    rcases List.mem_cons.mp ha with rfl | hold
    · rw [hmoved.installation.1]
      exact .inr (.inr (.inl (mem_of_lookup hrow)))
    · exact .inl hold
  | generated t a' challenge id relay row hold hid hgenerated htables hlog =>
    rw [hlog] at ha
    rcases List.mem_cons.mp ha with rfl | hold
    · rw [hgenerated.installation.1]
      rcases hid with hinstalled | hdelegated
      · exact .inr (.inr (.inl hinstalled))
      · exact .inr (.inr (.inr ⟨relay, hdelegated⟩))
    · exact .inl hold
  | reaped now hop hreap hlog => exact .inl (hlog ▸ ha)

theorem Drawn.effect (h : g.Drawn) (heffect : Effect g op g') (hdrawn : ∀ id ∈ g.drawn, id ∈ g'.drawn) :
    g'.Drawn where
  challenges c hc := by
    rcases heffect.mem_challenges hc with hold | hnew
    · exact hdrawn c (h.challenges c hold)
    · exact hnew.2
  installations id hid := by
    rcases heffect.mem_installations hid with hold | hnew
    · exact hdrawn id (h.installations id hold)
    · exact hnew.2
  delegations key hkey := by
    rcases heffect.mem_delegations hkey with hold | hinstalled
    · exact hdrawn key.1 (h.delegations key hold)
    · exact hdrawn key.1 (h.installations key.1 hinstalled)
  log a ha := by
    rcases heffect.mem_log ha with hold | hnew | hinstalled | ⟨relay, hdelegated⟩
    · exact hdrawn _ (h.log a hold)
    · exact hnew.1
    · exact hdrawn _ (h.installations _ hinstalled)
    · exact hdrawn _ (h.delegations _ hdelegated)

theorem Effect.stored (heffect : Effect g op g') {c : Uuid} (hknown : c ∈ g.drawn)
    (hout : c ∉ g.tables.challenges) : c ∉ g'.tables.challenges := by
  intro hc
  rcases heffect.mem_challenges hc with hold | hnew
  · exact hout hold
  · exact hnew.1 hknown

theorem ChallengesApart.of_same (h : g.ChallengesApart) (heffect : Effect g op g')
    (hdrawn : ∀ id ∈ g.drawn, id ∈ g'.drawn) (hspent : g'.used = g.used)
    (hheld : ∀ t c, g'.held t = some c → g.held t = some c) : g'.ChallengesApart where
  held t c hc := by
    obtain ⟨hknown, hout, hnot⟩ := h.held t c (hheld t c hc)
    exact ⟨hdrawn c hknown, heffect.stored hknown hout, hspent ▸ hnot⟩
  heldOnce t t' c hc hc' := h.heldOnce t t' c (hheld t c hc) (hheld t' c hc')
  spent c hc := by
    obtain ⟨hknown, hout⟩ := h.spent c (hspent ▸ hc)
    exact ⟨hdrawn c hknown, heffect.stored hknown hout⟩
  spentOnce := hspent ▸ h.spentOnce

/-- The handler `t` ends with the mutation that its challenge authorises. -/
theorem ChallengesApart.of_spend (h : g.ChallengesApart) (heffect : Effect g op g')
    (hdrawn : ∀ id ∈ g.drawn, id ∈ g'.drawn) {t : ℕ} {challenge : Uuid}
    (hspent : g'.used = challenge :: g.used) (hbefore : g.held t = some challenge)
    (hself : g'.held t = none) (hheld : ∀ t', t' ≠ t → g'.held t' = g.held t') :
    g'.ChallengesApart := by
  have hother {t' : ℕ} {c : Uuid} (hc : g'.held t' = some c) : t' ≠ t ∧ g.held t' = some c := by
    by_cases ht : t' = t
    · rw [ht, hself] at hc
      cases hc
    · exact ⟨ht, hheld t' ht ▸ hc⟩
  refine ⟨fun t' c hc ↦ ?_, fun t' t'' c hc hc' ↦ ?_, fun c hc ↦ ?_, ?_⟩
  · obtain ⟨hne, hc⟩ := hother hc
    obtain ⟨hknown, hout, hnot⟩ := h.held t' c hc
    refine ⟨hdrawn c hknown, heffect.stored hknown hout, ?_⟩
    rw [hspent, List.mem_cons]
    rintro (rfl | hmem)
    · exact hne (h.heldOnce t' t c hc hbefore)
    · exact hnot hmem
  · exact h.heldOnce t' t'' c (hother hc).2 (hother hc').2
  · rw [hspent, List.mem_cons] at hc
    rcases hc with rfl | hmem
    · obtain ⟨hknown, hout, -⟩ := h.held t c hbefore
      exact ⟨hdrawn c hknown, heffect.stored hknown hout⟩
    · obtain ⟨hknown, hout⟩ := h.spent c hmem
      exact ⟨hdrawn c hknown, heffect.stored hknown hout⟩
  · rw [hspent, List.nodup_cons]
    exact ⟨(h.held t challenge hbefore).2.2, h.spentOnce⟩

/-- A handler's challenge is spent by the mutation it ends with, and by no other step. -/
theorem ChallengesApart.effect (h : g.ChallengesApart) (hg : g.Drawn) (heffect : Effect g op g')
    (hdrawn : ∀ id ∈ g.drawn, id ∈ g'.drawn) : g'.ChallengesApart := by
  have hsame (hlog : g'.log = g.log) : g'.used = g.used := by rw [used, hlog, used]
  have hadd {a : Accepted} {challenge : Uuid} (hlog : g'.log = a :: g.log)
      (ha : a.challenge = some challenge) : g'.used = challenge :: g.used := by
    rw [used, hlog, List.filterMap_cons_some ha, used]
  have hstep := heffect
  cases heffect with
  | idle htables hlog hheld => exact h.of_same hstep hdrawn (hsame hlog) hheld
  | put id row hfresh hnew htables hlog hheld =>
    exact h.of_same hstep hdrawn (hsame hlog) fun t c hc ↦ hheld t ▸ hc
  | advanced id next row hrow hlt htables hlog hheld =>
    refine h.of_same hstep hdrawn ?_ fun t c hc ↦ hheld t ▸ hc
    rw [used, hlog, List.filterMap_cons_none rfl, used]
  | reaped now hop hreap hlog hheld =>
    exact h.of_same hstep hdrawn (hsame hlog) fun t c hc ↦ hheld t ▸ hc
  | created t challenge id row hepoch hfresh hnew htables hlog hbefore hself hheld =>
    exact h.of_spend hstep hdrawn (hadd hlog rfl) hbefore hself hheld
  | moved t a challenge id row row' hrow hepoch hcounter ha htables hlog hbefore hself hheld =>
    exact h.of_spend hstep hdrawn (hadd hlog ha.installation.2) hbefore hself hheld
  | generated t a challenge id relay row hold hid ha htables hlog hbefore hself hheld =>
    exact h.of_spend hstep hdrawn (hadd hlog ha.installation.2) hbefore hself hheld
  | consumed t id hmem htables hlog hself hheld =>
    have hchallenges : g'.tables.challenges = g.tables.challenges.erase id := by rw [htables]
    have hgone : id ∉ g'.tables.challenges := by
      rw [hchallenges]
      exact fun hin ↦ (AList.mem_erase.mp hin).1 rfl
    have hfree (t' : ℕ) : g.held t' ≠ some id := fun hc ↦ (h.held t' id hc).2.1 hmem
    have hunspent : id ∉ g.used := fun hc ↦ (h.spent id hc).2 hmem
    refine ⟨fun t' c hc ↦ ?_, fun t' t'' c hc hc' ↦ ?_, fun c hc ↦ ?_, ?_⟩
    · rw [hsame hlog]
      by_cases ht : t' = t
      · rw [ht, hself] at hc
        cases hc
        exact ⟨hdrawn _ (hg.challenges _ hmem), hgone, hunspent⟩
      · rw [hheld t' ht] at hc
        obtain ⟨hknown, hout, hnot⟩ := h.held t' c hc
        exact ⟨hdrawn c hknown, hstep.stored hknown hout, hnot⟩
    · by_cases ht : t' = t
      · by_cases ht' : t'' = t
        · rw [ht, ht']
        · rw [ht, hself] at hc
          rw [hheld t'' ht'] at hc'
          cases hc
          exact (hfree t'' hc').elim
      · rw [hheld t' ht] at hc
        by_cases ht' : t'' = t
        · rw [ht', hself] at hc'
          cases hc'
          exact (hfree t' hc).elim
        · rw [hheld t'' ht'] at hc'
          exact h.heldOnce t' t'' c hc hc'
    · rw [hsame hlog] at hc
      obtain ⟨hknown, hout⟩ := h.spent c hc
      exact ⟨hdrawn c hknown, hstep.stored hknown hout⟩
    · rw [hsame hlog]
      exact h.spentOnce

def Concerns {α : Type} (f : Accepted → Option α) (id : Uuid) : Prop :=
  ∀ a, a.installation ≠ id → f a = none

theorem concerns_counterOf (id : Uuid) : Concerns (Accepted.counterOf id) id := by
  intro a ha
  cases a with
  | counter id' next => exact if_neg ha
  | _ => rfl

theorem concerns_epochOf (id : Uuid) : Concerns (Accepted.epochOf id) id := by
  intro a ha
  cases a with
  | created challenge id' => exact if_neg ha
  | rotated challenge id' epoch => exact if_neg ha
  | installationRevoked challenge id' epoch => exact if_neg ha
  | _ => rfl

theorem concerns_generationOf (id : Uuid) (relay : List UInt8) :
    Concerns (Accepted.generationOf id relay) id := by
  intro a ha
  cases a with
  | delegated challenge id' relay' generation => exact if_neg fun h ↦ ha h.1
  | delegationRevoked challenge id' relay' generation => exact if_neg fun h ↦ ha h.1
  | _ => rfl

theorem Drawn.filterMap_eq_nil (hg : g.Drawn) {α : Type} {f : Accepted → Option α} {id : Uuid}
    (hf : Concerns f id) (hfresh : id ∉ g.drawn) : g.log.filterMap f = [] := by
  rw [List.filterMap_eq_nil_iff]
  intro a ha
  exact hf a fun heq ↦ hfresh (heq ▸ hg.log a ha)

theorem filterMap_of_log {α : Type} {f : Accepted → Option α} {a : Accepted}
    (hlog : g'.log = a :: g.log) (ha : f a = none) : g'.log.filterMap f = g.log.filterMap f := by
  rw [hlog, List.filterMap_cons_none ha]

theorem CountersRise.of_same (h : g.CountersRise) (hlog : ∀ id, g'.counters id = g.counters id)
    (hrows : ∀ id row, g'.tables.installations.lookup id = some row →
      ∃ old, g.tables.installations.lookup id = some old ∧
        row.assertionCounter = old.assertionCounter) : g'.CountersRise := by
  refine ⟨fun id ↦ hlog id ▸ h.rise id, fun id row hrow c hc ↦ ?_⟩
  obtain ⟨old, hold, hcounter⟩ := hrows id row hrow
  rw [hcounter]
  exact h.bound id old hold c (hlog id ▸ hc)

theorem CountersRise.effect (h : g.CountersRise) (hg : g.Drawn) (heffect : Effect g op g') :
    g'.CountersRise := by
  cases heffect with
  | idle htables hlog =>
    refine h.of_same (fun id ↦ ?_) fun id row hrow ↦ ⟨row, htables ▸ hrow, rfl⟩
    rw [counters, hlog, counters]
  | put id row hfresh hnew htables hlog =>
    refine h.of_same (fun id ↦ ?_) fun id row hrow ↦ ⟨row, ?_, rfl⟩
    · rw [counters, hlog, counters]
    · rwa [htables] at hrow
  | consumed t id hmem htables hlog =>
    refine h.of_same (fun id ↦ ?_) fun id row hrow ↦ ⟨row, ?_, rfl⟩
    · rw [counters, hlog, counters]
    · rwa [htables] at hrow
  | created t challenge id row hepoch hfresh hnew htables hlog =>
    have hcounters (id' : Uuid) : g'.counters id' = g.counters id' := filterMap_of_log hlog rfl
    refine ⟨fun id' ↦ hcounters id' ▸ h.rise id', fun id' row' hrow' c hc ↦ ?_⟩
    rw [hcounters] at hc
    rw [htables, Map.lookup_insert_eq] at hrow'
    split at hrow'
    · next heq =>
      rw [heq, counters, hg.filterMap_eq_nil (concerns_counterOf id) hfresh] at hc
      exact (List.not_mem_nil hc).elim
    · exact h.bound id' row' hrow' c hc
  | advanced id next row hrow hlt htables hlog =>
    have hcounters (id' : Uuid) :
        g'.counters id' = if id' = id then next :: g.counters id' else g.counters id' := by
      rw [counters, hlog, List.filterMap_cons]
      by_cases hid : id' = id
      · rw [Accepted.counterOf, if_pos hid.symm, if_pos hid]
        rfl
      · rw [Accepted.counterOf, if_neg fun h ↦ hid h.symm, if_neg hid]
        rfl
    have hbelow : ∀ c ∈ g.counters id, c < next := by
      intro c hc
      have hle := h.bound id row hrow c hc
      rw [UInt32.lt_iff_toNat_lt]
      omega
    refine ⟨fun id' ↦ ?_, fun id' row' hrow' c hc ↦ ?_⟩
    · rw [hcounters]
      split
      · next heq =>
        rw [heq]
        exact List.pairwise_cons.mpr ⟨hbelow, h.rise id⟩
      · exact h.rise id'
    · rw [hcounters] at hc
      rw [htables, Map.lookup_insert_eq] at hrow'
      by_cases hid : id' = id
      · rw [if_pos hid] at hrow' hc
        cases hrow'
        rcases List.mem_cons.mp hc with rfl | hc
        · exact le_rfl
        · rw [hid] at hc
          have hlt := UInt32.lt_iff_toNat_lt.mp (hbelow c hc)
          have hle : (c.toNat : ℤ) ≤ next.toNat := by exact_mod_cast hlt.le
          exact hle
      · rw [if_neg hid] at hrow' hc
        exact h.bound id' row' hrow' c hc
  | moved t a challenge id row row' hrow hepoch hcounter ha htables hlog =>
    refine h.of_same (fun id' ↦ filterMap_of_log hlog ?_) fun id' old hold ↦ ?_
    · rcases ha with rfl | rfl
      · rfl
      · rfl
    · rw [htables, Map.lookup_insert_eq] at hold
      split at hold
      · next heq =>
        cases hold
        exact ⟨row, heq ▸ hrow, hcounter⟩
      · exact ⟨old, hold, rfl⟩
  | generated t a challenge id relay row hold hid ha htables hlog =>
    refine h.of_same (fun id' ↦ filterMap_of_log hlog ?_) fun id' row' hrow' ↦ ⟨row', ?_, rfl⟩
    · rcases ha with rfl | rfl
      · rfl
      · rfl
    · rwa [htables] at hrow'
  | reaped now hop hreap hlog =>
    refine h.of_same (fun id ↦ ?_) fun id row hrow ↦
      ⟨row, ((lookup_of_reap hreap).2.1 id row hrow).1, rfl⟩
    rw [counters, hlog, counters]

theorem EpochsStep.of_same (h : g.EpochsStep) (hlog : ∀ id, g'.epochs id = g.epochs id)
    (hrows : ∀ id row, g'.tables.installations.lookup id = some row →
      ∃ old, g.tables.installations.lookup id = some old ∧
        row.endpointEpoch = old.endpointEpoch) : g'.EpochsStep := by
  refine ⟨fun id ↦ hlog id ▸ h.chain id, fun id row hrow ↦ ?_⟩
  obtain ⟨old, hold, hepoch⟩ := hrows id row hrow
  rw [hlog, hepoch]
  exact h.head id old hold

/-- The installation `id` gets the epoch that follows its last one. -/
theorem EpochsStep.of_next (h : g.EpochsStep) {id : Uuid} {row : InstallationRow} {epoch : ℤ}
    (hlog : ∀ id', g'.epochs id' = if id' = id then epoch :: g.epochs id' else g.epochs id')
    (htables : g'.tables.installations = AList.insert id row g.tables.installations)
    (hrow : row.endpointEpoch = epoch) (hnext : ∀ b ∈ (g.epochs id).head?, epoch = b + 1) :
    g'.EpochsStep := by
  refine ⟨fun id' ↦ ?_, fun id' row' hrow' ↦ ?_⟩
  · rw [hlog]
    split
    · next heq =>
      rw [heq]
      exact List.isChain_cons.mpr ⟨hnext, h.chain id⟩
    · exact h.chain id'
  · rw [htables, Map.lookup_insert_eq] at hrow'
    rw [hlog]
    by_cases hid : id' = id
    · rw [if_pos hid] at hrow' ⊢
      cases hrow'
      rw [List.head?_cons, hrow]
    · rw [if_neg hid] at hrow' ⊢
      exact h.head id' row' hrow'

theorem EpochsStep.effect (h : g.EpochsStep) (hg : g.Drawn) (heffect : Effect g op g') :
    g'.EpochsStep := by
  cases heffect with
  | idle htables hlog =>
    refine h.of_same (fun id ↦ ?_) fun id row hrow ↦ ⟨row, htables ▸ hrow, rfl⟩
    rw [epochs, hlog, epochs]
  | put id row hfresh hnew htables hlog =>
    refine h.of_same (fun id ↦ ?_) fun id row hrow ↦ ⟨row, ?_, rfl⟩
    · rw [epochs, hlog, epochs]
    · rwa [htables] at hrow
  | consumed t id hmem htables hlog =>
    refine h.of_same (fun id ↦ ?_) fun id row hrow ↦ ⟨row, ?_, rfl⟩
    · rw [epochs, hlog, epochs]
    · rwa [htables] at hrow
  | created t challenge id row hepoch hfresh hnew htables hlog =>
    refine h.of_next (fun id' ↦ ?_) (by rw [htables]) hepoch ?_
    · rw [epochs, hlog, List.filterMap_cons]
      by_cases hid : id' = id
      · rw [Accepted.epochOf, if_pos hid.symm, if_pos hid]
        rfl
      · rw [Accepted.epochOf, if_neg fun h ↦ hid h.symm, if_neg hid]
        rfl
    · rw [epochs, hg.filterMap_eq_nil (concerns_epochOf id) hfresh]
      exact fun _ hb ↦ nomatch hb
  | advanced id next row hrow hlt htables hlog =>
    refine h.of_same (fun id' ↦ filterMap_of_log hlog rfl) fun id' row' hrow' ↦ ?_
    rw [htables, Map.lookup_insert_eq] at hrow'
    split at hrow'
    · next heq =>
      cases hrow'
      exact ⟨row, heq ▸ hrow, rfl⟩
    · exact ⟨row', hrow', rfl⟩
  | moved t a challenge id row row' hrow hepoch hcounter ha htables hlog =>
    refine h.of_next (fun id' ↦ ?_)
      (by rw [htables]) rfl ?_
    · have ha' : a.epochOf id' = if id = id' then some row'.endpointEpoch else none := by
        rcases ha with rfl | rfl
        · rfl
        · rfl
      rw [epochs, hlog, List.filterMap_cons, ha']
      by_cases hid : id' = id
      · rw [if_pos hid.symm, if_pos hid]
        rfl
      · rw [if_neg fun h ↦ hid h.symm, if_neg hid]
        rfl
    · intro b hb
      rw [h.head id row hrow] at hb
      rw [hepoch, ← Option.some.inj hb]
  | generated t a challenge id relay row hold hid ha htables hlog =>
    refine h.of_same (fun id' ↦ filterMap_of_log hlog ?_) fun id' row' hrow' ↦ ⟨row', ?_, rfl⟩
    · rcases ha with rfl | rfl
      · rfl
      · rfl
    · rwa [htables] at hrow'
  | reaped now hop hreap hlog =>
    refine h.of_same (fun id ↦ ?_) fun id row hrow ↦
      ⟨row, ((lookup_of_reap hreap).2.1 id row hrow).1, rfl⟩
    rw [epochs, hlog, epochs]

theorem GenerationsRise.of_same (h : g.GenerationsRise)
    (hlog : ∀ id relay, g'.generations id relay = g.generations id relay)
    (hinstalled : ∀ id ∈ g'.tables.installations, id ∈ g.tables.installations)
    (hrows : ∀ id ∈ g'.tables.installations, ∀ relay row,
      g.tables.delegations.lookup (id, relay) = some row →
        g'.tables.delegations.lookup (id, relay) = some row) : g'.GenerationsRise := by
  refine ⟨fun id hid relay ↦ hlog id relay ▸ h.rise id (hinstalled id hid) relay,
    fun id hid relay n hn ↦ ?_⟩
  obtain ⟨row, hrow, hle⟩ := h.stored id (hinstalled id hid) relay n (hlog id relay ▸ hn)
  exact ⟨row, hrows id hid relay row hrow, hle⟩

/-- The reaper spares the tombstones of the installations it leaves. -/
theorem kept_of_reap {now : ℤ} (hheeds : g.Heeds (.reap now)) {s' : Tables}
    (hreap : g.tables.reapExpired now = .ok s') {id : Uuid} (hid : id ∈ s'.installations)
    {relay : List UInt8} {row : DelegationRow}
    (hrow : g.tables.delegations.lookup (id, relay) = some row) :
    s'.delegations.lookup (id, relay) = some row := by
  obtain ⟨-, hinstallations, hdelegations⟩ := lookup_of_reap hreap
  obtain ⟨i, hi⟩ := Option.isSome_iff_exists.mp (AList.lookup_isSome.mpr hid)
  obtain ⟨hi, hkept⟩ := hinstallations id i hi
  rw [hdelegations]
  refine ⟨hrow, ?_⟩
  rw [Tables.reapableDelegation, hi, Option.any_some, hkept, Bool.or_false, Bool.or_eq_false_iff]
  by_contra hlapsed
  have hreapable := hheeds (id, relay) row i hrow ?_ hi
  · rw [hkept] at hreapable
    cases hreapable
  · rw [not_and_or, Bool.not_eq_false, Bool.not_eq_false] at hlapsed
    exact hlapsed.imp_left of_decide_eq_true

theorem GenerationsRise.effect (h : g.GenerationsRise) (hg : g.Drawn) (heffect : Effect g op g')
    (hheeds : g.Heeds op) : g'.GenerationsRise := by
  cases heffect with
  | idle htables hlog =>
    refine h.of_same (fun id relay ↦ ?_) (fun id hid ↦ htables ▸ hid)
      fun id _ relay row hrow ↦ htables ▸ hrow
    rw [generations, hlog, generations]
  | put id row hfresh hnew htables hlog =>
    refine h.of_same (fun id relay ↦ ?_) (fun id hid ↦ ?_) fun id _ relay row hrow ↦ ?_
    · rw [generations, hlog, generations]
    · rwa [htables] at hid
    · rwa [htables]
  | consumed t id hmem htables hlog =>
    refine h.of_same (fun id relay ↦ ?_) (fun id hid ↦ ?_) fun id _ relay row hrow ↦ ?_
    · rw [generations, hlog, generations]
    · rwa [htables] at hid
    · rwa [htables]
  | created t challenge id row hepoch hfresh hnew htables hlog =>
    have hgenerations (id' : Uuid) (relay : List UInt8) :
        g'.generations id' relay = g.generations id' relay := filterMap_of_log hlog rfl
    have hnil (relay : List UInt8) : g.generations id relay = [] :=
      hg.filterMap_eq_nil (concerns_generationOf id relay) hfresh
    refine ⟨fun id' hid' relay ↦ ?_, fun id' hid' relay n hn ↦ ?_⟩
    · rw [hgenerations]
      rw [htables] at hid'
      rcases (AList.mem_insert _).mp hid' with rfl | hold
      · rw [hnil]
        exact List.Pairwise.nil
      · exact h.rise id' hold relay
    · rw [hgenerations] at hn
      rw [htables] at hid' ⊢
      rcases (AList.mem_insert _).mp hid' with rfl | hold
      · rw [hnil] at hn
        exact (List.not_mem_nil hn).elim
      · exact h.stored id' hold relay n hn
  | advanced id next row hrow hlt htables hlog =>
    refine h.of_same (fun id relay ↦ filterMap_of_log hlog rfl) (fun id' hid' ↦ ?_)
      fun id _ relay row hrow ↦ ?_
    · rw [htables] at hid'
      rcases (AList.mem_insert _).mp hid' with rfl | hold
      · exact mem_of_lookup hrow
      · exact hold
    · rwa [htables]
  | moved t a challenge id row row' hrow hepoch hcounter ha htables hlog =>
    refine h.of_same (fun id relay ↦ filterMap_of_log hlog ?_) (fun id' hid' ↦ ?_)
      fun id _ relay row hrow ↦ ?_
    · rcases ha with rfl | rfl
      · rfl
      · rfl
    · rw [htables] at hid'
      rcases (AList.mem_insert _).mp hid' with rfl | hold
      · exact mem_of_lookup hrow
      · exact hold
    · rwa [htables]
  | generated t a challenge id relay row hold hid ha htables hlog =>
    have ha' (id' : Uuid) (relay' : List UInt8) : a.generationOf id' relay' =
        if id = id' ∧ relay = relay' then some row.generation else none := by
      rcases ha with rfl | rfl
      · rfl
      · rfl
    have hinstalled (id' : Uuid) (hid' : id' ∈ g'.tables.installations) :
        id' ∈ g.tables.installations := by rwa [htables] at hid'
    have hbelow (hid' : id ∈ g.tables.installations) :
        ∀ n ∈ g.generations id relay, n < row.generation := by
      intro n hn
      obtain ⟨old, hlookup, hle⟩ := h.stored id hid' relay n hn
      exact hle.trans_lt (hold old hlookup)
    refine ⟨fun id' hid' relay' ↦ ?_, fun id' hid' relay' n hn ↦ ?_⟩
    · rw [generations, hlog, List.filterMap_cons, ha']
      by_cases hkey : id = id' ∧ relay = relay'
      · obtain ⟨rfl, rfl⟩ := hkey
        rw [if_pos ⟨rfl, rfl⟩]
        exact List.pairwise_cons.mpr
          ⟨hbelow (hinstalled id hid'), h.rise id (hinstalled id hid') relay⟩
      · rw [if_neg hkey]
        exact h.rise id' (hinstalled id' hid') relay'
    · rw [generations, hlog, List.filterMap_cons, ha'] at hn
      rw [htables, Map.lookup_insert_eq]
      by_cases hkey : id = id' ∧ relay = relay'
      · obtain ⟨rfl, rfl⟩ := hkey
        rw [if_pos ⟨rfl, rfl⟩] at hn
        rw [if_pos rfl]
        refine ⟨row, rfl, ?_⟩
        rcases List.mem_cons.mp hn with rfl | hn
        · exact le_rfl
        · exact (hbelow (hinstalled id hid') n hn).le
      · rw [if_neg hkey] at hn
        have hne : (id', relay') ≠ (id, relay) := fun heq ↦
          hkey ⟨(congrArg Prod.fst heq).symm, (congrArg Prod.snd heq).symm⟩
        rw [if_neg hne]
        exact h.stored id' (hinstalled id' hid') relay' n hn
  | reaped now hop hok hlog =>
    refine h.of_same (fun id relay ↦ ?_) (fun id hid ↦ ?_) fun id hid relay row hrow ↦
      kept_of_reap (hop ▸ hheeds) hok hid hrow
    · rw [generations, hlog, generations]
    · obtain ⟨row, hrow⟩ := Option.isSome_iff_exists.mp (AList.lookup_isSome.mpr hid)
      exact mem_of_lookup ((lookup_of_reap hok).2.1 id row hrow).1

structure Inv (g : Server) : Prop where
  drawn : g.Drawn
  challenges : g.ChallengesApart
  counters : g.CountersRise
  epochs : g.EpochsStep
  generations : g.GenerationsRise

theorem Inv.step (h : g.Inv) (hheeds : g.Heeds op) : (g.step op).Inv where
  drawn := h.drawn.effect (effect_step g op) fun _ ↦ drawn_step
  challenges := h.challenges.effect h.drawn (effect_step g op) fun _ ↦ drawn_step
  counters := h.counters.effect h.drawn (effect_step g op)
  epochs := h.epochs.effect h.drawn (effect_step g op)
  generations := h.generations.effect h.drawn (effect_step g op) hheeds

theorem inv_empty : Inv empty where
  drawn :=
    { challenges := fun c hc ↦ (AList.notMem_empty c hc).elim
      installations := fun id hid ↦ (AList.notMem_empty id hid).elim
      delegations := fun key hkey ↦ (AList.notMem_empty key hkey).elim
      log := fun _ ha ↦ (List.not_mem_nil ha).elim }
  challenges :=
    { held := fun _ _ hc ↦ (by cases hc)
      heldOnce := fun _ _ _ hc ↦ (by cases hc)
      spent := fun _ hc ↦ (List.not_mem_nil hc).elim
      spentOnce := List.nodup_nil }
  counters := ⟨fun _ ↦ List.Pairwise.nil, fun _ _ _ _ hc ↦ (List.not_mem_nil hc).elim⟩
  epochs := ⟨fun _ ↦ List.IsChain.nil, fun _ _ hrow ↦ (by cases hrow)⟩
  generations := ⟨fun _ _ _ ↦ List.Pairwise.nil, fun _ _ _ _ hn ↦ (List.not_mem_nil hn).elim⟩

/-- Authority moves forward in every run whose reapings spare the delegations of the installations
that they leave. -/
theorem authority_moves_forward (ops : List GatewayOp)
    (hheeds : ∀ pre op, pre ++ [op] <+: ops → (pre.foldl step empty).Heeds op) :
    ∀ pre, pre <+: ops → (pre.foldl step empty).MovesForward := by
  intro pre hpre
  have hinv := forall_prefix_of_steps step Inv (fun g op ↦ ¬g.Heeds op) inv_empty
    (fun g op h hheeds ↦ h.step (not_not.mp hheeds))
    (fun pre op hpre ↦ not_not.mpr (hheeds pre op hpre)) pre hpre
  exact ⟨hinv.challenges.spentOnce, hinv.counters.rise, hinv.epochs.chain, hinv.generations.rise⟩

def sampleValue (n : UInt8) : Bytes32 := ⟨List.replicate 32 n, length_replicate32 n⟩

def sampleEnroll : List GatewayOp :=
  [.challenge ⟨1, sampleValue 1, 300⟩,
    .enroll 0 1 (sampleValue 1) 0
      ⟨[7], List.replicate 33 8, .buzzIosProduction, [9], sampleValue 4, 100000⟩,
    .proceed 0 0 100 0, .proceed 0 0 2 0]

def sampleRelay : String := "0000000000000000000000000000000000000000000000000000000000000000"

def sampleDelegate (c : Uuid) (now : ℤ) (verified : UInt32) (generation expiresAt : ℤ) :
    List GatewayOp :=
  [.challenge ⟨c, sampleValue 1, now + 300⟩,
    .request 0 ⟨2, c, sampleValue 1, now, .delegate sampleRelay 1 generation now expiresAt⟩ 86400,
    .proceed 0 verified (c + 1) 0, .proceed 0 verified (c + 2) 0, .proceed 0 verified (c + 3) 0,
    .proceed 0 verified (c + 4) 0]

theorem heeds_of_entries {now : ℤ}
    (h : g.tables.delegations.entries.all fun e ↦ !(decide (e.2.expiresAt < seconds now) ||
      e.2.revokedAt.any fun t ↦ decide (t < seconds now - day)) ||
        (g.tables.installations.lookup e.1.1).all (Tables.reapableInstallation (seconds now))) :
    g.Heeds (.reap now) := by
  intro key row i hrow hlapsed hi
  have hspared := List.all_eq_true.mp h ⟨key, row⟩ (Map.mem_entries_iff.mpr hrow)
  rw [hi, Option.all_some, Bool.or_eq_true, Bool.not_eq_true', Bool.or_eq_false_iff,
    decide_eq_false_iff_not] at hspared
  obtain hspared | hreaped := hspared
  · rcases hlapsed with hexpired | hrevoked
    · exact (hspared.1 hexpired).elim
    · rw [hspared.2] at hrevoked
      cases hrevoked
  · exact hreaped

/-- An installation delegates twice with a reaping in between, and is reaped when it has expired. -/
def sampleLife : List GatewayOp :=
  sampleEnroll ++ sampleDelegate 10 0 1 5 600 ++ [.reap 500] ++ sampleDelegate 20 510 2 6 1200 ++
    [.reap 100001]

theorem authority_moves_forward_reaping :
    (∀ pre, pre <+: sampleLife → (pre.foldl step empty).MovesForward) ∧
      (sampleLife.foldl step empty).generations 2 (List.replicate 32 0) = [6, 5] := by
  refine ⟨authority_moves_forward sampleLife ?_, by decide +kernel⟩
  apply forall_step_of_lt
  intro n hn
  have hlen : n < 18 := hn
  interval_cases n
  case «10» => exact heeds_of_entries (by decide +kernel)
  case «17» => exact heeds_of_entries (by decide +kernel)
  all_goals trivial

/-- The first delegation expires and is reaped; the second goes back to a lower generation. -/
theorem reaped_generation_returns :
    let reap : List GatewayOp := [.reap 601]
    ¬((sampleEnroll ++ sampleDelegate 10 0 1 5 600 ++ reap ++
      sampleDelegate 20 700 2 3 1200).foldl step empty).MovesForward := by
  intro reap h
  have hgenerations := h.generations 2 (by decide +kernel) (List.replicate 32 0)
  revert hgenerations
  decide +kernel

end Server

end Buzz.Gateway
