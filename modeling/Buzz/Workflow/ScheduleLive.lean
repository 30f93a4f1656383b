import Buzz.Lib.Runs
import Buzz.Workflow.ScheduleRun

namespace Buzz.Workflow.Scheduler

open Buzz.Lib Buzz.Nostr

/-- What a pod needs to serve an interval workflow: it stays up, its statements run, it sees the
workflow in each tick at a time that is a date, and no claim on the workflow is removed. -/
structure Service where
  U : Unicode
  C : Cron
  p : ℕ
  key : WorkflowKey
  dur : String
  secs : ℕ

namespace Service

variable (S : Service)

def Lists (r : WorkflowRecord) : Prop :=
  r.key = S.key → r.channelId.isSome ∧
    r.definition.any fun d ↦ d.enabled && scheduleOf d.trigger = some (.interval S.dur)

instance (r : WorkflowRecord) : Decidable (S.Lists r) := inferInstanceAs (Decidable (_ → _))

def Allows (w : World) : Op → Prop
  | .wake q now failed => q = S.p → failed = false ∧
      (intervalFireInstant S.U S.dur now).isSome ∧
      (∃ r ∈ w.listAllEnabledWorkflows, r.key = S.key) ∧
      ∀ r ∈ w.listAllEnabledWorkflows, S.Lists r
  | .work q reply _ _ => q = S.p → reply = .ok
  | .crash q => q ≠ S.p
  | .prune olderThan => ∀ f ∈ w.fires, f.key.workflow = S.key → olderThan ≤ f.claimedAt
  | .edit workflows => ∃ r ∈ workflows, r.key = S.key

instance (w : World) (op : Op) : Decidable (S.Allows w op) := by
  cases op <;> dsimp only [Allows] <;> infer_instance

def after (w : World) (ops : List Op) : World := ops.foldl (fun w op ↦ w.step S.U S.C op) w

variable (t₀ : ℤ)

/-- The first reading of the clock, or a time in the bucket of a claim. -/
def Anchor (w : World) (a : ℤ) : Prop :=
  a = t₀ ∨ ∃ k ∈ w.claimed, k.workflow = S.key ∧ k.scheduledFor * second ≤ a ∧
    a < (k.scheduledFor + S.secs) * second

def Known (w : World) (pod : Pod) : Prop :=
  (pod.lastFired S.key).isSome ∨ ∃ f ∈ w.fires, f.key.workflow = S.key

/-- The workflow has had its turn in the tick. -/
def Settled (w : World) (pod : Pod) : Prop :=
  S.Known w pod ∧ ∃ a, S.Anchor t₀ w a ∧ ((pod.now - a).tdiv second).natAbs < S.secs

def Waits (pod : Pod) : Prop :=
  (pod.phase ≠ .asleep ∧ ∃ r ∈ pod.rest, r.key = S.key) ∨
    (∃ dur channelId, pod.phase = .anchoring S.key dur channelId) ∨
    ∃ due, pod.phase = .claiming due ∧ due.key.workflow = S.key

def claims : Phase → Option Due
  | .creating due | .attaching due _ => some due
  | _ => none

structure Ticks (w : World) (pod : Pod) : Prop where
  clock : ∀ a, pod.lastFired S.key = some a → S.Anchor t₀ w a
  date : (intervalFireInstant S.U S.dur pod.now).isSome
  rest : ∀ r ∈ pod.rest, S.Lists r
  active : S.key ∈ pod.active
  first : pod.now = t₀ ∨ S.Known w pod

structure Serves (w : World) (pod : Pod) : Prop where
  ticks : S.Ticks t₀ w pod
  anchoring : ∀ dur channelId, pod.phase = .anchoring S.key dur channelId →
    dur = S.dur ∧ pod.lastFired S.key = none
  due : ∀ due, pod.phase.due = some due → due.key.workflow = S.key →
    intervalFireInstant S.U S.dur pod.now = some due.key.scheduledFor
  claimed : ∀ due, claims pod.phase = some due → due.key.workflow = S.key → due.key ∈ w.claimed
  turn : S.Waits pod ∨ S.Settled t₀ w pod

variable {S} {t₀} {w w' : World} {pod pod' : Pod}

/-- What the other pods and the environment do to the claims. -/
structure Grows (S : Service) (w w' : World) : Prop where
  claimed : ∀ k ∈ w.claimed, k ∈ w'.claimed
  fires : ∀ f ∈ w.fires, f.key.workflow = S.key → ∃ f' ∈ w'.fires, f'.key.workflow = S.key

theorem grows_of_fireKeys (hclaimed : ∀ k ∈ w.claimed, k ∈ w'.claimed)
    (hkeys : ∀ k ∈ w.fireKeys, k ∈ w'.fireKeys) : S.Grows w w' where
  claimed := hclaimed
  fires f hf hkey := by
    obtain ⟨f', hf', heq⟩ := List.mem_map.mp (hkeys f.key (List.mem_map_of_mem hf))
    exact ⟨f', hf', by rw [heq, hkey]⟩

theorem grows_of_eq (hclaimed : w'.claimed = w.claimed) (hfires : w'.fires = w.fires) :
    S.Grows w w' :=
  ⟨fun _ hk ↦ hclaimed ▸ hk, fun f hf hkey ↦ ⟨f, hfires ▸ hf, hkey⟩⟩

theorem Anchor.grows (h : S.Grows w w') {a : ℤ} (ha : S.Anchor t₀ w a) : S.Anchor t₀ w' a := by
  rcases ha with ha | ⟨k, hk, hrest⟩
  · exact .inl ha
  · exact .inr ⟨k, h.claimed k hk, hrest⟩

theorem Known.grows (h : S.Grows w w') (hknown : S.Known w pod)
    (hclock : (pod.lastFired S.key).isSome → (pod'.lastFired S.key).isSome) :
    S.Known w' pod' := by
  rcases hknown with hsome | ⟨f, hf, hkey⟩
  · exact .inl (hclock hsome)
  · exact .inr (h.fires f hf hkey)

theorem Settled.grows (h : S.Grows w w') (hsettled : S.Settled t₀ w pod)
    (hclock : (pod.lastFired S.key).isSome → (pod'.lastFired S.key).isSome)
    (hnow : pod'.now = pod.now) : S.Settled t₀ w' pod' := by
  obtain ⟨hknown, a, ha, hclose⟩ := hsettled
  exact ⟨hknown.grows h hclock, a, ha.grows h, hnow ▸ hclose⟩

theorem Ticks.grows (h : S.Grows w w') (hticks : S.Ticks t₀ w pod) : S.Ticks t₀ w' pod where
  clock a ha := (hticks.clock a ha).grows h
  date := hticks.date
  rest := hticks.rest
  active := hticks.active
  first := hticks.first.imp_right fun hknown ↦ hknown.grows h id

theorem Serves.grows (h : S.Grows w w') (hserves : S.Serves t₀ w pod) : S.Serves t₀ w' pod where
  ticks := hserves.ticks.grows h
  anchoring := hserves.anchoring
  due := hserves.due
  claimed due hdue hkey := h.claimed _ (hserves.claimed due hdue hkey)
  turn := hserves.turn.imp_right fun hsettled ↦ hsettled.grows h id rfl

/-- A phase that is about another workflow, or between two. -/
structure Aside (S : Service) (pod : Pod) : Prop where
  awake : pod.phase ≠ .asleep
  anchoring : ∀ dur channelId, pod.phase ≠ .anchoring S.key dur channelId
  due : ∀ due, pod.phase.due = some due → due.key.workflow ≠ S.key

theorem due_of_claims {phase : Phase} {due : Due} (h : claims phase = some due) :
    phase.due = some due := by
  cases phase <;> first | exact h | cases h

/-- The fields that matter to the workflow stay as they are. -/
structure Keeps (S : Service) (pod pod' : Pod) : Prop where
  clock : pod'.lastFired S.key = pod.lastFired S.key
  now : pod'.now = pod.now
  rest : pod'.rest = pod.rest
  active : pod'.active = pod.active

theorem Ticks.keeps (h : S.Keeps pod pod') (hticks : S.Ticks t₀ w pod) : S.Ticks t₀ w pod' where
  clock a ha := hticks.clock a (h.clock ▸ ha)
  date := h.now ▸ hticks.date
  rest := h.rest ▸ hticks.rest
  active := h.active ▸ hticks.active
  first := by
    rw [h.now]
    exact hticks.first.imp_right (Or.imp_left fun hsome ↦ by rwa [h.clock])

theorem Settled.keeps (h : S.Keeps pod pod') (hsettled : S.Settled t₀ w pod) :
    S.Settled t₀ w pod' := by
  obtain ⟨hknown, a, ha, hclose⟩ := hsettled
  exact ⟨hknown.imp_left fun hsome ↦ by rwa [h.clock], a, ha, h.now ▸ hclose⟩

theorem Ticks.aside (h : S.Ticks t₀ w pod) (haside : S.Aside pod)
    (hturn : (∃ r ∈ pod.rest, r.key = S.key) ∨ S.Settled t₀ w pod) : S.Serves t₀ w pod where
  ticks := h
  anchoring dur channelId hphase := absurd hphase (haside.anchoring dur channelId)
  due due hdue hkey := absurd hkey (haside.due due hdue)
  claimed due hdue hkey := absurd hkey (haside.due due (due_of_claims hdue))
  turn := hturn.imp_left fun hrest ↦ .inl ⟨haside.awake, hrest⟩

theorem aside_of_looping (h : pod.phase = .looping) : S.Aside pod where
  awake := by rw [h]; exact Phase.noConfusion
  anchoring dur channelId := by rw [h]; exact Phase.noConfusion
  due due hdue := by rw [h] at hdue; cases hdue

/-- Of a pod that is not on the workflow only the rest of the tick can be waiting. -/
theorem Serves.turn_of_aside (h : S.Serves t₀ w pod) (haside : S.Aside pod) :
    (∃ r ∈ pod.rest, r.key = S.key) ∨ S.Settled t₀ w pod := by
  rcases h.turn with (⟨-, hrest⟩ | ⟨dur, channelId, hphase⟩ | ⟨due, hphase, hkey⟩) | hsettled
  · exact .inl hrest
  · exact absurd hphase (haside.anchoring dur channelId)
  · exact absurd hkey (haside.due due (by rw [hphase]; rfl))
  · exact .inr hsettled

theorem keeps_goTo (pod : Pod) (phase : Phase) : S.Keeps pod (pod.goTo phase) :=
  ⟨rfl, rfl, rfl, rfl⟩

theorem keeps_claimFor (pod : Pod) (key : WorkflowKey) (schedule : Schedule) (channelId : Uuid)
    (instant : Option ℤ) : S.Keeps pod (pod.claimFor key schedule channelId instant) := by
  cases instant with
  | none => exact keeps_goTo pod .looping
  | some t => exact keeps_goTo pod _

theorem aside_claimFor {key : WorkflowKey} (hne : key ≠ S.key) (schedule : Schedule)
    (channelId : Uuid) (instant : Option ℤ) :
    S.Aside (pod.claimFor key schedule channelId instant) := by
  cases instant with
  | none => exact aside_of_looping rfl
  | some t =>
    refine ⟨Phase.noConfusion, fun _ _ ↦ Phase.noConfusion, fun due hdue ↦ ?_⟩
    cases hdue
    exact hne

theorem aside_onAnchor (pod : Pod) {key : WorkflowKey} (hne : key ≠ S.key) (dur : String)
    (channelId : Uuid) (last : Option ℤ) : S.Aside (pod.onAnchor S.U key dur channelId last) ∧
      S.Keeps pod (pod.onAnchor S.U key dur channelId last) := by
  have hclock : (intervalPrefilterShouldFire S.U pod.lastFired key dur last pod.now).2 S.key =
      pod.lastFired S.key := by
    rw [intervalPrefilterShouldFire]
    split_ifs
    · rfl
    · exact Function.update_of_ne hne.symm _ _
    · rfl
  rw [Pod.onAnchor]
  dsimp only
  split_ifs
  · have hclaim := keeps_claimFor (S := S) { pod with
      lastFired := (intervalPrefilterShouldFire S.U pod.lastFired key dur last pod.now).2 }
      key (.interval dur) channelId (intervalFireInstant S.U dur pod.now)
    exact ⟨aside_claimFor hne _ _ _, hclaim.clock.trans hclock, hclaim.now, hclaim.rest,
      hclaim.active⟩
  · exact ⟨aside_of_looping rfl, hclock, rfl, rfl, rfl⟩

theorem aside_markFired {due : Due} (hne : due.key.workflow ≠ S.key) :
    S.Keeps pod ((pod.markFired due).goTo .looping) := by
  rw [Pod.markFired]
  split
  · exact ⟨rfl, rfl, rfl, rfl⟩
  · exact ⟨Function.update_of_ne hne.symm _ _, rfl, rfl, rfl⟩

theorem Settled.markFired (h : S.Settled t₀ w pod) (due : Due) :
    S.Settled t₀ w ((pod.markFired due).goTo .looping) := by
  by_cases hkey : due.key.workflow = S.key
  · obtain ⟨hknown, a, ha, hclose⟩ := h
    rw [Pod.markFired]
    split
    · exact ⟨hknown, a, ha, hclose⟩
    · have hset : Function.update pod.lastFired due.key.workflow (some pod.now) S.key =
          some pod.now := by
        rw [hkey]
        exact Function.update_self _ _ _
      exact ⟨.inl (Option.isSome_iff_exists.mpr ⟨_, hset⟩), a, ha, hclose⟩
  · exact h.keeps (aside_markFired hkey)

theorem rest_markFired (due : Due) : ((pod.markFired due).goTo .looping).rest = pod.rest := by
  rw [Pod.markFired]
  split <;> rfl

theorem aside_of_due {due : Due} (h : pod.phase.due = some due) (hne : due.key.workflow ≠ S.key) :
    S.Aside pod where
  awake hasleep := by
    rw [hasleep] at h
    cases h
  anchoring dur channelId hphase := by
    rw [hphase] at h
    cases h
  due due' hdue' := by
    cases h.symm.trans hdue'
    exact hne

theorem Serves.turn_of_claims (h : S.Serves t₀ w pod) {due : Due}
    (hclaims : claims pod.phase = some due) :
    (∃ r ∈ pod.rest, r.key = S.key) ∨ S.Settled t₀ w pod := by
  rcases h.turn with (⟨-, hrest⟩ | ⟨dur, channelId, hphase⟩ | ⟨due', hphase, -⟩) | hsettled
  · exact .inl hrest
  · rw [hphase] at hclaims
    cases hclaims
  · rw [hphase] at hclaims
    cases hclaims
  · exact .inr hsettled

theorem latestFire_eq_some {key : WorkflowKey} {a : ℤ} (h : w.latestFire key = some a) :
    ∃ f ∈ w.fires, f.key.workflow = key ∧ a = f.key.scheduledFor * second := by
  obtain ⟨t, ht, rfl⟩ := Option.map_eq_some_iff.mp h
  obtain ⟨f, hf, rfl⟩ := List.mem_map.mp (List.max?_mem ht)
  obtain ⟨hmem, hkey⟩ := List.mem_filter.mp hf
  exact ⟨f, hmem, of_decide_eq_true hkey, rfl⟩

theorem not_mem_of_latestFire_eq_none {key : WorkflowKey} (h : w.latestFire key = none) {f : Fire}
    (hf : f ∈ w.fires) : f.key.workflow ≠ key := by
  rw [World.latestFire, Option.map_eq_none_iff, List.max?_eq_none_iff, List.map_eq_nil_iff,
    List.filter_eq_nil_iff] at h
  exact fun hkey ↦ h f hf (decide_eq_true hkey)

section Steps

variable (hdur : parseDurationSecs S.U S.dur = .ok S.secs) (hsecs : S.secs < 2 ^ 63)

include hdur hsecs

theorem Ticks.secs_pos (h : S.Ticks t₀ w pod) : 0 < S.secs := by
  obtain ⟨t, ht⟩ := Option.isSome_iff_exists.mp h.date
  exact (intervalFireInstant_eq hdur hsecs ht).1

theorem anchor_of_claimed {k : FireKey} {now : ℤ} (hk : k ∈ w.claimed) (hkey : k.workflow = S.key)
    (hinstant : intervalFireInstant S.U S.dur now = some k.scheduledFor) : S.Anchor t₀ w now := by
  obtain ⟨hpos, heq⟩ := intervalFireInstant_eq hdur hsecs hinstant
  have hpos' : (0 : ℤ) < S.secs := by exact_mod_cast hpos
  have hbucket := Int.mul_ediv_add_emod (timestamp now) S.secs
  have hmod := Int.emod_nonneg (timestamp now) hpos'.ne'
  have hmod' := Int.emod_lt_of_pos (timestamp now) hpos'
  have hwhole : second * timestamp now + now % second = now := Int.mul_ediv_add_emod now second
  have hfrac := Int.emod_nonneg now (show second ≠ 0 by decide)
  have hfrac' := Int.emod_lt_of_pos now (show 0 < second by decide)
  have hle : k.scheduledFor ≤ timestamp now := by
    rw [heq, mul_comm]
    omega
  have hlt : timestamp now + 1 ≤ k.scheduledFor + S.secs := by
    rw [heq, mul_comm]
    omega
  refine .inr ⟨k, hk, hkey, ?_, ?_⟩
  · calc k.scheduledFor * second
        ≤ timestamp now * second := Int.mul_le_mul_of_nonneg_right hle (by decide)
      _ ≤ now := by rw [mul_comm]; omega
  · calc now
        < (timestamp now + 1) * second := by rw [add_mul, mul_comm]; omega
      _ ≤ (k.scheduledFor + S.secs) * second := Int.mul_le_mul_of_nonneg_right hlt (by decide)

theorem Ticks.settled_of_claimed (h : S.Ticks t₀ w pod) {f : Fire} (hf : f ∈ w.fires)
    (hclaimed : f.key ∈ w.claimed) (hkey : f.key.workflow = S.key)
    (hinstant : intervalFireInstant S.U S.dur pod.now = some f.key.scheduledFor) :
    S.Settled t₀ w pod := by
  refine ⟨.inr ⟨f, hf, hkey⟩, pod.now, anchor_of_claimed hdur hsecs hclaimed hkey hinstant, ?_⟩
  rw [sub_self]
  exact h.secs_pos hdur hsecs

theorem Ticks.serves_onAnchor (h : S.Ticks t₀ w pod) {last : Option ℤ}
    (hlast : ∀ a, last = some a → S.Anchor t₀ w a ∧ S.Known w pod)
    (hnone : last = none → ¬S.Known w pod) (channelId : Uuid) :
    S.Serves t₀ w (pod.onAnchor S.U S.key S.dur channelId last) := by
  obtain ⟨t, ht⟩ := Option.isSome_iff_exists.mp h.date
  have hpos := h.secs_pos hdur hsecs
  rw [Pod.onAnchor, intervalPrefilterShouldFire]
  by_cases hfire : intervalShouldFire S.U S.dur last pod.now = true
  · rw [if_pos hfire]
    dsimp only
    rw [if_pos rfl, ht]
    constructor
    case ticks => exact h.keeps (keeps_claimFor pod S.key (.interval S.dur) channelId (some t))
    case anchoring => exact fun _ _ hphase ↦ Phase.noConfusion hphase
    case due =>
      intro due hdue _
      cases hdue
      exact ht
    case claimed =>
      intro due hdue
      cases hdue
    case turn => exact .inl (.inr (.inr ⟨_, rfl, rfl⟩))
  · have helapsed : ∀ a, last = some a → ((pod.now - a).tdiv second).natAbs < S.secs := by
      intro a ha
      rw [intervalShouldFire, hdur, ha] at hfire
      exact not_le.mp fun hle ↦ hfire (decide_eq_true hle)
    rw [if_neg hfire]
    cases last with
    | none =>
      have hfirst : pod.now = t₀ := h.first.resolve_right (hnone rfl)
      have hanchor : S.Anchor t₀ w pod.now := .inl hfirst
      have hseeded : Function.update pod.lastFired S.key (some pod.now) S.key = some pod.now :=
        Function.update_self _ _ _
      refine Ticks.aside ⟨fun a ha ↦ ?_, h.date, h.rest, h.active, .inl hfirst⟩
        (aside_of_looping rfl) (.inr ⟨.inl ?_, pod.now, hanchor, ?_⟩)
      · have hsome : some pod.now = some a := hseeded.symm.trans ha
        cases hsome
        exact hanchor
      · exact Option.isSome_iff_exists.mpr ⟨_, hseeded⟩
      · show ((pod.now - pod.now).tdiv second).natAbs < S.secs
        rw [sub_self]
        exact hpos
    | some a =>
      obtain ⟨hanchor, hknown⟩ := hlast a rfl
      have hkeeps : S.Keeps pod (pod.goTo .looping) := keeps_goTo pod .looping
      exact (h.keeps hkeeps).aside (aside_of_looping rfl)
        (.inr (Settled.keeps hkeeps ⟨hknown, a, hanchor, helapsed a rfl⟩))

/-- The clock is set to a time whose bucket is claimed. -/
theorem Ticks.markFired (h : S.Ticks t₀ w pod) {due : Due} (hclaimed : due.key ∈ w.claimed)
    (hkey : due.key.workflow = S.key)
    (hinstant : intervalFireInstant S.U S.dur pod.now = some due.key.scheduledFor) :
    S.Ticks t₀ w ((pod.markFired due).goTo .looping) := by
  rw [Pod.markFired]
  split
  · exact h.keeps (keeps_goTo pod .looping)
  · have hset : Function.update pod.lastFired due.key.workflow (some pod.now) S.key =
        some pod.now := by
      rw [hkey]
      exact Function.update_self _ _ _
    have hknown : (Function.update pod.lastFired due.key.workflow (some pod.now) S.key).isSome :=
      Option.isSome_iff_exists.mpr ⟨_, hset⟩
    refine ⟨fun a ha ↦ ?_, h.date, h.rest, h.active, .inr (.inl hknown)⟩
    have hsome : some pod.now = some a := hset.symm.trans ha
    cases hsome
    exact anchor_of_claimed hdur hsecs hclaimed hkey hinstant

theorem Serves.next (h : S.Serves t₀ w pod) (hphase : pod.phase = .looping) :
    S.Serves t₀ w (pod.next S.U S.C) := by
  have hturn := h.turn_of_aside (aside_of_looping hphase)
  rw [Pod.next]
  split
  · next hrest =>
    have hkeeps : S.Keeps pod { pod with
        lastFired := fun key ↦ if key ∈ pod.active then pod.lastFired key else none
        phase := .asleep } := ⟨if_pos h.ticks.active, rfl, rfl, rfl⟩
    have hsettled : S.Settled t₀ w pod := by
      rw [hrest] at hturn
      refine hturn.resolve_left ?_
      rintro ⟨r, hr, -⟩
      exact List.not_mem_nil hr
    constructor
    case ticks => exact h.ticks.keeps hkeeps
    case anchoring => exact fun _ _ hasleep ↦ Phase.noConfusion hasleep
    case due =>
      intro due hdue
      cases hdue
    case claimed =>
      intro due hdue
      cases hdue
    case turn => exact .inr (hsettled.keeps hkeeps)
  · next record rest hrest =>
    have hlists : S.Lists record := h.ticks.rest record (hrest ▸ List.mem_cons_self)
    have hticks : S.Ticks t₀ w { pod with rest := rest } :=
      ⟨h.ticks.clock, h.ticks.date, fun r hr ↦ h.ticks.rest r (hrest ▸ List.mem_cons_of_mem _ hr),
        h.ticks.active, h.ticks.first⟩
    by_cases hkey : record.key = S.key
    · obtain ⟨hchannel, hany⟩ := hlists hkey
      obtain ⟨d, hdefinition, hd⟩ := (Option.any_eq_true _ _).mp hany
      rw [Bool.and_eq_true, decide_eq_true_eq] at hd
      obtain ⟨henabled, hschedule⟩ := hd
      obtain ⟨channelId, hchannelId⟩ := Option.isSome_iff_exists.mp hchannel
      rw [hdefinition, hchannelId]
      dsimp only
      rw [henabled, if_pos rfl, hschedule, hkey, Pod.onSchedule]
      dsimp only
      split
      · next a hlast =>
        refine hticks.serves_onAnchor hdur hsecs (fun a' ha' ↦ ?_) (fun hno ↦ by cases hno) _
        cases ha'
        exact ⟨h.ticks.clock a hlast, .inl (Option.isSome_iff_exists.mpr ⟨a, hlast⟩)⟩
      · next hlast =>
        constructor
        case ticks => exact hticks.keeps (keeps_goTo _ _)
        case anchoring =>
          intro dur channelId' hphase'
          cases hphase'
          exact ⟨rfl, hlast⟩
        case due =>
          intro due hdue
          cases hdue
        case claimed =>
          intro due hdue
          cases hdue
        case turn => exact .inl (.inr (.inl ⟨_, _, rfl⟩))
    · have hstay : (∃ r ∈ rest, r.key = S.key) ∨ S.Settled t₀ w pod := by
        refine hturn.imp_left ?_
        rintro ⟨r, hr, hr'⟩
        rw [hrest] at hr
        exact ⟨r, (List.mem_cons.mp hr).resolve_left fun heq ↦ hkey (heq ▸ hr'), hr'⟩
      have hdone {pod' : Pod} (hkeeps : S.Keeps { pod with rest := rest } pod')
          (haside : S.Aside pod') : S.Serves t₀ w pod' := by
        refine (hticks.keeps hkeeps).aside haside ?_
        rw [hkeeps.rest]
        exact hstay.imp_right fun hsettled ↦ Settled.keeps hkeeps hsettled
      have hidle : S.Serves t₀ w { pod with rest := rest } :=
        hdone ⟨rfl, rfl, rfl, rfl⟩ (aside_of_looping hphase)
      dsimp only
      split
      · next d channelId _ _ =>
        split_ifs
        · rcases scheduleOf d.trigger with _ | expr | dur
          · exact hidle
          · exact hdone (keeps_claimFor _ _ _ _ _) (aside_claimFor hkey _ _ _)
          · rw [Pod.onSchedule]
            dsimp only
            split
            · next a _ =>
              obtain ⟨haside, hkeeps⟩ :=
                aside_onAnchor { pod with rest := rest } hkey dur channelId (some a)
              exact hdone hkeeps haside
            · refine hdone (keeps_goTo _ _)
                ⟨Phase.noConfusion, fun _ _ heq ↦ ?_, fun due hdue ↦ ?_⟩
              · exact hkey (Phase.anchoring.inj heq).1
              · cases hdue
        · exact hidle
      · exact hidle

theorem Serves.claimed_turn (h : S.Serves t₀ w pod) {due : Due} (hphase : pod.phase = .claiming due)
    (hkey : due.key.workflow = S.key) (hgrows : S.Grows w w') (hfire : due.key ∈ w'.fireKeys)
    (hclaimed : due.key ∈ w'.claimed) :
    S.Settled t₀ w' pod ∧ intervalFireInstant S.U S.dur pod.now = some due.key.scheduledFor := by
  have hinstant := h.due due (by rw [hphase]; rfl) hkey
  obtain ⟨f, hf, heq⟩ := List.mem_map.mp hfire
  refine ⟨(h.ticks.grows hgrows).settled_of_claimed hdur hsecs hf ?_ ?_ ?_, hinstant⟩
  · rwa [heq]
  · rwa [heq]
  · rwa [heq]

/-- What the pod's own statement does, when it runs and its reply comes. -/
theorem Serves.work (h : S.Serves t₀ w pod) (hinv : w.Inv S.U S.C)
    (hhas : w.hasWorkflow S.key = true) (hpod : w.pods[S.p]? = some pod) (dbNow : ℤ)
    (runId : Uuid) :
    ∃ pod', (w.work S.U S.C S.p .ok dbNow runId pod).pods[S.p]? = some pod' ∧
      S.Serves t₀ (w.work S.U S.C S.p .ok dbNow runId pod) pod' := by
  have hlt : S.p < w.pods.length := (List.getElem?_eq_some_iff.mp hpod).1
  have hput (w₁ : World) (hsame : w₁.pods = w.pods) (pod' : Pod) :
      (w₁.setPod S.p pod').pods[S.p]? = some pod' := by
    show (w₁.pods.set S.p pod')[S.p]? = some pod'
    rw [hsame, List.getElem?_set_self hlt]
  have hplace (w₁ : World) (pod' : Pod) : S.Grows w₁ (w₁.setPod S.p pod') :=
    grows_of_eq rfl rfl
  have hclaimedOf {k : FireKey} (hk : k ∈ w.fireKeys) : k ∈ w.claimed := by
    rw [← List.count_pos_iff] at hk ⊢
    have hcount := hinv.claimed k
    omega
  rw [World.work]
  split
  · exact ⟨pod, hpod, h⟩
  · next hphase => exact ⟨_, hput w rfl _, (h.next hdur hsecs hphase).grows (hplace w _)⟩
  · next key dur channelId hphase =>
    refine ⟨_, hput w rfl _, Serves.grows (hplace w _) ?_⟩
    rw [if_pos rfl]
    by_cases hkey : key = S.key
    · subst hkey
      obtain ⟨rfl, hclock⟩ := h.anchoring dur channelId hphase
      have hpos : (0 : ℤ) < S.secs := by exact_mod_cast h.ticks.secs_pos hdur hsecs
      refine h.ticks.serves_onAnchor hdur hsecs (fun a ha ↦ ?_) (fun hno hknown ↦ ?_) channelId
      · obtain ⟨f, hf, hfkey, rfl⟩ := latestFire_eq_some ha
        have hclaimed := hclaimedOf (List.mem_map_of_mem hf)
        refine ⟨.inr ⟨f.key, hclaimed, hfkey, le_rfl, ?_⟩, .inr ⟨f, hf, hfkey⟩⟩
        exact Int.mul_lt_mul_of_pos_right (by omega) (by decide)
      · rcases hknown with hsome | ⟨f, hf, hfkey⟩
        · rw [hclock] at hsome
          cases hsome
        · exact not_mem_of_latestFire_eq_none hno hf hfkey
    · obtain ⟨haside, hkeeps⟩ := aside_onAnchor pod hkey dur channelId (w.latestFire key)
      refine (h.ticks.keeps hkeeps).aside haside ?_
      rw [hkeeps.rest]
      refine (h.turn_of_aside ⟨?_, fun dur' channelId' heq ↦ ?_, fun due hdue ↦ ?_⟩).imp_right
        fun hsettled ↦ Settled.keeps hkeeps hsettled
      · rw [hphase]
        exact Phase.noConfusion
      · rw [hphase] at heq
        exact hkey (Phase.anchoring.inj heq).1
      · rw [hphase] at hdue
        cases hdue
  · next due hphase =>
    have hdue : pod.phase.due = some due := by rw [hphase]; rfl
    dsimp only
    split
    · next w₁ hclaim =>
      have hsnd : (w.claimFire due.key dbNow).2 = w₁ := congrArg Prod.snd hclaim
      rw [← hsnd, (claimFire_of_true (congrArg Prod.fst hclaim)).1]
      have hgrows : S.Grows w { w with
          fires := ⟨due.key, dbNow, none⟩ :: w.fires, claimed := due.key :: w.claimed } :=
        ⟨fun _ ↦ List.mem_cons_of_mem _, fun f hf hkey ↦ ⟨f, List.mem_cons_of_mem _ hf, hkey⟩⟩
      refine ⟨_, hput _ rfl _, Serves.grows (hplace _ _) ?_⟩
      have hticks := (h.ticks.grows hgrows).keeps (keeps_goTo pod (.creating due))
      by_cases hkey : due.key.workflow = S.key
      · obtain ⟨hsettled, hinstant⟩ := h.claimed_turn hdur hsecs hphase hkey hgrows
          List.mem_cons_self List.mem_cons_self
        refine ⟨hticks, fun _ _ ↦ Phase.noConfusion, fun due' hdue' _ ↦ ?_,
          fun due' hdue' _ ↦ ?_, .inr hsettled⟩
        · cases hdue'
          exact hinstant
        · cases hdue'
          exact List.mem_cons_self
      · refine hticks.aside (aside_of_due rfl hkey) ?_
        exact (h.turn_of_aside (aside_of_due hdue hkey)).imp_right
          fun hsettled ↦ hsettled.grows hgrows id rfl
    · next w₁ hclaim =>
      have hsnd : (w.claimFire due.key dbNow).2 = w₁ := congrArg Prod.snd hclaim
      obtain ⟨hsame, htaken⟩ := claimFire_of_false (congrArg Prod.fst hclaim)
      rw [← hsnd, hsame]
      refine ⟨_, hput w rfl _, Serves.grows (hplace w _) ?_⟩
      by_cases hkey : due.key.workflow = S.key
      · have hfire := htaken (hkey ▸ hhas)
        obtain ⟨hsettled, hinstant⟩ := h.claimed_turn hdur hsecs hphase hkey
          (grows_of_eq rfl rfl) hfire (hclaimedOf hfire)
        exact (h.ticks.markFired hdur hsecs (hclaimedOf hfire) hkey hinstant).aside
          (aside_of_looping rfl) (.inr (hsettled.markFired due))
      · refine (h.ticks.keeps (aside_markFired hkey)).aside (aside_of_looping rfl) ?_
        rw [rest_markFired]
        exact (h.turn_of_aside (aside_of_due hdue hkey)).imp_right
          fun hsettled ↦ hsettled.markFired due
  · next due hphase =>
    have hclaims : claims pod.phase = some due := by rw [hphase]; rfl
    have hturn := h.turn_of_claims hclaims
    dsimp only
    split
    · next w₁ hcreate =>
      have hsnd : (w.createRun due runId pod.now).2 = w₁ := congrArg Prod.snd hcreate
      rw [← hsnd, createRun_of_true (congrArg Prod.fst hcreate)]
      have hserves : S.Serves t₀ w (pod.goTo (.attaching due runId)) := by
        refine ⟨h.ticks.keeps (keeps_goTo pod _), fun _ _ ↦ Phase.noConfusion, fun due' hdue' ↦ ?_,
          fun due' hdue' ↦ ?_, hturn.imp_left fun hrest ↦ .inl ⟨Phase.noConfusion, hrest⟩⟩
        · cases hdue'
          exact h.due due (due_of_claims hclaims)
        · cases hdue'
          exact h.claimed due hclaims
      exact ⟨_, hput _ rfl _, hserves.grows (grows_of_eq (w := w) rfl rfl)⟩
    · next w₁ hcreate =>
      have hsnd : (w.createRun due runId pod.now).2 = w₁ := congrArg Prod.snd hcreate
      rw [← hsnd, createRun_of_false (congrArg Prod.fst hcreate)]
      exact ⟨_, hput w rfl _, Serves.grows (hplace w _)
        ((h.ticks.keeps (keeps_goTo pod _)).aside (aside_of_looping rfl) hturn)⟩
  · next due runId' hphase =>
    have hclaims : claims pod.phase = some due := by rw [hphase]; rfl
    have hgrows : S.Grows w (w.attachRun due.key runId') := by
      refine grows_of_fireKeys (fun k hk ↦ ?_) fun k hk ↦ ?_
      · rw [World.attachRun]
        split_ifs <;> exact hk
      · rwa [fireKeys_attachRun]
    have hpods : (w.attachRun due.key runId').pods = w.pods := by
      rw [World.attachRun]
      split_ifs <;> rfl
    refine ⟨_, hput (w.attachRun due.key runId') hpods _,
      Serves.grows ⟨hgrows.claimed, hgrows.fires⟩ ?_⟩
    have hturn := h.turn_of_claims hclaims
    by_cases hkey : due.key.workflow = S.key
    · have hticks := h.ticks.markFired hdur hsecs (h.claimed due hclaims hkey) hkey
        (h.due due (due_of_claims hclaims) hkey)
      refine hticks.aside (aside_of_looping rfl) ?_
      rw [rest_markFired]
      exact hturn.imp_right fun hsettled ↦ hsettled.markFired due
    · refine (h.ticks.keeps (aside_markFired hkey)).aside (aside_of_looping rfl) ?_
      rw [rest_markFired]
      exact hturn.imp_right fun hsettled ↦ hsettled.markFired due

omit hdur hsecs in
theorem Serves.wake (h : S.Serves t₀ w pod) (hasleep : pod.phase = .asleep) {now : ℤ}
    (hallows : S.Allows w (.wake S.p now false)) :
    S.Serves t₀ w ⟨pod.lastFired, now, w.listAllEnabledWorkflows.map WorkflowRecord.key,
      w.listAllEnabledWorkflows, .looping⟩ := by
  obtain ⟨-, hdate, ⟨r, hr, hkey⟩, hlists⟩ := hallows rfl
  have hknown : S.Known w pod := by
    rcases h.turn with (⟨hawake, -⟩ | ⟨dur, channelId, hphase⟩ | ⟨due, hphase, -⟩) | hsettled
    · exact absurd hasleep hawake
    · rw [hasleep] at hphase
      cases hphase
    · rw [hasleep] at hphase
      cases hphase
    · exact hsettled.1
  have hticks : S.Ticks t₀ w ⟨pod.lastFired, now, w.listAllEnabledWorkflows.map WorkflowRecord.key,
      w.listAllEnabledWorkflows, .looping⟩ :=
    ⟨h.ticks.clock, hdate, hlists, List.mem_map.mpr ⟨r, hr, hkey⟩, .inr hknown⟩
  exact hticks.aside (aside_of_looping rfl) (.inl ⟨r, hr, hkey⟩)

structure Served (S : Service) (t₀ : ℤ) (w : World) : Prop where
  inv : w.Inv S.U S.C
  hasWorkflow : w.hasWorkflow S.key = true
  serves : ∃ pod, w.pods[S.p]? = some pod ∧ S.Serves t₀ w pod

omit hdur hsecs in
/-- What another pod does leaves this one alone and removes no claim. -/
theorem Served.other (h : S.Served t₀ w) {q : ℕ} {old new : Pod} {claims : List FireKey}
    {fired done : List Firing} (hne : q ≠ S.p)
    (hmove : PodMoved S.U S.C w w' q old new claims fired done) : S.Served t₀ w' := by
  obtain ⟨hinv, hhas, pod, hpod, hserves⟩ := h
  refine ⟨hmove.inv hinv, ?_, pod, ?_, hserves.grows (grows_of_fireKeys ?_ ?_)⟩
  · rwa [World.hasWorkflow, hmove.workflows]
  · rwa [hmove.pods, List.getElem?_set_ne hne]
  · rw [hmove.claimed]
    exact fun k hk ↦ List.mem_append_right _ hk
  · rw [hmove.keys]
    exact fun k hk ↦ List.mem_append_right _ hk

omit hdur hsecs in
theorem Served.keepFires (h : S.Served t₀ w) {stays : Fire → Bool}
    (hstays : ∀ f ∈ w.fires, f.key.workflow = S.key → stays f = true) :
    S.Served t₀ (w.keepFires stays) := by
  obtain ⟨hinv, hhas, pod, hpod, hserves⟩ := h
  refine ⟨inv_keepFires hinv stays, hhas, pod, hpod, hserves.grows ⟨?_, ?_⟩⟩
  · exact fun _ hk ↦ hk
  · exact fun f hf hkey ↦ ⟨f, List.mem_filter.mpr ⟨hf, hstays f hf hkey⟩, hkey⟩

theorem Served.step (h : S.Served t₀ w) {op : Op} (hop : S.Allows w op) :
    S.Served t₀ (w.step S.U S.C op) := by
  obtain ⟨hinv, hhas, pod, hpod, hserves⟩ := id h
  cases op with
  | wake q now failed =>
    rw [World.step]
    split
    · next old hold =>
      split_ifs with hgo
      · by_cases hq : q = S.p
        · subst hq
          cases hpod.symm.trans hold
          rw [Bool.and_eq_true, decide_eq_true_eq, Bool.not_eq_true'] at hgo
          obtain ⟨hasleep, rfl⟩ := hgo
          have hfree : Pod.Free S.U S.C ⟨pod.lastFired, now,
              w.listAllEnabledWorkflows.map WorkflowRecord.key, w.listAllEnabledWorkflows,
              .looping⟩ := Pod.free_of_looping rfl
          have hmove := podMoved_free hold hfree
          have hlt := (List.getElem?_eq_some_iff.mp hpod).1
          exact ⟨hmove.inv hinv, hhas, _, List.getElem?_set_self hlt,
            (hserves.wake hasleep hop).grows (grows_of_eq (w := w) rfl rfl)⟩
        · exact h.other hq (podMoved_free hold (Pod.free_of_looping rfl))
      · exact h
    · exact h
  | work q reply dbNow runId =>
    rw [World.step]
    split
    · next old hold =>
      by_cases hq : q = S.p
      · subst hq
        cases hpod.symm.trans hold
        rw [hop rfl]
        have hsame : (w.work S.U S.C S.p .ok dbNow runId pod).workflows = w.workflows := by
          rcases podMoved_work (U := S.U) (C := S.C) hold .ok dbNow runId with
            heq | ⟨_, _, _, _, hmove⟩
          · rw [heq]
          · exact hmove.workflows
        refine ⟨inv_work hinv hold .ok dbNow runId, ?_, ?_⟩
        · rwa [World.hasWorkflow, hsame]
        · exact hserves.work hdur hsecs hinv hhas hold dbNow runId
      · rcases podMoved_work (U := S.U) (C := S.C) hold reply dbNow runId with
          heq | ⟨_, _, _, _, hmove⟩
        · rwa [heq]
        · exact h.other hq hmove
    · exact h
  | crash q =>
    cases hold : w.pods[q]? with
    | some old => exact h.other hop (podMoved_free hold Pod.free_start)
    | none =>
      have hset : w.setPod q .start = w := by
        rw [World.setPod, List.set_eq_of_length_le (List.getElem?_eq_none_iff.mp hold)]
      rwa [World.step, hset]
  | prune olderThan => exact h.keepFires fun f hf hkey ↦ decide_eq_true (hop f hf hkey)
  | edit workflows =>
    have hhas' : (⟨workflows, w.fires, w.runs, w.pods, w.claimed, w.removed, w.firings,
        w.started⟩ : World).hasWorkflow S.key = true := by
      obtain ⟨r, hr, hkey⟩ := hop
      exact List.any_eq_true.mpr ⟨r, hr, decide_eq_true hkey⟩
    have hedited : S.Served t₀ { w with workflows := workflows } :=
      ⟨inv_congr hinv rfl rfl rfl rfl rfl rfl, hhas', pod, hpod,
        hserves.grows (grows_of_eq (w := w) rfl rfl)⟩
    have hstays : ∀ f ∈ w.fires, f.key.workflow = S.key →
        World.hasWorkflow { w with workflows := workflows } f.key.workflow = true := by
      intro f _ hkey
      rw [hkey]
      exact hhas'
    obtain ⟨hinv', -, pod', hpod', hserves'⟩ := hedited.keepFires hstays
    refine ⟨inv_congr hinv' rfl rfl rfl rfl rfl rfl, hhas', pod', hpod', Serves.grows ?_ hserves'⟩
    exact grows_of_eq rfl rfl

theorem Served.after (h : S.Served t₀ w) {ops : List Op}
    (hops : ∀ pre op, pre ++ [op] <+: ops → S.Allows (S.after w pre) op) :
    S.Served t₀ (S.after w ops) :=
  forall_prefix_of_steps (fun w op ↦ World.step S.U S.C w op) (S.Served t₀)
    (fun w op ↦ ¬S.Allows w op) h (fun _ _ hserved hop ↦ hserved.step hdur hsecs (not_not.mp hop))
    (fun pre op hpre ↦ not_not.mpr (hops pre op hpre)) ops (List.prefix_refl ops)

end Steps

/-- A pod that begins to serve an interval workflow at `t₀` and stays healthy: whenever it sleeps,
the time of its last tick is less than an interval after `t₀`, or less than two from an instant that
is claimed, whatever the other pods do. -/
theorem interval_served (S : Service) (n : ℕ) (ops later : List Op) (t₀ : ℤ)
    (hdur : parseDurationSecs S.U S.dur = .ok S.secs) (hsecs : S.secs < 2 ^ 63)
    (hpod : ((World.run S.U S.C n ops).pods[S.p]?).any fun pod ↦
      pod.phase = .asleep && pod.lastFired S.key = none)
    (hwake : S.Allows (World.run S.U S.C n ops) (.wake S.p t₀ false))
    (hlater : ∀ pre op, pre ++ [op] <+: later →
      S.Allows (World.run S.U S.C n (ops ++ .wake S.p t₀ false :: pre)) op) :
    let w := World.run S.U S.C n (ops ++ .wake S.p t₀ false :: later)
    ∃ pod, w.pods[S.p]? = some pod ∧ (pod.phase = .asleep →
      |pod.now - t₀| < S.secs * second ∨ ∃ k ∈ w.claimed, k.workflow = S.key ∧
        |pod.now - k.scheduledFor * second| < 2 * S.secs * second) := by
  intro w
  have hinv : (World.run S.U S.C n ops).Inv S.U S.C := inv_run n ops
  have hrun (pre : List Op) : World.run S.U S.C n (ops ++ .wake S.p t₀ false :: pre) =
      S.after ((World.run S.U S.C n ops).step S.U S.C (.wake S.p t₀ false)) pre := by
    rw [World.run, List.foldl_append, List.foldl_cons]
    rfl
  simp only [hrun] at hlater
  have hw : w = S.after ((World.run S.U S.C n ops).step S.U S.C (.wake S.p t₀ false)) later :=
    hrun later
  generalize World.run S.U S.C n ops = w₀ at *
  obtain ⟨pod₀, hpod₀, hstart⟩ := (Option.any_eq_true _ _).mp hpod
  rw [Bool.and_eq_true, decide_eq_true_eq, decide_eq_true_eq] at hstart
  obtain ⟨hasleep₀, hfresh⟩ := hstart
  obtain ⟨-, hdate, ⟨r, hr, hkey⟩, hlists⟩ := hwake rfl
  have hstep : w₀.step S.U S.C (.wake S.p t₀ false) = w₀.setPod S.p ⟨pod₀.lastFired, t₀,
      w₀.listAllEnabledWorkflows.map WorkflowRecord.key, w₀.listAllEnabledWorkflows,
      .looping⟩ := by
    rw [World.step, hpod₀]
    dsimp only
    rw [hasleep₀]
    rfl
  have hserved : S.Served t₀ (w₀.step S.U S.C (.wake S.p t₀ false)) := by
    refine ⟨inv_step hinv _, ?_, ?_⟩
    · rw [hstep]
      have hmem : r ∈ w₀.workflows := (List.mem_filter.mp (List.mem_of_mem_take hr)).1
      exact List.any_eq_true.mpr ⟨r, hmem, decide_eq_true hkey⟩
    · have hlt := (List.getElem?_eq_some_iff.mp hpod₀).1
      rw [hstep]
      refine ⟨_, List.getElem?_set_self hlt,
        Ticks.aside ⟨fun a ha ↦ ?_, hdate, hlists, ?_, .inl rfl⟩ (aside_of_looping rfl)
          (.inl ⟨r, hr, hkey⟩)⟩
      · cases hfresh.symm.trans ha
      · exact List.mem_map.mpr ⟨r, hr, hkey⟩
  obtain ⟨-, -, pod, hat, hserves⟩ := hw ▸ hserved.after hdur hsecs hlater
  refine ⟨pod, hat, fun hasleep ↦ ?_⟩
  have hsettled : S.Settled t₀ w pod := by
    rcases hserves.turn with (⟨hawake, -⟩ | ⟨_, _, hphase⟩ | ⟨_, hphase, -⟩) | hsettled
    · exact absurd hasleep hawake
    · rw [hasleep] at hphase
      cases hphase
    · rw [hasleep] at hphase
      cases hphase
    · exact hsettled
  obtain ⟨-, a, ha, hclose⟩ := hsettled
  have hnear : |pod.now - a| < S.secs * second := by
    have hdiv : (pod.now - a).natAbs / second.natAbs < S.secs := by
      rwa [Int.natAbs_tdiv] at hclose
    rw [Nat.div_lt_iff_lt_mul (by decide)] at hdiv
    have hsecond : (second.natAbs : ℤ) = second := rfl
    rw [Int.abs_eq_natAbs, ← hsecond]
    exact_mod_cast hdiv
  rcases ha with rfl | ⟨k, hk, hkkey, hle, hlt⟩
  · exact .inl hnear
  · right
    refine ⟨k, hk, hkkey, ?_⟩
    rw [add_mul] at hlt
    rw [abs_lt] at hnear ⊢
    rw [mul_assoc]
    constructor <;> omega

/-- The hourly workflow of a single pod, which runs through two ticks. -/
theorem hourly_served :
    let w := World.run .ascii ⟨fun _ ↦ none⟩ 1 ([.edit [hourly]] ++ .wake 0 0 false ::
      [.work 0 .ok 0 7, .work 0 .ok 0 7, .work 0 .ok 0 7, .wake 0 (3600 * second) false,
        .work 0 .ok 0 7, .work 0 .ok 0 7, .work 0 .ok 0 7, .work 0 .ok 0 7, .work 0 .ok 0 7])
    ∃ pod, w.pods[0]? = some pod ∧ (pod.phase = .asleep →
      |pod.now - 0| < 3600 * second ∨ ∃ k ∈ w.claimed, k.workflow = (1, 2) ∧
        |pod.now - k.scheduledFor * second| < 2 * 3600 * second) :=
  interval_served ⟨.ascii, ⟨fun _ ↦ none⟩, 0, (1, 2), "1h", 3600⟩ 1 [.edit [hourly]] _ 0 (by decide)
    (by decide) (by decide) (by decide) (forall_step_of_lt (by decide))

end Service

end Buzz.Workflow.Scheduler
