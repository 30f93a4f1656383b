import Buzz.Workflow.Schedule
import Mathlib.Data.Int.Interval

namespace Buzz.Workflow.Scheduler

open Buzz.Lib Buzz.Nostr

section Once

variable {U : Unicode} {C : Cron} {w w' : World}

def Due.IsDue (U : Unicode) (C : Cron) (due : Due) (now : ℤ) : Prop :=
  match due.schedule with
  | .cron expr => cronFireInstant U C expr now 60 = some due.key.scheduledFor
  | .interval dur => intervalFireInstant U dur now = some due.key.scheduledFor

def Phase.creates (key : FireKey) : Phase → Bool
  | .creating due => due.key = key
  | _ => false

def Phase.due : Phase → Option Due
  | .claiming due | .creating due | .attaching due _ => some due
  | _ => none

def Pod.attaches (f : Firing) (pod : Pod) : Bool :=
  pod.phase = .attaching f.due f.runId && pod.now = f.now

def World.fireKeys (w : World) : List FireKey := w.fires.map Fire.key

def World.firedKeys (w : World) : List FireKey := w.firings.map fun f ↦ f.due.key

/-- Every claim stands for a row or a row that went, every run and every pod that is about to create
one for a claim, and every execution and every pod that is about to start one for a run. -/
structure World.Inv (U : Unicode) (C : Cron) (w : World) : Prop where
  keys : w.fireKeys.Nodup
  claimed : ∀ key, w.claimed.count key = w.fireKeys.count key + w.removed.count key
  created : ∀ key, w.firedKeys.count key + w.pods.countP (fun pod ↦ pod.phase.creates key) ≤
    w.claimed.count key
  executed : ∀ f, w.started.count f + w.pods.countP (Pod.attaches f) ≤ w.firings.count f
  due : ∀ f ∈ w.firings, f.due.IsDue U C f.now
  holds : ∀ pod ∈ w.pods, ∀ due, pod.phase.due = some due → due.IsDue U C pod.now

structure PodMoved (U : Unicode) (C : Cron) (w w' : World) (p : ℕ) (old new : Pod)
    (claims : List FireKey) (fired done : List Firing) : Prop where
  at_pod : w.pods[p]? = some old
  pods : w'.pods = w.pods.set p new
  workflows : w'.workflows = w.workflows
  keys : w'.fireKeys = claims ++ w.fireKeys
  claimed : w'.claimed = claims ++ w.claimed
  removed : w'.removed = w.removed
  firings : w'.firings = fired ++ w.firings
  started : w'.started = done ++ w.started
  fresh : claims.Nodup ∧ ∀ key ∈ claims, key ∉ w.fireKeys
  creates : ∀ key, (fired.map fun f ↦ f.due.key).count key + (new.phase.creates key).toNat ≤
    claims.count key + (old.phase.creates key).toNat
  attaches : ∀ f, done.count f + (new.attaches f).toNat ≤
    fired.count f + (old.attaches f).toNat
  due : ∀ f ∈ fired, old.phase.due = some f.due ∧ old.now = f.now
  holds : ∀ due, new.phase.due = some due →
    due.IsDue U C new.now ∨ old.phase.due = some due ∧ old.now = new.now

theorem countP_set_add {α : Type*} {l : List α} {i : ℕ} {a b : α} (h : l[i]? = some b)
    (q : α → Bool) : (l.set i a).countP q + (q b).toNat = l.countP q + (q a).toNat := by
  obtain ⟨hi, hb⟩ := List.getElem?_eq_some_iff.mp h
  have hpos : (q b).toNat ≤ l.countP q := by
    cases hq : q b with
    | false => exact Nat.zero_le _
    | true => exact List.countP_pos_iff.mpr ⟨b, hb ▸ List.getElem_mem hi, hq⟩
  have hset : ∀ c : Bool, (if c = true then 1 else 0) = c.toNat := by decide
  rw [List.countP_set hi, hb, hset, hset]
  omega

theorem PodMoved.inv {p : ℕ} {old new : Pod} {claims : List FireKey} {fired done : List Firing}
    (h : PodMoved U C w w' p old new claims fired done) (hinv : w.Inv U C) : w'.Inv U C := by
  have hold : old ∈ w.pods := List.mem_of_getElem? h.at_pod
  constructor
  case keys =>
    rw [h.keys, List.nodup_append]
    refine ⟨h.fresh.1, hinv.keys, fun key hkey key' hkey' heq ↦ ?_⟩
    exact h.fresh.2 key hkey (heq ▸ hkey')
  case claimed =>
    intro key
    rw [h.claimed, h.keys, h.removed, List.count_append, List.count_append, hinv.claimed key]
    omega
  case created =>
    intro key
    have hset := countP_set_add (a := new) h.at_pod fun pod ↦ pod.phase.creates key
    have hbefore := hinv.created key
    have hmove := h.creates key
    rw [World.firedKeys, h.firings, h.pods, h.claimed, List.map_append, List.count_append,
      List.count_append]
    rw [World.firedKeys] at hbefore
    omega
  case executed =>
    intro f
    have hset := countP_set_add (a := new) h.at_pod (Pod.attaches f)
    have hbefore := hinv.executed f
    have hmove := h.attaches f
    rw [h.started, h.firings, h.pods, List.count_append, List.count_append]
    omega
  case due =>
    intro f hf
    rw [h.firings] at hf
    rcases List.mem_append.mp hf with hf | hf
    · obtain ⟨hdue, hnow⟩ := h.due f hf
      exact hnow ▸ hinv.holds old hold f.due hdue
    · exact hinv.due f hf
  case holds =>
    intro pod hpod due hdue
    rw [h.pods] at hpod
    rcases List.mem_or_eq_of_mem_set hpod with hpod | rfl
    · exact hinv.holds pod hpod due hdue
    · rcases h.holds due hdue with hnew | ⟨hsame, hnow⟩
      · exact hnew
      · exact hnow ▸ hinv.holds old hold due hsame

/-- A phase that is entitled to nothing yet; a claim that it is about to make is due. -/
structure Pod.Free (U : Unicode) (C : Cron) (pod : Pod) : Prop where
  creates : ∀ key, pod.phase.creates key = false
  attaches : ∀ f, pod.attaches f = false
  due : ∀ due, pod.phase.due = some due → due.IsDue U C pod.now

theorem Pod.free_of_looping {pod : Pod} (h : pod.phase = .looping) : pod.Free U C where
  creates key := by rw [h]; rfl
  attaches f := by rw [Pod.attaches, h]; rfl
  due due hdue := by rw [h] at hdue; cases hdue

theorem Pod.free_claimFor {pod : Pod} {key : WorkflowKey} {schedule : Schedule} {channelId : Uuid}
    {instant : Option ℤ}
    (h : ∀ t, instant = some t → Due.IsDue U C ⟨⟨key, t⟩, schedule, channelId⟩ pod.now) :
    (pod.claimFor key schedule channelId instant).Free U C := by
  cases instant with
  | none => exact Pod.free_of_looping rfl
  | some t =>
    refine ⟨fun key ↦ rfl, fun f ↦ rfl, fun due hdue ↦ ?_⟩
    cases hdue
    exact h t rfl

theorem Pod.free_onAnchor (pod : Pod) (key : WorkflowKey) (dur : String) (channelId : Uuid)
    (last : Option ℤ) : (pod.onAnchor U key dur channelId last).Free U C := by
  rw [Pod.onAnchor]
  dsimp only
  split_ifs
  · exact Pod.free_claimFor fun t ht ↦ ht
  · exact Pod.free_of_looping rfl

theorem Pod.free_onSchedule {pod : Pod} (h : pod.phase = .looping) (key : WorkflowKey)
    (channelId : Uuid) (schedule : Option Schedule) :
    (pod.onSchedule U C key channelId schedule).Free U C := by
  rcases schedule with _ | expr | dur
  · exact Pod.free_of_looping h
  · exact Pod.free_claimFor fun t ht ↦ ht
  · rw [Pod.onSchedule]
    split
    · exact Pod.free_onAnchor _ _ _ _ _
    · exact ⟨fun key ↦ rfl, fun f ↦ rfl, fun due hdue ↦ by cases hdue⟩

theorem Pod.free_next {pod : Pod} (h : pod.phase = .looping) : (pod.next U C).Free U C := by
  rw [Pod.next]
  split
  · exact ⟨fun key ↦ rfl, fun f ↦ rfl, fun due hdue ↦ by cases hdue⟩
  · dsimp only
    split
    · split_ifs
      · exact Pod.free_onSchedule (by exact h) _ _ _
      · exact Pod.free_of_looping h
    · exact Pod.free_of_looping h

theorem Pod.free_start : Pod.start.Free U C :=
  ⟨fun _ ↦ rfl, fun _ ↦ rfl, fun _ hdue ↦ by cases hdue⟩

theorem podMoved_free {p : ℕ} {old new : Pod} (h : w.pods[p]? = some old) (hnew : new.Free U C) :
    PodMoved U C w (w.setPod p new) p old new [] [] [] where
  at_pod := h
  pods := rfl
  workflows := rfl
  keys := rfl
  claimed := rfl
  removed := rfl
  firings := rfl
  started := rfl
  fresh := ⟨List.nodup_nil, fun _ hkey ↦ by cases hkey⟩
  creates key := by rw [hnew.creates key]; exact Nat.zero_le _
  attaches f := by rw [hnew.attaches f]; exact Nat.zero_le _
  due _ hf := by cases hf
  holds due hdue := .inl (hnew.due due hdue)

theorem hasFire_iff {key : FireKey} : w.hasFire key = true ↔ key ∈ w.fireKeys := by
  rw [World.hasFire, World.fireKeys, List.any_eq_true, List.mem_map]
  exact exists_congr fun f ↦ and_congr_right fun _ ↦ decide_eq_true_iff

theorem claimFire_of_true {key : FireKey} {dbNow : ℤ} (h : (w.claimFire key dbNow).1 = true) :
    (w.claimFire key dbNow).2 =
        { w with fires := ⟨key, dbNow, none⟩ :: w.fires, claimed := key :: w.claimed } ∧
      key ∉ w.fireKeys := by
  rw [World.claimFire] at h ⊢
  split_ifs at h ⊢ with hcond
  rw [Bool.and_eq_true, Bool.not_eq_true'] at hcond
  refine ⟨rfl, fun hin ↦ ?_⟩
  rw [hasFire_iff.mpr hin] at hcond
  cases hcond.2

theorem claimFire_of_false {key : FireKey} {dbNow : ℤ} (h : (w.claimFire key dbNow).1 = false) :
    (w.claimFire key dbNow).2 = w ∧ (w.hasWorkflow key.workflow = true → key ∈ w.fireKeys) := by
  rw [World.claimFire] at h ⊢
  split_ifs at h ⊢ with hcond
  refine ⟨rfl, fun hhas ↦ hasFire_iff.mp ?_⟩
  by_contra hno
  rw [Bool.not_eq_true] at hno
  exact hcond (by rw [hhas, hno]; rfl)

theorem createRun_of_true {due : Due} {runId : Uuid} {now : ℤ}
    (h : (w.createRun due runId now).1 = true) :
    (w.createRun due runId now).2 =
      { w with
        runs := (due.key.workflow.1, runId, due.key.workflow.2) :: w.runs
        firings := ⟨due, runId, now⟩ :: w.firings } := by
  rw [World.createRun] at h ⊢
  split_ifs at h ⊢
  rfl

theorem createRun_of_false {due : Due} {runId : Uuid} {now : ℤ}
    (h : (w.createRun due runId now).1 = false) : (w.createRun due runId now).2 = w := by
  rw [World.createRun] at h ⊢
  split_ifs at h ⊢
  rfl

/-- A claim that is inserted, whose reply comes or is lost. -/
theorem podMoved_claim {p : ℕ} {old new : Pod} {due : Due} {dbNow : ℤ} (h : w.pods[p]? = some old)
    (hold : old.phase = .claiming due) (hclaim : (w.claimFire due.key dbNow).1 = true)
    (hnew : new = old.goTo (.creating due) ∨ new = old.goTo .looping) :
    PodMoved U C w ((w.claimFire due.key dbNow).2.setPod p new) p old new [due.key] [] [] := by
  obtain ⟨hworld, hfree⟩ := claimFire_of_true hclaim
  rw [hworld]
  refine ⟨h, rfl, rfl, rfl, rfl, rfl, rfl, rfl,
    ⟨List.nodup_singleton _, ?_⟩, fun key ↦ ?_, fun f ↦ ?_,
    fun _ hf ↦ (List.not_mem_nil hf).elim, fun due' hdue ↦ ?_⟩
  · intro key hkey
    rwa [List.mem_singleton.mp hkey]
  · rw [List.map_nil, List.count_nil, Nat.zero_add, hold]
    rcases hnew with rfl | rfl
    · rw [Pod.goTo, Phase.creates, List.count_singleton]
      by_cases hkey : due.key = key <;> simp [hkey]
    · exact Nat.zero_le _
  · rcases hnew with rfl | rfl
    · exact Nat.zero_le _
    · exact Nat.zero_le _
  · rcases hnew with rfl | rfl
    · exact .inr ⟨by rw [hold]; exact hdue, rfl⟩
    · cases hdue

/-- A run that is created, whose reply comes or is lost. -/
theorem podMoved_create {p : ℕ} {old new : Pod} {due : Due} {runId : Uuid}
    (h : w.pods[p]? = some old) (hold : old.phase = .creating due)
    (hcreate : (w.createRun due runId old.now).1 = true)
    (hnew : new = old.goTo (.attaching due runId) ∨ new = old.goTo .looping) :
    PodMoved U C w ((w.createRun due runId old.now).2.setPod p new) p old new []
      [⟨due, runId, old.now⟩] [] := by
  rw [createRun_of_true hcreate]
  refine ⟨h, rfl, rfl, rfl, rfl, rfl, rfl, rfl,
    ⟨List.nodup_nil, fun _ hkey ↦ (List.not_mem_nil hkey).elim⟩,
    fun key ↦ ?_, fun f ↦ ?_, fun f hf ↦ ?_, fun due' hdue ↦ ?_⟩
  · rw [hold]
    rcases hnew with rfl | rfl <;> simp [Pod.goTo, Phase.creates, List.count_singleton] <;>
      by_cases hkey : due.key = key <;> simp [hkey]
  · rcases hnew with rfl | rfl
    · rw [List.count_nil, Nat.zero_add, List.count_singleton, Pod.attaches, Pod.goTo]
      by_cases hf : (⟨due, runId, old.now⟩ : Firing) = f
      · rw [hf, beq_self_eq_true, if_pos rfl]
        exact (Bool.toNat_le _).trans (Nat.le_add_right _ _)
      · have hno : (decide (Phase.attaching due runId = .attaching f.due f.runId) &&
            decide (old.now = f.now)) = false := by
          rw [Bool.and_eq_false_imp, decide_eq_true_eq, decide_eq_false_iff_not]
          intro hphase hnow
          cases f
          cases hphase
          exact hf (by rw [hnow])
        rw [hno]
        exact Nat.zero_le _
    · exact Nat.zero_le _
  · rw [List.mem_singleton.mp hf]
    exact ⟨by rw [hold]; rfl, rfl⟩
  · rcases hnew with rfl | rfl
    · exact .inr ⟨by rw [hold]; exact hdue, rfl⟩
    · cases hdue

theorem fireKeys_attachRun (w : World) (key : FireKey) (runId : Uuid) :
    (w.attachRun key runId).fireKeys = w.fireKeys := by
  rw [World.attachRun]
  split_ifs
  · rw [World.fireKeys, List.map_map]
    refine List.map_congr_left fun f _ ↦ ?_
    rw [Function.comp_apply]
    split_ifs <;> rfl
  · rfl

theorem podMoved_attach {p : ℕ} {old new : Pod} {due : Due} {runId : Uuid} {w₁ : World}
    (h : w.pods[p]? = some old) (hold : old.phase = .attaching due runId)
    (hnew : new.phase = .looping) (hw₁ : w₁ = w ∨ w₁ = w.attachRun due.key runId) :
    PodMoved U C w { w₁.setPod p new with started := ⟨due, runId, old.now⟩ :: w₁.started }
      p old new [] [] [⟨due, runId, old.now⟩] := by
  have hsame : w₁.pods = w.pods ∧ w₁.workflows = w.workflows ∧
      w₁.fireKeys = w.fireKeys ∧ w₁.claimed = w.claimed ∧
      w₁.removed = w.removed ∧ w₁.firings = w.firings ∧ w₁.started = w.started := by
    rcases hw₁ with rfl | rfl
    · exact ⟨rfl, rfl, rfl, rfl, rfl, rfl, rfl⟩
    · refine ⟨?_, ?_, fireKeys_attachRun w _ _, ?_, ?_, ?_, ?_⟩ <;>
        (rw [World.attachRun]; split_ifs <;> rfl)
  obtain ⟨hpods, hworkflows, hkeys, hclaimed, hremoved, hfirings, hstarted⟩ := hsame
  have hfree : new.Free U C := Pod.free_of_looping hnew
  constructor
  case at_pod => exact h
  case pods => exact congrArg (·.set p new) hpods
  case workflows => exact hworkflows
  case keys => exact hkeys
  case claimed => exact hclaimed
  case removed => exact hremoved
  case firings => exact hfirings
  case started => exact congrArg (_ :: ·) hstarted
  case fresh => exact ⟨List.nodup_nil, fun _ hkey ↦ (List.not_mem_nil hkey).elim⟩
  case creates =>
    intro key
    rw [hfree.creates key]
    exact Nat.zero_le _
  case attaches =>
    intro f
    rw [hfree.attaches f, List.count_singleton, Pod.attaches, hold]
    by_cases hf : (⟨due, runId, old.now⟩ : Firing) = f
    · subst hf
      simp
    · simp [hf]
  case due => exact fun _ hf ↦ (List.not_mem_nil hf).elim
  case holds => exact fun due hdue ↦ .inl (hfree.due due hdue)

theorem inv_keepFires (hinv : w.Inv U C) (stays : Fire → Bool) : (w.keepFires stays).Inv U C where
  keys := hinv.keys.sublist (List.filter_sublist.map _)
  claimed key := by
    have hsplit := ((List.filter_append_perm stays w.fires).map Fire.key).count_eq key
    rw [List.map_append, List.count_append] at hsplit
    have hclaimed := hinv.claimed key
    rw [World.fireKeys] at hclaimed
    show w.claimed.count key = ((w.fires.filter stays).map Fire.key).count key +
      ((w.fires.filter fun f ↦ !stays f).map Fire.key ++ w.removed).count key
    rw [List.count_append]
    omega
  created := hinv.created
  executed := hinv.executed
  due := hinv.due
  holds := hinv.holds

/-- Workflows and runs do not matter to the books. -/
theorem inv_congr (hinv : w.Inv U C) (hfires : w'.fires = w.fires) (hpods : w'.pods = w.pods)
    (hclaimed : w'.claimed = w.claimed) (hremoved : w'.removed = w.removed)
    (hfirings : w'.firings = w.firings) (hstarted : w'.started = w.started) : w'.Inv U C where
  keys := by rw [World.fireKeys, hfires]; exact hinv.keys
  claimed := by rw [World.fireKeys, hfires, hclaimed, hremoved]; exact hinv.claimed
  created := by rw [World.firedKeys, hfirings, hpods, hclaimed]; exact hinv.created
  executed := by rw [hstarted, hpods, hfirings]; exact hinv.executed
  due := by rw [hfirings]; exact hinv.due
  holds := by rw [hpods]; exact hinv.holds

theorem inv_start (n : ℕ) : (World.start n).Inv U C where
  keys := List.nodup_nil
  claimed _ := rfl
  created key := by
    have hnone : (World.start n).pods.countP (fun pod ↦ pod.phase.creates key) = 0 := by
      rw [List.countP_eq_zero]
      intro pod hpod
      rw [List.eq_of_mem_replicate hpod, Pod.free_start (U := U) (C := C) |>.creates key]
      exact Bool.false_ne_true
    rw [hnone]
    exact le_rfl
  executed f := by
    have hnone : (World.start n).pods.countP (Pod.attaches f) = 0 := by
      rw [List.countP_eq_zero]
      intro pod hpod
      rw [List.eq_of_mem_replicate hpod, Pod.free_start (U := U) (C := C) |>.attaches f]
      exact Bool.false_ne_true
    rw [hnone]
    exact le_rfl
  due _ hf := (List.not_mem_nil hf).elim
  holds pod hpod := by
    rw [List.eq_of_mem_replicate hpod]
    exact Pod.free_start.due

theorem podMoved_work {p : ℕ} {pod : Pod} (h : w.pods[p]? = some pod) (reply : Reply) (dbNow : ℤ)
    (runId : Uuid) :
    w.work U C p reply dbNow runId pod = w ∨ ∃ new claims fired done,
      PodMoved U C w (w.work U C p reply dbNow runId pod) p pod new claims fired done := by
  have hloop : (pod.goTo .looping).Free U C := Pod.free_of_looping rfl
  rw [World.work]
  split
  · exact .inl rfl
  · next hphase => exact .inr ⟨_, _, _, _, podMoved_free h (Pod.free_next hphase)⟩
  · exact .inr ⟨_, _, _, _, podMoved_free h (Pod.free_onAnchor _ _ _ _ _)⟩
  · next due hphase =>
    right
    cases reply with
    | failed => exact ⟨_, _, _, _, podMoved_free h hloop⟩
    | lost =>
      dsimp only
      cases hclaim : (w.claimFire due.key dbNow).1 with
      | true => exact ⟨_, _, _, _, podMoved_claim h hphase hclaim (.inr rfl)⟩
      | false =>
        rw [(claimFire_of_false hclaim).1]
        exact ⟨_, _, _, _, podMoved_free h hloop⟩
    | ok =>
      dsimp only
      split
      · next w₁ hclaim =>
        have hfst : (w.claimFire due.key dbNow).1 = true := congrArg Prod.fst hclaim
        have hsnd : (w.claimFire due.key dbNow).2 = w₁ := congrArg Prod.snd hclaim
        rw [← hsnd]
        exact ⟨_, _, _, _, podMoved_claim h hphase hfst (.inl rfl)⟩
      · next w₁ hclaim =>
        have hsnd : (w.claimFire due.key dbNow).2 = w₁ := congrArg Prod.snd hclaim
        rw [← hsnd, (claimFire_of_false (congrArg Prod.fst hclaim)).1]
        exact ⟨_, _, _, _, podMoved_free h (Pod.free_of_looping rfl)⟩
  · next due hphase =>
    right
    cases reply with
    | failed => exact ⟨_, _, _, _, podMoved_free h hloop⟩
    | lost =>
      dsimp only
      cases hcreate : (w.createRun due runId pod.now).1 with
      | true => exact ⟨_, _, _, _, podMoved_create h hphase hcreate (.inr rfl)⟩
      | false =>
        rw [createRun_of_false hcreate]
        exact ⟨_, _, _, _, podMoved_free h hloop⟩
    | ok =>
      dsimp only
      split
      · next w₁ hcreate =>
        have hfst : (w.createRun due runId pod.now).1 = true := congrArg Prod.fst hcreate
        have hsnd : (w.createRun due runId pod.now).2 = w₁ := congrArg Prod.snd hcreate
        rw [← hsnd]
        exact ⟨_, _, _, _, podMoved_create h hphase hfst (.inl rfl)⟩
      · next w₁ hcreate =>
        have hsnd : (w.createRun due runId pod.now).2 = w₁ := congrArg Prod.snd hcreate
        rw [← hsnd, createRun_of_false (congrArg Prod.fst hcreate)]
        exact ⟨_, _, _, _, podMoved_free h (Pod.free_of_looping rfl)⟩
  · next due runId' hphase =>
    have hphase' : ((pod.markFired due).goTo .looping).phase = .looping := rfl
    refine .inr ⟨_, _, _, _, podMoved_attach h hphase hphase' ?_⟩
    split_ifs
    · exact .inl rfl
    · exact .inr rfl

theorem inv_work (hinv : w.Inv U C) {p : ℕ} {pod : Pod} (h : w.pods[p]? = some pod)
    (reply : Reply) (dbNow : ℤ) (runId : Uuid) : (w.work U C p reply dbNow runId pod).Inv U C := by
  rcases podMoved_work h reply dbNow runId with hsame | ⟨new, claims, fired, done, hmove⟩
  · rwa [hsame]
  · exact hmove.inv hinv

theorem inv_step (hinv : w.Inv U C) (op : Op) : (w.step U C op).Inv U C := by
  cases op with
  | wake p now failed =>
    rw [World.step]
    split
    · next pod h =>
      split_ifs
      · exact (podMoved_free h (Pod.free_of_looping rfl)).inv hinv
      · exact hinv
    · exact hinv
  | work p reply dbNow runId =>
    rw [World.step]
    split
    · next pod h => exact inv_work hinv h reply dbNow runId
    · exact hinv
  | crash p =>
    cases h : w.pods[p]? with
    | some pod => exact (podMoved_free h Pod.free_start).inv hinv
    | none =>
      have hset : w.pods.set p .start = w.pods :=
        List.set_eq_of_length_le (List.getElem?_eq_none_iff.mp h)
      exact inv_congr hinv rfl hset rfl rfl rfl rfl
  | prune olderThan => exact inv_keepFires hinv _
  | edit workflows =>
    have hedited : ({ w with workflows := workflows } : World).Inv U C :=
      inv_congr hinv rfl rfl rfl rfl rfl rfl
    exact inv_congr (inv_keepFires hedited _) rfl rfl rfl rfl rfl rfl

theorem inv_run (n : ℕ) (ops : List Op) : (World.run U C n ops).Inv U C :=
  List.foldlRecOn ops _ (inv_start n) fun _ hinv op _ ↦ inv_step hinv op

theorem intervalFireInstant_eq {dur : String} {secs : ℕ} {now instant : ℤ}
    (hdur : parseDurationSecs U dur = .ok secs) (hsecs : secs < 2 ^ 63)
    (h : intervalFireInstant U dur now = some instant) :
    0 < secs ∧ instant = timestamp now / secs * secs := by
  rw [intervalFireInstant, hdur] at h
  dsimp only at h
  split_ifs at h with hpos
  have hnat : (UInt64.ofNat secs).toNat = secs :=
    UInt64.toNat_ofNat_of_lt' (hsecs.trans (by decide))
  have hi64 : Db.asI64 (UInt64.ofNat secs) = secs := by
    rw [Db.asI64_of_lt (by omega), hnat]
  rw [hi64] at h
  exact ⟨hpos, Db.fromTimestamp_eq_some h⟩

theorem World.Inv.count_le (hinv : w.Inv U C) (key : FireKey) :
    w.firedKeys.count key ≤ 1 + w.removed.count key := by
  have hcreated := hinv.created key
  have hclaimed := hinv.claimed key
  have hone := List.nodup_iff_count_le_one.mp hinv.keys key
  omega

/-- The runs of an interval trigger whose pods had read a time in a span of `m` intervals. -/
def World.firedIn (w : World) (key : WorkflowKey) (dur : String) (t : ℤ) (span : ℕ) : List Firing :=
  w.firings.filter fun f ↦
    decide (f.due.key.workflow = key) && decide (f.due.schedule = .interval dur) &&
      decide (t ≤ timestamp f.now ∧ timestamp f.now < t + span)

theorem World.Inv.length_firedIn_le (hinv : w.Inv U C) {key : WorkflowKey} {dur : String}
    {secs : ℕ} (hdur : parseDurationSecs U dur = .ok secs) (hsecs : secs < 2 ^ 63)
    (hkept : ∀ k ∈ w.removed, k.workflow ≠ key) (t : ℤ) (m : ℕ) :
    (w.firedIn key dur t (m * secs)).length ≤ m + 1 := by
  have hfacts : ∀ f ∈ w.firedIn key dur t (m * secs), f.due.key.workflow = key ∧ 0 < secs ∧
      f.due.key.scheduledFor = timestamp f.now / secs * secs ∧
      t ≤ timestamp f.now ∧ timestamp f.now < t + (m * secs : ℕ) := by
    intro f hf
    rw [World.firedIn, List.mem_filter] at hf
    simp only [Bool.and_eq_true, decide_eq_true_eq] at hf
    obtain ⟨hmem, ⟨hkey, hschedule⟩, hspan⟩ := hf
    have hdue := hinv.due f hmem
    rw [Due.IsDue, hschedule] at hdue
    obtain ⟨hpos, hinstant⟩ := intervalFireInstant_eq hdur hsecs hdue
    exact ⟨hkey, hpos, hinstant, hspan⟩
  have hnodup : ((w.firedIn key dur t (m * secs)).map fun f ↦ f.due.key).Nodup := by
    rw [List.nodup_iff_count_le_one]
    intro k
    by_cases hk : k ∈ (w.firedIn key dur t (m * secs)).map fun f ↦ f.due.key
    · obtain ⟨f, hf, rfl⟩ := List.mem_map.mp hk
      have hnone : w.removed.count f.due.key = 0 :=
        List.count_eq_zero.mpr fun hin ↦ hkept _ hin (hfacts f hf).1
      have hsub : ((w.firedIn key dur t (m * secs)).map fun f ↦ f.due.key).count f.due.key ≤
          w.firedKeys.count f.due.key :=
        (List.filter_sublist.map _).count_le _
      have hcount := hinv.count_le f.due.key
      omega
    · rw [List.count_eq_zero.mpr hk]
      exact Nat.zero_le 1
  have hbuckets : ((w.firedIn key dur t (m * secs)).map fun f ↦ timestamp f.now / secs).Nodup := by
    have hpairs : (w.firedIn key dur t (m * secs)).Pairwise fun f f' ↦ f.due.key ≠ f'.due.key :=
      List.pairwise_map.mp hnodup
    rw [List.Nodup, List.pairwise_map]
    refine hpairs.imp_of_mem fun {f f'} hf hf' hne heq ↦ hne ?_
    obtain ⟨hkey, -, hinstant, -⟩ := hfacts f hf
    obtain ⟨hkey', -, hinstant', -⟩ := hfacts f' hf'
    have hsched : f.due.key.scheduledFor = f'.due.key.scheduledFor := by
      rw [hinstant, hinstant', heq]
    cases hkeyOf : f.due.key
    cases hkeyOf' : f'.due.key
    rw [hkeyOf] at hkey hsched
    rw [hkeyOf'] at hkey' hsched
    exact FireKey.mk.injEq .. ▸ ⟨hkey.trans hkey'.symm, hsched⟩
  have hrange : ((w.firedIn key dur t (m * secs)).map fun f ↦ timestamp f.now / secs).toFinset ⊆
      Finset.Icc (t / secs) (t / secs + m) := by
    intro q hq
    obtain ⟨f, hf, rfl⟩ := List.mem_map.mp (List.mem_toFinset.mp hq)
    obtain ⟨-, hpos, -, hle, hlt⟩ := hfacts f hf
    have hsecs' : (0 : ℤ) < secs := by exact_mod_cast hpos
    rw [Finset.mem_Icc]
    refine ⟨Int.ediv_le_ediv hsecs' hle, ?_⟩
    calc timestamp f.now / secs
        ≤ (t + (m * secs : ℕ)) / secs := Int.ediv_le_ediv hsecs' hlt.le
      _ = (t + m * secs) / secs := by rw [Nat.cast_mul]
      _ = t / secs + m := Int.add_mul_ediv_right _ _ hsecs'.ne'
  calc (w.firedIn key dur t (m * secs)).length
      = ((w.firedIn key dur t (m * secs)).map fun f ↦ timestamp f.now / secs).toFinset.card := by
        rw [List.toFinset_card_of_nodup hbuckets, List.length_map]
    _ ≤ (Finset.Icc (t / secs : ℤ) (t / secs + m)).card := Finset.card_le_card hrange
    _ = m + 1 := by
        rw [Int.card_Icc]
        omega

/-- Whatever the pods, their clocks, crashes, failures and lost replies: a due instant is fired at
most once, and once more for each time that its claim was removed; what is executed was fired, and
no more often; and an interval is fired at most `m + 1` times in a span of `m` intervals. -/
theorem fires_once (U : Unicode) (C : Cron) (n : ℕ) (ops : List Op) :
    let w := World.run U C n ops
    (∀ key, w.firedKeys.count key ≤ 1 + w.removed.count key) ∧
      (∀ f, w.started.count f ≤ w.firings.count f) ∧
      (∀ f ∈ w.firings, f.due.IsDue U C f.now) ∧
      ∀ key dur secs, parseDurationSecs U dur = .ok secs → secs < 2 ^ 63 →
        (∀ k ∈ w.removed, k.workflow ≠ key) →
        ∀ t m, (w.firedIn key dur t (m * secs)).length ≤ m + 1 := by
  intro w
  have hinv : w.Inv U C := inv_run n ops
  refine ⟨hinv.count_le, fun f ↦ ?_, hinv.due, fun key dur secs hdur hsecs hkept t m ↦ ?_⟩
  · exact (Nat.le_add_right _ _).trans (hinv.executed f)
  · exact hinv.length_firedIn_le hdur hsecs hkept t m

def hourly : WorkflowRecord where
  key := (1, 2)
  channelId := some 3
  definition := some {
    name := "hourly"
    trigger := .schedule none (some "1h")
    steps := [] }
  listed := true

/-- Two pods see the workflow, and an hour later both go for its claim. -/
def hourlyOps : List Op :=
  [.edit [hourly], .wake 0 0 false, .wake 1 0 false] ++
    [0, 0, 0, 1, 1, 1].map (fun p ↦ .work p .ok 0 7) ++
    [.wake 0 (3600 * second) false, .wake 1 (3601 * second) false] ++
    [0, 1, 0, 1, 0, 0, 1].map (fun p ↦ .work p .ok 3600 7)

theorem hourly_fires_once :
    let w := World.run .ascii ⟨fun _ ↦ none⟩ 2 hourlyOps
    w.started.length = 1 ∧ (w.firedIn (1, 2) "1h" 3600 (1 * 3600)).length ≤ 1 + 1 :=
  ⟨by decide, (fires_once .ascii ⟨fun _ ↦ none⟩ 2 hourlyOps).2.2.2 (1, 2) "1h" 3600 (by decide)
    (by decide) (by decide) 3600 1⟩

end Once

end Buzz.Workflow.Scheduler
