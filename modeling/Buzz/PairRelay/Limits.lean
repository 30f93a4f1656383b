import Buzz.PairRelay.Moves

namespace Buzz.PairRelay

open Buzz.Lib Buzz.Nostr

/-- The slot of the connection is taken. -/
def Stage.live : Stage → Bool
  | .closed => false
  | _ => true

/-- The connection may have a subscription. -/
def Stage.attached : Stage → Bool
  | .reading | .verified _ | .reserved _ | .undelivered .. | .leaving => true
  | _ => false

namespace View

variable {setup : Setup} {op : Op} {v v' : View} {c : ℕ} {old stage : Stage}

section Slots

/-- Every slot is one admitted connection or one request about to be refused. -/
structure Counted (v : View) : Prop where
  count : v.relay.connCount = v.stages.countP Stage.live + v.rejecting
  bound : v.stages.countP Stage.live ≤ maxConns

theorem countP_setStage (stage : Stage) (h : v.stages[c]? = some old) (hold : old.live = true) :
    (v.setStage c stage).stages.countP Stage.live + 1 =
      v.stages.countP Stage.live + if stage.live then 1 else 0 := by
  obtain ⟨hlt, hget⟩ := List.getElem?_eq_some_iff.mp h
  have hpos : 0 < v.stages.countP Stage.live :=
    List.countP_pos_iff.mpr ⟨old, List.mem_of_getElem? h, hold⟩
  rw [setStage, List.countP_set hlt, hget, if_pos hold]
  omega

theorem Counted.setStage (h : v.Counted) (hstage : v.stages[c]? = some old) (hold : old.live = true)
    (hnew : stage.live = true) (hcount : v'.relay.connCount = v.relay.connCount)
    (hrejecting : v'.rejecting = v.rejecting) (hstages : v'.stages = (v.setStage c stage).stages) :
    v'.Counted := by
  have hset := countP_setStage stage hstage hold
  rw [if_pos hnew] at hset
  have hcounted := h.count
  have hbound := h.bound
  constructor
  · rw [hcount, hrejecting, hstages]
    omega
  · rw [hstages]
    omega

theorem Counted.moved (h : v.Counted) (hmoved : Moved setup v op v') : v'.Counted := by
  have hcount := h.count
  have hbound := h.bound
  cases hmoved with
  | refused =>
    refine ⟨?_, hbound⟩
    dsimp only
    omega
  | admitted hroom =>
    have hadd : (v.stages ++ [Stage.upgrading]).countP Stage.live = v.stages.countP Stage.live + 1 := by
      rw [List.countP_append]
      rfl
    constructor
    · dsimp only
      omega
    · dsimp only
      omega
  | rejected hpos =>
    refine ⟨?_, hbound⟩
    dsimp only
    omega
  | upgraded c now hstage => exact h.setStage hstage rfl rfl rfl rfl rfl
  | uncounted _ c stage hstage hor =>
    have hlive : stage.live = true := by
      rcases hor with rfl | rfl
      · rfl
      · rfl
    have hset := countP_setStage .closed hstage hlive
    simp only [Stage.live, Bool.false_eq_true, if_false] at hset
    constructor
    · dsimp only [View.setStage] at hset ⊢
      omega
    · dsimp only [View.setStage] at hset ⊢
      omega
  | framed c frame now hstage hnow hframed =>
    cases hframed with
    | quiet | subscribed | unsubscribed => exact ⟨hcount, hbound⟩
    | leave => exact h.setStage hstage rfl rfl rfl rfl rfl
    | verified p => exact h.setStage hstage rfl rfl rfl rfl rfl
  | notReserved c now stamp p hstage =>
    exact h.setStage hstage rfl rfl (by rw [Relay.reserveId_eq]) rfl rfl
  | reserved c now stamp p hstage =>
    exact h.setStage hstage rfl rfl (by rw [Relay.reserveId_eq]) rfl rfl
  | delivered c now stamp p sub hstage => exact h.setStage hstage rfl rfl rfl rfl rfl
  | undelivered c now stamp p reason delivered hstage =>
    exact h.setStage hstage rfl rfl rfl rfl rfl
  | unreserved c p reason hstage =>
    exact h.setStage hstage rfl rfl (by rw [Relay.unreserveId_eq]) rfl rfl
  | stopped c hstage => exact h.setStage hstage rfl rfl rfl rfl rfl
  | removedSub _ c stage stage' hstage hor =>
    rcases hor with ⟨rfl, rfl⟩ | ⟨rfl | rfl, rfl⟩
    · exact h.setStage hstage rfl rfl rfl rfl rfl
    · exact h.setStage hstage rfl rfl rfl rfl rfl
    · exact h.setStage hstage rfl rfl rfl rfl rfl
  | channel => exact h

end Slots

section Subscriptions

/-- One live subscription for each pubkey and for each connection, which knows it. -/
structure Subscribed (v : View) : Prop where
  recipients : (v.relay.subs.map Sub.pValue).Nodup
  conns : (v.relay.subs.map Sub.connId).Nodup
  owner : ∀ sub ∈ v.relay.subs, v.subIds[sub.connId]? = some (some sub.subId) ∧
    ∃ stage, v.stages[sub.connId]? = some stage ∧ stage.attached = true

theorem Subscribed.setStage (h : v.Subscribed) (hstage : v.stages[c]? = some old)
    (hnew : stage.attached = true ∨ old.attached = false) (hsubs : v'.relay.subs = v.relay.subs)
    (hsubIds : v'.subIds = v.subIds) (hstages : v'.stages = (v.setStage c stage).stages) :
    v'.Subscribed := by
  refine ⟨hsubs ▸ h.recipients, hsubs ▸ h.conns, ?_⟩
  intro sub hsub
  obtain ⟨hid, stage', hstage', hattached⟩ := h.owner sub (hsubs ▸ hsub)
  refine ⟨hsubIds ▸ hid, ?_⟩
  rw [hstages, View.setStage, List.getElem?_set]
  split
  case isTrue hc =>
    rw [← hc, hstage, Option.some.injEq] at hstage'
    subst hstage'
    rw [if_pos (List.getElem?_eq_some_iff.mp hstage).1]
    rcases hnew with hnew | hold
    · exact ⟨stage, rfl, hnew⟩
    · rw [hold] at hattached
      cases hattached
  · exact ⟨stage', hstage', hattached⟩

/-- Steps that take the subscriptions of one connection out. -/
theorem Subscribed.removeSub (h : v.Subscribed) (hsubs : v'.relay.subs = (v.relay.removeSub c).subs)
    (hsubIds : ∀ i, i ≠ c → v'.subIds[i]? = v.subIds[i]?)
    (hstages : ∀ i, i ≠ c → v'.stages[i]? = v.stages[i]?) : v'.Subscribed := by
  have hsublist : List.Sublist v'.relay.subs v.relay.subs := hsubs ▸ List.filter_sublist
  refine ⟨h.recipients.sublist (hsublist.map _), h.conns.sublist (hsublist.map _), ?_⟩
  intro sub hsub
  rw [hsubs] at hsub
  obtain ⟨hmem, hne⟩ := List.mem_filter.mp hsub
  rw [hsubIds _ (of_decide_eq_true hne), hstages _ (of_decide_eq_true hne)]
  exact h.owner sub hmem

theorem Subscribed.subscribed {subId : String} {p : PublicKey} (h : v.Subscribed)
    (hstage : v.stages[c]? = some .reading) (hnone : v.subIds[c]? = some none)
    (hfresh : ∀ sub ∈ v.relay.subs, sub.pValue ≠ p) (hclock : v'.stages = v.stages)
    (hsubIds : v'.subIds = v.subIds.set c (some subId))
    (hsubs : v'.relay.subs = v.relay.subs ++ [⟨c, subId, p⟩]) : v'.Subscribed := by
  have hother : ∀ sub ∈ v.relay.subs, sub.connId ≠ c := by
    rintro sub hsub rfl
    have hid := (h.owner sub hsub).1
    rw [hnone] at hid
    cases hid
  refine ⟨?_, ?_, ?_⟩
  · rw [hsubs, List.map_append]
    refine h.recipients.append (List.nodup_singleton _) ?_
    intro q hq hp
    obtain ⟨sub, hsub, rfl⟩ := List.mem_map.mp hq
    exact hfresh sub hsub (List.mem_singleton.mp hp)
  · rw [hsubs, List.map_append]
    refine h.conns.append (List.nodup_singleton _) ?_
    intro i hi hc
    obtain ⟨sub, hsub, rfl⟩ := List.mem_map.mp hi
    exact hother sub hsub (List.mem_singleton.mp hc)
  · intro sub hsub
    rw [hclock, hsubIds]
    rcases List.mem_append.mp (hsubs ▸ hsub) with hold | hnew
    · rw [List.getElem?_set_ne (hother sub hold).symm]
      exact h.owner sub hold
    · rw [List.mem_singleton.mp hnew]
      refine ⟨?_, .reading, hstage, rfl⟩
      rw [List.getElem?_set_self (List.getElem?_eq_some_iff.mp hnone).1]

theorem Subscribed.moved (h : v.Subscribed) (hmoved : Moved setup v op v') : v'.Subscribed := by
  cases hmoved with
  | refused | rejected => exact ⟨h.recipients, h.conns, h.owner⟩
  | admitted =>
    refine ⟨h.recipients, h.conns, fun sub hsub ↦ ?_⟩
    obtain ⟨hid, stage, hstage, hattached⟩ := h.owner sub hsub
    refine ⟨?_, stage, ?_, hattached⟩
    · rw [List.getElem?_append_left (List.getElem?_eq_some_iff.mp hid).1]
      exact hid
    · rw [List.getElem?_append_left (List.getElem?_eq_some_iff.mp hstage).1]
      exact hstage
  | upgraded c now hstage => exact h.setStage hstage (.inl rfl) rfl rfl rfl
  | uncounted _ c stage hstage hor =>
    refine h.setStage hstage (.inr ?_) rfl rfl rfl
    rcases hor with rfl | rfl
    · rfl
    · rfl
  | framed c frame now hstage hnow hframed =>
    cases hframed with
    | quiet => exact ⟨h.recipients, h.conns, h.owner⟩
    | leave => exact h.setStage hstage (.inl rfl) rfl rfl rfl
    | verified p => exact h.setStage hstage (.inl rfl) rfl rfl rfl
    | subscribed subId p hnone hfresh => exact h.subscribed hstage hnone hfresh rfl rfl rfl
    | unsubscribed =>
      refine h.removeSub rfl (fun i hi ↦ ?_) fun _ _ ↦ rfl
      exact List.getElem?_set_ne (Ne.symm hi)
  | notReserved c now stamp p hstage =>
    exact h.setStage hstage (.inl rfl) (by rw [Relay.reserveId_eq]) rfl rfl
  | reserved c now stamp p hstage =>
    exact h.setStage hstage (.inl rfl) (by rw [Relay.reserveId_eq]) rfl rfl
  | delivered c now stamp p sub hstage => exact h.setStage hstage (.inl rfl) rfl rfl rfl
  | undelivered c now stamp p reason delivered hstage =>
    exact h.setStage hstage (.inl rfl) rfl rfl rfl
  | unreserved c p reason hstage =>
    exact h.setStage hstage (.inl rfl) (by rw [Relay.unreserveId_eq]) rfl rfl
  | stopped c hstage => exact h.setStage hstage (.inl rfl) rfl rfl rfl
  | removedSub _ c stage stage' hstage hor =>
    refine h.removeSub rfl (fun _ _ ↦ rfl) fun i hi ↦ ?_
    exact List.getElem?_set_ne (Ne.symm hi)
  | channel => exact h

end Subscriptions

section Budget

def times (v : View) (p : PublicKey) : List ℕ :=
  (v.deliveries.filter fun d ↦ d.pending.pValue = p).map Delivery.time

/-- How many of the newest deliveries follow each other within the retention. -/
def burst : List ℕ → ℕ
  | [] => 0
  | [_] => 1
  | t :: t' :: ts => if t < t' + entryTtl then burst (t' :: ts) + 1 else 1

abbrev WithinBudget (block : List ℕ) : Prop :=
  block.IsChain fun later earlier ↦ later < earlier + entryTtl

theorem length_le_burst {block ts : List ℕ} (hblock : block <+: ts) (h : WithinBudget block) :
    block.length ≤ burst ts := by
  induction ts using burst.induct generalizing block with
  | case1 =>
    rw [List.prefix_nil.mp hblock]
    exact le_rfl
  | case2 t => exact hblock.length_le
  | case3 t t' ts hlt ih =>
    rw [burst, if_pos hlt]
    cases block with
    | nil => exact Nat.zero_le _
    | cons a block =>
      obtain ⟨-, hrest⟩ := List.cons_prefix_cons.mp hblock
      exact Nat.succ_le_succ (ih hrest h.tail)
  | case4 t t' ts hlt =>
    rw [burst, if_neg hlt]
    match block, hblock, h with
    | [], _, _ => exact Nat.zero_le _
    | [_], _, _ => exact le_rfl
    | a :: b :: block, hblock, h =>
      obtain ⟨rfl, hrest⟩ := List.cons_prefix_cons.mp hblock
      obtain ⟨rfl, -⟩ := List.cons_prefix_cons.mp hrest
      exact (hlt (List.isChain_cons_cons.mp h).1).elim

theorem burst_cons_le (t : ℕ) (ts : List ℕ) : burst (t :: ts) ≤ burst ts + 1 := by
  cases ts with
  | nil => exact le_rfl
  | cons t' ts =>
    rw [burst]
    split
    · exact le_rfl
    · exact Nat.le_add_left _ _

theorem burst_cons_of_gap {t : ℕ} {ts : List ℕ} (h : ∀ t', ts.head? = some t' → t' + entryTtl ≤ t) :
    burst (t :: ts) = 1 := by
  cases ts with
  | nil => rfl
  | cons t' ts =>
    have hgap := h t' rfl
    rw [burst, if_neg (by omega)]

/-- The counter of a recipient is at least the burst it is in. -/
structure Budgeted (v : View) : Prop where
  present : ∀ p n t, v.relay.delivered.lookup p = some (n, t) →
    n ≤ maxDeliveredPerP ∧ burst (v.times p) ≤ n ∧ (v.times p).head? = some t
  absent : ∀ p, v.relay.delivered.lookup p = none →
    ∀ t, (v.times p).head? = some t → t + entryTtl ≤ v.clock
  within : ∀ p block, block <:+: v.times p → WithinBudget block → block.length ≤ maxDeliveredPerP

theorem Budgeted.of_quiet (h : v.Budgeted) (hdelivered : v'.relay.delivered = v.relay.delivered)
    (hsent : v'.deliveries = v.deliveries) (hclock : v.clock ≤ v'.clock) : v'.Budgeted := by
  have htimes (p : PublicKey) : v'.times p = v.times p := by rw [times, times, hsent]
  refine ⟨?_, ?_, ?_⟩
  · intro p n t hp
    rw [htimes]
    exact h.present p n t (hdelivered ▸ hp)
  · intro p hp t ht
    exact (h.absent p (hdelivered ▸ hp) t (htimes p ▸ ht)).trans hclock
  · intro p
    rw [htimes]
    exact h.within p

/-- What the entries say after the eviction at `now`. -/
theorem Budgeted.evicted {now : ℕ} (h : v.Budgeted) (hnow : v.clock ≤ now) (p : PublicKey) :
    (∃ n t, (v.evicted now).lookup p = some (n, t) ∧ v.relay.delivered.lookup p = some (n, t)) ∨
      (v.evicted now).lookup p = none ∧
        ∀ t, (v.times p).head? = some t → t + entryTtl ≤ now := by
  rw [View.evicted, Map.lookup_keepEntries]
  cases hp : v.relay.delivered.lookup p with
  | none => exact .inr ⟨rfl, fun t ht ↦ (h.absent p hp t ht).trans hnow⟩
  | some e =>
    by_cases hkeep : now - e.2 < entryTtl
    · exact .inl ⟨e.1, e.2, by rw [Option.filter_some, if_pos (decide_eq_true hkeep)], rfl⟩
    · refine .inr ⟨by rw [Option.filter_some, if_neg (by simpa using hkeep)], fun t ht ↦ ?_⟩
      rw [(h.present p e.1 e.2 hp).2.2, Option.some.injEq] at ht
      simp only [entryTtl, nanos] at hkeep ⊢
      omega

theorem Budgeted.undelivered {now stamp : ℕ} (h : v.Budgeted) (hnow : v.clock ≤ now)
    (hstamp : now ≤ stamp) (hdelivered : v'.relay.delivered = v.evicted now)
    (hsent : v'.deliveries = v.deliveries) (hclock : v'.clock = stamp) : v'.Budgeted := by
  have htimes (p : PublicKey) : v'.times p = v.times p := by rw [times, times, hsent]
  refine ⟨?_, ?_, ?_⟩
  · intro p n t hp
    rw [htimes]
    rw [hdelivered] at hp
    rcases h.evicted hnow p with ⟨n', t', hev, hold⟩ | ⟨hnone, -⟩
    · cases hev.symm.trans hp
      exact h.present p n t hold
    · cases hnone.symm.trans hp
  · intro p hp t ht
    rw [htimes] at ht
    rw [hdelivered] at hp
    rw [hclock]
    rcases h.evicted hnow p with ⟨n', t', hev, -⟩ | ⟨-, hgap⟩
    · cases hev.symm.trans hp
    · exact (hgap t ht).trans hstamp
  · intro p
    rw [htimes]
    exact h.within p

theorem Budgeted.delivered {now : ℕ} {d : Delivery} (h : v.Budgeted) (hnow : v.clock ≤ now)
    (hstamp : now ≤ d.time) (hspent : v.spent now d.pending.pValue < maxDeliveredPerP)
    (hdelivered : v'.relay.delivered = (v.evicted now).insert d.pending.pValue
      (v.spent now d.pending.pValue + 1, d.time))
    (hsent : v'.deliveries = d :: v.deliveries) (hclock : v'.clock = d.time) : v'.Budgeted := by
  have hself : v'.times d.pending.pValue = d.time :: v.times d.pending.pValue := by
    rw [times, hsent, List.filter_cons_of_pos (by simp), List.map_cons, times]
  have hother {p : PublicKey} (hp : p ≠ d.pending.pValue) : v'.times p = v.times p := by
    rw [times, hsent, List.filter_cons_of_neg (by simpa using hp.symm), times]
  have hburst : burst (v'.times d.pending.pValue) ≤ v.spent now d.pending.pValue + 1 := by
    rw [hself]
    rcases h.evicted hnow d.pending.pValue with ⟨n, t, hev, hold⟩ | ⟨hnone, hgap⟩
    · rw [spent, hev]
      exact (burst_cons_le _ _).trans (Nat.succ_le_succ (h.present _ _ _ hold).2.1)
    · rw [burst_cons_of_gap fun t ht ↦ (hgap t ht).trans hstamp]
      exact Nat.le_add_left _ _
  let swept : View := { v with
    relay := { v.relay with delivered := v.evicted now }, clock := d.time }
  have hold : swept.Budgeted := h.undelivered hnow hstamp rfl rfl rfl
  refine ⟨?_, ?_, ?_⟩
  · intro p n t hp
    rw [hdelivered, Map.lookup_insert_eq] at hp
    split at hp
    case isTrue heq =>
      subst heq
      cases hp
      exact ⟨hspent, hburst, by rw [hself]; rfl⟩
    case isFalse hne =>
      rw [hother hne]
      exact hold.present p n t hp
  · intro p hp t ht
    rw [hdelivered, Map.lookup_insert_eq] at hp
    split at hp
    · cases hp
    case isFalse hne =>
      rw [hother hne] at ht
      rw [hclock]
      exact hold.absent p hp t ht
  · intro p block hblock hwithin
    by_cases hp : p = d.pending.pValue
    · subst hp
      rw [hself] at hblock
      rcases List.infix_cons_iff.mp hblock with hprefix | hinfix
      · exact (length_le_burst (hself ▸ hprefix) hwithin).trans (hburst.trans hspent)
      · exact h.within _ block hinfix hwithin
    · exact h.within p block (hother hp ▸ hblock) hwithin

theorem Budgeted.moved (h : v.Budgeted) (hmoved : Moved setup v op v') : v'.Budgeted := by
  cases hmoved with
  | refused | admitted | rejected | uncounted | stopped | removedSub =>
    exact h.of_quiet rfl rfl le_rfl
  | upgraded c now _ hnow => exact h.of_quiet rfl rfl hnow
  | framed c frame now hstage hnow hframed =>
    cases hframed with
    | quiet | leave | verified | subscribed | unsubscribed => exact h.of_quiet rfl rfl hnow
  | notReserved c now stamp p _ hnow hstamp =>
    exact h.of_quiet (by rw [Relay.reserveId_eq]) rfl (hnow.trans hstamp)
  | reserved c now stamp p _ hnow hstamp =>
    exact h.of_quiet (by rw [Relay.reserveId_eq]) rfl (hnow.trans hstamp)
  | delivered c now stamp p sub hstage hnow hstamp _ hspent =>
    exact h.delivered hnow hstamp hspent rfl rfl rfl
  | undelivered c now stamp p reason delivered hstage hnow hstamp hdelivered =>
    rcases hdelivered with rfl | rfl
    · exact h.of_quiet rfl rfl (hnow.trans hstamp)
    · exact h.undelivered hnow hstamp rfl rfl rfl
  | unreserved c p reason hstage => exact h.of_quiet (by rw [Relay.unreserveId_eq]) rfl le_rfl
  | channel => exact h

end Budget

end View

end Buzz.PairRelay
