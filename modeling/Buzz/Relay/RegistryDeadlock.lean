import Buzz.Relay.RegistryLocks

namespace Buzz.Relay

open Buzz.Lib Buzz.Lib.Locks Buzz.Nostr

variable {shards : Shards}

/-- Which access may wait for its lock with which locks in hand: any with none, a lookup of a
subscription below the shared guard of an index, and the access of a removal to an index below the
exclusive guard of the connection. -/
def MayWait (shards : Shards) (held : List (LockId × Bool)) (access : Access) : Prop :=
  held = [] ∨
    (∃ slot x, held = [(shards.index slot, false)] ∧ access = .pushMatch x) ∨
      ∃ shard slot, held = [(.subs shard, true)] ∧
        access.lock shards = shards.index slot ∧ access.exclusive = true

abbrev RegistryDisciplined (shards : Shards) :=
  Disciplined (registryMachine shards) (MayWait shards)

/-- The access keeps the discipline in a call that holds nothing else. -/
def Alone (shards : Shards) (access : Access) : Prop :=
  ∀ r, RegistryDisciplined shards [(access.lock shards, access.exclusive)]
    (access.run shards r).2

theorem disciplined_map {β : Type*} {xs : List β} {f : β → Access}
    (h : ∀ b ∈ xs, Alone shards (f b)) :
    RegistryDisciplined shards [] (xs.map fun b ↦ .lock (f b)) := by
  induction xs with
  | nil => exact .nil
  | cons b xs ih =>
    refine .lock (.inl rfl) fun r ↦ ?_
    exact (h b List.mem_cons_self r).append (ih fun b' hb ↦ h b' (List.mem_cons_of_mem _ hb))

theorem disciplined_unlock {lock : LockId} {exclusive : Bool} :
    RegistryDisciplined shards [(lock, exclusive)] [.unlock lock] := .unlock .nil

theorem alone_pushEntry (slot : Slot) (x : SubKey) : Alone shards (.pushEntry slot x) :=
  fun _ ↦ disciplined_unlock

theorem alone_insertSubscription (connId : ConnId) (subId : SubId) (entry : SubEntry) :
    Alone shards (.insertSubscription connId subId entry) := fun _ ↦ disciplined_unlock

/-- What follows a retain in its call, whatever else the call holds. -/
theorem disciplined_retainOthers {slot : Slot} {x : SubKey} {held : List (LockId × Bool)}
    {rest : List (Instr Access LockId)} (r : SubscriptionRegistry)
    (hwait : MayWait shards held (.removeKey slot)) (hrest : RegistryDisciplined shards held rest) :
    RegistryDisciplined shards ((shards.index slot, true) :: held)
      (((Access.retainOthers slot x).run shards r).2 ++ rest) := by
  rw [Access.run]
  split
  · exact .unlock hrest
  · simp only
    split
    · exact .unlock (.lock hwait fun _ ↦ .unlock hrest)
    · exact .unlock hrest

theorem alone_retainOthers (slot : Slot) (x : SubKey) : Alone shards (.retainOthers slot x) := by
  intro r
  have h : RegistryDisciplined shards [(shards.index slot, true)]
      (((Access.retainOthers slot x).run shards r).2 ++ []) :=
    disciplined_retainOthers r (.inl rfl) .nil
  rw [List.append_nil] at h
  exact h

theorem alone_candidates (slot : Slot) : Alone shards (.candidates slot) := by
  intro r
  rw [Access.run]
  simp only
  induction r.bucketAt slot with
  | nil => exact disciplined_unlock
  | cons x xs ih => exact .lock (.inr (.inl ⟨slot, x, rfl, rfl⟩)) fun _ ↦ .unlock ih

theorem disciplined_removal (shard : ℕ) (x : SubKey) (slots : List Slot) :
    RegistryDisciplined shards [(.subs shard, true)]
      (removal x slots ++ [.unlock (.subs shard)]) := by
  induction slots with
  | nil => exact disciplined_unlock
  | cons slot slots ih =>
    refine .lock (.inr (.inr ⟨shard, slot, rfl, rfl, rfl⟩)) fun r ↦ ?_
    exact disciplined_retainOthers r (.inr (.inr ⟨shard, slot, rfl, rfl, rfl⟩)) ih

theorem alone_takeSubscription (connId : ConnId) (subId : SubId) :
    Alone shards (.takeSubscription connId subId) := by
  intro r
  rw [Access.run]
  split
  · exact disciplined_unlock
  · split
    · exact disciplined_unlock
    · exact disciplined_removal (shards.subs connId) (connId, subId) _

theorem alone_takeConnection (connId : ConnId) (rank : SubId → ℕ) :
    Alone shards (.takeConnection connId rank) := by
  intro r
  rw [Access.run]
  split
  · exact disciplined_unlock
  · next connSubs _ =>
    refine .unlock ?_
    induction byRank (fun e ↦ rank e.1) connSubs.entries with
    | nil => exact .nil
    | cons e entries ih =>
      exact Disciplined.append (disciplined_map fun slot _ ↦ alone_retainOthers slot (connId, e.1))
        ih

theorem alone_collect (communityId : CommunityId) (connId : ConnId) (channelId : Uuid)
    (rank : SubId → ℕ) : Alone shards (.collect communityId connId channelId rank) := by
  intro r
  rw [Access.run]
  exact .unlock (disciplined_map fun subId _ ↦ alone_takeSubscription connId subId)

theorem alone_of_mem_accesses {call : RegistryCall} {access : Access}
    (h : access ∈ call.accesses) : Alone shards access := by
  cases call with
  | registerScoped communityId connId subId filters channelId =>
    rcases List.mem_append.mp h with h | h
    · simp only [List.mem_cons, List.not_mem_nil, or_false] at h
      rcases h with rfl | rfl
      · exact alone_takeSubscription connId subId
      · exact alone_insertSubscription connId subId _
    · obtain ⟨slot, _, rfl⟩ := List.mem_map.mp h
      exact alone_pushEntry slot (connId, subId)
  | removeSubscription connId subId =>
    rw [List.mem_singleton.mp h]
    exact alone_takeSubscription connId subId
  | removeConnection connId rank =>
    rw [List.mem_singleton.mp h]
    exact alone_takeConnection connId rank
  | removeChannelSubscriptionsScoped communityId connId channelId rank =>
    rw [List.mem_singleton.mp h]
    exact alone_collect communityId connId channelId rank
  | fanOutScoped communityId event =>
    obtain ⟨slot, _, rfl⟩ := List.mem_map.mp h
    exact alone_candidates slot

theorem allDisciplined_run (shards : Shards) (steps : List RegistryStep) :
    (runRegistry shards steps).AllDisciplined (registryMachine shards) (MayWait shards) := by
  refine List.foldlRecOn steps (stepRegistry shards) ?_ fun s hs step _ ↦ ?_
  · intro c hc
    cases hc
  · cases step with
    | start call =>
      exact hs.start (disciplined_map fun access haccess ↦ alone_of_mem_accesses haccess)
    | advance i => exact hs.advance i

def pending (shards : Shards) (c : Call Access LockId) (guard : LockId) : List LockId :=
  (c.program.takeWhile fun
    | .unlock lock => lock ≠ guard
    | .lock _ => true).filterMap fun
    | .unlock _ => none
    | .lock access => some (access.lock shards)

/-- A fan-out that holds an index shard has still to look into a connection shard that a removal
holds, and this removal has still to get at an index shard that a fan-out holds. -/
def Crossed (shards : Shards) (s : RegistrySystem) : Prop :=
  ∃ fanOut ∈ s.calls, ∃ removal ∈ s.calls, ∃ fanOut' ∈ s.calls, ∃ slot shard slot',
    (shards.index slot, false) ∈ fanOut.held ∧
    .subs shard ∈ pending shards fanOut (shards.index slot) ∧
    (.subs shard, true) ∈ removal.held ∧
    shards.index slot' ∈ pending shards removal (.subs shard) ∧
    (shards.index slot', false) ∈ fanOut'.held

theorem index_ne_subs (slot : Slot) (shard : ℕ) : shards.index slot ≠ .subs shard := by
  cases slot <;> exact LockId.noConfusion

theorem mem_pending_of_head {c : Call Access LockId} {access : Access}
    {rest : List (Instr Access LockId)} (h : c.program = .lock access :: rest) (guard : LockId) :
    access.lock shards ∈ pending shards c guard := by
  rw [pending, h, List.takeWhile_cons]
  exact List.mem_cons_self

variable {s : RegistrySystem}

/-- A call that waits and is waited for is in one of the two nested sections. -/
theorem waiter_cases (hs : s.AllDisciplined (registryMachine shards) (MayWait shards))
    {c : Call Access LockId} (hc : c ∈ s.calls) {access : Access}
    {rest : List (Instr Access LockId)} (hprogram : c.program = .lock access :: rest)
    {lock : LockId} {exclusive : Bool} (hblocks : c.blocks lock exclusive = true) :
    (∃ slot x, (shards.index slot, false) ∈ c.held ∧ access = .pushMatch x ∧
      lock = shards.index slot) ∨
      ∃ shard slot, (.subs shard, true) ∈ c.held ∧ access.lock shards = shards.index slot ∧
        lock = .subs shard := by
  obtain ⟨h, hheld, hlock⟩ := List.any_eq_true.mp hblocks
  rw [Bool.and_eq_true, decide_eq_true_eq] at hlock
  rcases hs.allowed hc hprogram with
    hnone | ⟨slot, x, hone, haccess⟩ | ⟨shard, slot, hone, haccess, _⟩
  · rw [hnone] at hheld
    cases hheld
  · rw [hone, List.mem_singleton] at hheld
    refine .inl ⟨slot, x, ?_, haccess, ?_⟩
    · rw [hone]
      exact List.mem_singleton_self _
    · rw [← hlock.1, hheld]
  · rw [hone, List.mem_singleton] at hheld
    refine .inr ⟨shard, slot, ?_, haccess, ?_⟩
    · rw [hone]
      exact List.mem_singleton_self _
    · rw [← hlock.1, hheld]

theorem crossed_of_fanOut (hs : s.AllDisciplined (registryMachine shards) (MayWait shards))
    {j k l m : ℕ} (hjk : s.WaitsFor (registryMachine shards) j k)
    (hkl : s.WaitsFor (registryMachine shards) k l) (hlm : s.WaitsFor (registryMachine shards) l m)
    {c : Call Access LockId} (hc : s.calls[j]? = some c) {slot : Slot} {x : SubKey}
    {rest : List (Instr Access LockId)} (hheld : (shards.index slot, false) ∈ c.held)
    (hprogram : c.program = .lock (.pushMatch x) :: rest) : Crossed shards s := by
  obtain ⟨cj, ck, access, restj, hcj, hck, hprogj, hblocks⟩ := hjk
  rw [hc] at hcj
  rw [← Option.some.inj hcj, hprogram] at hprogj
  obtain ⟨hinstr, _⟩ := List.cons.inj hprogj
  have haccess : Access.pushMatch x = access := Instr.lock.inj hinstr
  subst haccess
  obtain ⟨ck', cl, accessk, restk, hck', hcl, hprogk, hblocksl⟩ := hkl
  rw [hck] at hck'
  cases hck'
  rcases waiter_cases hs (List.mem_of_getElem? hck) hprogk hblocks with
    ⟨slot', _, _, _, hlock⟩ | ⟨shard, slot', hheldk, hindex, hlock⟩
  · exact absurd hlock.symm (index_ne_subs slot' _)
  obtain ⟨cl', _, accessl, restl, hcl', _, hprogl, _⟩ := hlm
  rw [hcl] at hcl'
  cases hcl'
  rcases waiter_cases hs (List.mem_of_getElem? hcl) hprogl hblocksl with
    ⟨slot'', y, hheldl, _, hlockl⟩ | ⟨shard', _, _, _, hlockl⟩
  · refine ⟨c, List.mem_of_getElem? hc, ck, List.mem_of_getElem? hck, cl,
      List.mem_of_getElem? hcl, slot, shard, slot'', hheld, ?_, hheldk, ?_, hheldl⟩
    · rw [← hlock]
      exact mem_pending_of_head hprogram _
    · rw [← hlockl]
      exact mem_pending_of_head hprogk _
  · exact absurd (hindex.symm.trans hlockl) (index_ne_subs slot' shard')

theorem crossed_of_deadlocked (hs : s.AllDisciplined (registryMachine shards) (MayWait shards))
    (hdead : s.Deadlocked (registryMachine shards)) : Crossed shards s := by
  obtain ⟨i, hcycle⟩ := hdead
  obtain ⟨j, hij, hcycle⟩ := exists_next_of_cycle hcycle
  obtain ⟨k, hjk, hcycle⟩ := exists_next_of_cycle hcycle
  obtain ⟨l, hkl, hcycle⟩ := exists_next_of_cycle hcycle
  obtain ⟨m, hlm, hcycle⟩ := exists_next_of_cycle hcycle
  obtain ⟨n, hmn, _⟩ := exists_next_of_cycle hcycle
  have hjk' := hjk
  obtain ⟨_, cj, _, _, _, hcj, _, hblocks⟩ := hij
  obtain ⟨cj', ck, access, rest, hcj', hck, hprogram, hblocksk⟩ := hjk
  rw [hcj] at hcj'
  cases hcj'
  rcases waiter_cases hs (List.mem_of_getElem? hcj) hprogram hblocks with
    ⟨slot, x, hheld, rfl, _⟩ | ⟨shard, slot, _, hindex, _⟩
  · exact crossed_of_fanOut hs hjk' hkl hlm hcj hheld hprogram
  · have hkl' := hkl
    obtain ⟨ck', _, accessk, restk, hck', _, hprogk, _⟩ := hkl
    rw [hck] at hck'
    cases hck'
    rcases waiter_cases hs (List.mem_of_getElem? hck) hprogk hblocksk with
      ⟨slot', x, hheld, rfl, _⟩ | ⟨shard', _, _, _, hlock⟩
    · exact crossed_of_fanOut hs hkl' hlm hmn hck hheld hprogk
    · exact absurd (hindex.symm.trans hlock) (index_ne_subs slot shard')

/-- Where fan-outs and removals never cross, no calls ever wait for each other in a cycle. -/
theorem registry_never_deadlocks (shards : Shards) (steps : List RegistryStep)
    (h : ∀ pre, pre <+: steps → ¬Crossed shards (runRegistry shards pre)) :
    ∀ pre, pre <+: steps →
      ¬(runRegistry shards pre).Deadlocked (registryMachine shards) :=
  fun pre hpre hdead ↦ h pre hpre (crossed_of_deadlocked (allDisciplined_run shards pre) hdead)

def oneShard : Shards := ⟨fun _ ↦ 0, fun _ ↦ 0, fun _ ↦ 0, fun _ ↦ 0, fun _ ↦ 0, fun _ ↦ 0⟩

def chatEvent : StoredEvent :=
  ⟨{ id := 1, pubkey := 5, createdAt := 10, kind := 9, tags := [], content := "hi", sig := 0 },
    some 7⟩

def chatSubscription : RegistryCall :=
  .registerScoped 1 2 "chat" [{ kinds := some (.singleton 9) }] (some 7)

def shardPerConnection : Shards := { oneShard with subs := fun connId ↦ connId.toNat }

def newsSubscription : RegistryCall :=
  .registerScoped 1 3 "news" [{ kinds := some (.singleton 1) }] (some 8)

/-- A fan-out to one connection beside the removal of a subscription of another one, which waits for
the shard of the index. -/
def beside : List RegistryStep :=
  .start chatSubscription :: List.replicate 6 (.advance 0) ++
    .start newsSubscription :: List.replicate 6 (.advance 1) ++
    [.start (.fanOutScoped 1 chatEvent), .advance 2, .start (.removeSubscription 3 "news"),
      .advance 3, .advance 3, .advance 2]

def crosses (shards : Shards) (s : RegistrySystem) : Bool :=
  s.calls.any fun fanOut ↦ s.calls.any fun removal ↦ fanOut.held.any fun guard ↦
    removal.held.any fun h ↦ h.2 && decide (h.1 ∈ pending shards fanOut guard.1)

theorem crosses_of_crossed (h : Crossed shards s) : crosses shards s = true := by
  obtain ⟨fanOut, hfanOut, removal, hremoval, _, _, slot, shard, _, hindex, hshard, hsubs, _⟩ := h
  simp only [crosses, List.any_eq_true, Bool.and_eq_true, decide_eq_true_eq]
  exact ⟨fanOut, hfanOut, removal, hremoval, _, hindex, _, hsubs, rfl, hshard⟩

theorem registry_never_deadlocks_beside :
    (runRegistry shardPerConnection beside).WaitsFor (registryMachine shardPerConnection) 3 2 ∧
      ¬(runRegistry shardPerConnection beside).Deadlocked
        (registryMachine shardPerConnection) := by
  refine ⟨⟨_, _, _, _, rfl, rfl, rfl, rfl⟩,
    registry_never_deadlocks shardPerConnection _ (fun pre hpre hcrossed ↦ ?_) _
      (List.prefix_refl _)⟩
  have hclear : ∀ n < 21, crosses shardPerConnection
      (runRegistry shardPerConnection (beside.take n)) = false := by decide
  have hlen : pre.length < 21 := Nat.lt_succ_of_le hpre.length_le
  have hcrosses := crosses_of_crossed hcrossed
  rw [List.prefix_iff_eq_take.mp hpre, hclear pre.length hlen] at hcrosses
  exact Bool.noConfusion hcrosses

def crossing : List RegistryStep :=
  [.start chatSubscription, .advance 0, .advance 0, .advance 0, .advance 0, .advance 0, .advance 0,
    .start (.fanOutScoped 1 chatEvent), .advance 1, .start (.removeSubscription 2 "chat"),
    .advance 2]

theorem fan_out_deadlocks_with_removal :
    (runRegistry oneShard crossing).Deadlocked (registryMachine oneShard) := by
  have hfanOut : (runRegistry oneShard crossing).WaitsFor (registryMachine oneShard) 1 2 :=
    ⟨_, _, _, _, rfl, rfl, rfl, rfl⟩
  have hremoval : (runRegistry oneShard crossing).WaitsFor (registryMachine oneShard) 2 1 :=
    ⟨_, _, _, _, rfl, rfl, rfl, rfl⟩
  exact ⟨1, .tail (.single hfanOut) hremoval⟩

end Buzz.Relay
