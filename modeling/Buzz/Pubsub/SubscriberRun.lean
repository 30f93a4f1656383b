import Buzz.Lib.Runs
import Buzz.Pubsub.Subscriber

namespace Buzz.Pubsub

open Buzz.Lib Buzz.Nostr

namespace PubSub

variable {w w' : PubSub} {s : Session} {op : Op} {ops : List Op} {t t' : EventTopicKey}

theorem desiredRefcount_retainTopic :
    (w.retainTopic t).desiredRefcount t' =
      if t' = t then w.desiredRefcount t + 1 else w.desiredRefcount t' := by
  rw [desiredRefcount, retainTopic, Map.lookup_insert_eq]
  split
  · rfl
  · rfl

theorem desiredRefcount_releaseTopic :
    (w.releaseTopic t).desiredRefcount t' =
      if t' = t then w.desiredRefcount t - 1 else w.desiredRefcount t' := by
  rw [releaseTopic]
  cases hcount : w.desiredTopics.lookup t with
  | none =>
    have hzero : w.desiredRefcount t = 0 := by
      rw [desiredRefcount, hcount]
      rfl
    change w.desiredRefcount t' = _
    by_cases heq : t' = t
    · rw [if_pos heq, heq, hzero]
    · rw [if_neg heq]
  | some count =>
    have hself : w.desiredRefcount t = count := by
      rw [desiredRefcount, hcount]
      rfl
    rw [hself]
    by_cases hlast : count - 1 = 0
    · simp only [hlast, if_true, desiredRefcount, Map.lookup_erase_eq]
      split
      · rfl
      · rfl
    · simp only [hlast, if_false, desiredRefcount, Map.lookup_insert_eq]
      split
      · rfl
      · rfl

/-- A command that the task has taken reaches the topic as well. -/
def Pending (w : PubSub) (s : Session) (t : EventTopicKey) : Prop :=
  w.Announced t ∨ s.work = some (.subscribe t)

structure Inv (w : PubSub) : Prop where
  pos : ∀ t count, w.desiredTopics.lookup t = some count → 0 < count
  followed : ∀ s, w.session = some s → ∀ t, 0 < w.desiredRefcount t →
    t.redisChannel ∈ s.subscribed ∨ t ∈ s.todo ∨ w.Pending s t
  active : ∀ s, w.session = some s → s.activeTopics = s.subscribed
  announced : ∀ s t, w.session = some s → s.work = some (.unsubscribe t) →
    0 < w.desiredRefcount t → w.Announced t

theorem inv_start : start.Inv where
  pos _ _ h := nomatch h
  followed _ h := nomatch h
  active _ h := nomatch h
  announced _ _ h := nomatch h

theorem announced_retainTopic (h : w.Announced t') : (w.retainTopic t).Announced t' := by
  refine h.imp_left fun hmem ↦ ?_
  rw [retainTopic]
  simp only
  split
  · exact List.mem_cons_of_mem _ hmem
  · exact hmem

theorem announced_of_retainTopic (hpos : ¬0 < w.desiredRefcount t) :
    (w.retainTopic t).Announced t := by
  refine .inl ?_
  rw [retainTopic]
  simp only
  rw [if_pos (Nat.eq_zero_of_not_pos hpos)]
  exact List.mem_cons_self

theorem pos_or_announced (h : 0 < (w.retainTopic t).desiredRefcount t') :
    0 < w.desiredRefcount t' ∨ (w.retainTopic t).Announced t' := by
  by_cases hpos : 0 < w.desiredRefcount t'
  · exact .inl hpos
  · rw [desiredRefcount_retainTopic] at h
    split at h
    · next heq =>
      rw [heq] at hpos ⊢
      exact .inr (announced_of_retainTopic hpos)
    · exact absurd h hpos

theorem Inv.retainTopic (h : w.Inv) : (w.retainTopic t).Inv where
  pos t' count hcount := by
    rw [PubSub.retainTopic, Map.lookup_insert_eq] at hcount
    split at hcount
    · cases hcount
      exact Nat.succ_pos _
    · exact h.pos t' count hcount
  followed s hs t' hpos := by
    rcases pos_or_announced hpos with hpos | hann
    · exact (h.followed s hs t' hpos).imp_right fun hrest ↦ hrest.imp_right fun hpend ↦
        hpend.imp_left announced_retainTopic
    · exact .inr (.inr (.inl hann))
  active := h.active
  announced s t' hs hwork hpos := by
    rcases pos_or_announced hpos with hpos | hann
    · exact announced_retainTopic (h.announced s t' hs hwork hpos)
    · exact hann

theorem pos_of_releaseTopic (h : 0 < (w.releaseTopic t).desiredRefcount t') :
    0 < w.desiredRefcount t' := by
  rw [desiredRefcount_releaseTopic] at h
  split at h
  · next heq =>
    rw [heq]
    omega
  · exact h

theorem releaseTopic_eq (w : PubSub) (t : EventTopicKey) :
    (w.releaseTopic t).sending = w.sending ∧ (w.releaseTopic t).queue = w.queue ∧
      (w.releaseTopic t).session = w.session := by
  rw [releaseTopic]
  split
  · exact ⟨rfl, rfl, rfl⟩
  · split
    · exact ⟨rfl, rfl, rfl⟩
    · exact ⟨rfl, rfl, rfl⟩

theorem Inv.releaseTopic (h : w.Inv) : (w.releaseTopic t).Inv := by
  obtain ⟨hsending, hqueue, hsession⟩ := w.releaseTopic_eq t
  have hann {t'} : (w.releaseTopic t).Announced t' ↔ w.Announced t' := by
    rw [Announced, Announced, hsending, hqueue]
  refine ⟨fun t' count hcount ↦ ?_, fun s hs t' hpos ↦ ?_, fun s hs ↦ ?_,
    fun s t' hs hwork hpos ↦ ?_⟩
  · rw [PubSub.releaseTopic] at hcount
    split at hcount
    · exact h.pos t' count hcount
    · next count' hcount' =>
      split at hcount
      · rw [Map.lookup_erase_eq] at hcount
        split at hcount
        · cases hcount
        · exact h.pos t' count hcount
      · next hlast =>
        rw [Map.lookup_insert_eq] at hcount
        split at hcount
        · cases hcount
          omega
        · exact h.pos t' count hcount
  · rw [hsession] at hs
    rw [Pending, hann]
    exact h.followed s hs t' (pos_of_releaseTopic hpos)
  · rw [hsession] at hs
    exact h.active s hs
  · rw [hsession] at hs
    exact hann.mpr (h.announced s t' hs hwork (pos_of_releaseTopic hpos))

theorem mem_initialTopics (h : 0 < w.desiredRefcount t) : t ∈ w.initialTopics := by
  obtain ⟨count, hcount⟩ : ∃ count, w.desiredTopics.lookup t = some count := by
    refine Option.ne_none_iff_exists'.mp fun hnone ↦ ?_
    rw [desiredRefcount, hnone] at h
    exact Nat.lt_irrefl 0 h
  rw [desiredRefcount, hcount] at h
  exact List.mem_map.mpr ⟨⟨t, count⟩, List.mem_filter.mpr
    ⟨Map.mem_entries_iff.mpr hcount, decide_eq_true h⟩, rfl⟩

/-- The session changes, and neither the counts nor what has been announced. -/
theorem Inv.setSession (h : w.Inv) {new : Session}
    (hfollowed : ∀ t, 0 < w.desiredRefcount t →
      t.redisChannel ∈ new.subscribed ∨ t ∈ new.todo ∨ w.Pending new t)
    (hactive : new.activeTopics = new.subscribed)
    (hann : ∀ t, new.work = some (.unsubscribe t) → 0 < w.desiredRefcount t → w.Announced t) :
    { w with session := some new }.Inv where
  pos := h.pos
  followed s hs := by
    cases hs
    exact hfollowed
  active s hs := by
    cases hs
    exact hactive
  announced s t hs := by
    cases hs
    exact hann t

theorem Inv.enqueue (h : w.Inv) {sending debouncing : List EventTopicKey}
    {command : SubscriptionCommand}
    (hann : ∀ t, t ∈ w.sending → t ∈ sending ∨ command = .subscribe t) :
    { w with sending := sending, debouncing := debouncing, queue := w.queue ++ [command] }.Inv := by
  have hann' (t) (ht : w.Announced t) : t ∈ sending ∨ .subscribe t ∈ w.queue ++ [command] := by
    rcases ht with hmem | hmem
    · rcases hann t hmem with hmem | rfl
      · exact .inl hmem
      · exact .inr (List.mem_append_right _ List.mem_cons_self)
    · exact .inr (List.mem_append_left _ hmem)
  exact {
    pos := h.pos
    followed := fun s hs t hpos ↦ (h.followed s hs t hpos).imp_right fun hrest ↦
      hrest.imp_right fun hpend ↦ hpend.imp_left (hann' t)
    active := h.active
    announced := fun s t hs hwork hpos ↦ hann' t (h.announced s t hs hwork hpos) }

theorem Inv.step (h : w.Inv) (hstep : w.step op = some w') : w'.Inv := by
  cases op with
  | retainTopic t =>
    cases hstep
    exact h.retainTopic
  | sendSubscribe t =>
    simp only [PubSub.step] at hstep
    split at hstep
    · cases hstep
      refine h.enqueue fun t' hmem ↦ ?_
      by_cases heq : t' = t
      · exact .inr (by rw [heq])
      · exact .inl ((List.mem_erase_of_ne heq).mpr hmem)
    · cases hstep
  | releaseTopic t =>
    cases hstep
    exact h.releaseTopic
  | sendUnsubscribe t =>
    simp only [PubSub.step] at hstep
    split at hstep
    · cases hstep
      exact h.enqueue fun t' hmem ↦ .inl hmem
    · cases hstep
  | connect =>
    simp only [PubSub.step] at hstep
    split at hstep
    · cases hstep
      exact h.setSession (fun t hpos ↦ .inr (.inl (mem_initialTopics hpos))) rfl
        fun t hwork ↦ nomatch hwork
    · cases hstep
  | subscribeInitial =>
    simp only [PubSub.step] at hstep
    split at hstep
    · next t todo work activeTopics subscribed hs =>
      cases hstep
      have hactive : activeTopics = subscribed := h.active _ hs
      refine h.setSession (fun t' hpos ↦ ?_) (by rw [hactive])
        fun t' hwork hpos ↦ h.announced _ t' hs hwork hpos
      rcases h.followed _ hs t' hpos with hmem | hmem | hpend
      · exact .inl (Finset.mem_insert_of_mem hmem)
      · rcases List.mem_cons.mp hmem with rfl | hmem
        · exact .inl (Finset.mem_insert_self _ _)
        · exact .inr (.inl hmem)
      · exact .inr (.inr hpend)
    · cases hstep
  | receive =>
    simp only [PubSub.step] at hstep
    split at hstep
    · next activeTopics subscribed command queue hs hqueue =>
      cases hstep
      have hactive : activeTopics = subscribed := h.active _ hs
      have hann (t) (ht : w.Announced t) :
          (t ∈ w.sending ∨ .subscribe t ∈ queue) ∨ some command.work = some (.subscribe t) := by
        rcases ht with hmem | hmem
        · exact .inl (.inl hmem)
        · rw [hqueue] at hmem
          rcases List.mem_cons.mp hmem with rfl | hmem
          · exact .inr rfl
          · exact .inl (.inr hmem)
      refine ⟨h.pos, fun s' hs' t hpos ↦ ?_, fun s' hs' ↦ ?_, fun s' t hs' hwork ↦ ?_⟩
      · cases hs'
        rcases h.followed _ hs t hpos with hmem | hmem | hpend | hwork
        · exact .inl hmem
        · cases hmem
        · exact .inr (.inr (hann t hpend))
        · cases hwork
      · cases hs'
        exact hactive
      · cases hs'
        cases command with
        | subscribe topic => cases hwork
        | unsubscribeIfIdle topic => cases hwork
    · cases hstep
  | subscribe =>
    simp only [PubSub.step] at hstep
    split at hstep
    · next todo t activeTopics subscribed hs =>
      cases hstep
      have hactive : activeTopics = subscribed := h.active _ hs
      have hfollowed (t') (hpos : 0 < w.desiredRefcount t') :
          t' = t ∨ t'.redisChannel ∈ subscribed ∨ t' ∈ todo ∨ w.Announced t' := by
        rcases h.followed _ hs t' hpos with hmem | hmem | hpend | hwork
        · exact .inr (.inl hmem)
        · exact .inr (.inr (.inl hmem))
        · exact .inr (.inr (.inr hpend))
        · cases hwork
          exact .inl rfl
      split
      · next hin =>
        refine h.setSession (fun t' hpos ↦ ?_) hactive fun t' hwork ↦ nomatch hwork
        rcases hfollowed t' hpos with rfl | hmem | hmem | hann
        · exact .inl (hactive ▸ hin)
        · exact .inl hmem
        · exact .inr (.inl hmem)
        · exact .inr (.inr (.inl hann))
      · refine h.setSession (fun t' hpos ↦ ?_) (by rw [hactive]) fun t' hwork ↦ nomatch hwork
        rcases hfollowed t' hpos with rfl | hmem | hmem | hann
        · exact .inl (Finset.mem_insert_self _ _)
        · exact .inl (Finset.mem_insert_of_mem hmem)
        · exact .inr (.inl hmem)
        · exact .inr (.inr (.inl hann))
    · cases hstep
  | readRefcount =>
    simp only [PubSub.step] at hstep
    split at hstep
    · next todo t activeTopics subscribed hs =>
      cases hstep
      have hactive : activeTopics = subscribed := h.active _ hs
      refine h.setSession (fun t' hpos ↦ ?_) hactive fun t' hwork hpos ↦ ?_
      · rcases h.followed _ hs t' hpos with hmem | hmem | hpend | hwork
        · exact .inl hmem
        · exact .inr (.inl hmem)
        · exact .inr (.inr (.inl hpend))
        · cases hwork
      · simp only at hwork
        split at hwork
        · next hzero =>
          cases hwork
          rw [hzero] at hpos
          exact absurd hpos (Nat.lt_irrefl 0)
        · cases hwork
    · cases hstep
  | unsubscribe =>
    simp only [PubSub.step] at hstep
    split at hstep
    · next todo t activeTopics subscribed hs =>
      cases hstep
      have hactive : activeTopics = subscribed := h.active _ hs
      have hfollowed (t') (hpos : 0 < w.desiredRefcount t') :
          t'.redisChannel ∈ subscribed.erase t.redisChannel ∨ t' ∈ todo ∨ w.Announced t' := by
        by_cases heq : t' = t
        · rw [heq] at hpos ⊢
          exact .inr (.inr (h.announced _ t hs rfl hpos))
        · rcases h.followed _ hs t' hpos with hmem | hmem | hpend | hwork
          · exact .inl (Finset.mem_erase_of_ne_of_mem
              (EventTopicKey.redisChannel_injective.ne heq) hmem)
          · exact .inr (.inl hmem)
          · exact .inr (.inr hpend)
          · cases hwork
      split
      · refine h.setSession (fun t' hpos ↦ ?_) (by rw [hactive]) fun t' hwork ↦ nomatch hwork
        exact (hfollowed t' hpos).imp_right fun hrest ↦ hrest.imp_right .inl
      · refine h.setSession (fun t' hpos ↦ ?_) hactive fun t' hwork ↦ nomatch hwork
        exact (hfollowed t' hpos).imp Finset.mem_of_mem_erase fun hrest ↦ hrest.imp_right .inl
    · cases hstep
  | disconnect =>
    cases hstep
    exact ⟨h.pos, nofun, nofun, nofun⟩

theorem run_concat : start.run (ops ++ [op]) = some w' ↔
    ∃ w, start.run ops = some w ∧ w.step op = some w' :=
  foldlM_concat_eq_some

theorem Inv.run (h : start.run ops = some w) : w.Inv := by
  induction ops using List.reverseRecOn generalizing w with
  | nil =>
    cases h
    exact inv_start
  | append_singleton ops op ih =>
    obtain ⟨w₁, hpre, hstep⟩ := run_concat.mp h
    exact (ih hpre).step hstep

/-- Only the calls change the counts. -/
theorem desiredTopics_step (h : w.step op = some w') (hretain : ∀ t, op ≠ .retainTopic t)
    (hrelease : ∀ t, op ≠ .releaseTopic t) : w'.desiredTopics = w.desiredTopics := by
  cases op with
  | retainTopic t => exact absurd rfl (hretain t)
  | releaseTopic t => exact absurd rfl (hrelease t)
  | disconnect =>
    cases h
    rfl
  | _ =>
    simp only [PubSub.step] at h
    split at h
    · cases h
      rfl
    · cases h

theorem desiredRefcount_step (h : w.step op = some w') :
    w'.desiredRefcount t =
      if op = .retainTopic t then w.desiredRefcount t + 1
      else if op = .releaseTopic t then w.desiredRefcount t - 1 else w.desiredRefcount t := by
  by_cases hretain : ∃ t', op = .retainTopic t'
  · obtain ⟨t', rfl⟩ := hretain
    cases h
    rw [desiredRefcount_retainTopic, if_neg (show ¬Op.retainTopic t' = .releaseTopic t from nofun)]
    by_cases heq : t = t'
    · rw [if_pos heq, heq, if_pos rfl]
    · rw [if_neg heq, if_neg fun hop ↦ heq (Op.retainTopic.inj hop).symm]
  by_cases hrelease : ∃ t', op = .releaseTopic t'
  · obtain ⟨t', rfl⟩ := hrelease
    cases h
    rw [desiredRefcount_releaseTopic, if_neg (show ¬Op.releaseTopic t' = .retainTopic t from nofun)]
    by_cases heq : t = t'
    · rw [if_pos heq, heq, if_pos rfl]
    · rw [if_neg heq, if_neg fun hop ↦ heq (Op.releaseTopic.inj hop).symm]
  · have hsame := desiredTopics_step h (fun t' hop ↦ hretain ⟨t', hop⟩)
      fun t' hop ↦ hrelease ⟨t', hop⟩
    rw [if_neg fun hop ↦ hretain ⟨t, hop⟩, if_neg fun hop ↦ hrelease ⟨t, hop⟩, desiredRefcount,
      hsame, desiredRefcount]

theorem desiredRefcount_run (h : start.run ops = some w) :
    w.desiredRefcount t = outstanding t ops := by
  induction ops using List.reverseRecOn generalizing w with
  | nil =>
    cases h
    rfl
  | append_singleton ops op ih =>
    obtain ⟨w₁, hpre, hstep⟩ := run_concat.mp h
    rw [desiredRefcount_step hstep, ih hpre, outstanding, outstanding, List.foldl_append,
      List.foldl_cons, List.foldl_nil]

/-- The task has the count of the topic in hand only from reading it. -/
theorem work_of_step (h : w.step op = some w') {s' : Session} (hs' : w'.session = some s')
    (hwork : s'.work = some (.unsubscribe t)) :
    (∃ s, w.session = some s ∧ s.work = some (.unsubscribe t)) ∨
      op = .readRefcount ∧ w.desiredRefcount t = 0 ∧
        ∃ s, w.session = some s ∧ s.work = some (.check t) := by
  cases op with
  | retainTopic t' =>
    cases h
    exact .inl ⟨s', hs', hwork⟩
  | releaseTopic t' =>
    cases h
    rw [(w.releaseTopic_eq t').2.2] at hs'
    exact .inl ⟨s', hs', hwork⟩
  | disconnect =>
    cases h
    cases hs'
  | sendSubscribe t' =>
    simp only [PubSub.step] at h
    split at h
    · cases h
      exact .inl ⟨s', hs', hwork⟩
    · cases h
  | sendUnsubscribe t' =>
    simp only [PubSub.step] at h
    split at h
    · cases h
      exact .inl ⟨s', hs', hwork⟩
    · cases h
  | connect =>
    simp only [PubSub.step] at h
    split at h
    · cases h
      cases hs'
      cases hwork
    · cases h
  | subscribeInitial =>
    simp only [PubSub.step] at h
    split at h
    · next hs =>
      cases h
      cases hs'
      exact .inl ⟨_, hs, hwork⟩
    · cases h
  | receive =>
    simp only [PubSub.step] at h
    split at h
    · next command queue hs hqueue =>
      cases h
      cases hs'
      cases command with
      | subscribe topic => cases hwork
      | unsubscribeIfIdle topic => cases hwork
    · cases h
  | subscribe =>
    simp only [PubSub.step] at h
    split at h
    · cases h
      cases hs'
      split at hwork
      · cases hwork
      · cases hwork
    · cases h
  | readRefcount =>
    simp only [PubSub.step] at h
    split at h
    · next todo t' activeTopics subscribed hs =>
      cases h
      cases hs'
      simp only at hwork
      split at hwork
      · next hzero =>
        cases hwork
        exact .inr ⟨rfl, hzero, _, hs, rfl⟩
      · cases hwork
    · cases h
  | unsubscribe =>
    simp only [PubSub.step] at h
    split at h
    · cases h
      cases hs'
      split at hwork
      · cases hwork
      · cases hwork
    · cases h

theorem read_of_run (h : start.run ops = some w) (hs : w.session = some s)
    (hwork : s.work = some (.unsubscribe t)) :
    ∃ pre w₀ s₀, pre ++ [.readRefcount] <+: ops ∧ start.run pre = some w₀ ∧
      w₀.session = some s₀ ∧ s₀.work = some (.check t) ∧ w₀.desiredRefcount t = 0 := by
  induction ops using List.reverseRecOn generalizing w s with
  | nil =>
    cases h
    cases hs
  | append_singleton ops op ih =>
    obtain ⟨w₁, hpre, hstep⟩ := run_concat.mp h
    rcases work_of_step hstep hs hwork with ⟨s₁, hs₁, hwork₁⟩ | ⟨rfl, hzero, s₁, hs₁, hwork₁⟩
    · obtain ⟨pre, w₀, s₀, hops, hrest⟩ := ih hpre hs₁ hwork₁
      exact ⟨pre, w₀, s₀, hops.trans (List.prefix_append _ _), hrest⟩
    · exact ⟨ops, w₁, s₁, List.prefix_refl _, hpre, hs₁, hwork₁, hzero⟩

end PubSub

/-- Counts follow the calls. On a connection every desired topic is subscribed unless its command
is still to come, and a topic is unsubscribed only if its count was read as zero; if it is desired
again by then, its command is still to come. -/
theorem topics_followed {ops : List Op} {w : PubSub} (h : PubSub.start.run ops = some w) :
    (∀ t, w.desiredRefcount t = outstanding t ops) ∧
    (∀ t count, w.desiredTopics.lookup t = some count → 0 < count) ∧
    (∀ s, w.session = some s → s.todo = [] → ∀ t, 0 < w.desiredRefcount t →
      t.redisChannel ∈ s.subscribed ∨ w.Announced t ∨ s.work = some (.subscribe t)) ∧
    (∀ s, w.Drained s → ∀ t, 0 < w.desiredRefcount t → t ∉ w.sending →
      t.redisChannel ∈ s.subscribed) ∧
    ∀ s t, w.session = some s → s.work = some (.unsubscribe t) →
      (∃ pre w₀ s₀, pre ++ [.readRefcount] <+: ops ∧ PubSub.start.run pre = some w₀ ∧
        w₀.session = some s₀ ∧ s₀.work = some (.check t) ∧ w₀.desiredRefcount t = 0) ∧
      (0 < w.desiredRefcount t → w.Announced t) := by
  have hinv := PubSub.Inv.run h
  have hup (s : Session) (hs : w.session = some s) (htodo : s.todo = []) (t : EventTopicKey)
      (hpos : 0 < w.desiredRefcount t) :
      t.redisChannel ∈ s.subscribed ∨ w.Announced t ∨ s.work = some (.subscribe t) := by
    rcases hinv.followed s hs t hpos with hmem | hmem | hpend
    · exact .inl hmem
    · rw [htodo] at hmem
      cases hmem
    · exact .inr hpend
  refine ⟨fun t ↦ PubSub.desiredRefcount_run h, hinv.pos, hup, fun s hdrained t hpos hsent ↦ ?_,
    fun s t hs hwork ↦ ⟨PubSub.read_of_run h hs hwork, hinv.announced s t hs hwork⟩⟩
  obtain ⟨hs, htodo, hwork, hqueue⟩ := hdrained
  rcases hup s hs htodo t hpos with hmem | (hmem | hmem) | hsub
  · exact hmem
  · exact absurd hmem hsent
  · rw [hqueue] at hmem
    cases hmem
  · rw [hwork] at hsub
    cases hsub

def busyTopic : EventTopicKey := ⟨1, .global⟩

theorem topics_followed_connect :
    ∃ w s, PubSub.start.run [.retainTopic busyTopic, .sendSubscribe busyTopic, .connect,
        .subscribeInitial, .receive, .subscribe] = some w ∧ w.session = some s ∧
      busyTopic.redisChannel ∈ s.subscribed := by
  obtain ⟨w, hw⟩ : ∃ w, PubSub.start.run [.retainTopic busyTopic, .sendSubscribe busyTopic,
      .connect, .subscribeInitial, .receive, .subscribe] = some w :=
    Option.isSome_iff_exists.mp (by decide +kernel)
  have hend : (PubSub.start.run [.retainTopic busyTopic, .sendSubscribe busyTopic, .connect,
      .subscribeInitial, .receive, .subscribe]).all fun w ↦ w.session.any fun s ↦
        decide (s.todo = [] ∧ s.work = none ∧ w.queue = [] ∧ 0 < w.desiredRefcount busyTopic ∧
          busyTopic ∉ w.sending) := by
    decide +kernel
  rw [hw] at hend
  obtain ⟨s, hs, hfacts⟩ := (Option.any_eq_true ..).mp hend
  obtain ⟨htodo, hwork, hqueue, hpos, hsent⟩ := of_decide_eq_true hfacts
  exact ⟨w, s, hw, hs,
    (topics_followed hw).2.2.2.1 s ⟨hs, htodo, hwork, hqueue⟩ busyTopic hpos hsent⟩

/-- A topic is released and retained again while the task handles the unsubscribe. -/
def overtaken : List Op :=
  [.connect, .retainTopic busyTopic, .sendSubscribe busyTopic, .receive, .subscribe,
    .releaseTopic busyTopic, .sendUnsubscribe busyTopic, .receive, .readRefcount,
    .retainTopic busyTopic]

/-- It is unsubscribed while it is desired, and the queue is drained. -/
theorem overtaken_unsubscribes_desired :
    ∃ w s w' s', PubSub.start.run overtaken = some w ∧ w.session = some s ∧
      busyTopic.redisChannel ∈ s.subscribed ∧ w.desiredRefcount busyTopic = 1 ∧
      w.step .unsubscribe = some w' ∧ w'.Drained s' ∧ w'.desiredRefcount busyTopic = 1 ∧
      busyTopic.redisChannel ∉ s'.subscribed := by
  have hbefore : (PubSub.start.run overtaken).any fun w ↦
      decide (w.desiredRefcount busyTopic = 1) && w.session.any fun s ↦
        decide (busyTopic.redisChannel ∈ s.subscribed) := by
    decide +kernel
  have hafter : ((PubSub.start.run overtaken).bind (PubSub.step · .unsubscribe)).any fun w ↦
      decide (w.desiredRefcount busyTopic = 1 ∧ w.queue = []) && w.session.any fun s ↦
        decide (s.todo = [] ∧ s.work = none ∧ busyTopic.redisChannel ∉ s.subscribed) := by
    decide +kernel
  obtain ⟨w, hw, hbefore⟩ := (Option.any_eq_true ..).mp hbefore
  obtain ⟨hcount, hs⟩ := Bool.and_eq_true_iff.mp hbefore
  obtain ⟨s, hs, hmem⟩ := (Option.any_eq_true ..).mp hs
  rw [hw, Option.bind_some] at hafter
  obtain ⟨w', hw', hafter⟩ := (Option.any_eq_true ..).mp hafter
  obtain ⟨hcount', hs'⟩ := Bool.and_eq_true_iff.mp hafter
  obtain ⟨hcount', hqueue⟩ := of_decide_eq_true hcount'
  obtain ⟨s', hs', hfacts⟩ := (Option.any_eq_true ..).mp hs'
  obtain ⟨htodo, hwork, hnot⟩ := of_decide_eq_true hfacts
  exact ⟨w, s, w', s', hw, hs, of_decide_eq_true hmem, of_decide_eq_true hcount, hw',
    ⟨hs', htodo, hwork, hqueue⟩, hcount', hnot⟩

end Buzz.Pubsub
