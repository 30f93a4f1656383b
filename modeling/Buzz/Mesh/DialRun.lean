import Buzz.Mesh.Dial

namespace Buzz.Mesh.Dial

open Buzz.Lib
open Buzz.Relay.Tunnel (RuntimeId)

/-- The two loops that end in `remove_peer`. -/
def PeerTask.Removes (t : PeerTask) : Prop := t ≠ .controlStream

def TaskState.Serving (s : TaskState) : Prop := s = .parked ∨ s = .running false

theorem TaskState.not_serving_ended : ¬TaskState.ended.Serving := by
  rintro (h | h)
  · cases h
  · cases h

theorem TaskState.not_serving_abort (s : TaskState) : ¬s.abort.Serving := by
  rintro (h | h)
  · cases s <;> cases h
  · cases s <;> cases h

theorem TaskState.Serving.ne_absent {s : TaskState} (h : s.Serving) : s ≠ .absent := by
  rintro rfl
  rcases h with h | h
  · cases h
  · cases h

namespace Net

def EntryIs (w : Net) (x y : RuntimeId) (c : ℕ) (r : Role) : Prop :=
  ∃ e, w.peers x y = some e ∧ e.conn = c ∧ e.role = r

def Entered (w : Net) (c : ℕ) (r : Role) : Prop := w.EntryIs (w.node c r) (w.node c r.other) c r

/-- No loop that was told to stop comes to the end of its connection. -/
def Obeys (w : Net) : Op → Prop
  | .ends c r t => t.Removes → w.tasks c r t ≠ .running true
  | _ => True

/-- Tables and tasks belong together as long as the stopped loops obey. -/
structure Inv (w : Net) : Prop where
  apart : ∀ c < w.conns, w.node c .dialer ≠ w.node c .acceptor
  served : ∀ c r t, (w.tasks c r t).Serving → w.Entered c r
  entry : ∀ x y e, w.peers x y = some e → e.conn < w.conns ∧ w.node e.conn e.role = x ∧
    w.node e.conn e.role.other = y ∧ w.resolved e.conn e.role = true ∧
    ∀ t, t.Removes → (w.tasks e.conn e.role t).Serving
  fresh : ∀ c r, w.resolved c r = false → ∀ t, w.tasks c r t = .absent
  born : ∀ c r, w.resolved c r = true → c < w.conns

variable {w w' : Net} {c : ℕ} {r : Role} {op : Op} {x y : RuntimeId}

theorem Inv.start : start.Inv where
  apart c hc := absurd hc (Nat.not_lt_zero c)
  served _ _ _ h := by
    rcases h with h | h
    · cases h
    · cases h
  entry _ _ _ h := nomatch h
  fresh _ _ _ _ := rfl
  born _ _ h := nomatch h

/-- A change that touches no task, table, node or connection. -/
theorem Inv.congr (h : w.Inv) (hconns : w'.conns = w.conns) (hnode : w'.node = w.node)
    (hresolved : w'.resolved = w.resolved) (htasks : w'.tasks = w.tasks)
    (hpeers : w'.peers = w.peers) : w'.Inv := by
  obtain ⟨conns, node, closed, resolved, tasks, exchange, streams, peers⟩ := w'
  subst hconns hnode hresolved htasks hpeers
  exact ⟨h.apart, h.served, h.entry, h.fresh, h.born⟩

theorem tasks_setTasks {f : PeerTask → TaskState → TaskState} {c' : ℕ} {r' : Role} (t : PeerTask) :
    (w.setTasks c r f).tasks c' r' t =
      if c' = c ∧ r' = r then f t (w.tasks c' r' t) else w.tasks c' r' t := rfl

theorem tasks_setTask {t t' : PeerTask} {s : TaskState} {c' : ℕ} {r' : Role} :
    (w.setTask c r t s).tasks c' r' t' =
      if c' = c ∧ r' = r ∧ t' = t then s else w.tasks c' r' t' := by
  rw [setTask, tasks_setTasks]
  by_cases hend : c' = c ∧ r' = r
  · rw [if_pos hend]
    by_cases ht : t' = t
    · rw [if_pos ht, if_pos ⟨hend.1, hend.2, ht⟩]
    · rw [if_neg ht, if_neg fun h ↦ ht h.2.2]
  · rw [if_neg hend, if_neg fun h ↦ hend ⟨h.1, h.2.1⟩]

theorem Inv.resolved_of_task (h : w.Inv) {t : PeerTask} (ht : w.tasks c r t ≠ .absent) :
    w.resolved c r = true := by
  by_contra hres
  exact ht (h.fresh c r (Bool.eq_false_iff.mpr hres) t)

theorem Inv.setTask (h : w.Inv) {t : PeerTask} {s : TaskState} (hres : w.resolved c r = true)
    (hserving : s.Serving → (w.tasks c r t).Serving)
    (hkeeps : t.Removes → (w.tasks c r t).Serving → s.Serving) : (w.setTask c r t s).Inv := by
  refine ⟨h.apart, fun c' r' t' ht' ↦ ?_, fun x y e he ↦ ?_, fun c' r' hc' t' ↦ ?_, h.born⟩
  · rw [tasks_setTask] at ht'
    split at ht'
    case isTrue heq =>
      obtain ⟨rfl, rfl, rfl⟩ := heq
      exact h.served _ _ _ (hserving ht')
    case isFalse => exact h.served c' r' t' ht'
  · obtain ⟨hconn, hx, hy, hresolved, htasks⟩ := h.entry x y e he
    refine ⟨hconn, hx, hy, hresolved, fun t' ht' ↦ ?_⟩
    rw [tasks_setTask]
    split
    case isTrue heq =>
      obtain ⟨hc, hr, rfl⟩ := heq
      subst hc hr
      exact hkeeps ht' (htasks t' ht')
    case isFalse => exact htasks t' ht'
  · have hne : ¬(c' = c ∧ r' = r ∧ t' = t) := by
      rintro ⟨rfl, rfl, -⟩
      exact Bool.false_ne_true (hc'.symm.trans hres)
    rw [tasks_setTask, if_neg hne]
    exact h.fresh c' r' hc' t'

theorem Inv.resolve (h : w.Inv) (hc : c < w.conns) : (w.resolve c r).Inv := by
  have hmono {c' : ℕ} {r' : Role} (hres : w.resolved c' r' = true) :
      (w.resolve c r).resolved c' r' = true := by
    rw [Net.resolve]
    dsimp only
    split
    · rfl
    · exact hres
  refine ⟨h.apart, h.served, fun x y e he ↦ ?_, fun c' r' hc' ↦ ?_, fun c' r' hc' ↦ ?_⟩
  · obtain ⟨hconn, hx, hy, hresolved, htasks⟩ := h.entry x y e he
    exact ⟨hconn, hx, hy, hmono hresolved, htasks⟩
  · refine h.fresh c' r' (Bool.eq_false_iff.mpr fun hres ↦ ?_)
    exact Bool.false_ne_true (hc'.symm.trans (hmono hres))
  · rw [Net.resolve] at hc'
    dsimp only at hc'
    split at hc'
    case isTrue heq => exact heq.1 ▸ hc
    case isFalse => exact h.born c' r' hc'

theorem peers_setPeer {e : Option PeerEntry} {x' y' : RuntimeId} :
    (w.setPeer x y e).peers x' y' = if x' = x ∧ y' = y then e else w.peers x' y' := rfl

theorem Inv.entryIs (h : w.Inv) (he : w.EntryIs x y c r) :
    w.node c r = x ∧ w.node c r.other = y ∧ w.resolved c r = true := by
  obtain ⟨e, hpeer, rfl, rfl⟩ := he
  obtain ⟨-, hx, hy, hres, -⟩ := h.entry x y e hpeer
  exact ⟨hx, hy, hres⟩

/-- A new entry takes the place of one whose tasks were told to stop. -/
theorem Inv.insertPeer (h : w.Inv) {tasks : ℕ → Role → PeerTask → TaskState}
    (hc : w.resolved c r = true)
    (hstopped : ∀ c' r' t, w.EntryIs (w.node c r) (w.node c r.other) c' r' →
      ¬(tasks c' r' t).Serving)
    (hsame : ∀ c' r' t, ¬w.EntryIs (w.node c r) (w.node c r.other) c' r' →
      tasks c' r' t = w.tasks c' r' t) :
    ({ w with tasks := tasks }.insertPeer c r).Inv := by
  have hspawned {c' : ℕ} {r' : Role} (hne : ¬(c' = c ∧ r' = r)) (t : PeerTask) :
      ({ w with tasks := tasks }.insertPeer c r).tasks c' r' t = tasks c' r' t :=
    if_neg hne
  refine ⟨h.apart, fun c' r' t ht ↦ ?_, fun x y e he ↦ ?_, fun c' r' hc' t ↦ ?_, h.born⟩
  · by_cases hend : c' = c ∧ r' = r
    · obtain ⟨rfl, rfl⟩ := hend
      exact ⟨_, if_pos ⟨rfl, rfl⟩, rfl, rfl⟩
    rw [hspawned hend] at ht
    have hnot : ¬w.EntryIs (w.node c r) (w.node c r.other) c' r' := fun hentry ↦
      hstopped c' r' t hentry ht
    rw [hsame c' r' t hnot] at ht
    obtain ⟨e, he, hconn, hrole⟩ := h.served c' r' t ht
    refine ⟨e, ?_, hconn, hrole⟩
    refine (if_neg fun hat ↦ hnot ?_).trans he
    exact ⟨e, by rw [← hat.1, ← hat.2]; exact he, hconn, hrole⟩
  · rw [Net.insertPeer, peers_setPeer] at he
    split at he
    case isTrue hat =>
      cases he
      refine ⟨h.born c r hc, hat.1.symm, hat.2.symm, hc, fun t ht ↦ .inl ?_⟩
      refine (if_pos ⟨rfl, rfl⟩).trans (if_neg ?_)
      exact fun hctl ↦ ht hctl.1
    case isFalse hat =>
      obtain ⟨hconn, hx, hy, hres, htasks⟩ := h.entry x y e he
      have hend : ¬(e.conn = c ∧ e.role = r) := by
        rintro ⟨rfl, rfl⟩
        exact hat ⟨hx.symm, hy.symm⟩
      have hnot : ¬w.EntryIs (w.node c r) (w.node c r.other) e.conn e.role := fun hentry ↦ by
        obtain ⟨hx', hy', -⟩ := h.entryIs hentry
        exact hat ⟨hx.symm.trans hx', hy.symm.trans hy'⟩
      refine ⟨hconn, hx, hy, hres, fun t ht ↦ ?_⟩
      rw [hspawned hend, hsame _ _ _ hnot]
      exact htasks t ht
  · have hres : w.resolved c' r' = false := hc'
    have hend : ¬(c' = c ∧ r' = r) := by
      rintro ⟨rfl, rfl⟩
      exact Bool.false_ne_true (hres.symm.trans hc)
    have hnot : ¬w.EntryIs (w.node c r) (w.node c r.other) c' r' := fun hentry ↦
      Bool.false_ne_true (hres.symm.trans (h.entryIs hentry).2.2)
    rw [hspawned hend, hsame _ _ _ hnot]
    exact h.fresh c' r' hres t

theorem Inv.installPeer (h : w.Inv) (hc : w.resolved c r = true) : (w.installPeer c r).2.Inv := by
  rw [Net.installPeer]
  split
  case h_1 e he =>
    split
    · exact h
    · refine h.insertPeer hc (fun c' r' t hentry ↦ ?_) fun c' r' t hnot ↦ ?_
      · obtain ⟨e', he', rfl, rfl⟩ := hentry
        cases he.symm.trans he'
        rw [if_pos ⟨rfl, rfl⟩]
        exact TaskState.not_serving_abort _
      · exact if_neg fun hend ↦ hnot ⟨e, he, hend.1.symm, hend.2.symm⟩
  case h_2 hnone =>
    refine h.insertPeer hc (fun c' r' t hentry ↦ ?_) fun _ _ _ _ ↦ rfl
    obtain ⟨e', he', -⟩ := hentry
    cases hnone.symm.trans he'

/-- The end of a loop takes its own entry and stops the tasks of that entry. -/
theorem Inv.removePeer (h : w.Inv) (hentered : w.Entered c r) {t : PeerTask} :
    ((w.removePeer (w.node c r) (w.node c r.other)).setTask c r t .ended).Inv := by
  obtain ⟨e, he, rfl, rfl⟩ := hentered
  have hremove : w.removePeer (w.node e.conn e.role) (w.node e.conn e.role.other) =
      (w.setPeer (w.node e.conn e.role) (w.node e.conn e.role.other) none).abort e := by
    rw [Net.removePeer, he]
  have htasks {c' : ℕ} {r' : Role} (hne : ¬(c' = e.conn ∧ r' = e.role)) (t' : PeerTask) :
      ((w.removePeer (w.node e.conn e.role) (w.node e.conn e.role.other)).setTask
        e.conn e.role t .ended).tasks c' r' t' = w.tasks c' r' t' := by
    rw [tasks_setTask, if_neg fun hat ↦ hne ⟨hat.1, hat.2.1⟩, hremove]
    exact if_neg hne
  have hstopped (t' : PeerTask) : ¬(((w.removePeer (w.node e.conn e.role)
      (w.node e.conn e.role.other)).setTask e.conn e.role t .ended).tasks
        e.conn e.role t').Serving := by
    rw [tasks_setTask]
    split
    · exact TaskState.not_serving_ended
    · rw [hremove, abort, tasks_setTasks, if_pos ⟨rfl, rfl⟩]
      exact TaskState.not_serving_abort _
  rw [hremove] at htasks hstopped ⊢
  refine ⟨h.apart, fun c' r' t' ht' ↦ ?_, fun x y e' he' ↦ ?_, fun c' r' hc' t' ↦ ?_, h.born⟩
  · have hne : ¬(c' = e.conn ∧ r' = e.role) := by
      rintro ⟨rfl, rfl⟩
      exact hstopped t' ht'
    rw [htasks hne] at ht'
    obtain ⟨e', he', hconn, hrole⟩ := h.served c' r' t' ht'
    refine ⟨e', (if_neg fun hat ↦ hne ?_).trans he', hconn, hrole⟩
    obtain ⟨hx, hy⟩ : w.node c' r' = w.node e.conn e.role ∧
      w.node c' r'.other = w.node e.conn e.role.other := hat
    rw [hx, hy] at he'
    cases he.symm.trans he'
    exact ⟨hconn.symm, hrole.symm⟩
  · change (if x = w.node e.conn e.role ∧ y = w.node e.conn e.role.other then none
      else w.peers x y) = some e' at he'
    split at he'
    case isTrue => cases he'
    case isFalse hat =>
      obtain ⟨hconn, hx, hy, hres, hserving⟩ := h.entry x y e' he'
      have hne : ¬(e'.conn = e.conn ∧ e'.role = e.role) := by
        rintro ⟨hc, hr⟩
        rw [hc, hr] at hx hy
        exact hat ⟨hx.symm, hy.symm⟩
      refine ⟨hconn, hx, hy, hres, fun t' ht' ↦ ?_⟩
      rw [htasks hne]
      exact hserving t' ht'
  · have hne : ¬(c' = e.conn ∧ r' = e.role) := by
      rintro ⟨rfl, rfl⟩
      exact Bool.false_ne_true (hc'.symm.trans (h.entry _ _ e he).2.2.2.1)
    rw [htasks hne]
    exact h.fresh c' r' hc' t'

theorem Inv.dial (h : w.Inv) (hne : x ≠ y) : { w with
    conns := w.conns + 1
    node := fun c r ↦
      if c = w.conns then (match r with | .dialer => x | .acceptor => y) else w.node c r }.Inv := by
  have hold {c : ℕ} (hc : c < w.conns) (r : Role) : (if c = w.conns then
      (match r with | .dialer => x | .acceptor => y) else w.node c r) = w.node c r :=
    if_neg hc.ne
  refine ⟨fun c hc ↦ ?_, fun c r t ht ↦ ?_, fun x' y' e he ↦ ?_, h.fresh, fun c r hc ↦
    (h.born c r hc).trans (Nat.lt_succ_self _)⟩
  · dsimp only
    split
    · exact hne
    · have hlt : c < w.conns + 1 := hc
      exact h.apart c (by omega)
  · have hc := h.born c r (h.resolved_of_task ht.ne_absent)
    obtain ⟨e, he, hconn, hrole⟩ := h.served c r t ht
    refine ⟨e, ?_, hconn, hrole⟩
    dsimp only
    rw [hold hc, hold hc]
    exact he
  · obtain ⟨hconn, hx, hy, hres, htasks⟩ := h.entry x' y' e he
    dsimp only
    rw [hold hconn, hold hconn]
    exact ⟨hconn.trans (Nat.lt_succ_self _), hx, hy, hres, htasks⟩

/-- The hello of a control stream changes only the writer queue of an entry. -/
theorem Inv.controlTx (h : w.Inv) {tx : Option ℕ} : (w.setPeer x y
    ((w.peers x y).map fun e ↦ { e with controlTx := tx })).Inv := by
  refine ⟨h.apart, fun c r t ht ↦ ?_, fun x' y' e he ↦ ?_, h.fresh, h.born⟩
  · obtain ⟨e, he, hconn, hrole⟩ := h.served c r t ht
    rw [Entered, EntryIs, peers_setPeer]
    split
    case isTrue hat =>
      refine ⟨{ e with controlTx := tx }, ?_, hconn, hrole⟩
      have he' : w.peers x y = some e := by
        rw [← hat.1, ← hat.2]
        exact he
      rw [he']
      rfl
    case isFalse => exact ⟨e, he, hconn, hrole⟩
  · rw [peers_setPeer] at he
    split at he
    case isTrue hat =>
      obtain ⟨e', he', rfl⟩ := Option.map_eq_some_iff.mp he
      rw [hat.1, hat.2]
      exact h.entry x y e' he'
    case isFalse => exact h.entry x' y' e he

theorem Inv.step (h : w.Inv) (hstep : w.step op = some w') (hobeys : w.Obeys op) : w'.Inv := by
  cases op with
  | dial x y =>
    rw [Net.step] at hstep
    split at hstep
    case isTrue hcond =>
      cases hstep
      exact h.dial hcond.1
    case isFalse => cases hstep
  | connected c =>
    rw [Net.step] at hstep
    split at hstep
    case isTrue hcond =>
      cases hstep
      exact (h.resolve hcond.1).installPeer (if_pos ⟨rfl, rfl⟩)
    case isFalse => cases hstep
  | dialFailed c =>
    rw [Net.step] at hstep
    split at hstep
    case isTrue hcond =>
      cases hstep
      exact h.resolve hcond.1
    case isFalse => cases hstep
  | accepted c known =>
    rw [Net.step] at hstep
    split at hstep
    case isTrue hcond =>
      cases hstep
      split
      · exact (h.resolve hcond.1).installPeer (if_pos ⟨rfl, rfl⟩)
      · exact h.resolve hcond.1
    case isFalse => cases hstep
  | lose c =>
    rw [Net.step] at hstep
    split at hstep
    case isTrue =>
      cases hstep
      exact h.congr rfl rfl rfl rfl rfl
    case isFalse => cases hstep
  | dropped c r =>
    rw [Net.step] at hstep
    split at hstep
    case isTrue =>
      cases hstep
      exact h.congr rfl rfl rfl rfl rfl
    case isFalse => cases hstep
  | wake c r t =>
    rw [Net.step] at hstep
    split at hstep
    case isTrue hparked =>
      cases hstep
      have hres : w.resolved c r = true := by
        refine h.resolved_of_task (t := t) fun habsent ↦ ?_
        cases hparked.symm.trans habsent
      exact h.setTask hres (fun _ ↦ .inl hparked) fun _ _ ↦ .inr rfl
    case isFalse => cases hstep
  | park c r t =>
    rw [Net.step] at hstep
    split at hstep
    case h_1 hrunning =>
      cases hstep
      have hres : w.resolved c r = true := by
        refine h.resolved_of_task (t := t) fun habsent ↦ ?_
        cases hrunning.symm.trans habsent
      exact h.setTask hres (fun _ ↦ .inr hrunning) fun _ _ ↦ .inl rfl
    case h_2 hrunning =>
      cases hstep
      have hres : w.resolved c r = true := by
        refine h.resolved_of_task (t := t) fun habsent ↦ ?_
        cases hrunning.symm.trans habsent
      refine h.setTask hres (fun hs ↦ absurd hs TaskState.not_serving_ended) fun _ hs ↦ ?_
      rw [hrunning] at hs
      exact absurd hs (TaskState.not_serving_abort (.running true))
    case h_3 => cases hstep
  | ends c r t =>
    rw [Net.step] at hstep
    split at hstep
    case h_1 b hrunning =>
      split at hstep
      case isTrue => cases hstep
      case isFalse =>
        cases hstep
        split
        case isTrue ht =>
          have hres : w.resolved c r = true := by
            refine h.resolved_of_task (t := t) fun habsent ↦ ?_
            cases hrunning.symm.trans habsent
          exact h.setTask hres (fun hs ↦ absurd hs TaskState.not_serving_ended)
            fun hremoves ↦ absurd ht hremoves
        case isFalse ht =>
          have hserving : (w.tasks c r t).Serving := by
            cases b with
            | false => exact .inr hrunning
            | true => exact absurd hrunning (hobeys ht)
          exact h.removePeer (h.served c r t hserving)
    case h_2 => cases hstep
  | controlHello c =>
    rw [Net.step] at hstep
    split at hstep
    case h_1 =>
      cases hstep
      exact h.controlTx.congr rfl rfl rfl rfl rfl
    case h_2 => cases hstep
  | exchangeEnds c =>
    rw [Net.step] at hstep
    split at hstep
    case isTrue =>
      cases hstep
      exact h.congr rfl rfl rfl rfl rfl
    case isFalse => cases hstep
  | sessionStream c r =>
    rw [Net.step] at hstep
    split at hstep
    case isTrue =>
      cases hstep
      exact h.congr rfl rfl rfl rfl rfl
    case isFalse => cases hstep
  | sessionsEnd c r =>
    cases hstep
    exact h.congr rfl rfl rfl rfl rfl

theorem Inv.run {ops : List Op} (hrun : Net.start.run ops = some w)
    (hobeys : ∀ pre op w₀, pre ++ [op] <+: ops → Net.start.run pre = some w₀ → w₀.Obeys op) :
    w.Inv := by
  induction ops using List.reverseRecOn generalizing w with
  | nil =>
    cases hrun
    exact .start
  | append_singleton ops op ih =>
    obtain ⟨w₀, hpre, hstep⟩ := foldlM_concat_eq_some.mp hrun
    have hinv : w₀.Inv := ih hpre fun pre op' w₁ hpre ↦
      hobeys pre op' w₁ (hpre.trans (List.prefix_append _ _))
    exact hinv.step hstep (hobeys ops op w₀ (List.prefix_refl _) hpre)

theorem run_append {ops ops' : List Op} {w₁ : Net} (h : w.run ops = some w₁)
    (h' : w₁.run ops' = some w') : w.run (ops ++ ops') = some w' := by
  rw [Net.run, List.foldlM_append]
  exact Option.bind_eq_some_iff.mpr ⟨w₁, h, h'⟩

end Net

end Buzz.Mesh.Dial
