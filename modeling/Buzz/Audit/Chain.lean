import Buzz.Audit.Service

namespace Buzz.Audit

open Buzz.Lib Buzz.Lib.Json Buzz.Lib.Sha256 Buzz.Nostr

/-- How far a call of `log` has come; from `locked` on it holds its community's lock. -/
inductive Phase (k : Codec)
  | idle
  | waiting (entry : NewAuditEntry k)
  | locked (entry : NewAuditEntry k)
  | built (entry : NewAuditEntry k) (row : AuditEntry)
  | releasing (c : CommunityId)

def Phase.holds {k : Codec} : Phase k → Option CommunityId
  | .idle => none
  | .waiting _ => none
  | .locked entry => some entry.communityId
  | .built entry _ => some entry.communityId
  | .releasing c => some c

theorem Phase.idle_ne_built {k : Codec} (entry : NewAuditEntry k) (row : AuditEntry) :
    Phase.idle ≠ .built entry row := nofun

theorem Phase.waiting_ne_built {k : Codec} (new : NewAuditEntry k) (entry : NewAuditEntry k)
    (row : AuditEntry) : Phase.waiting new ≠ .built entry row := nofun

theorem Phase.locked_ne_built {k : Codec} (new : NewAuditEntry k) (entry : NewAuditEntry k)
    (row : AuditEntry) : Phase.locked new ≠ .built entry row := nofun

theorem Phase.releasing_ne_built {k : Codec} (c : CommunityId) (entry : NewAuditEntry k)
    (row : AuditEntry) : Phase.releasing c ≠ .built entry row := nofun

/-- The table, the entries as they were hashed in memory, the running calls and the locks. -/
structure AuditState (k : Codec) where
  log : AuditLog
  logged : List AuditEntry
  phase : ℕ → Phase k
  holder : UInt64 → Option ℕ

inductive AuditOp (k : Codec)
  | start (call : ℕ) (entry : NewAuditEntry k)
  | lock (call : ℕ)
  | build (call : ℕ) (now : ℤ)
  | commit (call : ℕ)
  | fail (call : ℕ)
  | unlock (call : ℕ)

variable {k : Codec}

def AuditState.initial (k : Codec) : AuditState k := ⟨[], [], fun _ ↦ .idle, fun _ ↦ none⟩

def AuditState.setPhase (s : AuditState k) (call : ℕ) (p : Phase k) : AuditState k :=
  { s with phase := Function.update s.phase call p }

@[simp] theorem AuditState.phase_setPhase_self (s : AuditState k) (call : ℕ) (p : Phase k) :
    (s.setPhase call p).phase call = p := by
  exact Function.update_self call p s.phase

@[simp] theorem AuditState.phase_setPhase_ne (s : AuditState k) {call call' : ℕ} (p : Phase k)
    (h : call' ≠ call) : (s.setPhase call p).phase call' = s.phase call' := by
  exact Function.update_of_ne h p s.phase

/-- A step that is not enabled changes nothing. A commit that a constraint refuses, like any
other failure, rolls back. -/
def AuditState.step (s : AuditState k) : AuditOp k → AuditState k
  | .start call entry =>
    match s.phase call with
    | .idle => s.setPhase call (.waiting entry)
    | _ => s
  | .lock call =>
    match s.phase call with
    | .waiting entry =>
      match s.holder (k.lockKey entry.communityId) with
      | none =>
        { s.setPhase call (.locked entry) with
          holder := Function.update s.holder (k.lockKey entry.communityId) (some call) }
      | some _ => s
    | _ => s
  | .build call now =>
    match s.phase call with
    | .locked entry =>
      s.setPhase call (.built entry (buildEntry k (chainHead s.log entry.communityId) entry now))
    | _ => s
  | .commit call =>
    match s.phase call with
    | .built entry row =>
      if insertable s.log row = true then
        { s.setPhase call (.releasing entry.communityId) with
          log := s.log ++ [rowOf row], logged := s.logged ++ [row] }
      else s.setPhase call (.releasing entry.communityId)
    | _ => s
  | .fail call =>
    match s.phase call with
    | .waiting _ => s.setPhase call .idle
    | .locked entry => s.setPhase call (.releasing entry.communityId)
    | .built entry _ => s.setPhase call (.releasing entry.communityId)
    | _ => s
  | .unlock call =>
    match s.phase call with
    | .releasing c =>
      { s.setPhase call .idle with holder := Function.update s.holder (k.lockKey c) none }
    | _ => s

def AuditState.run (k : Codec) (ops : List (AuditOp k)) : AuditState k :=
  ops.foldl AuditState.step (AuditState.initial k)

def AuditState.chain (s : AuditState k) (c : CommunityId) : List AuditEntry :=
  s.logged.filter (·.communityId = c)

/-- A list of entries as `log` builds it up. -/
inductive Chain (k : Codec) (c : CommunityId) : List AuditEntry → Prop
  | nil : Chain k c []
  | snoc {entries : List AuditEntry} {entry : AuditEntry} (h : Chain k c entries)
      (hcommunity : entry.communityId = c) (hseq : entry.seq = entries.length + 1)
      (hbound : entry.seq < 2 ^ 63)
      (hprev : entry.prevHash = entries.getLast?.map AuditEntry.hash)
      (hhash : entry.hash = computeHash k entry)
      (htime : toStoragePrecision entry.createdAt = entry.createdAt)
      (hdetail : ∃ detail : Detail k, entry.detail = detail.json) :
      Chain k c (entries ++ [entry])

namespace Chain

variable {c : CommunityId} {entries : List AuditEntry}

theorem seq_last (h : Chain k c entries) {last : AuditEntry}
    (hlast : entries.getLast? = some last) : last.seq = entries.length := by
  cases h with
  | nil => cases hlast
  | snoc _ _ hseq =>
    rw [List.getLast?_concat] at hlast
    cases hlast
    rw [hseq, List.length_append, List.length_singleton]
    push_cast
    rfl

/-- Sequence numbers count the entries from 1 on. -/
theorem seq_mem (h : Chain k c entries) {entry : AuditEntry} (he : entry ∈ entries) :
    1 ≤ entry.seq ∧ entry.seq ≤ entries.length := by
  induction h with
  | nil => cases he
  | @snoc entries last _ _ hseq _ _ _ _ _ ih =>
    rw [List.length_append, List.length_singleton]
    rcases List.mem_append.mp he with he | he
    · have := ih he
      push_cast
      omega
    · rw [List.mem_singleton.mp he, hseq]
      push_cast
      omega

theorem seq_bound (h : Chain k c entries) {entry : AuditEntry} (he : entry ∈ entries) :
    1 ≤ entry.seq ∧ entry.seq < 2 ^ 63 := by
  refine ⟨(h.seq_mem he).1, ?_⟩
  induction h with
  | nil => cases he
  | snoc _ _ _ hbound _ _ _ _ ih =>
    rcases List.mem_append.mp he with he | he
    · exact ih he
    · rw [List.mem_singleton.mp he]
      exact hbound

theorem increasing (h : Chain k c entries) : entries.Pairwise fun a b ↦ a.seq < b.seq := by
  induction h with
  | nil => exact .nil
  | @snoc entries last h _ hseq _ _ _ _ _ ih =>
    refine List.pairwise_append.mpr ⟨ih, List.pairwise_singleton _ _, fun a ha b hb ↦ ?_⟩
    rw [List.mem_singleton.mp hb, hseq]
    have := (h.seq_mem ha).2
    omega

theorem foldl_head (h : Chain k c entries) :
    (entries.map rowOf).foldl
      (fun best row ↦
        match best with
        | none => some row
        | some b => if b.seq < row.seq then some row else some b)
      none = entries.getLast?.map rowOf := by
  induction h with
  | nil => rfl
  | @snoc entries entry h _ hseq _ _ _ _ _ ih =>
    rw [List.map_append, List.foldl_append, ih, List.getLast?_concat]
    cases hlast : entries.getLast? with
    | none => rfl
    | some last =>
      have hlt : (rowOf last).seq < (rowOf entry).seq := by
        have := h.seq_last hlast
        change last.seq < entry.seq
        omega
      simp only [Option.map_some, List.map_singleton, List.foldl_cons, List.foldl_nil, if_pos hlt]

theorem links_concat {prev : Option Bytes} {xs : List AuditEntry} {entry : AuditEntry}
    (h : Links prev xs)
    (hlink : match xs.getLast? with
      | none => prev.isSome = true → entry.prevHash = prev
      | some last => entry.prevHash = some last.hash) : Links prev (xs ++ [entry]) := by
  induction xs generalizing prev with
  | nil => exact ⟨hlink, trivial⟩
  | cons x xs ih =>
    refine ⟨h.1, ih h.2 ?_⟩
    cases xs with
    | nil =>
      intro _
      exact hlink
    | cons y ys =>
      rw [List.getLast?_cons_cons] at hlink
      cases hlast : (y :: ys).getLast? with
      | none => exact absurd (List.getLast?_eq_none_iff.mp hlast) (List.cons_ne_nil _ _)
      | some last =>
        rw [hlast] at hlink
        exact hlink

theorem links_range (h : Chain k c entries) (fromSeq toSeq : ℤ) :
    Links none (entries.filter fun e ↦ between fromSeq toSeq e.seq) := by
  induction h with
  | nil => exact trivial
  | @snoc entries entry h _ hseq _ hprev _ _ _ ih =>
    have hkeep {e : AuditEntry} (hin : between fromSeq toSeq e.seq = true) :
        [e].filter (fun e ↦ between fromSeq toSeq e.seq) = [e] := by
      simp only [List.filter_cons, hin, if_true, List.filter_nil]
    rw [List.filter_append]
    by_cases hin : between fromSeq toSeq entry.seq = true
    · rw [hkeep hin]
      apply links_concat ih
      split
      · intro hnone
        cases hnone
      · next last hlast =>
        obtain ⟨hlast_mem, hlast_in⟩ := List.mem_filter.mp (List.mem_of_getLast? hlast)
        rw [between_iff] at hlast_in hin
        have hbound := h.seq_mem hlast_mem
        cases hfinal : entries.getLast? with
        | none =>
          rw [List.getLast?_eq_none_iff] at hfinal
          rw [hfinal] at hlast_mem
          cases hlast_mem
        | some final =>
          have hfinal_seq := h.seq_last hfinal
          have hfinal_in : between fromSeq toSeq final.seq = true := by
            rw [between_iff]
            omega
          obtain ⟨init, rfl⟩ := List.getLast?_eq_some_iff.mp hfinal
          rw [List.filter_append, hkeep hfinal_in, List.getLast?_concat] at hlast
          rw [hprev, hfinal, ← Option.some.inj hlast]
          rfl
    · have hdrop : [entry].filter (fun e ↦ between fromSeq toSeq e.seq) = [] := by
        simp only [List.filter_cons, hin, Bool.false_eq_true, if_false, List.filter_nil]
      rw [hdrop, List.append_nil]
      exact ih

end Chain

section Run

variable {s : AuditState k}

structure AuditState.Sound (s : AuditState k) : Prop where
  rows : s.log = s.logged.map rowOf
  chains : ∀ c, Chain k c (s.chain c)
  held : ∀ call c, (s.phase call).holds = some c → s.holder (k.lockKey c) = some call
  current : ∀ call entry row, s.phase call = .built entry row →
    ∃ now, row = buildEntry k (chainHead s.log entry.communityId) entry now

theorem sound_initial : (AuditState.initial k).Sound where
  rows := rfl
  chains _ := .nil
  held _ _ h := nomatch h
  current _ _ _ h := nomatch h

theorem filter_rowOf (entries : List AuditEntry) (c : CommunityId) :
    (entries.map rowOf).filter (·.communityId = c) =
      (entries.filter (·.communityId = c)).map rowOf :=
  List.filter_map

theorem AuditState.Sound.head (h : s.Sound) (c : CommunityId) :
    chainHead s.log c = (s.chain c).getLast?.map rowOf := by
  rw [chainHead, h.rows, filter_rowOf]
  exact (h.chains c).foldl_head

theorem AuditState.Sound.setPhase (h : s.Sound) {call : ℕ} {p : Phase k}
    (hholds : ∀ c, p.holds = some c → s.holder (k.lockKey c) = some call)
    (hbuilt : ∀ entry row, p = .built entry row →
      ∃ now, row = buildEntry k (chainHead s.log entry.communityId) entry now) :
    (s.setPhase call p).Sound where
  rows := h.rows
  chains := h.chains
  held := by
    intro call' c hc
    by_cases hcall : call' = call
    · rw [hcall] at hc ⊢
      rw [AuditState.phase_setPhase_self] at hc
      exact hholds c hc
    · rw [AuditState.phase_setPhase_ne _ _ hcall] at hc
      exact h.held call' c hc
  current := by
    intro call' entry row hrow
    by_cases hcall : call' = call
    · rw [hcall, AuditState.phase_setPhase_self] at hrow
      exact hbuilt entry row hrow
    · rw [AuditState.phase_setPhase_ne _ _ hcall] at hrow
      exact h.current call' entry row hrow

theorem AuditState.Sound.setPlain (h : s.Sound) {call : ℕ} {p : Phase k}
    (hholds : ∀ c, p.holds = some c → s.holder (k.lockKey c) = some call)
    (hplain : ∀ entry row, p ≠ .built entry row) : (s.setPhase call p).Sound :=
  h.setPhase hholds fun entry row heq ↦ absurd heq (hplain entry row)

theorem AuditState.Sound.extend (h : s.Sound) {entry : NewAuditEntry k} {row : AuditEntry} {now : ℤ}
    (hrow : row = buildEntry k (chainHead s.log entry.communityId) entry now)
    (hinsert : insertable s.log row = true) :
    Chain k entry.communityId (s.chain entry.communityId ++ [row]) := by
  rw [h.head entry.communityId] at hrow
  have hchain := h.chains entry.communityId
  have hbound : row.seq < 2 ^ 63 := by
    simp only [insertable, Bool.and_eq_true, decide_eq_true_eq] at hinsert
    exact hinsert.1.1.1
  have hseq : row.seq = (s.chain entry.communityId).length + 1 := by
    rw [hrow]
    cases hlast : (s.chain entry.communityId).getLast? with
    | none =>
      rw [List.getLast?_eq_none_iff] at hlast
      rw [hlast]
      rfl
    | some last =>
      have hlast_seq := hchain.seq_last hlast
      change last.seq + 1 = _
      rw [hlast_seq]
  refine hchain.snoc (by rw [hrow]; rfl) hseq hbound ?_ (by rw [hrow]; rfl) ?_ ?_
  · rw [hrow]
    cases (s.chain entry.communityId).getLast? <;> rfl
  · rw [hrow]
    exact toStoragePrecision_idem now
  · rw [hrow]
    exact ⟨entry.detail, rfl⟩

theorem AuditState.chain_concat (s : AuditState k) (row : AuditEntry) (c : CommunityId) :
    (s.logged ++ [row]).filter (·.communityId = c) =
      if row.communityId = c then s.chain c ++ [row] else s.chain c := by
  rw [List.filter_append]
  by_cases hc : row.communityId = c
  · simp only [List.filter_cons, hc, decide_true, if_true, List.filter_nil, AuditState.chain]
  · simp only [List.filter_cons, hc, decide_false, Bool.false_eq_true, if_false, List.filter_nil,
      List.append_nil, AuditState.chain]

/-- While one call commits, no other is at work on the same community: it would hold the
same lock. -/
theorem AuditState.Sound.commit (h : s.Sound) {call : ℕ} {entry : NewAuditEntry k}
    {row : AuditEntry} (hphase : s.phase call = .built entry row)
    (hinsert : insertable s.log row = true) :
    ({ s.setPhase call (.releasing entry.communityId) with
      log := s.log ++ [rowOf row], logged := s.logged ++ [row] } : AuditState k).Sound := by
  obtain ⟨now, hrow⟩ := h.current call entry row hphase
  have hcommunity : row.communityId = entry.communityId := by rw [hrow]; rfl
  have hlock : s.holder (k.lockKey entry.communityId) = some call := by
    apply h.held call
    rw [hphase]
    rfl
  have hset : (s.setPhase call (.releasing entry.communityId)).Sound :=
    h.setPlain (fun c hc ↦ Option.some.inj hc ▸ hlock) (Phase.releasing_ne_built _)
  refine ⟨?_, fun c ↦ ?_, hset.held, fun call' entry' row' hrow' ↦ ?_⟩
  · rw [List.map_append, ← h.rows]
    rfl
  · change Chain k c ((s.logged ++ [row]).filter (·.communityId = c))
    rw [s.chain_concat]
    split
    · next hc =>
      rw [← hc, hcommunity]
      exact h.extend hrow hinsert
    · exact h.chains c
  · obtain ⟨now', hnow'⟩ := hset.current call' entry' row' hrow'
    refine ⟨now', ?_⟩
    have hother : row.communityId ≠ entry'.communityId := by
      intro hsame
      have hheld := hset.held call' entry'.communityId (by
        rw [show (s.setPhase call (.releasing entry.communityId)).phase call' = _ from hrow']
        rfl)
      rw [← hsame, hcommunity] at hheld
      have hcall : call' = call := by
        have heq := hheld.symm.trans hlock
        exact Option.some.inj heq
      rw [hcall] at hrow'
      change Function.update s.phase call _ call = _ at hrow'
      rw [Function.update_self] at hrow'
      exact absurd hrow' (Phase.releasing_ne_built _ _ _)
    have hhead : chainHead (s.log ++ [rowOf row]) entry'.communityId =
        chainHead s.log entry'.communityId := by
      have hskip : [rowOf row].filter (·.communityId = entry'.communityId) = [] := by
        simp only [List.filter_cons, rowOf, hother, decide_false, Bool.false_eq_true, if_false,
          List.filter_nil]
      rw [chainHead, chainHead, List.filter_append, hskip, List.append_nil]
    rw [hhead]
    exact hnow'

theorem step_sound (h : s.Sound) (op : AuditOp k) : (s.step op).Sound := by
  cases op with
  | start call entry =>
    rw [AuditState.step]
    split
    · exact h.setPlain (fun _ hc ↦ by cases hc) (Phase.waiting_ne_built _)
    · exact h
  | lock call =>
    rw [AuditState.step]
    split
    · next entry hphase =>
      split
      · next hfree =>
        have hself : Function.update s.holder (k.lockKey entry.communityId) (some call)
            (k.lockKey entry.communityId) = some call := Function.update_self _ _ _
        refine ⟨h.rows, h.chains, fun call' c hc ↦ ?_, fun call' entry' row hrow ↦ ?_⟩
        · change (Function.update s.phase call (.locked entry) call').holds = some c at hc
          change Function.update s.holder _ _ _ = _
          by_cases hcall : call' = call
          · rw [hcall, Function.update_self] at hc
            rw [hcall, ← Option.some.inj hc]
            exact hself
          · rw [Function.update_of_ne hcall] at hc
            have hheld := h.held call' c hc
            rw [Function.update_of_ne]
            · exact hheld
            · intro hkey
              rw [hkey, hfree] at hheld
              cases hheld
        · change Function.update s.phase call (.locked entry) call' = _ at hrow
          by_cases hcall : call' = call
          · rw [hcall, Function.update_self] at hrow
            exact absurd hrow (Phase.locked_ne_built _ _ _)
          · rw [Function.update_of_ne hcall] at hrow
            exact h.current call' entry' row hrow
      · exact h
    · exact h
  | build call now =>
    rw [AuditState.step]
    split
    · next entry hphase =>
      apply h.setPhase
      · intro c hc
        apply h.held call
        rw [hphase]
        exact hc
      · intro entry' row heq
        obtain ⟨rfl, rfl⟩ := Phase.built.inj heq
        exact ⟨now, rfl⟩
    · exact h
  | commit call =>
    rw [AuditState.step]
    split
    · next entry row hphase =>
      split
      · next hinsert => exact h.commit hphase hinsert
      · apply h.setPlain _ (Phase.releasing_ne_built _)
        intro c hc
        apply h.held call
        rw [hphase]
        exact hc
    · exact h
  | fail call =>
    rw [AuditState.step]
    split
    · exact h.setPlain (fun _ hc ↦ by cases hc) Phase.idle_ne_built
    · next entry hphase =>
      apply h.setPlain _ (Phase.releasing_ne_built _)
      intro c hc
      apply h.held call
      rw [hphase]
      exact hc
    · next entry row hphase =>
      apply h.setPlain _ (Phase.releasing_ne_built _)
      intro c hc
      apply h.held call
      rw [hphase]
      exact hc
    · exact h
  | unlock call =>
    rw [AuditState.step]
    split
    · next c hphase =>
      have hlock : s.holder (k.lockKey c) = some call := by
        apply h.held call
        rw [hphase]
        rfl
      have hset : (s.setPhase call .idle).Sound :=
        h.setPlain (fun _ hc ↦ by cases hc) Phase.idle_ne_built
      refine ⟨h.rows, h.chains, fun call' c' hc' ↦ ?_, hset.current⟩
      have hheld := hset.held call' c' hc'
      change Function.update s.holder _ _ _ = _
      rw [Function.update_of_ne]
      · exact hheld
      · intro hkey
        have hcall : call' = call := by
          rw [hkey] at hheld
          exact Option.some.inj (hheld.symm.trans hlock)
        change (Function.update s.phase call .idle call').holds = some c' at hc'
        rw [hcall, Function.update_self] at hc'
        cases hc'
    · exact h

theorem run_sound (ops : List (AuditOp k)) : (AuditState.run k ops).Sound :=
  List.foldlRecOn (motive := AuditState.Sound) ops AuditState.step sound_initial
    fun _ h op _ ↦ step_sound h op

end Run

end Buzz.Audit
