import Buzz.Acp.Observer
import Buzz.Lib.Runs
import Mathlib.Data.List.Nodup
import Mathlib.Tactic.SplitIfs

namespace Buzz.Acp

open Buzz.Lib

variable {event : ObserverEvent} {key : ObserverChunkKey} {text : String}

theorem observerChunkKeyAndText_set (h : observerChunkKeyAndText event = some (key, text))
    (text' : String) :
    observerChunkKeyAndText { event with payload := setObserverChunkText event.payload text' } =
      some (key, text') := by
  obtain ⟨params, hparams, h⟩ := Option.bind_eq_some_iff.mp h
  obtain ⟨update, hupdate, h⟩ := Option.bind_eq_some_iff.mp h
  obtain ⟨updateType, htype, h⟩ := Option.bind_eq_some_iff.mp h
  split_ifs at h with hchunk
  obtain ⟨content, hcontent, h⟩ := Option.bind_eq_some_iff.mp h
  obtain ⟨text₀, htext, heq⟩ := Option.map_eq_some_iff.mp h
  obtain ⟨rfl, -⟩ := Prod.mk.inj heq
  obtain ⟨old, hold, -⟩ := Option.bind_eq_some_iff.mp htext
  have hne : "sessionUpdate" ≠ "content" := by decide
  have hne' : "messageId" ≠ "content" := by decide
  simp only [observerChunkKeyAndText, setObserverChunkText, Json.get_modify, hparams, hupdate,
    Option.map_some, Option.bind_some, Json.get_modify_of_ne hne, Json.get_modify_of_ne hne', htype,
    hchunk, not_true_eq_false, if_false, hcontent, Json.get_setMember hold, Json.asStr]

def SameTranscript (events events' : List ObserverEvent) : Prop :=
  ∀ key read, events.foldr (observe key) read = events'.foldr (observe key) read

theorem SameTranscript.append {as as' bs bs' : List ObserverEvent} (h : SameTranscript as as')
    (h' : SameTranscript bs bs') : SameTranscript (as ++ bs) (as' ++ bs') := by
  intro key read
  rw [List.foldr_append, List.foldr_append, h', h]

theorem SameTranscript.refl (events : List ObserverEvent) : SameTranscript events events :=
  fun _ _ ↦ rfl

theorem sameTranscript_of_chunk {event' : ObserverEvent}
    (h : observerChunkKeyAndText event = some (key, text))
    (h' : observerChunkKeyAndText event' = some (key, text)) :
    SameTranscript [event] [event'] := by
  intro key' read
  simp only [List.foldr_cons, List.foldr_nil, observe, h, h']

structure Formed (pending : ObserverChunkCoalescer) : Prop where
  keys : (pending.map (·.key)).Nodup
  chunk : ∀ p ∈ pending, ∃ text, observerChunkKeyAndText p.event = some (p.key, text)

variable {pending : ObserverChunkCoalescer} {p : PendingObserverChunk}

theorem Formed.tail (h : Formed (p :: pending)) : Formed pending :=
  ⟨(List.nodup_cons.mp h.keys).2, fun p' hp' ↦ h.chunk p' (List.mem_cons_of_mem p hp')⟩

theorem Formed.flushed (h : Formed pending) (hp : p ∈ pending) :
    observerChunkKeyAndText p.flushed = some (p.key, p.text) := by
  obtain ⟨text, htext⟩ := h.chunk p hp
  exact observerChunkKeyAndText_set htext p.text

def pendingText (key : ObserverChunkKey) (pending : ObserverChunkCoalescer) : String :=
  ((pending.find? fun p ↦ p.key = key).map (·.text)).getD ""

theorem pendingText_cons (key : ObserverChunkKey) (p : PendingObserverChunk)
    (pending : ObserverChunkCoalescer) :
    pendingText key (p :: pending) = if p.key = key then p.text else pendingText key pending := by
  rw [pendingText, List.find?_cons]
  split_ifs with h <;> simp [h, pendingText]

theorem pendingText_of_not_mem (h : key ∉ pending.map (·.key)) : pendingText key pending = "" := by
  induction pending with
  | nil => rfl
  | cons p pending ih =>
    simp only [List.map_cons, List.mem_cons, not_or] at h
    rw [pendingText_cons, if_neg (Ne.symm h.1), ih h.2]

theorem foldr_flush (h : Formed pending) (key : ObserverChunkKey)
    (read : String × List (ObserverEvent × String)) :
    pending.flush.foldr (observe key) read = (pendingText key pending ++ read.1, read.2) := by
  induction pending with
  | nil => simp [ObserverChunkCoalescer.flush, pendingText]
  | cons p pending ih =>
    have hflush : ObserverChunkCoalescer.flush (p :: pending) =
        p.flushed :: ObserverChunkCoalescer.flush pending := rfl
    rw [hflush, List.foldr_cons, ih h.tail, pendingText_cons]
    simp only [observe, h.flushed List.mem_cons_self]
    split_ifs with hkey
    · subst hkey
      rw [pendingText_of_not_mem (List.nodup_cons.mp h.keys).1, String.empty_append]
    · rfl

section Update

theorem map_key_update (f : PendingObserverChunk → PendingObserverChunk)
    (hf : ∀ p, (f p).key = p.key) :
    (pending.update key f).map (·.key) = pending.map (·.key) := by
  induction pending with
  | nil => rfl
  | cons p pending ih =>
    rw [ObserverChunkCoalescer.update]
    split_ifs
    · simp [hf]
    · simp [ih]

theorem mem_update {f : PendingObserverChunk → PendingObserverChunk} {p' : PendingObserverChunk}
    (h : p' ∈ pending.update key f) : p' ∈ pending ∨ ∃ p ∈ pending, p.key = key ∧ p' = f p := by
  induction pending with
  | nil => nomatch h
  | cons p pending ih =>
    rw [ObserverChunkCoalescer.update] at h
    split_ifs at h with hkey
    · rcases List.mem_cons.mp h with rfl | h
      · exact .inr ⟨p, List.mem_cons_self, hkey, rfl⟩
      · exact .inl (List.mem_cons_of_mem p h)
    · rcases List.mem_cons.mp h with rfl | h
      · exact .inl List.mem_cons_self
      · rcases ih h with h | ⟨p₀, hp₀, hfp⟩
        · exact .inl (List.mem_cons_of_mem p h)
        · exact .inr ⟨p₀, List.mem_cons_of_mem p hp₀, hfp⟩

theorem pendingText_update (h : key ∈ pending.map (·.key)) (event : ObserverEvent) (text : String)
    (key' : ObserverChunkKey) :
    pendingText key' (pending.update key fun p ↦ p.append event text) =
      if key = key' then pendingText key' pending ++ text else pendingText key' pending := by
  induction pending with
  | nil => simp at h
  | cons p pending ih =>
    rw [ObserverChunkCoalescer.update]
    by_cases hkey : p.key = key
    · rw [if_pos hkey, pendingText_cons, pendingText_cons]
      subst hkey
      simp only [PendingObserverChunk.append]
      split_ifs <;> simp_all
    · have hmem : key ∈ pending.map (·.key) := by
        simpa [Ne.symm hkey] using h
      rw [if_neg hkey, pendingText_cons, pendingText_cons, ih hmem]
      split_ifs with h₁ h₂
      · exact absurd (h₁.trans h₂.symm) hkey
      · rfl
      · rfl
      · rfl

theorem Formed.update (h : Formed pending) (event : ObserverEvent) (text : String) :
    Formed (pending.update key fun p ↦ p.append event text) where
  keys := by
    rw [map_key_update (fun p ↦ p.append event text) fun _ ↦ rfl]
    exact h.keys
  chunk p' hp' := by
    rcases mem_update hp' with hp | ⟨p, hp, -, rfl⟩
    · exact h.chunk p' hp
    · exact h.chunk p hp

/-- Nothing is done before the first chunk of the key. -/
theorem update_append_of_not_mem {init : ObserverChunkCoalescer}
    (h : key ∉ init.map (·.key)) (f : PendingObserverChunk → PendingObserverChunk) :
    ObserverChunkCoalescer.update key f (init ++ pending) =
      init ++ ObserverChunkCoalescer.update key f pending := by
  induction init with
  | nil => rfl
  | cons p init ih =>
    simp only [List.map_cons, List.mem_cons, not_or] at h
    simp only [List.cons_append, ObserverChunkCoalescer.update, if_neg (Ne.symm h.1), ih h.2]

end Update

inductive Ingests (pending : ObserverChunkCoalescer) (event : ObserverEvent) :
    ObserverChunkCoalescer × List ObserverEvent → Prop
  | other : observerChunkKeyAndText event = none → Ingests pending event ([], pending.flush ++ [event])
  | full {key : ObserverChunkKey} {text : String} :
      observerChunkKeyAndText event = some (key, text) →
      Ingests pending event ([⟨key, event, text⟩], pending.flush)
  | append {key : ObserverChunkKey} {text : String} {p : PendingObserverChunk} :
      observerChunkKeyAndText event = some (key, text) → pending.find? (fun p ↦ p.key = key) = some p →
      p.text.utf8ByteSize + text.utf8ByteSize < observerChunkMaxTextBytes →
      Ingests pending event (pending.update key fun p ↦ p.append event text, [])
  | start {key : ObserverChunkKey} {text : String} :
      observerChunkKeyAndText event = some (key, text) → key ∉ pending.map (·.key) →
      Ingests pending event (pending ++ [⟨key, event, text⟩], [])

theorem ingests (pending : ObserverChunkCoalescer) (event : ObserverEvent) :
    Ingests pending event (pending.ingest event) := by
  rw [ObserverChunkCoalescer.ingest]
  cases hchunk : observerChunkKeyAndText event with
  | none => exact .other hchunk
  | some chunk =>
    obtain ⟨key, text⟩ := chunk
    dsimp only
    cases hfind : pending.find? fun p ↦ p.key = key with
    | some p =>
      dsimp only
      split_ifs with hsize
      · exact .full hchunk
      · exact .append hchunk hfind (by omega)
    | none =>
      refine .start hchunk fun hmem ↦ ?_
      obtain ⟨p, hp, hkey⟩ := List.mem_map.mp hmem
      have hno := List.find?_eq_none.mp hfind p hp
      simp [hkey] at hno

section Transcript

theorem flush_append (pending pending' : ObserverChunkCoalescer) :
    ObserverChunkCoalescer.flush (pending ++ pending') = pending.flush ++ pending'.flush :=
  List.map_append

theorem formed_singleton (h : observerChunkKeyAndText event = some (key, text)) :
    Formed [⟨key, event, text⟩] where
  keys := List.nodup_singleton key
  chunk p hp := by
    rw [List.mem_singleton.mp hp]
    exact ⟨text, h⟩

theorem sameTranscript_singleton (h : observerChunkKeyAndText event = some (key, text)) :
    SameTranscript (ObserverChunkCoalescer.flush [⟨key, event, text⟩]) [event] :=
  sameTranscript_of_chunk ((formed_singleton h).flushed List.mem_cons_self) h

theorem Formed.concat (hformed : Formed pending)
    (h : observerChunkKeyAndText event = some (key, text)) (hkey : key ∉ pending.map (·.key)) :
    Formed (pending ++ [⟨key, event, text⟩]) where
  keys := by
    rw [List.map_append]
    refine List.nodup_append.mpr ⟨hformed.keys, (formed_singleton h).keys, fun key' hkey' k hk ↦ ?_⟩
    rw [List.mem_singleton.mp hk]
    rintro rfl
    exact hkey hkey'
  chunk p hp := by
    rcases List.mem_append.mp hp with hp | hp
    · exact hformed.chunk p hp
    · exact (formed_singleton h).chunk p hp

variable {r : ObserverChunkCoalescer × List ObserverEvent}

theorem Formed.ingests (h : Formed pending) (hr : Ingests pending event r) : Formed r.1 := by
  cases hr with
  | other hother => exact ⟨List.nodup_nil, fun p hp ↦ nomatch hp⟩
  | full hchunk => exact formed_singleton hchunk
  | append hchunk hfind hsize => exact h.update event _
  | start hchunk hkey => exact h.concat hchunk hkey

theorem sameTranscript_update (hformed : Formed pending)
    (h : observerChunkKeyAndText event = some (key, text)) (hkey : key ∈ pending.map (·.key)) :
    SameTranscript (pending.update key fun p ↦ p.append event text).flush
      (pending.flush ++ [event]) := by
  intro key' read
  rw [foldr_flush (hformed.update event text), List.foldr_append, foldr_flush hformed,
    pendingText_update hkey]
  simp only [List.foldr_cons, List.foldr_nil, observe, h]
  split_ifs
  · rw [String.append_assoc]
  · rfl

/-- What is given out and what still waits read as what waited and the event. -/
theorem sameTranscript_ingests (h : Formed pending) (hr : Ingests pending event r) :
    SameTranscript (r.2 ++ r.1.flush) (pending.flush ++ [event]) := by
  cases hr with
  | other hother =>
    rw [show ObserverChunkCoalescer.flush [] = [] from rfl, List.append_nil]
    exact .refl _
  | full hchunk => exact (SameTranscript.refl _).append (sameTranscript_singleton hchunk)
  | append hchunk hfind hsize =>
    refine sameTranscript_update h hchunk ?_
    have hkey := List.find?_some hfind
    exact List.mem_map.mpr ⟨_, List.mem_of_find?_eq_some hfind, by simpa using hkey⟩
  | start hchunk hkey =>
    rw [List.nil_append, flush_append]
    exact (SameTranscript.refl _).append (sameTranscript_singleton hchunk)

theorem output_step (s : Coalescing) (op : CoalescerOp) :
    (s.step op).output = s.emitted.flatten ++ match op with
      | .ingest event => (s.pending.ingest event).2 ++ (s.pending.ingest event).1.flush
      | .flush => s.pending.flush := by
  cases op <;>
    simp [Coalescing.step, Coalescing.output, Coalescing.batches, ObserverChunkCoalescer.flush]

theorem output_eq (s : Coalescing) : s.output = s.emitted.flatten ++ s.pending.flush := by
  simp [Coalescing.output, Coalescing.batches]

/-- What was given out and what waits read as what was taken in. -/
structure Faithful (s : Coalescing) : Prop where
  formed : Formed s.pending
  same : SameTranscript s.output s.ingested

theorem Faithful.step {s : Coalescing} (h : Faithful s) (op : CoalescerOp) :
    Faithful (s.step op) := by
  cases op with
  | ingest event =>
    refine ⟨h.formed.ingests (ingests s.pending event), fun key read ↦ ?_⟩
    have hstep := sameTranscript_ingests h.formed (ingests s.pending event)
    have hsame := (SameTranscript.refl s.emitted.flatten).append hstep key read
    rw [← List.append_assoc s.emitted.flatten s.pending.flush, ← output_eq] at hsame
    rw [output_step]
    exact hsame.trans (h.same.append (.refl [event]) key read)
  | flush =>
    refine ⟨⟨List.nodup_nil, fun p hp ↦ nomatch hp⟩, ?_⟩
    rw [output_step, ← output_eq]
    exact h.same

theorem faithful_run (ops : List CoalescerOp) : Faithful (Coalescing.run ops) :=
  List.foldlRecOn ops Coalescing.step ⟨⟨List.nodup_nil, fun _ hp ↦ nomatch hp⟩, .refl []⟩
    fun _ hs op _ ↦ hs.step op

theorem transcript_other (key : ObserverChunkKey) (events : List ObserverEvent) :
    (transcript key events).2.map (·.1) =
      events.filter fun event ↦ observerChunkKeyAndText event = none := by
  induction events with
  | nil => rfl
  | cons event events ih =>
    rw [transcript, List.foldr_cons, ← transcript, observe]
    cases hchunk : observerChunkKeyAndText event with
    | none => simp [hchunk, ih]
    | some chunk =>
      dsimp only
      split_ifs <;> simp [hchunk, ih]

end Transcript

section Sequence

variable {r : ObserverChunkCoalescer × List ObserverEvent} {R : ℕ → ℕ → Prop}

theorem flush_seq (pending : ObserverChunkCoalescer) :
    pending.flush.map (·.seq) = pending.map (·.event.seq) := by
  simp [ObserverChunkCoalescer.flush, PendingObserverChunk.flushed]

theorem seq_mem_update {n : ℕ}
    (h : n ∈ (pending.update key fun p ↦ p.append event text).map (·.event.seq)) :
    n ∈ pending.map (·.event.seq) ∨ n = event.seq := by
  obtain ⟨p', hp', rfl⟩ := List.mem_map.mp h
  rcases mem_update hp' with hp | ⟨p, -, -, rfl⟩
  · exact .inl (List.mem_map.mpr ⟨p', hp, rfl⟩)
  · exact .inr rfl

theorem nodup_seq_update (h : (pending.map (·.event.seq)).Nodup)
    (hlt : ∀ n ∈ pending.map (·.event.seq), n < event.seq) :
    ((pending.update key fun p ↦ p.append event text).map (·.event.seq)).Nodup := by
  induction pending with
  | nil => exact h
  | cons p pending ih =>
    rw [List.map_cons, List.nodup_cons] at h
    have hlt' := fun n hn ↦ hlt n (List.mem_cons_of_mem _ hn)
    rw [ObserverChunkCoalescer.update]
    split_ifs with hkey
    · refine List.nodup_cons.mpr ⟨fun hmem ↦ ?_, h.2⟩
      exact (hlt' _ hmem).ne rfl
    · refine List.nodup_cons.mpr ⟨fun hmem ↦ ?_, ih h.2 hlt'⟩
      rcases seq_mem_update hmem with hmem | heq
      · exact h.1 hmem
      · exact (hlt _ List.mem_cons_self).ne heq

def AppendsBefore (pending : ObserverChunkCoalescer) (event : ObserverEvent) : Prop :=
  ∃ key text, observerChunkKeyAndText event = some (key, text) ∧
    ∃ p ∈ pending.dropLast, p.key = key ∧
      p.text.utf8ByteSize + text.utf8ByteSize < observerChunkMaxTextBytes

theorem ascending_seq_update (h : (pending.map (·.event.seq)).Pairwise (· < ·))
    (hlt : ∀ n ∈ pending.map (·.event.seq), n < event.seq)
    (hlast : ∀ p ∈ pending.dropLast, p.key ≠ key) :
    ((pending.update key fun p ↦ p.append event text).map (·.event.seq)).Pairwise (· < ·) := by
  induction pending using List.reverseRecOn with
  | nil => exact h
  | append_singleton init p _ =>
    have hmem : key ∉ init.map (·.key) := by
      simpa using hlast
    rw [List.map_append, List.pairwise_append] at h
    rw [update_append_of_not_mem hmem, List.map_append, List.pairwise_append]
    rw [ObserverChunkCoalescer.update]
    split_ifs
    · refine ⟨h.1, List.pairwise_singleton _ _, fun n hn m hm ↦ ?_⟩
      rw [List.mem_singleton.mp hm]
      refine hlt n ?_
      rw [List.map_append]
      exact List.mem_append_left _ hn
    · exact h

theorem not_mem_dropLast {p : PendingObserverChunk}
    (h : observerChunkKeyAndText event = some (key, text))
    (hfind : pending.find? (fun p ↦ p.key = key) = some p)
    (hsize : p.text.utf8ByteSize + text.utf8ByteSize < observerChunkMaxTextBytes)
    (hno : ¬AppendsBefore pending event) : ∀ p' ∈ pending.dropLast, p'.key ≠ key := by
  intro p' hp' hkey
  have hsome : (pending.dropLast.find? fun p ↦ p.key = key).isSome :=
    List.find?_isSome.mpr ⟨p', hp', by simpa using hkey⟩
  obtain ⟨p₀, hp₀⟩ := Option.isSome_iff_exists.mp hsome
  have hprefix := List.IsPrefix.find?_eq_some (List.dropLast_prefix pending) hp₀
  rw [hfind] at hprefix
  obtain rfl := Option.some.inj hprefix
  have hkey₀ := List.find?_some hp₀
  exact hno ⟨key, text, h, p, List.mem_of_find?_eq_some hp₀, by simpa using hkey₀, hsize⟩

theorem ingests_seq (hr : Ingests pending event r)
    (hlt : ∀ n ∈ pending.map (·.event.seq), n < event.seq) :
    (∀ n ∈ (r.2 ++ r.1.flush).map (·.seq), n ∈ pending.map (·.event.seq) ∨ n = event.seq) ∧
      ∀ e ∈ r.2, ∀ e' ∈ r.1.flush, e.seq < e'.seq := by
  cases hr with
  | other hother =>
    constructor
    · intro n hn
      rw [show ObserverChunkCoalescer.flush [] = [] from rfl, List.append_nil, List.map_append,
        flush_seq] at hn
      simpa using hn
    · intro e _ e' he'
      nomatch he'
  | full hchunk =>
    constructor
    · intro n hn
      rw [List.map_append, flush_seq, flush_seq] at hn
      simpa using hn
    · intro e he e' he'
      have hseq : e.seq ∈ pending.map (·.event.seq) := by
        rw [← flush_seq]
        exact List.mem_map_of_mem he
      rw [List.mem_singleton.mp he']
      exact hlt e.seq hseq
  | append hchunk hfind hsize =>
    constructor
    · intro n hn
      rw [List.nil_append, flush_seq] at hn
      exact seq_mem_update hn
    · intro e he
      nomatch he
  | start hchunk hkey =>
    constructor
    · intro n hn
      rw [List.nil_append, flush_seq] at hn
      simpa using hn
    · intro e he
      nomatch he

/-- A relation that holds of every later number holds within what is given out. -/
theorem ingests_within (hR : ∀ a b, a < b → R a b) (hr : Ingests pending event r)
    (hlt : ∀ n ∈ pending.map (·.event.seq), n < event.seq)
    (h : (pending.map (·.event.seq)).Pairwise R)
    (hupdate : ∀ key text p, observerChunkKeyAndText event = some (key, text) →
      pending.find? (fun p ↦ p.key = key) = some p →
      p.text.utf8ByteSize + text.utf8ByteSize < observerChunkMaxTextBytes →
      ((pending.update key fun p ↦ p.append event text).map (·.event.seq)).Pairwise R) :
    (r.2.map (·.seq)).Pairwise R ∧ (r.1.map (·.event.seq)).Pairwise R := by
  have hconcat : (pending.map (·.event.seq) ++ [event.seq]).Pairwise R := by
    refine List.pairwise_append.mpr ⟨h, List.pairwise_singleton _ _, fun n hn m hm ↦ ?_⟩
    rw [List.mem_singleton.mp hm]
    exact hR n event.seq (hlt n hn)
  cases hr with
  | other hother =>
    rw [List.map_append, flush_seq]
    exact ⟨hconcat, List.Pairwise.nil⟩
  | full hchunk =>
    rw [flush_seq]
    exact ⟨h, List.pairwise_singleton _ _⟩
  | append hchunk hfind hsize => exact ⟨List.Pairwise.nil, hupdate _ _ _ hchunk hfind hsize⟩
  | start hchunk hkey =>
    rw [List.map_append]
    exact ⟨List.Pairwise.nil, hconcat⟩

/-- The order of the numbers given out and of those that wait. -/
structure Sequenced (R : ℕ → ℕ → Prop) (s : Coalescing) : Prop where
  within : ∀ batch ∈ s.batches, (batch.map (·.seq)).Pairwise R
  across : s.batches.Pairwise fun earlier later ↦ ∀ e ∈ earlier, ∀ e' ∈ later, e.seq < e'.seq
  taken : ∀ e ∈ s.output, ∃ e' ∈ s.ingested, e.seq = e'.seq

variable {s : Coalescing}

theorem seq_ingested (h : Sequenced R s) {n : ℕ} (hn : n ∈ s.pending.map (·.event.seq)) :
    ∃ e ∈ s.ingested, n = e.seq := by
  rw [← flush_seq] at hn
  obtain ⟨e, he, rfl⟩ := List.mem_map.mp hn
  refine h.taken e ?_
  rw [output_eq]
  exact List.mem_append_right _ he

/-- The last batch of a state gives way to two batches of its numbers and a later one. -/
theorem Sequenced.replace (h : Sequenced R s) {s' : Coalescing} (out out' : List ObserverEvent)
    (later : List ℕ) (hbatches : s'.batches = s.emitted ++ [out, out'])
    (hnew : ∀ n ∈ (out ++ out').map (·.seq), n ∈ s.pending.map (·.event.seq) ∨ n ∈ later)
    (hlater : ∀ n ∈ later, (∀ e ∈ s.ingested, e.seq < n) ∧ ∃ e ∈ s'.ingested, n = e.seq)
    (hsub : s.ingested ⊆ s'.ingested) (hacross : ∀ e ∈ out, ∀ e' ∈ out', e.seq < e'.seq)
    (hout : (out.map (·.seq)).Pairwise R) (hout' : (out'.map (·.seq)).Pairwise R) :
    Sequenced R s' := by
  have hpair := h.across
  have htaken := h.taken
  rw [output_eq] at htaken
  rw [Coalescing.batches, List.pairwise_append] at hpair
  have hbefore : ∀ batch ∈ s.emitted, ∀ e ∈ batch, ∀ e' ∈ out ++ out', e.seq < e'.seq := by
    intro batch hbatch e he e' he'
    rcases hnew e'.seq (List.mem_map_of_mem he') with hn | hn
    · rw [← flush_seq] at hn
      obtain ⟨p, hp, hseq⟩ := List.mem_map.mp hn
      rw [← hseq]
      exact hpair.2.2 batch hbatch s.pending.flush List.mem_cons_self e he p hp
    · obtain ⟨e₀, he₀, hseq⟩ :=
        htaken e (List.mem_append_left _ (List.mem_flatten.mpr ⟨batch, hbatch, he⟩))
      rw [hseq]
      exact (hlater e'.seq hn).1 e₀ he₀
  refine ⟨fun batch hbatch ↦ ?_, ?_, fun e he ↦ ?_⟩
  · rw [hbatches] at hbatch
    rcases List.mem_append.mp hbatch with hbatch | hbatch
    · exact h.within batch (List.mem_append_left _ hbatch)
    · rcases List.mem_pair.mp hbatch with rfl | rfl
      · exact hout
      · exact hout'
  · rw [hbatches]
    refine List.pairwise_append.mpr ⟨hpair.1, List.pairwise_pair.mpr hacross, ?_⟩
    intro batch hbatch batch' hbatch' e he e' he'
    refine hbefore batch hbatch e he e' ?_
    rcases List.mem_pair.mp hbatch' with rfl | rfl
    · exact List.mem_append_left _ he'
    · exact List.mem_append_right _ he'
  · rw [Coalescing.output, hbatches, List.flatten_append] at he
    rcases List.mem_append.mp he with he | he
    · obtain ⟨e', he', hseq⟩ := htaken e (List.mem_append_left _ he)
      exact ⟨e', hsub he', hseq⟩
    · have hmem : e ∈ out ++ out' := by simpa using he
      rcases hnew e.seq (List.mem_map_of_mem hmem) with hn | hn
      · obtain ⟨e', he', hseq⟩ := seq_ingested h hn
        exact ⟨e', hsub he', hseq⟩
      · exact (hlater e.seq hn).2

theorem Sequenced.flush (h : Sequenced R s) : Sequenced R (s.step .flush) := by
  have hwithin := h.within s.pending.flush (List.mem_append_right _ List.mem_cons_self)
  refine h.replace s.pending.flush [] [] ?_ ?_ ?_ ?_ ?_ hwithin .nil
  · simp [Coalescing.step, Coalescing.batches, ObserverChunkCoalescer.flush]
  · intro n hn
    rw [List.append_nil, flush_seq] at hn
    exact .inl hn
  · intro n hn
    nomatch hn
  · exact List.Subset.refl _
  · intro e _ e' he'
    nomatch he'

theorem Sequenced.ingest (h : Sequenced R s) (hR : ∀ a b, a < b → R a b)
    (hlt : ∀ e ∈ s.ingested, e.seq < event.seq)
    (hupdate : ∀ key text p, observerChunkKeyAndText event = some (key, text) →
      s.pending.find? (fun p ↦ p.key = key) = some p →
      p.text.utf8ByteSize + text.utf8ByteSize < observerChunkMaxTextBytes →
      ((s.pending.update key fun p ↦ p.append event text).map (·.event.seq)).Pairwise R) :
    Sequenced R (s.step (.ingest event)) := by
  have hpending : ∀ n ∈ s.pending.map (·.event.seq), n < event.seq := by
    intro n hn
    obtain ⟨e, he, rfl⟩ := seq_ingested h hn
    exact hlt e he
  have hwithin := h.within s.pending.flush (List.mem_append_right _ List.mem_cons_self)
  rw [flush_seq] at hwithin
  have hr := ingests s.pending event
  obtain ⟨hout, hout'⟩ := ingests_within hR hr hpending hwithin hupdate
  obtain ⟨hnew, hacross⟩ := ingests_seq hr hpending
  rw [← flush_seq] at hout'
  refine h.replace _ _ [event.seq] ?_ ?_ ?_ ?_ hacross hout hout'
  · simp [Coalescing.step, Coalescing.batches]
  · intro n hn
    rw [List.mem_singleton]
    exact hnew n hn
  · intro n hn
    rw [List.mem_singleton.mp hn]
    exact ⟨hlt, event, List.mem_append_right _ List.mem_cons_self, rfl⟩
  · exact List.subset_append_left _ _

theorem sequenced_run (hR : ∀ a b, a < b → R a b) {ops : List CoalescerOp}
    (hstep : ∀ pre event, pre ++ [.ingest event] <+: ops →
      ((Coalescing.run pre).pending.map (·.event.seq)).Pairwise R →
      (∀ n ∈ (Coalescing.run pre).pending.map (·.event.seq), n < event.seq) →
      ∀ key text p, observerChunkKeyAndText event = some (key, text) →
      (Coalescing.run pre).pending.find? (fun p ↦ p.key = key) = some p →
      p.text.utf8ByteSize + text.utf8ByteSize < observerChunkMaxTextBytes →
      (((Coalescing.run pre).pending.update key fun p ↦ p.append event text).map
        (·.event.seq)).Pairwise R)
    (h : Ascending (Coalescing.run ops).ingested) : Sequenced R (Coalescing.run ops) := by
  induction ops using List.reverseRecOn with
  | nil => exact ⟨by simp [Coalescing.run, Coalescing.batches, ObserverChunkCoalescer.flush],
      List.pairwise_singleton _ _, fun e he ↦ nomatch he⟩
  | append_singleton ops op ih =>
    have hrun : Coalescing.run (ops ++ [op]) = (Coalescing.run ops).step op := by
      rw [Coalescing.run, List.foldl_append]
      rfl
    have hstep' := fun pre event (hpre : pre ++ [.ingest event] <+: ops) ↦
      hstep pre event (hpre.trans (List.prefix_append ops [op]))
    rw [hrun] at h ⊢
    cases op with
    | flush => exact (ih hstep' h).flush
    | ingest event =>
      rw [Ascending, Coalescing.step, List.map_append, List.pairwise_append] at h
      have hs := ih hstep' h.1
      have hlt : ∀ e ∈ (Coalescing.run ops).ingested, e.seq < event.seq := fun e he ↦
        h.2.2 e.seq (List.mem_map_of_mem he) event.seq List.mem_cons_self
      have hwithin := hs.within _ (List.mem_append_right _ List.mem_cons_self)
      rw [flush_seq] at hwithin
      refine hs.ingest hR hlt (hstep ops event (List.prefix_refl _) hwithin fun n hn ↦ ?_)
      obtain ⟨e, he, rfl⟩ := seq_ingested hs hn
      exact hlt e he

theorem output_pairwise (hR : ∀ a b, a < b → R a b) (h : Sequenced R s) :
    (s.output.map (·.seq)).Pairwise R := by
  rw [Coalescing.output, List.map_flatten, List.pairwise_flatten]
  constructor
  · intro seqs hseqs
    obtain ⟨batch, hbatch, rfl⟩ := List.mem_map.mp hseqs
    exact h.within batch hbatch
  · refine List.pairwise_map.mpr (h.across.imp fun hlt n hn m hm ↦ ?_)
    obtain ⟨e, he, rfl⟩ := List.mem_map.mp hn
    obtain ⟨e', he', rfl⟩ := List.mem_map.mp hm
    exact hR e.seq e'.seq (hlt e he e' he')

end Sequence

/-- What is given out reads as what was taken in. When the numbers taken in ascend, each call gives
out greater ones than the calls before; they ascend within a call as long as only the newest
waiting chunk is appended to. -/
theorem coalescing_spec (ops : List CoalescerOp) :
    let s := Coalescing.run ops
    (∀ key, transcript key s.output = transcript key s.ingested) ∧
      (s.output.filter fun e ↦ observerChunkKeyAndText e = none) =
        (s.ingested.filter fun e ↦ observerChunkKeyAndText e = none) ∧
      (Ascending s.ingested →
        (s.output.map (·.seq)).Nodup ∧
        (s.batches.Pairwise fun earlier later ↦ ∀ e ∈ earlier, ∀ e' ∈ later, e.seq < e'.seq) ∧
        ((∀ pre event, pre ++ [.ingest event] <+: ops →
          ¬AppendsBefore (Coalescing.run pre).pending event) → Ascending s.output)) := by
  have hsame := (faithful_run ops).same
  refine ⟨fun key ↦ hsame key _, ?_, fun hascending ↦ ?_⟩
  · rw [← transcript_other ⟨"", none, none, none, none, none⟩, transcript, hsame, ← transcript,
      transcript_other]
  · have hdistinct : Sequenced (· ≠ ·) (Coalescing.run ops) :=
      sequenced_run (fun _ _ ↦ Nat.ne_of_lt)
        (fun _ _ _ hnodup hlt _ _ _ _ _ _ ↦ nodup_seq_update hnodup hlt) hascending
    refine ⟨output_pairwise (fun _ _ ↦ Nat.ne_of_lt) hdistinct, hdistinct.across, fun hno ↦ ?_⟩
    refine output_pairwise (fun _ _ ↦ id) (sequenced_run (fun _ _ ↦ id) ?_ hascending)
    intro pre event hpre hpair hlt key text p hchunk hfind hsize
    exact ascending_seq_update hpair hlt (not_mem_dropLast hchunk hfind hsize (hno pre event hpre))

def messagePart (seq : ℕ) (turnId text : String) : ObserverEvent where
  seq := seq
  timestamp := ""
  kind := "acp_read"
  agentIndex := some 0
  channelId := none
  sessionId := none
  turnId := some turnId
  startedAt := none
  payload := .obj [("params", .obj [("update", .obj [
    ("content", .obj [("text", .str text)]), ("sessionUpdate", .str "agent_message_chunk")])])]

/-- The first part of a second turn waits behind a chunk that is appended to after it. -/
theorem coalescing_disorders :
    let s := Coalescing.run
      [.ingest (messagePart 1 "a" "x"), .ingest (messagePart 2 "b" "y"),
        .ingest (messagePart 3 "a" "z"), .flush]
    s.output.map (·.seq) = [3, 2] ∧ Ascending s.ingested ∧ ¬Ascending s.output := by
  decide +kernel

end Buzz.Acp
