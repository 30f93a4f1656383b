import Buzz.Audit.Verify

namespace Buzz.Audit

open Buzz.Lib Buzz.Lib.Json Buzz.Lib.Sha256 Buzz.Nostr

variable {k : Codec}

def prevBytes (entry : AuditEntry) : Bytes := entry.prevHash.getD genesisHash

/-- The row, as it is read, has the logged entry's hashed fields, up to where one of them ends
and the next begins. -/
structure Agrees (entry read : AuditEntry) : Prop where
  communityId : read.communityId = entry.communityId
  seq : read.seq = entry.seq
  hash : read.hash = entry.hash
  action : read.action = entry.action
  createdAt : read.createdAt = entry.createdAt
  context : contextBytes read.actorPubkey read.objectId read.detail ++ prevBytes read =
    contextBytes entry.actorPubkey entry.objectId entry.detail ++ prevBytes entry

/-- The row names the logged predecessor, and its context has the logged bytes; they are the
logged fields where the lengths are the logged ones. -/
structure Tied (entry read : AuditEntry) : Prop where
  prevHash : read.prevHash = entry.prevHash
  context : contextBytes read.actorPubkey read.objectId read.detail =
    contextBytes entry.actorPubkey entry.objectId entry.detail
  fields : read.actorPubkey.map List.length = entry.actorPubkey.map List.length →
    read.objectId.map String.utf8ByteSize = entry.objectId.map String.utf8ByteSize →
      read.actorPubkey = entry.actorPubkey ∧ read.objectId = entry.objectId ∧
        canonicalJson read.detail = canonicalJson entry.detail

def Hashed (k : Codec) (entries : List AuditEntry) (table : AuditLog) : Set AuditEntry :=
  {e | e ∈ entries ∨ ∃ row ∈ table, rowToAuditEntry k row = .ok e}

def instant (entry : AuditEntry) : ℤ := toStoragePrecision entry.createdAt

def Codec.PrefixFree (k : Codec) (T : Set ℤ) : Prop :=
  ∀ s ∈ T, ∀ t ∈ T, utf8 (k.toRfc3339 s) <+: utf8 (k.toRfc3339 t) → s = t

section Preimages

theorem AuditAction.asStr_prefixFree (a b : AuditAction)
    (h : utf8 a.asStr <+: utf8 b.asStr) : a = b := by
  have hall : ∀ a ∈ AuditAction.all, ∀ b ∈ AuditAction.all,
      utf8 a.asStr <+: utf8 b.asStr → a = b := by decide +kernel
  have hmem (a : AuditAction) : a ∈ AuditAction.all := by cases a <;> decide
  exact hall a (hmem a) b (hmem b) h

/-- What two entries with one pre-image have in common. -/
theorem preimage_inj {e e' : AuditEntry} {T : Set ℤ} (htime : k.PrefixFree T)
    (ht : instant e ∈ T) (ht' : instant e' ∈ T) (hseq : 0 ≤ e.seq ∧ e.seq < 2 ^ 63)
    (hseq' : 0 ≤ e'.seq ∧ e'.seq < 2 ^ 63) (h : preimage k e = preimage k e') :
    e.communityId = e'.communityId ∧ e.seq = e'.seq ∧ instant e = instant e' ∧
      e.action = e'.action ∧
      contextBytes e.actorPubkey e.objectId e.detail ++ prevBytes e =
        contextBytes e'.actorPubkey e'.objectId e'.detail ++ prevBytes e' := by
  have huuid : (uuidBytes e.communityId).length = (uuidBytes e'.communityId).length := by
    rw [uuidBytes, uuidBytes, length_bigEndian, length_bigEndian]
  have hnumber : (seqBytes e.seq).length = (seqBytes e'.seq).length := by
    rw [seqBytes, seqBytes, length_bigEndian, length_bigEndian]
  simp only [preimage, List.append_assoc] at h
  obtain ⟨hcommunity, h⟩ := List.append_inj h huuid
  obtain ⟨hseqs, h⟩ := List.append_inj h hnumber
  obtain ⟨hinstant, h⟩ := append_inj_of_prefixFree htime ht ht' h
  obtain ⟨haction, h⟩ := append_inj_of_prefixFree (P := Set.univ)
    (fun a _ b _ ↦ AuditAction.asStr_prefixFree a b) trivial trivial h
  exact ⟨uuidBytes_injective hcommunity, seqBytes_injective hseq hseq' hseqs, hinstant, haction, h⟩

theorem length_optionBytes_inj {a b : Option Bytes} {x y : Bytes}
    (hlen : a.map List.length = b.map List.length) (h : optionBytes a ++ x = optionBytes b ++ y) :
    a = b ∧ x = y := by
  cases a with
  | none =>
    cases b with
    | none => exact ⟨rfl, List.append_cancel_left h⟩
    | some b => cases hlen
  | some a =>
    cases b with
    | none => cases hlen
    | some b =>
      obtain ⟨hab, hxy⟩ := List.append_inj (List.cons.inj h).2 (Option.some.inj hlen)
      exact ⟨congrArg some hab, hxy⟩

/-- Fields of unchanged lengths share their bytes only if they are unchanged. -/
theorem contextBytes_inj {actor actor' : Option Bytes} {object object' : Option String}
    {detail detail' : Json} (hactor : actor.map List.length = actor'.map List.length)
    (hobject : object.map String.utf8ByteSize = object'.map String.utf8ByteSize)
    (h : contextBytes actor object detail = contextBytes actor' object' detail') :
    actor = actor' ∧ object = object' ∧ canonicalJson detail = canonicalJson detail' := by
  simp only [contextBytes, List.append_assoc] at h
  obtain ⟨hactor, h⟩ := length_optionBytes_inj hactor h
  have hlen : (object.map utf8).map List.length = (object'.map utf8).map List.length := by
    rw [Option.map_map, Option.map_map]
    exact hobject
  obtain ⟨hobject, hdetail⟩ := length_optionBytes_inj hlen h
  exact ⟨hactor, Option.map_injective utf8_injective hobject, hdetail⟩

end Preimages

section Verified

/-- What the verifier has established of the rows it read. -/
structure Accepted (k : Codec) (S : Set AuditEntry) (reads : List AuditEntry) : Prop where
  mem : ∀ read ∈ reads, read ∈ S
  links : Links none reads
  hashes : ∀ read ∈ reads, computeHash k read = read.hash
  increasing : reads.Pairwise fun a b ↦ a.seq < b.seq
  positive : ∀ read ∈ reads, 1 ≤ read.seq ∧ read.seq < 2 ^ 63
  precise : ∀ read ∈ reads, instant read = read.createdAt

theorem links_of_append {xs ys : List AuditEntry} {prev : Option Bytes}
    (h : Links prev (xs ++ ys)) : Links prev xs := by
  induction xs generalizing prev with
  | nil => exact trivial
  | cons x xs ih => exact ⟨h.1, ih h.2⟩

theorem prevHash_of_links {xs : List AuditEntry} {prev : Option Bytes} {y x : AuditEntry}
    (h : Links prev (xs ++ [y, x])) : x.prevHash = some y.hash := by
  induction xs generalizing prev with
  | nil => exact h.2.1 rfl
  | cons _ xs ih => exact ih h.2

theorem Accepted.of_append {S : Set AuditEntry} {xs ys : List AuditEntry}
    (h : Accepted k S (xs ++ ys)) : Accepted k S xs where
  mem read hread := h.mem read (List.mem_append_left _ hread)
  links := links_of_append h.links
  hashes read hread := h.hashes read (List.mem_append_left _ hread)
  increasing := (List.pairwise_append.mp h.increasing).1
  positive read hread := h.positive read (List.mem_append_left _ hread)
  precise read hread := h.precise read (List.mem_append_left _ hread)

theorem Chain.length_bound {c : CommunityId} {entries : List AuditEntry} (h : Chain k c entries) :
    (entries.length : ℤ) < 2 ^ 63 := by
  cases hlast : entries.getLast? with
  | none =>
    rw [List.getLast?_eq_none_iff.mp hlast, List.length_nil]
    norm_num
  | some last =>
    rw [← h.seq_last hlast]
    exact (h.seq_bound (List.mem_of_getLast? hlast)).2

theorem Chain.older_eq_nil {c : CommunityId} {older newer : List AuditEntry}
    (h : Chain k c (older ++ newer)) {entry : AuditEntry} (he : entry ∈ newer)
    (hseq : entry.seq = 1) : older = [] := by
  rw [List.eq_nil_iff_forall_not_mem]
  intro o ho
  have hlt : o.seq < entry.seq := (List.pairwise_append.mp h.increasing).2.2 o ho entry he
  have hpos := (h.seq_bound (List.mem_append_left newer ho)).1
  omega

theorem length_computeHash (entry : AuditEntry) : (computeHash k entry).length = 32 :=
  length_digest _

variable {c : CommunityId} {S : Set AuditEntry} {entries : List AuditEntry}

theorem Chain.agrees (h : Chain k c entries) (hsha : CollisionFree (preimage k '' S))
    (htime : k.PrefixFree (instant '' S)) {entry read : AuditEntry} (he : entry ∈ entries)
    (heS : entry ∈ S) (hreadS : read ∈ S) (hread : computeHash k read = read.hash)
    (hpos : 1 ≤ read.seq ∧ read.seq < 2 ^ 63) (hprecise : instant read = read.createdAt)
    (hhash : read.hash = entry.hash) : Agrees entry read := by
  obtain ⟨hehash, hetime, _⟩ := h.mem he
  have hdigest : digest (preimage k read) = digest (preimage k entry) :=
    hread.trans (hhash.trans hehash)
  have hpre := hsha _ ⟨read, hreadS, rfl⟩ _ ⟨entry, heS, rfl⟩ hdigest
  have hbound := h.seq_bound he
  obtain ⟨hcommunity, hseq, hinstant, haction, hcontext⟩ := preimage_inj htime
    ⟨read, hreadS, rfl⟩ ⟨entry, heS, rfl⟩ ⟨by omega, hpos.2⟩ ⟨by omega, hbound.2⟩ hpre
  exact ⟨hcommunity, hseq, hhash, haction, (hprecise.symm.trans hinstant).trans hetime, hcontext⟩

/-- Verified rows that end in the last logged hash are the newest entries of the chain. -/
theorem Chain.newest_agree (h : Chain k c entries) (hsha : CollisionFree (preimage k '' S))
    (htime : k.PrefixFree (instant '' S)) (hS : ∀ entry ∈ entries, entry ∈ S)
    {reads : List AuditEntry} (hne : reads ≠ []) (hreads : Accepted k S reads)
    (hlast : reads.getLast?.map AuditEntry.hash = entries.getLast?.map AuditEntry.hash) :
    ∃ older newer, entries = older ++ newer ∧ List.Forall₂ Agrees newer reads ∧
      List.Forall₂ Tied newer.tail reads.tail := by
  induction h generalizing reads with
  | nil =>
    rw [List.getLast?_nil, Option.map_none, Option.map_eq_none_iff,
      List.getLast?_eq_none_iff] at hlast
    exact absurd hlast hne
  | @snoc entries entry h hcommunity hseq hbound hprev hhash hprecise hdetail ih =>
    have hchain := h.snoc hcommunity hseq hbound hprev hhash hprecise hdetail
    obtain ⟨xs, x, rfl⟩ := (List.eq_nil_or_concat' reads).resolve_left hne
    rw [List.getLast?_concat, List.getLast?_concat] at hlast
    have hx : x ∈ xs ++ [x] := List.mem_concat_self
    have hentry : entry ∈ entries ++ [entry] := List.mem_concat_self
    have hagrees : Agrees entry x := hchain.agrees hsha htime hentry (hS entry hentry)
      (hreads.mem x hx) (hreads.hashes x hx) (hreads.positive x hx) (hreads.precise x hx)
      (Option.some.inj hlast)
    rcases List.eq_nil_or_concat' xs with rfl | ⟨ys, y, rfl⟩
    · exact ⟨entries, [entry], rfl, .cons hagrees .nil, .nil⟩
    · have hy : y ∈ ys ++ [y] := List.mem_concat_self
      have hyx : y ∈ ys ++ [y] ++ [x] := List.mem_append_left _ hy
      have hlink : x.prevHash = some y.hash := by
        have hlinks := hreads.links
        rw [List.append_assoc] at hlinks
        exact prevHash_of_links hlinks
      have hlt : y.seq < x.seq :=
        (List.pairwise_append.mp hreads.increasing).2.2 y hy x (List.mem_singleton_self x)
      cases hnewest : entries.getLast? with
      | none =>
        rw [List.getLast?_eq_none_iff] at hnewest
        rw [hnewest, List.length_nil, Nat.cast_zero, zero_add] at hseq
        have hfirst := (hreads.positive y hyx).1
        have hone := hagrees.seq
        omega
      | some newest =>
        rw [hnewest, Option.map_some] at hprev
        have hlen : (prevBytes x).length = (prevBytes entry).length := by
          rw [prevBytes, prevBytes, hlink, hprev, Option.getD_some, Option.getD_some,
            (h.mem (List.mem_of_getLast? hnewest)).1, ← hreads.hashes y hyx, length_computeHash,
            length_computeHash]
        obtain ⟨hcontext, hbytes⟩ := List.append_inj' hagrees.context hlen
        rw [prevBytes, prevBytes, hlink, hprev, Option.getD_some, Option.getD_some] at hbytes
        obtain ⟨older, newer, hsplit, hagree, htied⟩ :=
          ih (fun e he ↦ hS e (List.mem_append_left _ he)) (List.concat_ne_nil y ys)
            hreads.of_append (by rw [List.getLast?_concat, hnewest, Option.map_some, hbytes]; rfl)
        have hnewer : newer ≠ [] := by
          rintro rfl
          exact List.concat_ne_nil y ys (List.forall₂_nil_left_iff.mp hagree)
        have hxtied : Tied entry x := ⟨by rw [hlink, hprev, hbytes], hcontext,
          fun hactor hobject ↦ contextBytes_inj hactor hobject hcontext⟩
        refine ⟨older, newer ++ [entry], ?_, ?_, ?_⟩
        · rw [hsplit, List.append_assoc]
        · exact List.rel_append hagree (.cons hagrees .nil)
        · rw [List.tail_append_of_ne_nil hnewer, List.tail_append_of_ne_nil (List.concat_ne_nil y ys)]
          exact List.rel_append htied (.cons hxtied .nil)

theorem readRange_increasing {table : AuditLog}
    (hkey : (table.map fun row ↦ (row.communityId, row.seq)).Nodup) (fromSeq toSeq : ℤ) :
    (readRange table c fromSeq toSeq).Pairwise fun a b ↦ a.seq < b.seq := by
  have hsorted : (readRange table c fromSeq toSeq).Pairwise fun a b ↦ a.seq ≤ b.seq :=
    List.pairwise_insertionSort _ _
  have hdistinct : (readRange table c fromSeq toSeq).Pairwise
      fun a b ↦ (a.communityId, a.seq) ≠ (b.communityId, b.seq) := by
    rw [← List.pairwise_map (R := (· ≠ ·)), ← List.Nodup]
    refine ((List.perm_insertionSort _ _).map _).nodup_iff.mpr (hkey.sublist ?_)
    exact (List.filter_sublist.trans List.filter_sublist).map _
  rw [List.pairwise_iff_getElem] at hsorted hdistinct ⊢
  intro i j hi hj hij
  apply lt_of_le_of_ne (hsorted i j hi hj hij)
  intro hseq
  have hcommunity (l : ℕ) (hl : l < (readRange table c fromSeq toSeq).length) :
      (readRange table c fromSeq toSeq)[l].communityId = c :=
    (mem_readRange.mp (List.getElem_mem hl)).2.1
  exact hdistinct i j hi hj hij (Prod.ext ((hcommunity i hi).trans (hcommunity j hj).symm) hseq)

theorem rowToAuditEntry_ok {row : AuditRow} {read : AuditEntry}
    (h : rowToAuditEntry k row = .ok read) :
    read.seq = row.seq ∧ read.hash = row.hash ∧ read.createdAt = 1000 * row.createdAt := by
  rw [rowToAuditEntry] at h
  split at h
  · cases h
  · split at h
    · cases h
    · rw [← Except.ok.inj h]
      exact ⟨rfl, rfl, rfl⟩

theorem map_eq_of_forall₂ {α β γ : Type*} {r : α → β → Prop} {f : α → γ} {g : β → γ}
    (hr : ∀ a b, r a b → f a = g b) {as : List α} {bs : List β} (h : List.Forall₂ r as bs) :
    as.map f = bs.map g := by
  induction h with
  | nil => rfl
  | cons hab _ ih => rw [List.map_cons, List.map_cons, hr _ _ hab, ih]

/-- What a verification that succeeds has read. -/
theorem accepted_of_verifyChain (entries : List AuditEntry) {table : AuditLog}
    (hkey : (table.map fun row ↦ (row.communityId, row.seq)).Nodup) {n : ℕ} (hn : (n : ℤ) < 2 ^ 63)
    (hok : verifyChain k table c 1 n = .ok true) :
    ∃ reads, reads ≠ [] ∧
      List.Forall₂ (fun row read ↦ rowToAuditEntry k row = .ok read) (readRange table c 1 n) reads ∧
      Accepted k (Hashed k entries table) reads := by
  obtain ⟨hne, hok⟩ := verifyChain_ok_iff.mp hok
  obtain ⟨reads, hrows, hlinks, hhashes⟩ := verifyRows_ok_iff.mp hok
  have hrow (read : AuditEntry) (h : read ∈ reads) :
      ∃ row ∈ readRange table c 1 n, rowToAuditEntry k row = .ok read :=
    exists_of_forall₂ hrows.flip h
  refine ⟨reads, ?_, hrows, fun read h ↦ ?_, hlinks, hhashes, ?_, fun read h ↦ ?_, fun read h ↦ ?_⟩
  · rintro rfl
    exact hne (List.forall₂_nil_right_iff.mp hrows)
  · obtain ⟨row, hmem, hread⟩ := hrow read h
    exact .inr ⟨row, (mem_readRange.mp hmem).1, hread⟩
  · have hseqs : (readRange table c 1 n).map AuditRow.seq = reads.map AuditEntry.seq :=
      map_eq_of_forall₂ (f := AuditRow.seq) (g := AuditEntry.seq)
        (fun _ _ h ↦ (rowToAuditEntry_ok h).1.symm) hrows
    rw [← List.pairwise_map (R := (· < ·)), ← hseqs, List.pairwise_map]
    exact readRange_increasing hkey 1 n
  · obtain ⟨row, hmem, hread⟩ := hrow read h
    obtain ⟨_, _, hlo, hhi⟩ := mem_readRange.mp hmem
    rw [(rowToAuditEntry_ok hread).1]
    omega
  · obtain ⟨row, _, hread⟩ := hrow read h
    rw [instant, (rowToAuditEntry_ok hread).2.2, toStoragePrecision_of_micros]

end Verified

/-- A table that verifies, and still ends in the last hash that was logged, holds the newest
logged entries, and all of them if it has a first row. -/
theorem audit_chain_tamper_evident (ops : List (AuditOp k)) (c : CommunityId) (table : AuditLog)
    (hkey : (table.map fun row ↦ (row.communityId, row.seq)).Nodup)
    (hsha : CollisionFree (preimage k '' Hashed k ((AuditState.run k ops).chain c) table))
    (htime : k.PrefixFree (instant '' Hashed k ((AuditState.run k ops).chain c) table))
    (hok : verifyChain k table c 1 ((AuditState.run k ops).chain c).length = .ok true)
    (hlast : (readRange table c 1 ((AuditState.run k ops).chain c).length).getLast?.map
        AuditRow.hash = ((AuditState.run k ops).chain c).getLast?.map AuditEntry.hash) :
    ∃ reads older newer,
      List.Forall₂ (fun row read ↦ rowToAuditEntry k row = .ok read)
        (readRange table c 1 ((AuditState.run k ops).chain c).length) reads ∧
      (AuditState.run k ops).chain c = older ++ newer ∧ List.Forall₂ Agrees newer reads ∧
      List.Forall₂ Tied newer.tail reads.tail ∧
      ((∃ row ∈ table, row.communityId = c ∧ row.seq = 1) → older = []) := by
  have hchain := (run_sound ops).chains c
  generalize (AuditState.run k ops).chain c = entries at *
  obtain ⟨reads, hne, hrows, hreads⟩ :=
    accepted_of_verifyChain entries hkey hchain.length_bound hok
  have hhashes : (readRange table c 1 entries.length).map AuditRow.hash =
      reads.map AuditEntry.hash :=
    map_eq_of_forall₂ (f := AuditRow.hash) (g := AuditEntry.hash)
      (fun _ _ h ↦ (rowToAuditEntry_ok h).2.1.symm) hrows
  rw [← List.getLast?_map, hhashes, List.getLast?_map] at hlast
  obtain ⟨older, newer, hsplit, hagree, htied⟩ :=
    hchain.newest_agree hsha htime (fun e he ↦ .inl he) hne hreads hlast
  refine ⟨reads, older, newer, hrows, hsplit, hagree, htied, fun ⟨row, hrow, hcommunity, hseq⟩ ↦ ?_⟩
  have hlength : 1 ≤ entries.length := by
    have hlen := hagree.length_eq
    rw [hsplit, List.length_append, hlen]
    have := List.length_pos_iff.mpr hne
    omega
  have hmem : row ∈ readRange table c 1 entries.length := by
    rw [mem_readRange]
    refine ⟨hrow, hcommunity, ?_⟩
    omega
  obtain ⟨read, hread, hdecoded⟩ := exists_of_forall₂ hrows hmem
  obtain ⟨entry, hentry, hagrees⟩ := exists_of_forall₂ hagree.flip hread
  rw [hsplit] at hchain
  apply hchain.older_eq_nil hentry
  rw [← hagrees.seq, (rowToAuditEntry_ok hdecoded).1, hseq]

section Samples

/-- A logged entry whose context the column gives back in its own order is read back as it was. -/
theorem rowToAuditEntry_self {entry : AuditEntry}
    (hback : sampleCodec.floats.fromJsonb entry.detail.toJsonb = some entry.detail)
    (htime : entry.createdAt = 0) : rowToAuditEntry sampleCodec (rowOf entry) = .ok entry := by
  rw [rowToAuditEntry_rowOf, hback, htime]
  obtain ⟨_, _, _, _, _, _, _, _, _⟩ := entry
  cases htime
  rfl

theorem fromJsonb_countJson {t : String} (hnumeric : numericText t = t)
    (h : sampleCodec.floats.readNumber t = some t) :
    sampleCodec.floats.fromJsonb (countJson t).toJsonb = some (countJson t) := by
  have hread : ∀ t' ∈ (countJson t).numbers, (sampleCodec.floats.readNumber t').isSome = true := by
    intro t' ht
    rw [numbers_countJson, List.mem_singleton] at ht
    rw [ht, h]
    rfl
  have hnested : (countJson t).nestedWithin FloatText.maxNesting = true := rfl
  rw [toJsonb_countJson, hnumeric, FloatText.fromJsonb, if_pos ⟨hnested, hread⟩,
    mapNumbers_countJson, h]
  rfl

theorem rowToAuditEntry_second : ∀ e ∈ [firstEntry createdEntry, secondEntry],
    rowToAuditEntry sampleCodec (rowOf e) = .ok e := by
  intro e he
  simp only [List.mem_cons, List.not_mem_nil, or_false] at he
  obtain rfl | rfl := he
  · exact rowToAuditEntry_self (fromJsonb_countJson (by decide) (by decide)) rfl
  · exact rowToAuditEntry_self (fromJsonb_countJson (by decide) (by decide)) rfl

theorem chain_second :
    (AuditState.run sampleCodec (logOne createdEntry ++ logOne deletedEntry)).chain 0 =
      [firstEntry createdEntry, secondEntry] := by
  rw [AuditState.chain, run_second.2]
  rfl

theorem readRange_singleton {row : AuditRow} {c : CommunityId} {n : ℤ}
    (hcommunity : row.communityId = c) (hseq : 1 ≤ row.seq ∧ row.seq ≤ n) :
    readRange [row] c 1 n = [row] := by
  have hbetween : between 1 n row.seq = true := between_iff.mpr hseq
  have hown : decide (row.communityId = c) = true := decide_eq_true hcommunity
  rw [readRange, List.filter_singleton, hown, cond_true, List.filter_singleton, hbetween, cond_true]
  rfl

theorem readRange_second :
    readRange [rowOf (firstEntry createdEntry), rowOf secondEntry] 0 1 2 =
      [rowOf (firstEntry createdEntry), rowOf secondEntry] := rfl

theorem verifyChain_singleton {entry : AuditEntry} {n : ℤ} (hcommunity : entry.communityId = 0)
    (hseq : 1 ≤ entry.seq ∧ entry.seq ≤ n)
    (hread : rowToAuditEntry sampleCodec (rowOf entry) = .ok entry)
    (hhash : computeHash sampleCodec entry = entry.hash) :
    verifyChain sampleCodec [rowOf entry] 0 1 n = .ok true := by
  rw [verifyChain_ok_iff, readRange_singleton hcommunity hseq]
  refine ⟨List.cons_ne_nil _ _, verifyRows_ok_iff.mpr ⟨[entry], ?_, ⟨nofun, trivial⟩, ?_⟩⟩
  · exact .cons hread .nil
  · intro e he
    rw [List.mem_singleton.mp he]
    exact hhash

theorem verifyChain_second :
    verifyChain sampleCodec [rowOf (firstEntry createdEntry), rowOf secondEntry] 0 1 2 =
      .ok true := by
  rw [verifyChain_ok_iff, readRange_second]
  refine ⟨List.cons_ne_nil _ _, verifyRows_ok_iff.mpr
    ⟨[firstEntry createdEntry, secondEntry], ?_, ⟨nofun, fun _ ↦ rfl, trivial⟩, ?_⟩⟩
  · exact .cons (rowToAuditEntry_second _ (.head _))
      (.cons (rowToAuditEntry_second _ (.tail _ (.head _))) .nil)
  · intro e he
    simp only [List.mem_cons, List.not_mem_nil, or_false] at he
    obtain rfl | rfl := he
    · rfl
    · rfl

/-- A chain rewritten with fresh hashes verifies, and so does one whose first row is gone. -/
theorem audit_chain_rewritten_verifies :
    (∃ entry ∈ (AuditState.run sampleCodec (logOne createdEntry)).chain 0,
      ∃ table : AuditLog, verifyChain sampleCodec table 0 1 1 = .ok true ∧
        ∀ row ∈ table, row.action ≠ entry.action.asStr) ∧
      ((AuditState.run sampleCodec (logOne createdEntry ++ logOne deletedEntry)).chain 0).length = 2 ∧
      verifyChain sampleCodec
        (AuditState.run sampleCodec (logOne createdEntry ++ logOne deletedEntry)).log.tail 0 1 2 =
          .ok true ∧
      ∀ row ∈ (AuditState.run sampleCodec (logOne createdEntry ++ logOne deletedEntry)).log.tail,
        row.seq ≠ 1 := by
  refine ⟨⟨firstEntry createdEntry, ?_, [rowOf (firstEntry deletedEntry)], ?_, ?_⟩, ?_, ?_, ?_⟩
  · rw [mem_chain, run_created.2]
    exact ⟨List.mem_singleton_self _, rfl⟩
  · have hread : rowToAuditEntry sampleCodec (rowOf (firstEntry deletedEntry)) =
        .ok (firstEntry deletedEntry) :=
      rowToAuditEntry_self (fromJsonb_countJson (by decide) (by decide)) rfl
    exact verifyChain_singleton rfl ⟨le_rfl, le_rfl⟩ hread rfl
  · intro row hrow
    rw [List.mem_singleton.mp hrow]
    decide
  · rw [chain_second]
    rfl
  · rw [run_second.1]
    have hread := rowToAuditEntry_second secondEntry (.tail _ (.head _))
    exact verifyChain_singleton rfl ⟨by decide, le_rfl⟩ hread rfl
  · rw [run_second.1]
    intro row hrow
    rw [List.mem_singleton.mp hrow]
    decide

theorem audit_chain_tamper_evident_untouched :
    ∃ older newer, [firstEntry createdEntry, secondEntry] = older ++ newer ∧
      ∃ reads, List.Forall₂ Agrees newer reads ∧
        List.Forall₂ (fun row read ↦ rowToAuditEntry sampleCodec row = .ok read)
          [rowOf (firstEntry createdEntry), rowOf secondEntry] reads ∧ older = [] := by
  have hhashed : ∀ e ∈ Hashed sampleCodec [firstEntry createdEntry, secondEntry]
      [rowOf (firstEntry createdEntry), rowOf secondEntry],
      e ∈ [firstEntry createdEntry, secondEntry] := by
    intro e he
    rcases he with he | ⟨row, hrow, he⟩
    · exact he
    · have hrows : [rowOf (firstEntry createdEntry), rowOf secondEntry] =
          [firstEntry createdEntry, secondEntry].map rowOf := rfl
      rw [hrows] at hrow
      obtain ⟨e', he', rfl⟩ := List.mem_map.mp hrow
      rw [rowToAuditEntry_second e' he'] at he
      exact Except.ok.inj he ▸ he'
  have hsha : CollisionFree (preimage sampleCodec '' Hashed sampleCodec
      [firstEntry createdEntry, secondEntry]
      [rowOf (firstEntry createdEntry), rowOf secondEntry]) := by
    intro p hp q hq heq
    obtain ⟨e, he, hp⟩ := hp
    obtain ⟨e', he', hq⟩ := hq
    rw [← hp, ← hq] at heq ⊢
    rw [eq_of_digest_eq (hhashed e he) (hhashed e' he') heq]
  have htime : sampleCodec.PrefixFree (instant '' Hashed sampleCodec
      [firstEntry createdEntry, secondEntry]
      [rowOf (firstEntry createdEntry), rowOf secondEntry]) := by
    have hzero : ∀ e ∈ [firstEntry createdEntry, secondEntry], instant e = 0 := by
      intro e he
      simp only [List.mem_cons, List.not_mem_nil, or_false] at he
      obtain rfl | rfl := he
      · rfl
      · rfl
    intro t ht t' ht' _
    obtain ⟨e, he, ht⟩ := ht
    obtain ⟨e', he', ht'⟩ := ht'
    rw [← ht, ← ht', hzero e (hhashed e he), hzero e' (hhashed e' he')]
  have h := audit_chain_tamper_evident (logOne createdEntry ++ logOne deletedEntry) 0
    [rowOf (firstEntry createdEntry), rowOf secondEntry]
  have hlength : ([firstEntry createdEntry, secondEntry].length : ℤ) = 2 := rfl
  rw [chain_second, hlength, readRange_second] at h
  obtain ⟨reads, older, newer, hrows, hsplit, hagree, -, hall⟩ :=
    h (by decide) hsha htime verifyChain_second rfl
  exact ⟨older, newer, hsplit, reads, hagree, hrows,
    hall ⟨_, List.mem_cons_self, rfl, rfl⟩⟩

end Samples

end Buzz.Audit
