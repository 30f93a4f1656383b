import Buzz.Audit.Chain

namespace Buzz.Audit

open Buzz.Lib Buzz.Lib.Json Buzz.Lib.Sha256 Buzz.Nostr

variable {k : Codec}

/-- SHA-256 tells the byte strings of `P` apart. -/
def CollisionFree (P : Set Bytes) : Prop := ∀ p ∈ P, ∀ q ∈ P, digest p = digest q → p = q

def AuditState.preimages (s : AuditState k) : Set Bytes :=
  {p | ∃ entry ∈ s.logged, p = preimage k entry ∨
    ∃ read, rowToAuditEntry k (rowOf entry) = .ok read ∧ p = preimage k read}

def Numbered (log : AuditLog) (c : CommunityId) : Prop :=
  ∀ (i : ℕ) (row : AuditRow), (log.filter (·.communityId = c))[i]? = some row →
    row.seq = (i : ℤ) + 1 ∧ row.prevHash = if i = 0 then none
      else ((log.filter (·.communityId = c))[i - 1]?).map AuditRow.hash

def Verifies (k : Codec) (log : AuditLog) (c : CommunityId) : Prop :=
  ∀ fromSeq toSeq, (∃ row ∈ log, row.communityId = c ∧ fromSeq ≤ row.seq ∧ row.seq ≤ toSeq) →
    verifyChain k log c fromSeq toSeq = .ok true

section Entries

theorem Chain.mem {c : CommunityId} {entries : List AuditEntry} (h : Chain k c entries)
    {entry : AuditEntry} (he : entry ∈ entries) :
    entry.hash = computeHash k entry ∧ toStoragePrecision entry.createdAt = entry.createdAt ∧
      ∃ detail : Detail k, entry.detail = detail.json := by
  induction h with
  | nil => cases he
  | snoc _ _ _ _ _ hhash htime hdetail ih =>
    rcases List.mem_append.mp he with he | he
    · exact ih he
    · rw [List.mem_singleton.mp he]
      exact ⟨hhash, htime, hdetail⟩

theorem Chain.numbered {c : CommunityId} {entries : List AuditEntry} (h : Chain k c entries)
    {i : ℕ} {entry : AuditEntry} (hi : entries[i]? = some entry) : entry.seq = (i : ℤ) + 1 ∧
      entry.prevHash = if i = 0 then none else (entries[i - 1]?).map AuditEntry.hash := by
  induction h with
  | nil => cases hi
  | @snoc entries last h _ hseq _ hprev _ _ _ ih =>
    obtain ⟨hlt, _⟩ := List.getElem?_eq_some_iff.mp hi
    rw [List.length_append, List.length_singleton] at hlt
    by_cases hin : i < entries.length
    · rw [List.getElem?_append_left hin] at hi
      obtain ⟨hseq', hprev'⟩ := ih hi
      refine ⟨hseq', hprev'.trans ?_⟩
      rw [List.getElem?_append_left (by omega)]
    · have heq : i = entries.length := by omega
      rw [heq, List.getElem?_concat_length] at hi
      cases hi
      refine ⟨by rw [hseq, heq], hprev.trans ?_⟩
      split
      · next hzero =>
        have hnil : entries = [] := List.length_eq_zero_iff.mp (by omega)
        rw [hnil]
        rfl
      · rw [List.getElem?_append_left (by omega), heq, List.getLast?_eq_getElem?]

theorem rowToAuditEntry_rowOf (entry : AuditEntry) :
    rowToAuditEntry k (rowOf entry) =
      match k.floats.fromJsonb entry.detail.toJsonb with
      | none => .error .panicked
      | some detail => .ok { entry with detail, createdAt := 1000 * (entry.createdAt / 1000) } := by
  have haction : AuditAction.fromStr (rowOf entry).action = some entry.action :=
    AuditAction.fromStr_asStr entry.action
  have hdetail : (rowOf entry).detail.bind k.floats.fromJsonb =
      k.floats.fromJsonb entry.detail.toJsonb := rfl
  rw [rowToAuditEntry, haction]
  simp only [hdetail]
  cases k.floats.fromJsonb entry.detail.toJsonb <;> rfl

theorem micros_eq {t : ℤ} (h : toStoragePrecision t = t) : 1000 * (t / 1000) = t := by
  rw [toStoragePrecision] at h
  omega

theorem preimage_congr_iff {entry : AuditEntry} {detail : Json} :
    preimage k { entry with detail } = preimage k entry ↔
      canonicalJson detail = canonicalJson entry.detail := by
  simp only [preimage, contextBytes, List.append_cancel_right_eq, List.append_cancel_left_eq]

/-- The row of a logged entry is read back and hashed alike exactly when its context survives. -/
theorem read_back_iff {entry : AuditEntry} {detail : Detail k} (hdetail : entry.detail = detail.json)
    (htime : toStoragePrecision entry.createdAt = entry.createdAt) :
    (∃ read, rowToAuditEntry k (rowOf entry) = .ok read ∧ preimage k read = preimage k entry) ↔
      k.floats.Survives entry.detail := by
  have hkeyed : entry.detail.Keyed := hdetail ▸ detail.keyed
  have hwritten : ∀ t ∈ entry.detail.numbers, NumberLexeme t := by
    intro t ht
    rw [hdetail] at ht
    exact (detail.written t ht).lexeme
  rw [rowToAuditEntry_rowOf, micros_eq htime, ← fromJsonb_toJsonb_iff k.floats hkeyed]
  constructor
  · intro ⟨read, hread, hpre⟩
    split at hread
    · cases hread
    · next w hw =>
      obtain ⟨hwkeyed, hwnum, _⟩ := canonical_fromJsonb k.floats hkeyed hw
      rw [← Except.ok.inj hread, preimage_congr_iff,
        canonicalJson_inj hwkeyed hkeyed hwnum hwritten] at hpre
      exact ⟨w, hw, hpre⟩
  · intro ⟨w, hw, hcanonical⟩
    obtain ⟨hwkeyed, hwnum, _⟩ := canonical_fromJsonb k.floats hkeyed hw
    refine ⟨{ entry with detail := w }, by rw [hw], ?_⟩
    rw [preimage_congr_iff, canonicalJson_inj hwkeyed hkeyed hwnum hwritten]
    exact hcanonical

end Entries

section Ranges

variable {s : AuditState k}

theorem AuditState.Sound.rows_filter (h : s.Sound) (c : CommunityId) :
    s.log.filter (·.communityId = c) = (s.chain c).map rowOf := by
  rw [h.rows, filter_rowOf]
  rfl

theorem AuditState.Sound.readRange_eq (h : s.Sound) (c : CommunityId) (fromSeq toSeq : ℤ) :
    readRange s.log c fromSeq toSeq =
      ((s.chain c).filter fun e ↦ between fromSeq toSeq e.seq).map rowOf := by
  have hsorted : (((s.chain c).filter fun e ↦ between fromSeq toSeq e.seq).map rowOf).Pairwise
      fun a b ↦ a.seq ≤ b.seq := by
    rw [List.pairwise_map]
    exact ((h.chains c).increasing.filter _).imp fun hlt ↦ hlt.le
  have hfilter : ((s.chain c).map rowOf).filter (fun row ↦ between fromSeq toSeq row.seq) =
      ((s.chain c).filter fun e ↦ between fromSeq toSeq e.seq).map rowOf := List.filter_map
  rw [readRange, h.rows_filter, hfilter]
  exact hsorted.insertionSort_eq

theorem AuditState.Sound.numbered (h : s.Sound) (c : CommunityId) : Numbered s.log c := by
  intro i row hi
  rw [h.rows_filter, List.getElem?_map, Option.map_eq_some_iff] at hi
  obtain ⟨entry, hentry, rfl⟩ := hi
  obtain ⟨hseq, hprev⟩ := (h.chains c).numbered hentry
  refine ⟨hseq, hprev.trans ?_⟩
  rw [h.rows_filter, List.getElem?_map, Option.map_map]
  rfl

theorem mem_chain {c : CommunityId} {entry : AuditEntry} :
    entry ∈ s.chain c ↔ entry ∈ s.logged ∧ entry.communityId = c := by
  rw [AuditState.chain, List.mem_filter, decide_eq_true_eq]

/-- Entries whose contexts survive are verified in every range that has one. -/
theorem AuditState.Sound.verifies (h : s.Sound) {c : CommunityId}
    (hsurvive : ∀ entry ∈ s.logged, entry.communityId = c → k.floats.Survives entry.detail) :
    Verifies k s.log c := by
  intro fromSeq toSeq ⟨row, hrow, hcommunity, hrange⟩
  rw [verifyChain_ok_iff]
  refine ⟨List.ne_nil_of_mem (mem_readRange.mpr ⟨hrow, hcommunity, hrange⟩), ?_⟩
  rw [h.readRange_eq, verifyRows_ok_iff]
  have hread (entry : AuditEntry) (he : entry ∈ s.chain c) : ∃ read,
      rowToAuditEntry k (rowOf entry) = .ok read ∧ preimage k read = preimage k entry := by
    obtain ⟨_, htime, detail, hdetail⟩ := (h.chains c).mem he
    obtain ⟨hlogged, hc⟩ := mem_chain.mp he
    exact (read_back_iff hdetail htime).mpr (hsurvive entry hlogged hc)
  have hkept (entry read : AuditEntry) (hr : rowToAuditEntry k (rowOf entry) = .ok read) :
      read.hash = entry.hash ∧ read.prevHash = entry.prevHash := by
    rw [rowToAuditEntry_rowOf] at hr
    split at hr
    · cases hr
    · rw [← Except.ok.inj hr]
      exact ⟨rfl, rfl⟩
  have hgen (entries : List AuditEntry) (hmem : ∀ e ∈ entries, e ∈ s.chain c)
      (prev : Option Bytes) (hlinks : Links prev entries) :
      ∃ reads, List.Forall₂ (fun row read ↦ rowToAuditEntry k row = .ok read)
        (entries.map rowOf) reads ∧ Links prev reads ∧
        ∀ read ∈ reads, computeHash k read = read.hash := by
    induction entries generalizing prev with
    | nil => exact ⟨[], .nil, trivial, nofun⟩
    | cons entry entries ih =>
      have hentry := hmem entry List.mem_cons_self
      obtain ⟨read, hr, hpre⟩ := hread entry hentry
      obtain ⟨hhash, hprev⟩ := hkept entry read hr
      obtain ⟨reads, hrows, hlinks', hhashes⟩ :=
        ih (fun e he ↦ hmem e (List.mem_cons_of_mem _ he)) (some entry.hash) hlinks.2
      refine ⟨read :: reads, .cons hr hrows, ⟨fun hsome ↦ ?_, hhash ▸ hlinks'⟩, fun e he ↦ ?_⟩
      · rw [hprev]
        exact hlinks.1 hsome
      · rcases List.mem_cons.mp he with rfl | he
        · rw [computeHash, hpre, hhash, ((h.chains c).mem hentry).1, computeHash]
        · exact hhashes e he
  apply hgen
  · intro e he
    exact List.mem_of_mem_filter he
  · exact (h.chains c).links_range fromSeq toSeq

/-- A row that verifies on its own was hashed over the same bytes. -/
theorem AuditState.Sound.survives (h : s.Sound) (hsha : CollisionFree s.preimages)
    {c : CommunityId} (hverifies : Verifies k s.log c) {entry : AuditEntry}
    (hlogged : entry ∈ s.logged) (hc : entry.communityId = c) :
    k.floats.Survives entry.detail := by
  have he := mem_chain.mpr ⟨hlogged, hc⟩
  obtain ⟨hhash, htime, detail, hdetail⟩ := (h.chains c).mem he
  have hmem : rowOf entry ∈ readRange s.log c entry.seq entry.seq := by
    rw [h.readRange_eq]
    refine List.mem_map.mpr ⟨entry, List.mem_filter.mpr ⟨he, ?_⟩, rfl⟩
    rw [between_iff]
    exact ⟨le_rfl, le_rfl⟩
  obtain ⟨hrow, hcommunity, hrange⟩ := mem_readRange.mp hmem
  have hok := hverifies entry.seq entry.seq ⟨rowOf entry, hrow, hcommunity, hrange⟩
  obtain ⟨reads, hrows, _, hhashes⟩ := verifyRows_ok_iff.mp (verifyChain_ok_iff.mp hok).2
  obtain ⟨read, hread, hr⟩ := exists_of_forall₂ hrows hmem
  have hkept : read.hash = entry.hash := by
    rw [rowToAuditEntry_rowOf] at hr
    split at hr
    · cases hr
    · rw [← Except.ok.inj hr]
  apply (read_back_iff hdetail htime).mp
  refine ⟨read, hr, ?_⟩
  apply hsha _ ⟨entry, hlogged, .inr ⟨read, hr, rfl⟩⟩ _ ⟨entry, hlogged, .inl rfl⟩
  exact ((hhashes read hread).trans hkept).trans hhash

end Ranges

/-- The chain of a community is numbered without gaps and linked, and it verifies in every range
exactly when the context of each logged entry survives the JSONB column. -/
theorem audit_chain_verifies_iff (ops : List (AuditOp k))
    (hsha : CollisionFree (AuditState.run k ops).preimages) :
    (∀ c, Numbered (AuditState.run k ops).log c) ∧
      ∀ c, Verifies k (AuditState.run k ops).log c ↔
        ∀ entry ∈ (AuditState.run k ops).logged, entry.communityId = c →
          k.floats.Survives entry.detail := by
  have hsound := run_sound ops
  refine ⟨hsound.numbered, fun c ↦ ⟨fun hverifies entry hlogged hc ↦ ?_, hsound.verifies⟩⟩
  exact hsound.survives hsha hverifies hlogged hc

section Samples

def sampleCodec : Codec where
  floats :=
    { isFloat := fun t ↦ t == "1e+16"
      reprint := fun t ↦ if t = "1e+16" then some t else none
      lexeme := by
        intro t ht
        rw [beq_iff_eq.mp ht]
        exact ⟨⟨'1', ['e', '+', '1', '6'], rfl, .inl rfl⟩, List.all_eq_true.mp rfl, rfl⟩
      reprint_isFloat := by
        intro t t' h
        split at h
        · next ht => exact beq_iff_eq.mpr ((Option.some.inj h).symm.trans ht)
        · cases h }
  toRfc3339 _ := "1970-01-01T00:00:00+00:00"
  lockKey _ := 0

def logOne (entry : NewAuditEntry k) : List (AuditOp k) :=
  [.start 0 entry, .lock 0, .build 0 0, .commit 0, .unlock 0]

def nextEntry (s : AuditState k) (entry : NewAuditEntry k) : AuditEntry :=
  buildEntry k (chainHead s.log entry.communityId) entry 0

theorem foldl_logOne {s : AuditState k} {entry : NewAuditEntry k} (hidle : s.phase 0 = .idle)
    (hfree : s.holder (k.lockKey entry.communityId) = none)
    (hinsert : insertable s.log (nextEntry s entry) = true) :
    ((logOne entry).foldl AuditState.step s).log = s.log ++ [rowOf (nextEntry s entry)] ∧
      ((logOne entry).foldl AuditState.step s).logged = s.logged ++ [nextEntry s entry] ∧
      ((logOne entry).foldl AuditState.step s).phase 0 = .idle ∧
      ((logOne entry).foldl AuditState.step s).holder (k.lockKey entry.communityId) = none := by
  refine ⟨?_, ?_, ?_, ?_⟩ <;>
    simp only [logOne, List.foldl_cons, List.foldl_nil, AuditState.step, AuditState.setPhase, hidle,
      hfree, Function.update_self, ← nextEntry.eq_def, hinsert, if_true]

def firstEntry (entry : NewAuditEntry k) : AuditEntry := buildEntry k none entry 0

theorem run_logOne {entry : NewAuditEntry k} (h : insertable [] (firstEntry entry) = true) :
    (AuditState.run k (logOne entry)).log = [rowOf (firstEntry entry)] ∧
      (AuditState.run k (logOne entry)).logged = [firstEntry entry] := by
  obtain ⟨hlog, hlogged, _⟩ := foldl_logOne (s := AuditState.initial k) rfl rfl h
  exact ⟨hlog, hlogged⟩

def countJson (t : String) : Json := .obj [("count", .num t)]

theorem numbers_countJson (t : String) : (countJson t).numbers = [t] := by
  simp only [countJson, Json.numbers, List.flatMap_cons, List.flatMap_nil, List.append_nil]

theorem strings_countJson (t : String) : (countJson t).strings = ["count"] := by
  simp only [countJson, Json.strings, List.flatMap_cons, List.flatMap_nil, List.append_nil]

theorem mapNumbers_countJson (f : String → String) (t : String) :
    (countJson t).mapNumbers f = countJson (f t) := by
  simp only [countJson, Json.mapNumbers, List.map_cons, List.map_nil]

theorem toJsonb_countJson (t : String) : (countJson t).toJsonb = countJson (numericText t) := by
  rw [Json.toJsonb, mapNumbers_countJson]
  simp only [countJson, Json.reorder, List.map_cons, List.map_nil]
  rfl

theorem canonicalJson_countJson (t : String) :
    canonicalJson (countJson t) =
      utf8 (String.ofList (renderObj [renderField "count" t.toList])) := by
  simp only [canonicalJson, countJson, Json.canonical, List.map_cons, List.map_nil, Json.ofFields,
    List.foldl_cons, List.foldl_nil, Json.insertField, Json.render]

def countDetail (n : ℤ) (h : -2 ^ 63 ≤ n ∧ n < 2 ^ 64) : Detail k where
  json := countJson (toString n)
  keyed := by
    refine .obj (List.nodup_singleton _) fun field hfield ↦ ?_
    rw [List.mem_singleton.mp hfield]
    exact .num _
  written := by
    intro t ht
    rw [numbers_countJson, List.mem_singleton] at ht
    exact .inl ⟨n, h.1, h.2, ht⟩

def floatDetail : Detail sampleCodec where
  json := .num "1e+16"
  keyed := .num _
  written := by
    intro t ht
    rw [Json.numbers, List.mem_singleton] at ht
    rw [ht]
    exact .inr rfl

def newEntry (detail : Detail k) : NewAuditEntry k := ⟨0, .eventCreated, none, none, detail⟩

theorem insertable_first {detail : Detail k} (h : detail.json.strings.any hasNul = false) :
    insertable [] (firstEntry (newEntry detail)) = true := by
  have hdetail : (firstEntry (newEntry detail)).detail = detail.json := rfl
  rw [insertable, hdetail, h]
  rfl

/-- Only the logged entries are hashed, once their contexts survive the column. -/
theorem preimage_of_survives {ops : List (AuditOp k)} (h : ∀ e ∈ (AuditState.run k ops).logged,
      (∃ detail : Detail k, e.detail = detail.json) ∧
        toStoragePrecision e.createdAt = e.createdAt ∧ k.floats.Survives e.detail)
    {p : Bytes} (hp : p ∈ (AuditState.run k ops).preimages) :
    ∃ e ∈ (AuditState.run k ops).logged, p = preimage k e := by
  obtain ⟨e, he, hp⟩ := hp
  rcases hp with hp | ⟨read, hread, hp⟩
  · exact ⟨e, he, hp⟩
  · obtain ⟨⟨detail, hdetail⟩, htime, hsurvives⟩ := h e he
    obtain ⟨read', hread', hpre⟩ := (read_back_iff hdetail htime).mpr hsurvives
    rw [hread] at hread'
    rw [hp, Except.ok.inj hread']
    exact ⟨e, he, hpre⟩

theorem preimage_text {entry : AuditEntry} {text : Bytes} (h : canonicalJson entry.detail = text) :
    preimage k entry =
      uuidBytes entry.communityId ++ seqBytes entry.seq ++
        utf8 (k.toRfc3339 (toStoragePrecision entry.createdAt)) ++ utf8 entry.action.asStr ++
        (optionBytes entry.actorPubkey ++ optionBytes (entry.objectId.map utf8) ++ text) ++
        entry.prevHash.getD genesisHash := by
  rw [preimage, contextBytes, h]

def createdEntry : NewAuditEntry sampleCodec := newEntry (countDetail 7 (by decide))

def deletedEntry : NewAuditEntry sampleCodec :=
  ⟨0, .eventDeleted, none, none, countDetail (-3) (by decide)⟩

def secondEntry : AuditEntry :=
  buildEntry sampleCodec (some (rowOf (firstEntry createdEntry))) deletedEntry 0

theorem run_created :
    (AuditState.run sampleCodec (logOne createdEntry)).log = [rowOf (firstEntry createdEntry)] ∧
      (AuditState.run sampleCodec (logOne createdEntry)).logged = [firstEntry createdEntry] :=
  run_logOne (insertable_first (by rw [countDetail, strings_countJson]; decide))

/-- The two hashes of the sample differ. -/
theorem digest_ne :
    digest (preimage sampleCodec (firstEntry createdEntry)) ≠
      digest (preimage sampleCodec secondEntry) := by
  have hfirst : canonicalJson (firstEntry createdEntry).detail = _ := canonicalJson_countJson "7"
  have hsecond : canonicalJson secondEntry.detail = _ := canonicalJson_countJson "-3"
  have hprev : secondEntry.prevHash =
      some (digest (preimage sampleCodec (firstEntry createdEntry))) := rfl
  rw [preimage_text hsecond, hprev, preimage_text hfirst]
  decide +kernel

theorem insertable_second :
    insertable [rowOf (firstEntry createdEntry)] secondEntry = true := by
  have hstrings : secondEntry.detail.strings = ["count"] := strings_countJson "-3"
  have hhash : (rowOf (firstEntry createdEntry)).hash ≠ secondEntry.hash := digest_ne
  rw [insertable, hstrings, List.all_cons, List.all_nil, decide_eq_true hhash]
  rfl

theorem run_second :
    (AuditState.run sampleCodec (logOne createdEntry ++ logOne deletedEntry)).log =
        [rowOf (firstEntry createdEntry), rowOf secondEntry] ∧
      (AuditState.run sampleCodec (logOne createdEntry ++ logOne deletedEntry)).logged =
        [firstEntry createdEntry, secondEntry] := by
  have hfirst : insertable (AuditState.initial sampleCodec).log
      (nextEntry (AuditState.initial sampleCodec) createdEntry) = true :=
    insertable_first (by rw [countDetail, strings_countJson]; decide)
  obtain ⟨hlog, hlogged, hidle, hfree⟩ := foldl_logOne rfl rfl hfirst
  rw [AuditState.run, List.foldl_append]
  change ((logOne createdEntry).foldl AuditState.step _).log = [rowOf (firstEntry createdEntry)]
    at hlog
  change ((logOne createdEntry).foldl AuditState.step _).logged = [firstEntry createdEntry]
    at hlogged
  generalize (logOne createdEntry).foldl AuditState.step (AuditState.initial sampleCodec) = s at *
  have hnext : nextEntry s deletedEntry = secondEntry := by
    rw [nextEntry, hlog]
    rfl
  have hinsert : insertable s.log (nextEntry s deletedEntry) = true := by
    rw [hlog, hnext]
    exact insertable_second
  have hfree' : s.holder (sampleCodec.lockKey deletedEntry.communityId) = none := hfree
  obtain ⟨hlog', hlogged', _⟩ := foldl_logOne hidle hfree' hinsert
  rw [hlog', hlogged', hnext, hlog, hlogged]
  exact ⟨rfl, rfl⟩

theorem survives_countJson {t : String}
    (h : sampleCodec.floats.readNumber (numericText t) = some t) :
    sampleCodec.floats.Survives (countJson t) := by
  refine ⟨rfl, fun t' ht ↦ ?_⟩
  rw [numbers_countJson, List.mem_singleton] at ht
  rw [ht, h]

theorem survives_second : ∀ e ∈ [firstEntry createdEntry, secondEntry],
    sampleCodec.floats.Survives e.detail := by
  intro e he
  simp only [List.mem_cons, List.not_mem_nil, or_false] at he
  obtain rfl | rfl := he
  · exact survives_countJson (by decide)
  · exact survives_countJson (by decide)

/-- The two entries of the sample are told apart, whatever is read of them. -/
theorem eq_of_digest_eq {e e' : AuditEntry} (he : e ∈ [firstEntry createdEntry, secondEntry])
    (he' : e' ∈ [firstEntry createdEntry, secondEntry])
    (h : digest (preimage sampleCodec e) = digest (preimage sampleCodec e')) : e = e' := by
  simp only [List.mem_cons, List.not_mem_nil, or_false] at he he'
  obtain rfl | rfl := he <;> obtain rfl | rfl := he'
  · rfl
  · exact absurd h digest_ne
  · exact absurd h digest_ne.symm
  · rfl

theorem audit_chain_verifies_iff_two_rows :
    CollisionFree
        (AuditState.run sampleCodec (logOne createdEntry ++ logOne deletedEntry)).preimages ∧
      Verifies sampleCodec
        (AuditState.run sampleCodec (logOne createdEntry ++ logOne deletedEntry)).log 0 := by
  have hlogged : ∀ e ∈ (AuditState.run sampleCodec (logOne createdEntry ++ logOne deletedEntry)).logged,
      (∃ detail : Detail sampleCodec, e.detail = detail.json) ∧
        toStoragePrecision e.createdAt = e.createdAt ∧ sampleCodec.floats.Survives e.detail := by
    intro e he
    rw [run_second.2] at he
    have hsurvives := survives_second e he
    simp only [List.mem_cons, List.not_mem_nil, or_false] at he
    obtain rfl | rfl := he
    · exact ⟨⟨_, rfl⟩, toStoragePrecision_idem 0, hsurvives⟩
    · exact ⟨⟨_, rfl⟩, toStoragePrecision_idem 0, hsurvives⟩
  have hsha : CollisionFree
      (AuditState.run sampleCodec (logOne createdEntry ++ logOne deletedEntry)).preimages := by
    intro p hp q hq heq
    obtain ⟨e, he, hp⟩ := preimage_of_survives hlogged hp
    obtain ⟨e', he', hq⟩ := preimage_of_survives hlogged hq
    rw [run_second.2] at he he'
    rw [hp, hq] at heq ⊢
    rw [eq_of_digest_eq he he' heq]
  refine ⟨hsha, ((audit_chain_verifies_iff _ hsha).2 0).mpr fun e he _ ↦ ?_⟩
  exact (hlogged e he).2.2

theorem canonicalJson_num (lexeme : String) : canonicalJson (.num lexeme) = utf8 lexeme := by
  rw [canonicalJson, Json.canonical, Json.render, String.ofList_toList]

/-- A whole float that is written with an exponent comes back as an integer. -/
theorem verifyChain_float_context :
    verifyChain sampleCodec (AuditState.run sampleCodec (logOne (newEntry floatDetail))).log 0 1 1 =
      .error (.hashMismatch 1) := by
  have hstrings : floatDetail.json.strings.any hasNul = false := by
    rw [floatDetail, Json.strings]
    rfl
  have hread : rowToAuditEntry sampleCodec (rowOf (firstEntry (newEntry floatDetail))) =
      .ok { firstEntry (newEntry floatDetail) with detail := .num "10000000000000000" } := by
    have hstored : (firstEntry (newEntry floatDetail)).detail.toJsonb =
        .num "10000000000000000" := by
      change (Json.num "1e+16").toJsonb = _
      rw [Json.toJsonb, Json.mapNumbers, Json.reorder]
      exact congrArg Json.num (by decide)
    have hback : sampleCodec.floats.fromJsonb (.num "10000000000000000") =
        some (.num "10000000000000000") := by
      rw [FloatText.fromJsonb, Json.numbers, Json.mapNumbers, if_pos]
      · exact congrArg (some ∘ Json.num) (by decide)
      · exact ⟨rfl, by decide⟩
    rw [rowToAuditEntry_rowOf, hstored, hback]
    rfl
  rw [(run_logOne (insertable_first hstrings)).1]
  have hne : ¬computeHash sampleCodec
      { firstEntry (newEntry floatDetail) with detail := .num "10000000000000000" } =
        (firstEntry (newEntry floatDetail)).hash := by
    have hhash : (firstEntry (newEntry floatDetail)).hash =
        digest (preimage sampleCodec (firstEntry (newEntry floatDetail))) := rfl
    rw [hhash, computeHash, preimage_text (canonicalJson_num "10000000000000000"),
      preimage_text (canonicalJson_num "1e+16")]
    decide +kernel
  change verifyRows sampleCodec none [rowOf (firstEntry (newEntry floatDetail))] = _
  have hnone : ¬((none : Option Bytes).isSome = true ∧
      (firstEntry (newEntry floatDetail)).prevHash ≠ none) := fun h ↦ (by cases h.1)
  simp only [verifyRows, hread, if_neg hnone, if_pos hne]
  rfl

theorem audit_float_context_not_verified :
    ¬Verifies sampleCodec
      (AuditState.run sampleCodec (logOne (newEntry floatDetail))).log 0 := by
  intro h
  have hrow : ∃ row ∈ (AuditState.run sampleCodec (logOne (newEntry floatDetail))).log,
      row.communityId = 0 ∧ 1 ≤ row.seq ∧ row.seq ≤ 1 := by
    have hstrings : floatDetail.json.strings.any hasNul = false := by
      rw [floatDetail, Json.strings]
      rfl
    rw [(run_logOne (insertable_first hstrings)).1]
    exact ⟨_, List.mem_singleton_self _, rfl, le_rfl, le_rfl⟩
  have hok := h 1 1 hrow
  rw [verifyChain_float_context] at hok
  cases hok

end Samples

end Buzz.Audit
