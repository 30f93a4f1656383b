import Buzz.Git.PublishSpec
import Buzz.Lib.Runs
import Buzz.Lib.Sha256

namespace Buzz.Git

open Buzz.Lib Buzz.Lib.Sha256 Buzz.Nostr

def Commit.entry (c : Commit) : LogEntry String String String :=
  ⟨c.manifest.parent, c.digest, c.commands.map RefCommand.update, c.manifest.refs.get⟩

section Invariant

variable (b : Backend) (s : RepoState)

def CollisionFree : Prop :=
  ∀ text ∈ s.uploads, ∀ text' ∈ s.uploads, b.sha256 text = b.sha256 text' → text = text'

def TagsDiffer : Prop :=
  ∀ c ∈ s.commits, ∀ c' ∈ s.commits, b.etagOf c.digest = b.etagOf c'.digest → c.digest = c'.digest

structure Stored (c : Commit) : Prop where
  digest : c.digest = digestOf b c.manifest.canonicalBytes
  uploaded : c.manifest.canonicalBytes ∈ s.uploads
  version : c.manifest.version = manifestVersion
  sha1 : AllSha1 c.manifest.refs

def LoadedFrom (parent : ParentState) : Prop :=
  parent = .fresh ∨
    ∃ c ∈ s.commits, parent = .fromLoaded (b.etagOf c.digest) c.digest c.manifest.canonical

def PhaseValid (push : PushId) : Phase → Prop
  | .observed etag body => ∃ c ∈ s.commits, body = c.digest ∧ etag = b.etagOf c.digest
  | .hydrated parent => LoadedFrom b s parent
  | .received parent commands workspace _ =>
    LoadedFrom b s parent ∧ workspace = afterReceivePack parent.parent.refs commands
  | .composed parent commands m => LoadedFrom b s parent ∧ ComposedFrom parent commands m
  | .uploaded parent commands m key digest =>
    LoadedFrom b s parent ∧ ComposedFrom parent commands m ∧ m.canonicalBytes ∈ s.uploads ∧
      digest = digestOf b m.canonicalBytes ∧ key = "manifests/" ++ digest
  | .seeding digest => seedManifest.canonicalBytes ∈ s.uploads ∧
      digest = digestOf b seedManifest.canonicalBytes
  | .success m key =>
    ∃ c ∈ s.commits, c.push = some push ∧ c.manifest = m ∧ key = "manifests/" ++ c.digest
  | _ => True

structure Coherent : Prop where
  object : ∀ key text, s.objects.lookup key = some text →
    key = contentKey b "manifests" text ∧ text ∈ s.uploads
  upload : ∀ text ∈ s.uploads, s.objects.lookup (contentKey b "manifests" text) = some text
  commit : ∀ c ∈ s.commits, Stored b s c
  pointer : s.pointer = s.commits.head?.map Commit.digest
  serial : LogEntry.IsSerial (s.commits.map Commit.entry)
  phase : ∀ push phase, s.pushes.lookup push = some phase → PhaseValid b s push phase
  author : ∀ c ∈ s.commits, ∀ push, c.push = some push →
    ∃ phase, s.pushes.lookup push = some phase ∧ phase.mayHavePublished = true
  once : (s.commits.filterMap Commit.push).Nodup

end Invariant

variable {b : Backend} {s s' : RepoState} {push : PushId} {phase : Phase}

theorem PhaseValid.mono (h : PhaseValid b s push phase) (hcommits : s.commits ⊆ s'.commits)
    (huploads : s.uploads ⊆ s'.uploads) : PhaseValid b s' push phase := by
  have hloaded {parent : ParentState} (hp : LoadedFrom b s parent) : LoadedFrom b s' parent :=
    hp.imp_right fun ⟨c, hc, heq⟩ ↦ ⟨c, hcommits hc, heq⟩
  cases phase with
  | observed etag body =>
    obtain ⟨c, hc, hrest⟩ := h
    exact ⟨c, hcommits hc, hrest⟩
  | hydrated parent => exact hloaded h
  | received parent commands workspace head => exact ⟨hloaded h.1, h.2⟩
  | composed parent commands m => exact ⟨hloaded h.1, h.2⟩
  | uploaded parent commands m key digest =>
    obtain ⟨hparent, hcomposed, hupload, hrest⟩ := h
    exact ⟨hloaded hparent, hcomposed, huploads hupload, hrest⟩
  | seeding digest => exact ⟨huploads h.1, h.2⟩
  | success m key =>
    obtain ⟨c, hc, hrest⟩ := h
    exact ⟨c, hcommits hc, hrest⟩
  | rejected => trivial
  | failed error => trivial
  | lostRace => trivial
  | conflict error => trivial
  | unclear error => trivial
  | seedLost digest => trivial
  | seedFailed => trivial
  | seeded => trivial

theorem coherent_empty : Coherent b {} where
  object key text h := by cases (AList.lookup_empty key).symm.trans h
  upload := nofun
  commit := nofun
  pointer := rfl
  serial := trivial
  phase push phase h := by cases (AList.lookup_empty push).symm.trans h
  author := nofun
  once := List.nodup_nil

theorem LoadedFrom.prepared {parent : ParentState} {commands : List RefCommand}
    {m : Manifest} (hparent : LoadedFrom b s parent) (hm : ComposedFrom parent commands m)
    (digest : String) (author : Option PushId) :
    LogEntry.Prepared (s.commits.map Commit.entry) (Commit.entry ⟨author, commands, m, digest⟩) := by
  have hstate : m.refs.get =
      applyUpdates (commands.map RefCommand.update) parent.parent.refs.get := by
    rw [hm.refs, get_afterReceivePack]
  obtain rfl | ⟨c, hc, rfl⟩ := hparent
  · exact .inl ⟨hm.parentDigest, hstate⟩
  · refine .inr ⟨c.entry, List.mem_map_of_mem hc, hm.parentDigest, hstate⟩

namespace Coherent

/-- A push that cannot have published yet moves to another phase. -/
theorem setPhase (h : Coherent b s)
    (hold : ∀ old, s.pushes.lookup push = some old → old.mayHavePublished = false)
    (hnew : PhaseValid b s push phase) : Coherent b (s.setPhase push phase) where
  object := h.object
  upload := h.upload
  commit c hc := ⟨(h.commit c hc).digest, (h.commit c hc).uploaded, (h.commit c hc).version,
    (h.commit c hc).sha1⟩
  pointer := h.pointer
  serial := h.serial
  phase push' phase' hphase' := by
    rw [RepoState.setPhase, Map.lookup_insert_eq] at hphase'
    split at hphase'
    · next heq =>
      cases hphase'
      rw [heq]
      exact hnew.mono (List.Subset.refl _) (List.Subset.refl _)
    · exact (h.phase push' phase' hphase').mono (List.Subset.refl _) (List.Subset.refl _)
  author c hc push' hpush' := by
    obtain ⟨phase', hphase', hpublished⟩ := h.author c hc push' hpush'
    have hne : push' ≠ push := by
      intro heq
      rw [heq] at hphase'
      rw [hold phase' hphase'] at hpublished
      cases hpublished
    refine ⟨phase', ?_, hpublished⟩
    rw [RepoState.setPhase, Map.lookup_insert_eq, if_neg hne]
    exact hphase'
  once := h.once

theorem uploadManifest (h : Coherent b s) {text : String}
    (hfree : CollisionFree b (s.upload b text)) : Coherent b (s.upload b text) where
  object key text' hlookup := by
    simp only [RepoState.upload] at hlookup
    split at hlookup
    · obtain ⟨hkey, hmem⟩ := h.object key text' hlookup
      exact ⟨hkey, List.mem_cons_of_mem _ hmem⟩
    · rw [Map.lookup_insert_eq] at hlookup
      split at hlookup
      · next heq =>
        cases hlookup
        exact ⟨heq, List.mem_cons_self⟩
      · obtain ⟨hkey, hmem⟩ := h.object key text' hlookup
        exact ⟨hkey, List.mem_cons_of_mem _ hmem⟩
  upload text' hmem' := by
    simp only [RepoState.upload]
    by_cases hkey : contentKey b "manifests" text ∈ s.objects
    · rw [if_pos hkey]
      rcases List.mem_cons.mp hmem' with rfl | hold
      · obtain ⟨stored, hstored⟩ := Option.isSome_iff_exists.mp (AList.lookup_isSome.mpr hkey)
        obtain ⟨heq, hmem⟩ := h.object _ stored hstored
        rw [contentKey_manifests, contentKey_manifests] at heq
        have hdigest : digestOf b text' = digestOf b stored := (String.append_right_inj _).mp heq
        rw [hfree text' hmem' stored (List.mem_cons_of_mem _ hmem) (digestOf_inj hdigest)] at hkey ⊢
        exact h.upload stored hmem
      · exact h.upload text' hold
    · rw [if_neg hkey, Map.lookup_insert_eq]
      rcases List.mem_cons.mp hmem' with rfl | hold
      · rw [if_pos rfl]
      · have hlookup := h.upload text' hold
        rw [if_neg, hlookup]
        intro heq
        rw [heq] at hlookup
        exact hkey (AList.lookup_isSome.mp (by rw [hlookup, Option.isSome_some]))
  commit c hc := ⟨(h.commit c hc).digest, List.mem_cons_of_mem _ (h.commit c hc).uploaded,
    (h.commit c hc).version, (h.commit c hc).sha1⟩
  pointer := h.pointer
  serial := h.serial
  phase push' phase' hphase' :=
    (h.phase push' phase' hphase').mono (List.Subset.refl _) (List.subset_cons_self _ _)
  author := h.author
  once := h.once

theorem loadManifest (h : Coherent b s) {etag : ETag} {body : String} {parent : ParentState}
    (hvalid : PhaseValid b s push (.observed etag body))
    (hload : loadManifest b s.objects etag body = .ok parent) : LoadedFrom b s parent := by
  obtain ⟨c, hc, rfl, rfl⟩ := hvalid
  have hstored := h.commit c hc
  obtain ⟨text, m, hlookup, hparse, rfl⟩ := loadManifest_ok hload
  have htrim : trim c.digest = c.digest := by
    rw [hstored.digest]
    exact trim_digestOf _
  have hobject := h.upload _ hstored.uploaded
  rw [contentKey_manifests, ← hstored.digest] at hobject
  rw [htrim, hobject] at hlookup
  cases hlookup
  rw [Manifest.fromBytes_canonicalBytes hstored.version] at hparse
  cases hparse
  rw [htrim]
  exact .inr ⟨c, hc, rfl⟩

theorem sha1_loaded (h : Coherent b s) {parent : ParentState} (hparent : LoadedFrom b s parent) :
    AllSha1 parent.parent.refs := by
  obtain rfl | ⟨c, hc, rfl⟩ := hparent
  · exact .empty
  · exact (h.commit c hc).sha1

theorem loaded_current (h : Coherent b s) (htags : TagsDiffer b s) {parent : ParentState}
    (hparent : LoadedFrom b s parent) (hholds : parent.precond.holds b s.pointer = true) :
    parent.parentDigest = s.commits.head?.map Commit.digest := by
  rw [h.pointer] at hholds
  cases hcommits : s.commits with
  | nil =>
    obtain rfl | ⟨c, hc, -⟩ := hparent
    · rfl
    · rw [hcommits] at hc
      cases hc
  | cons newest older =>
    rw [hcommits] at hholds
    obtain rfl | ⟨c, hc, rfl⟩ := hparent
    · cases hholds
    · have htag : b.etagOf newest.digest = b.etagOf c.digest := beq_iff_eq.mp hholds
      have hnewest : newest ∈ s.commits := by
        rw [hcommits]
        exact List.mem_cons_self
      have hdigest := htags newest hnewest c hc htag
      rw [List.head?_cons, Option.map_some, hdigest]
      rfl

theorem entries_determined (h : Coherent b s) (hfree : CollisionFree b s) :
    ∀ x ∈ s.commits.map Commit.entry, ∀ y ∈ s.commits.map Commit.entry, x.id = y.id →
      x.state = y.state := by
  intro x hx y hy hid
  obtain ⟨c, hc, rfl⟩ := List.mem_map.mp hx
  obtain ⟨c', hc', rfl⟩ := List.mem_map.mp hy
  have hstored := h.commit c hc
  have hstored' := h.commit c' hc'
  have hdigest : c.digest = c'.digest := hid
  rw [hstored.digest, hstored'.digest] at hdigest
  have htext := hfree _ hstored.uploaded _ hstored'.uploaded (digestOf_inj hdigest)
  have hparse := Manifest.fromBytes_canonicalBytes hstored.version
  rw [htext, Manifest.fromBytes_canonicalBytes hstored'.version] at hparse
  have hcanonical : c'.manifest.canonical = c.manifest.canonical := Except.ok.inj hparse
  have hrefs : c'.manifest.refs = c.manifest.refs := congrArg (fun m ↦ m.refs) hcanonical
  show c.manifest.refs.get = c'.manifest.refs.get
  rw [hrefs]

/-- The pointer is swapped and its writer moves to the phase that the response stands for. -/
theorem publish (h : Coherent b s) {c : Commit} (hstored : Stored b s c)
    (hextends : LogEntry.Extends (s.commits.map Commit.entry) c.entry)
    (hauthor : ∀ author, c.push = some author → author = push ∧ phase.mayHavePublished = true)
    (hold : ∀ old, s.pushes.lookup push = some old → old.mayHavePublished = false)
    (hnew : PhaseValid b (s.write c) push phase) :
    Coherent b ((s.write c).setPhase push phase) where
  object := h.object
  upload := h.upload
  commit c' hc' := by
    rcases List.mem_cons.mp hc' with rfl | hc'
    · exact ⟨hstored.digest, hstored.uploaded, hstored.version, hstored.sha1⟩
    · have hstored' := h.commit c' hc'
      exact ⟨hstored'.digest, hstored'.uploaded, hstored'.version, hstored'.sha1⟩
  pointer := rfl
  serial := ⟨hextends, h.serial⟩
  phase push' phase' hphase' := by
    rw [RepoState.setPhase, Map.lookup_insert_eq] at hphase'
    split at hphase'
    · next heq =>
      cases hphase'
      rw [heq]
      exact hnew.mono (List.Subset.refl _) (List.Subset.refl _)
    · exact (h.phase push' phase' hphase').mono (List.subset_cons_self _ _) (List.Subset.refl _)
  author c' hc' author hpush := by
    rcases List.mem_cons.mp hc' with rfl | hc'
    · obtain ⟨rfl, hpublished⟩ := hauthor author hpush
      exact ⟨phase, AList.lookup_insert _, hpublished⟩
    · obtain ⟨phase', hphase', hpublished⟩ := h.author c' hc' author hpush
      have hne : author ≠ push := by
        intro heq
        rw [heq] at hphase'
        rw [hold phase' hphase'] at hpublished
        cases hpublished
      refine ⟨phase', ?_, hpublished⟩
      rw [RepoState.setPhase, Map.lookup_insert_eq, if_neg hne]
      exact hphase'
  once := by
    show ((c :: s.commits).filterMap Commit.push).Nodup
    cases hpush : c.push with
    | none =>
      rw [List.filterMap_cons_none hpush]
      exact h.once
    | some author =>
      rw [List.filterMap_cons_some hpush, List.nodup_cons]
      refine ⟨?_, h.once⟩
      intro hmem
      obtain ⟨c', hc', hpush'⟩ := List.mem_filterMap.mp hmem
      obtain ⟨phase', hphase', hpublished⟩ := h.author c' hc' author hpush'
      rw [(hauthor author hpush).1] at hphase'
      rw [hold phase' hphase'] at hpublished
      cases hpublished

end Coherent

section Response

variable {precond : Precond} {pointer : Option String} {applied : Bool}
  {response : Except S3Error ResponseData}

theorem allows_holds (h : precond.allows b pointer true response = true) :
    precond.holds b pointer = true := by
  cases response with
  | ok resp =>
    simp only [Precond.allows, Bool.and_eq_true] at h
    simpa using h.1
  | error e =>
    cases e with
    | httpFailWithBody status body =>
      simp only [Precond.allows, Bool.and_eq_true] at h
      simpa using h.1
    | transport message => simpa [Precond.allows] using h

/-- The client is not told that it lost a race which it won. -/
theorem classifyCas_applied (h : precond.allows b pointer true response = true)
    (manifest : Manifest) (key : String) :
    (afterPut manifest key (classifyCas response)).mayHavePublished = true := by
  cases response with
  | ok resp =>
    rw [classifyCas]
    split
    · cases resp.etag with
      | none => rfl
      | some etag => rfl
    · rfl
  | error e =>
    cases e with
    | httpFailWithBody status body =>
      rw [classifyCas]
      split
      · next heq => simp [Precond.allows, heq] at h
      · rfl
    | transport message => rfl

/-- Success is reported only for a write that took effect. -/
theorem classifyCas_won {etag : ETag} (h : precond.allows b pointer applied response = true)
    (hwon : classifyCas response = .ok (.won etag)) : applied = true := by
  cases response with
  | ok resp =>
    rw [classifyCas] at hwon
    split at hwon
    · next hstatus =>
      simp only [Precond.allows, hstatus, Bool.and_eq_true, Bool.not_true, Bool.false_or] at h
      exact h.2
    · cases hwon
  | error e =>
    cases e with
    | httpFailWithBody status body =>
      rw [classifyCas] at hwon
      split at hwon <;> cases hwon
    | transport message => cases hwon

end Response

def Action.actor : Action → PushId
  | .getPointer push | .getManifest push | .receivePack push _ _ _ | .compose push _ _
  | .putManifest push | .putPointer push _ _ | .readWinner push | .fail push _ | .announce push
  | .seedPointer push _ _ | .checkSeed push => push

def Action.Writes (a : Action) (c : Commit) : Prop :=
  (∃ push response, a = .putPointer push true response ∧ c.push = some push) ∨
    ∃ push response, a = .seedPointer push true response ∧ c.push = none

theorem step_cases {a : Action} (h : step b s a = some s') : ∃ base phase,
    s' = base.setPhase a.actor phase ∧ (base = s ∨ (∃ text, base = s.upload b text) ∨
      ∃ c, base = s.write c ∧ a.Writes c) := by
  cases a with
  | getPointer push =>
    simp only [step] at h
    split at h
    · cases h
      exact ⟨s, _, rfl, .inl rfl⟩
    · cases h
      exact ⟨s, _, rfl, .inl rfl⟩
    · cases h
  | getManifest push =>
    simp only [step] at h
    split at h
    · split at h
      · cases h
        exact ⟨s, _, rfl, .inl rfl⟩
      · cases h
        exact ⟨s, _, rfl, .inl rfl⟩
    · cases h
  | receivePack push commands head ok =>
    simp only [step] at h
    split at h
    · split at h
      · cases h
        exact ⟨s, _, rfl, .inl rfl⟩
      · cases h
        exact ⟨s, _, rfl, .inl rfl⟩
    · cases h
  | compose push limits work =>
    simp only [step] at h
    split at h
    · split at h
      · cases h
        exact ⟨s, _, rfl, .inl rfl⟩
      · cases h
        exact ⟨s, _, rfl, .inl rfl⟩
    · cases h
  | putManifest push =>
    simp only [step] at h
    split at h
    · split at h
      · cases h
        exact ⟨_, _, rfl, .inr (.inl ⟨_, rfl⟩)⟩
      · cases h
        exact ⟨_, _, rfl, .inr (.inl ⟨_, rfl⟩)⟩
    · cases h
  | putPointer push applied response =>
    simp only [step] at h
    split at h
    · split at h
      · cases applied with
        | true =>
          cases h
          exact ⟨_, _, rfl, .inr (.inr ⟨⟨some push, _, _, _⟩, rfl, .inl ⟨push, response, rfl, rfl⟩⟩)⟩
        | false =>
          cases h
          exact ⟨s, _, rfl, .inl rfl⟩
      · cases h
    · cases h
  | readWinner push =>
    simp only [step] at h
    split at h
    · cases h
      exact ⟨s, _, rfl, .inl rfl⟩
    · cases h
  | fail push error =>
    simp only [step] at h
    split at h
    · cases h
      exact ⟨s, _, rfl, .inl rfl⟩
    · split at h
      · cases h
        exact ⟨s, _, rfl, .inl rfl⟩
      · cases h
  | announce push =>
    simp only [step] at h
    split at h
    · cases h
      exact ⟨_, _, rfl, .inr (.inl ⟨_, rfl⟩)⟩
    · cases h
  | seedPointer push applied response =>
    simp only [step] at h
    split at h
    · split at h
      · cases applied with
        | true =>
          cases h
          exact ⟨_, _, rfl, .inr (.inr ⟨⟨none, _, _, _⟩, rfl, .inr ⟨push, response, rfl, rfl⟩⟩)⟩
        | false =>
          cases h
          exact ⟨s, _, rfl, .inl rfl⟩
      · cases h
    · cases h
  | checkSeed push =>
    simp only [step] at h
    split at h
    · cases h
      exact ⟨s, _, rfl, .inl rfl⟩
    · cases h
      exact ⟨s, _, rfl, .inl rfl⟩
    · cases h

theorem step_grows {a : Action} (h : step b s a = some s') :
    s.commits <:+ s'.commits ∧ s.uploads ⊆ s'.uploads := by
  obtain ⟨base, phase, rfl, rfl | ⟨text, rfl⟩ | ⟨c, rfl, -⟩⟩ := step_cases h
  · exact ⟨List.suffix_refl _, List.Subset.refl _⟩
  · exact ⟨List.suffix_refl _, List.subset_cons_self _ _⟩
  · exact ⟨List.suffix_cons _ _, List.Subset.refl _⟩

theorem step_pointer {a : Action} (h : step b s a = some s') :
    (s'.pointer = s.pointer ∧ s'.commits = s.commits) ∨
      ∃ c, s'.pointer = some c.digest ∧ s'.commits = c :: s.commits ∧ a.Writes c := by
  obtain ⟨base, phase, rfl, rfl | ⟨text, rfl⟩ | ⟨c, rfl, hwrites⟩⟩ := step_cases h
  · exact .inl ⟨rfl, rfl⟩
  · exact .inl ⟨rfl, rfl⟩
  · exact .inr ⟨c, rfl, rfl, hwrites⟩

namespace Coherent

/-- A write whose precondition held is an atomic update of the manifest it replaced. -/
theorem put (h : Coherent b s) (hfree : CollisionFree b s) (htags : TagsDiffer b s)
    {parent : ParentState} {commands : List RefCommand} {m : Manifest} {author : Option PushId}
    {digest : String} {response : Except S3Error ResponseData}
    (hparent : LoadedFrom b s parent) (hm : ComposedFrom parent commands m)
    (huploaded : m.canonicalBytes ∈ s.uploads) (hdigest : digest = digestOf b m.canonicalBytes)
    (hallows : parent.precond.allows b s.pointer true response = true)
    (hauthor : ∀ p, author = some p → p = push ∧ phase.mayHavePublished = true)
    (hold : ∀ old, s.pushes.lookup push = some old → old.mayHavePublished = false)
    (hnew : PhaseValid b (s.write ⟨author, commands, m, digest⟩) push phase) :
    Coherent b ((s.write ⟨author, commands, m, digest⟩).setPhase push phase) := by
  have hsha : AllSha1 m.refs := by
    rw [hm.refs]
    exact (h.sha1_loaded hparent).afterReceivePack commands
  have hhead : (s.commits.map Commit.entry).head?.map LogEntry.id =
      s.commits.head?.map Commit.digest := by
    cases s.commits with
    | nil => rfl
    | cons c commits => rfl
  have hcurrent : m.parent = (s.commits.map Commit.entry).head?.map LogEntry.id := by
    rw [hm.parentDigest, hhead]
    exact h.loaded_current htags hparent (allows_holds hallows)
  have hextends := (hparent.prepared hm digest author).extends hcurrent
    (h.entries_determined hfree)
  exact h.publish ⟨hdigest, huploaded, hm.version, hsha⟩ hextends hauthor hold hnew

theorem stay (hphase : s.pushes.lookup push = some phase)
    (hnot : phase.mayHavePublished = false) :
    ∀ old, s.pushes.lookup push = some old → old.mayHavePublished = false := by
  intro old hold
  rw [hphase] at hold
  cases hold
  exact hnot

theorem fresh (hphase : s.pushes.lookup push = none) :
    ∀ old, s.pushes.lookup push = some old → old.mayHavePublished = false := by
  intro old hold
  rw [hphase] at hold
  cases hold

theorem seed_composed : ComposedFrom .fresh [] seedManifest := ⟨rfl, rfl, rfl⟩

theorem putPointer (h : Coherent b s) (hfree : CollisionFree b s) (htags : TagsDiffer b s)
    {applied : Bool} {response : Except S3Error ResponseData}
    (hstep : Git.step b s (.putPointer push applied response) = some s') : Coherent b s' := by
  simp only [Git.step] at hstep
  split at hstep
  · next parent commands m key digest hphase =>
    obtain ⟨hparent, hm, huploaded, hdigest, hkey⟩ := h.phase push _ hphase
    split at hstep
    · next hallows =>
      cases applied with
      | true =>
        cases hstep
        refine h.put hfree htags hparent hm huploaded hdigest hallows ?_ (stay hphase rfl) ?_
        · intro p hp
          cases hp
          exact ⟨rfl, classifyCas_applied hallows m key⟩
        · cases hclass : classifyCas response with
          | error e => trivial
          | ok outcome =>
            cases outcome with
            | lostRace => trivial
            | won etag => exact ⟨_, List.mem_cons_self, rfl, rfl, hkey⟩
      | false =>
        cases hstep
        refine h.setPhase (stay hphase rfl) ?_
        cases hclass : classifyCas response with
        | error e => trivial
        | ok outcome =>
          cases outcome with
          | lostRace => trivial
          | won etag => cases classifyCas_won hallows hclass
    · cases hstep
  · cases hstep

theorem seedPointer (h : Coherent b s) (hfree : CollisionFree b s) (htags : TagsDiffer b s)
    {applied : Bool} {response : Except S3Error ResponseData}
    (hstep : Git.step b s (.seedPointer push applied response) = some s') : Coherent b s' := by
  simp only [Git.step] at hstep
  split at hstep
  · next digest hphase =>
    obtain ⟨huploaded, hdigest⟩ := h.phase push _ hphase
    have hvalid (t : RepoState) :
        PhaseValid b t push (afterSeed digest (classifyCas response)) := by
      cases classifyCas response with
      | error e => trivial
      | ok outcome =>
        cases outcome with
        | lostRace => trivial
        | won etag => trivial
    split at hstep
    · next hallows =>
      cases applied with
      | true =>
        cases hstep
        exact h.put hfree htags (.inl rfl) seed_composed huploaded hdigest hallows nofun
          (stay hphase rfl) (hvalid _)
      | false =>
        cases hstep
        exact h.setPhase (stay hphase rfl) (hvalid _)
    · cases hstep
  · cases hstep

theorem step (h : Coherent b s) {a : Action} (hstep : step b s a = some s')
    (hfree : CollisionFree b s') (htags : TagsDiffer b s) : Coherent b s' := by
  have huploads := (step_grows hstep).2
  have hfree₀ : CollisionFree b s := fun text hmem text' hmem' ↦
    hfree text (huploads hmem) text' (huploads hmem')
  cases a with
  | getPointer push =>
    simp only [Git.step] at hstep
    split at hstep
    · next hphase _ =>
      cases hstep
      exact h.setPhase (fresh hphase) (.inl rfl)
    · next body hphase hpointer =>
      cases hstep
      refine h.setPhase (fresh hphase) ?_
      have hhead := h.pointer
      rw [hpointer] at hhead
      obtain ⟨c, hc, hbody⟩ := Option.map_eq_some_iff.mp hhead.symm
      exact ⟨c, List.mem_of_mem_head? hc, hbody.symm, by rw [hbody]⟩
    · cases hstep
  | getManifest push =>
    simp only [Git.step] at hstep
    split at hstep
    · next etag body hphase =>
      split at hstep
      · next parent hload =>
        cases hstep
        exact h.setPhase (stay hphase rfl) (h.loadManifest (h.phase push _ hphase) hload)
      · cases hstep
        exact h.setPhase (stay hphase rfl) trivial
    · cases hstep
  | receivePack push commands head ok =>
    simp only [Git.step] at hstep
    split at hstep
    · next parent hphase =>
      split at hstep
      · cases hstep
        exact h.setPhase (stay hphase rfl) ⟨h.phase push _ hphase, rfl⟩
      · cases hstep
        exact h.setPhase (stay hphase rfl) trivial
    · cases hstep
  | compose push limits work =>
    simp only [Git.step] at hstep
    split at hstep
    · next parent commands workspace head hphase =>
      obtain ⟨hparent, rfl⟩ := h.phase push _ hphase
      split at hstep
      · next m hprepare =>
        cases hstep
        exact h.setPhase (stay hphase rfl)
          ⟨hparent, prepareManifest_ok (h.sha1_loaded hparent) hprepare⟩
      · cases hstep
        exact h.setPhase (stay hphase rfl) trivial
    · cases hstep
  | putManifest push =>
    simp only [Git.step, digestFromManifestKey_contentKey] at hstep
    split at hstep
    · next parent commands m hphase =>
      obtain ⟨hparent, hm⟩ := h.phase push _ hphase
      cases hstep
      have hupload : Coherent b (s.upload b m.canonicalBytes) := h.uploadManifest hfree
      refine hupload.setPhase (stay hphase rfl) ?_
      exact ⟨hparent, hm, List.mem_cons_self, rfl, contentKey_manifests _⟩
    · cases hstep
  | putPointer push applied response => exact h.putPointer hfree₀ htags hstep
  | readWinner push =>
    simp only [Git.step] at hstep
    split at hstep
    · next hphase =>
      cases hstep
      exact h.setPhase (stay hphase rfl) trivial
    · cases hstep
  | fail push error =>
    simp only [Git.step] at hstep
    split at hstep
    · next hphase =>
      cases hstep
      exact h.setPhase (fresh hphase) trivial
    · next phase hphase =>
      split at hstep
      · next hpending =>
        cases hstep
        refine h.setPhase (stay hphase ?_) trivial
        cases phase <;> first | rfl | cases hpending
      · cases hstep
  | announce push =>
    simp only [Git.step] at hstep
    split at hstep
    · next hphase =>
      cases hstep
      have hupload : Coherent b (s.upload b seedManifest.canonicalBytes) := h.uploadManifest hfree
      exact hupload.setPhase (fresh hphase) ⟨List.mem_cons_self, rfl⟩
    · cases hstep
  | seedPointer push applied response => exact h.seedPointer hfree₀ htags hstep
  | checkSeed push =>
    simp only [Git.step] at hstep
    split at hstep
    · next digest body hphase _ =>
      cases hstep
      refine h.setPhase (stay hphase rfl) ?_
      split
      · trivial
      · trivial
    · next digest hphase _ =>
      cases hstep
      exact h.setPhase (stay hphase rfl) trivial
    · cases hstep

end Coherent

section Run

variable {actions : List Action}

theorem run_grows {s₁ : RepoState} (h : actions.foldlM (step b) s₁ = some s) :
    s₁.commits <:+ s.commits ∧ s₁.uploads ⊆ s.uploads := by
  apply foldlM_induction (r := fun s s' ↦ s.commits <:+ s'.commits ∧ s.uploads ⊆ s'.uploads) _ _ _ h
  · exact fun s ↦ ⟨List.suffix_refl _, List.Subset.refl _⟩
  · exact fun s₁ s₂ s₃ h₁ h₂ ↦ ⟨h₁.1.trans h₂.1, List.Subset.trans h₁.2 h₂.2⟩
  · exact fun s a s' hstep ↦ step_grows hstep

theorem coherent_run (h : run b actions = some s) (hfree : CollisionFree b s)
    (htags : TagsDiffer b s) : Coherent b s := by
  induction actions using List.reverseRecOn generalizing s with
  | nil =>
    cases h
    exact coherent_empty
  | append_singleton actions a ih =>
    obtain ⟨s₁, hrun, hstep⟩ := foldlM_concat_eq_some.mp h
    obtain ⟨hcommits, huploads⟩ := step_grows hstep
    have hfree₁ : CollisionFree b s₁ := fun text hmem text' hmem' ↦
      hfree text (huploads hmem) text' (huploads hmem')
    have htags₁ : TagsDiffer b s₁ := fun c hc c' hc' ↦
      htags c (hcommits.subset hc) c' (hcommits.subset hc')
    exact (ih hrun hfree₁ htags₁).step hstep hfree htags₁

def refsOf : List Commit → String → Option String
  | [] => fun _ ↦ none
  | c :: _ => c.manifest.refs.get

theorem latest_entries (commits : List Commit) :
    LogEntry.latest (commits.map Commit.entry) = refsOf commits := by
  cases commits with
  | nil => rfl
  | cons c commits => rfl

variable (b actions s) in
/-- The pushes of a run took effect one after the other, each on the manifest it replaced. -/
structure Linearized : Prop where
  pointer : s.pointer = s.commits.head?.map Commit.digest
  changes : ∀ pre a post s₁ s₂, actions = pre ++ a :: post → run b pre = some s₁ →
    step b s₁ a = some s₂ → s₂.commits <:+ s.commits ∧
      ((s₂.pointer = s₁.pointer ∧ s₂.commits = s₁.commits) ∨
        ∃ c, s₂.pointer = some c.digest ∧ s₂.commits = c :: s₁.commits ∧ a.Writes c)
  chain : ∀ newer c older, s.commits = newer ++ c :: older →
    c.manifest.parent = older.head?.map Commit.digest
  atomic : ∀ newer c older, s.commits = newer ++ c :: older →
    c.manifest.refs.get = applyUpdates (c.commands.map RefCommand.update) (refsOf older)
  reflected : ∀ newest newer c older before name new after,
    s.commits = newest ++ (newer ++ c :: older) → c.commands = before ++ ⟨name, new⟩ :: after →
    (∀ command ∈ after, command.name ≠ name) →
    (∀ c' ∈ newer, ∀ command ∈ c'.commands, command.name ≠ name) →
    refsOf (newer ++ c :: older) name = new.map hexOid
  unpublished : ∀ push phase, s.pushes.lookup push = some phase →
    phase.mayHavePublished = false → ∀ c ∈ s.commits, c.push ≠ some push
  success : ∀ push m key, s.pushes.lookup push = some (.success m key) →
    ∃ c ∈ s.commits, c.push = some push ∧ c.manifest = m ∧ key = "manifests/" ++ c.digest
  once : (s.commits.filterMap Commit.push).Nodup

theorem Coherent.extends_of_split (h : Coherent b s) {newer older : List Commit} {c : Commit}
    (hsplit : s.commits = newer ++ c :: older) :
    LogEntry.Extends (older.map Commit.entry) c.entry := by
  have hserial := h.serial
  rw [hsplit, List.map_append, List.map_cons] at hserial
  exact hserial.append_right.1

theorem Coherent.reflected (h : Coherent b s) {newest newer older : List Commit} {c : Commit}
    {before after : List RefCommand} {name : String} {new : Option (Fin (2 ^ 160))}
    (hsplit : s.commits = newest ++ (newer ++ c :: older))
    (hcommands : c.commands = before ++ ⟨name, new⟩ :: after)
    (hlast : ∀ command ∈ after, command.name ≠ name)
    (hnewer : ∀ c' ∈ newer, ∀ command ∈ c'.commands, command.name ≠ name) :
    refsOf (newer ++ c :: older) name = new.map hexOid := by
  have hserial := h.serial
  rw [hsplit, List.map_append] at hserial
  have htail := hserial.append_right
  rw [List.map_append, List.map_cons] at htail
  have hpersists := htail.persists (k := name) (by
    intro e he u hu
    obtain ⟨c', hc', rfl⟩ := List.mem_map.mp he
    obtain ⟨command, hcommand, rfl⟩ := List.mem_map.mp hu
    exact hnewer c' hc' command hcommand)
  have hstate : c.entry.state name = new.map hexOid := by
    rw [(htail.append_right).1.2]
    have hupdates : c.entry.updates =
        before.map RefCommand.update ++ (name, new.map hexOid) :: after.map RefCommand.update := by
      rw [Commit.entry, hcommands, List.map_append, List.map_cons]
      rfl
    rw [hupdates]
    apply applyUpdates_last
    intro u hu
    obtain ⟨command, hcommand, rfl⟩ := List.mem_map.mp hu
    exact hlast command hcommand
  rw [← hstate, ← hpersists, ← List.map_cons, ← List.map_append, latest_entries]

/-- In any interleaving of pushes, each write of the pointer is an atomic update of the manifest it
replaced, as long as digests and tags tell the bodies of this run apart. -/
theorem pushes_linearize (hrun : run b actions = some s) (hfree : CollisionFree b s)
    (htags : TagsDiffer b s) : Linearized b s actions := by
  have h : Coherent b s := coherent_run hrun hfree htags
  refine ⟨h.pointer, ?_, ?_, ?_, ?_, ?_, ?_, h.once⟩
  · intro pre a post s₁ s₂ hsplit hpre hstep
    have hsuffix : s₂.commits <:+ s.commits := by
      rw [run, hsplit, List.append_cons, List.foldlM_append] at hrun
      obtain ⟨s₂', hconcat, hpost⟩ := Option.bind_eq_some_iff.mp hrun
      obtain ⟨s₁', hpre', hstep'⟩ := foldlM_concat_eq_some.mp hconcat
      rw [run, hpre'] at hpre
      cases hpre
      rw [hstep'] at hstep
      cases hstep
      exact (run_grows hpost).1
    exact ⟨hsuffix, step_pointer hstep⟩
  · intro newer c older hsplit
    have hparent := (h.extends_of_split hsplit).1
    cases older with
    | nil => exact hparent
    | cons c' older => exact hparent
  · intro newer c older hsplit
    have hstate := (h.extends_of_split hsplit).2
    rw [latest_entries] at hstate
    exact hstate
  · intro newest newer c older before name new after hsplit hcommands hlast hnewer
    exact h.reflected hsplit hcommands hlast hnewer
  · intro push phase hphase hnot c hc hpush
    obtain ⟨phase', hphase', hpublished⟩ := h.author c hc push hpush
    rw [hphase] at hphase'
    cases hphase'
    rw [hnot] at hpublished
    cases hpublished
  · intro push m key hphase
    exact h.phase push _ hphase

/-- The text of a manifest, written out by hand. -/
def canonicalText (m : Manifest) : String :=
  let refs := m.refs.entries.map fun e ↦ Json.renderField e.1 (Json.renderStr e.2.toList)
  let packs := (sortDedup m.packs).map fun p ↦ Json.renderStr p.toList
  let parent := (m.parent.map fun p ↦ Json.renderStr p.toList).getD "null".toList
  String.ofList (Json.renderObj
    [Json.renderField "version" (toString m.version.toNat).toList,
      Json.renderField "head" (Json.renderStr m.head.toList),
      Json.renderField "refs" (Json.renderObj refs),
      Json.renderField "packs" (Json.renderArr packs), Json.renderField "parent" parent])

theorem canonicalBytes_eq_text : Manifest.canonicalBytes = canonicalText := by
  funext m
  obtain ⟨version, head, refs, packs, parent⟩ := m
  cases parent with
  | none =>
    simp only [Manifest.canonicalBytes, canonicalText, Manifest.fields, Manifest.canonical,
      Json.render, List.map_cons, List.map_nil, List.map_map, Function.comp_def, Option.map_none,
      Option.getD_none]
  | some parent =>
    simp only [Manifest.canonicalBytes, canonicalText, Manifest.fields, Manifest.canonical,
      Json.render, List.map_cons, List.map_nil, List.map_map, Function.comp_def, Option.map_some,
      Option.getD_some]

/-- A store with the real digests, and the tags of the two manifests published below. -/
def exampleBackend : Backend where
  sha256 text := Fin.ofNat _ (ofBytes (digest text.toByteArray.data.toList))
  etagOf body :=
    if body = "0154267d397385f91e9e3858e42e0ee2592e5e6244a123f4efee0b899cc338ee" then
      "700f4205ac6e1804583ae106b72ccb1c"
    else "9d569f4de9587d14d76bfb8b19c12301"

/-- Pushes 1 and 2 race from the empty repository, and push 3 starts from the winner. -/
def racingPushes : List Action :=
  [.getPointer 1, .getPointer 2,
    .receivePack 1 [⟨"refs/heads/main", some 1⟩] "refs/heads/main" true,
    .receivePack 2 [⟨"refs/heads/main", some 2⟩] "refs/heads/main" true,
    .compose 1 ⟨0, 1000⟩ ⟨.ok [], .ok none, .ok ""⟩, .putManifest 1,
    .compose 2 ⟨0, 1000⟩ ⟨.ok [], .ok none, .ok ""⟩, .putManifest 2,
    .putPointer 1 true (.ok ⟨200, some "700f4205ac6e1804583ae106b72ccb1c"⟩),
    .putPointer 2 false (.error (.httpFailWithBody 412 "")), .readWinner 2,
    .getPointer 3, .getManifest 3,
    .receivePack 3 [⟨"refs/heads/main", some 2⟩] "refs/heads/main" true,
    .compose 3 ⟨0, 1000⟩ ⟨.ok [], .ok none, .ok ""⟩, .putManifest 3,
    .putPointer 3 true (.ok ⟨200, some "9d569f4de9587d14d76bfb8b19c12301"⟩)]

theorem racingPushes_linearizes : ∃ s, run exampleBackend racingPushes = some s ∧
    s.uploads.length = 3 ∧ s.commits.map Commit.push = [some 3, some 1] ∧
      Linearized exampleBackend s racingPushes := by
  have hend : (run exampleBackend racingPushes).any (fun s ↦
      s.uploads.length == 3 && s.commits.map Commit.push == [some 3, some 1] &&
        decide (s.uploads.map exampleBackend.sha256).Nodup &&
        decide (s.commits.map fun c ↦ exampleBackend.etagOf c.digest).Nodup) = true := by
    rw [run]
    delta step
    rw [canonicalBytes_eq_text]
    decide +kernel
  obtain ⟨s, hrun, hs⟩ := (Option.any_eq_true _ _).mp hend
  simp only [Bool.and_eq_true, beq_iff_eq, decide_eq_true_eq] at hs
  obtain ⟨⟨⟨huploads, hcommits⟩, hfree⟩, htags⟩ := hs
  refine ⟨s, hrun, huploads, hcommits, pushes_linearize hrun ?_ ?_⟩
  · intro text htext text' htext'
    exact List.inj_on_of_nodup_map hfree htext htext'
  · intro c hc c' hc' heq
    rw [List.inj_on_of_nodup_map htags hc hc' heq]

end Run

end Buzz.Git
