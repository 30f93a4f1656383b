import Buzz.Lib.Collections
import Buzz.Nostr.Event

namespace Buzz.Nostr

open Buzz.Lib Buzz.Lib.Hex

structure SingleLetterTag where
  char : Char
  isAlpha : char.isAlpha = true
deriving DecidableEq

namespace SingleLetterTag

def toString (t : SingleLetterTag) : String := String.singleton t.char

def h : SingleLetterTag := ⟨'h', rfl⟩
def p : SingleLetterTag := ⟨'p', rfl⟩
def d : SingleLetterTag := ⟨'d', rfl⟩
def e : SingleLetterTag := ⟨'e', rfl⟩

theorem toString_injective : Function.Injective toString := by
  rintro ⟨a, ha⟩ ⟨b, hb⟩ hab
  have hl : (String.singleton a).toList = (String.singleton b).toList := congrArg String.toList hab
  simpa using hl

theorem toString_eq_iff {s t : SingleLetterTag} : s.toString = t.toString ↔ s = t :=
  toString_injective.eq_iff

@[simp] theorem toString_h : h.toString = "h" := rfl
@[simp] theorem toString_p : p.toString = "p" := rfl
@[simp] theorem toString_d : d.toString = "d" := rfl
@[simp] theorem toString_e : e.toString = "e" := rfl

end SingleLetterTag

structure Filter where
  ids : Option (ValueSet EventId) := none
  authors : Option (ValueSet PublicKey) := none
  kinds : Option (ValueSet Kind) := none
  search : Option String := none
  since : Option Timestamp := none
  until_ : Option Timestamp := none
  limit : Option ℕ := none
  genericTags : Map SingleLetterTag (ValueSet String) := ∅

def tagConstraintHolds (tagKey : String) (tagValues : ValueSet String) (ev : StoredEvent) : Bool :=
  let hasMatch := tagValues.elems.any fun filterVal ↦
    (ev.event.tagContents tagKey).any (· == filterVal)
  if !hasMatch && tagKey == "h" then
    let eventHasHTags := ev.event.tags.any fun t ↦ t.kind == "h"
    if !eventHasHTags then
      match ev.channelId with
      | some chId => tagValues.elems.any (· == uuidToString chId)
      | none => false
    else false
  else hasMatch

/-- `filter_match_one`: the fields of one filter are AND-ed. An `#h` constraint falls back
to the assigned channel for events that carry no `h` tag at all. -/
def filterMatchOne (f : Filter) (ev : StoredEvent) : Bool :=
  f.kinds.all (fun kinds ↦ ev.event.kind ∈ kinds) &&
  f.authors.all (fun authors ↦ ev.event.pubkey ∈ authors) &&
  f.since.all (fun since ↦ !(ev.event.createdAt < since)) &&
  f.until_.all (fun until_ ↦ !(until_ < ev.event.createdAt)) &&
  f.ids.all (fun ids ↦ ids.elems.any fun id ↦
    (hexEncode id).toList.isPrefixOf (hexEncode ev.event.id).toList) &&
  f.genericTags.entries.all fun entry ↦ tagConstraintHolds entry.1.toString entry.2 ev

def filtersMatch (filters : List Filter) (ev : StoredEvent) : Bool :=
  filters.any fun f ↦ filterMatchOne f ev

def TagConstraint (t : SingleLetterTag) (values : ValueSet String) (ev : StoredEvent) : Prop :=
  (∃ v ∈ values, v ∈ ev.event.tagContents t.toString) ∨
    (t = .h ∧ (∀ tag ∈ ev.event.tags, tag.kind ≠ "h") ∧
      ∃ ch, ev.channelId = some ch ∧ uuidToString ch ∈ values)

theorem tagConstraintHolds_iff {t : SingleLetterTag} {values : ValueSet String}
    {ev : StoredEvent} :
    tagConstraintHolds t.toString values ev = true ↔ TagConstraint t values ev := by
  have hh : (t.toString = "h") ↔ t = .h := SingleLetterTag.toString_eq_iff (t := .h)
  have hm : (values.elems.any fun v ↦ (ev.event.tagContents t.toString).any (· == v)) = true ↔
      ∃ v ∈ values, v ∈ ev.event.tagContents t.toString := by
    simp only [List.any_eq_true, beq_iff_eq, ValueSet.mem_def]
    exact ⟨fun ⟨v, hv, w, hw, he⟩ ↦ ⟨v, hv, he ▸ hw⟩, fun ⟨v, hv, hw⟩ ↦ ⟨v, hv, v, hw, rfl⟩⟩
  unfold tagConstraintHolds TagConstraint
  by_cases hhas : (values.elems.any fun v ↦ (ev.event.tagContents t.toString).any (· == v)) = true
  · simp only [hhas, Bool.not_true, Bool.false_and, Bool.false_eq_true, if_false, true_iff]
    exact .inl (hm.mp hhas)
  · have hno : ¬ ∃ v ∈ values, v ∈ ev.event.tagContents t.toString := fun h ↦ hhas (hm.mpr h)
    rw [Bool.not_eq_true] at hhas
    simp only [hhas, Bool.not_false, Bool.true_and, beq_iff_eq, hno, false_or]
    by_cases ht : t = .h
    · subst ht
      by_cases htags : (ev.event.tags.any fun tag ↦ tag.kind == "h") = true
      · have hsome : ¬ ∀ tag ∈ ev.event.tags, tag.kind ≠ "h" := by
          simpa only [List.any_eq_true, beq_iff_eq, not_forall, ne_eq, not_not,
            exists_prop] using htags
        simp [htags, hsome]
      · have hnone : ∀ tag ∈ ev.event.tags, tag.kind ≠ "h" := by
          simpa only [List.any_eq_true, beq_iff_eq, not_exists, not_and, ne_eq] using htags
        rw [Bool.not_eq_true] at htags
        cases hc : ev.channelId with
        | none => simp [htags]
        | some ch =>
          simp only [htags, Bool.not_false, if_true, SingleLetterTag.toString_h, List.any_eq_true,
            beq_iff_eq, exists_eq_right, Option.some.injEq, exists_eq_left', true_and, ValueSet.mem_def]
          exact ⟨fun h ↦ ⟨hnone, h⟩, fun h ↦ h.2⟩
    · simp [ht, hh]

structure Matches (f : Filter) (ev : StoredEvent) : Prop where
  kinds : ∀ kinds, f.kinds = some kinds → ev.event.kind ∈ kinds
  authors : ∀ authors, f.authors = some authors → ev.event.pubkey ∈ authors
  since : ∀ since, f.since = some since → since ≤ ev.event.createdAt
  until_ : ∀ until_, f.until_ = some until_ → ev.event.createdAt ≤ until_
  ids : ∀ ids, f.ids = some ids → ev.event.id ∈ ids
  tags : ∀ t values, f.genericTags.lookup t = some values → TagConstraint t values ev

theorem hexEncode_isPrefixOf {a b : EventId} :
    (hexEncode a).toList.isPrefixOf (hexEncode b).toList = true ↔ a = b := by
  constructor
  · intro h
    have hl := List.IsPrefix.eq_of_length (List.isPrefixOf_iff_prefix.mp h)
      (by simp [hexEncode])
    exact hexEncode_injective (String.toList_injective hl)
  · rintro rfl
    simp

theorem filterMatchOne_iff {f : Filter} {ev : StoredEvent} :
    filterMatchOne f ev = true ↔ Matches f ev := by
  have hids (ids : ValueSet EventId) : (ids.elems.any fun id ↦
      (hexEncode id).toList.isPrefixOf (hexEncode ev.event.id).toList) = true ↔
      ev.event.id ∈ ids := by
    simp only [List.any_eq_true, hexEncode_isPrefixOf, ValueSet.mem_def, exists_eq_right]
  have htags : (f.genericTags.entries.all fun entry ↦
      tagConstraintHolds entry.1.toString entry.2 ev) = true ↔
      ∀ t values, f.genericTags.lookup t = some values → TagConstraint t values ev := by
    simp only [List.all_eq_true, tagConstraintHolds_iff]
    exact ⟨fun h t values hl ↦ h ⟨t, values⟩ (Map.mem_entries_iff.mpr hl),
      fun h entry he ↦ h entry.1 entry.2 (Map.mem_entries_iff.mp he)⟩
  simp only [filterMatchOne, Bool.and_eq_true, Option.all_eq_true, hids, htags,
    decide_eq_true_eq, Bool.not_eq_true', decide_eq_false_iff_not, UInt64.not_lt]
  exact ⟨fun ⟨⟨⟨⟨⟨h₁, h₂⟩, h₃⟩, h₄⟩, h₅⟩, h₆⟩ ↦ ⟨h₁, h₂, h₃, h₄, h₅, h₆⟩,
    fun ⟨h₁, h₂, h₃, h₄, h₅, h₆⟩ ↦ ⟨⟨⟨⟨⟨h₁, h₂⟩, h₃⟩, h₄⟩, h₅⟩, h₆⟩⟩

theorem filtersMatch_iff {filters : List Filter} {ev : StoredEvent} :
    filtersMatch filters ev = true ↔ ∃ f ∈ filters, Matches f ev := by
  simp only [filtersMatch, List.any_eq_true, filterMatchOne_iff]

end Buzz.Nostr
