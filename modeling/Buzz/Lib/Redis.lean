import Buzz.Lib.Decimal
import Mathlib.Logic.Function.Basic

namespace Buzz.Lib

open Buzz.Lib.Decimal

namespace Redis

structure Entry where
  value : String
  expireAt : Option ℕ
deriving DecidableEq, Repr

end Redis

structure Redis where
  entries : String → Option Redis.Entry
  now : ℕ

namespace Redis

def empty (now : ℕ) : Redis := ⟨fun _ ↦ none, now⟩

def Entry.expired (e : Entry) (now : ℕ) : Bool :=
  match e.expireAt with
  | none => false
  | some deadline => decide (deadline < now)

def setEntry (r : Redis) (key : String) (e : Option Entry) : Redis :=
  { r with entries := Function.update r.entries key e }

def live (r : Redis) (key : String) : Option Entry :=
  (r.entries key).filter fun e ↦ !e.expired r.now

def get (r : Redis) (key : String) : Option String := (r.live key).map Entry.value

def setPx (r : Redis) (key value : String) (ttl : ℕ) : Redis :=
  r.setEntry key (some ⟨value, some (r.now + ttl)⟩)

def pexpire (r : Redis) (key : String) (ttl : ℕ) : Redis :=
  match r.live key with
  | none => r
  | some e => r.setEntry key (some { e with expireAt := some (r.now + ttl) })

def del (r : Redis) (key : String) : Redis := r.setEntry key none

def expire (r : Redis) (key : String) (secs : ℕ) : Redis :=
  if secs = 0 then r.del key else r.pexpire key (1000 * secs)

/-- `TTL`: the whole seconds left, rounded to the nearest. -/
def ttl (r : Redis) (key : String) : ℤ :=
  match r.live key with
  | none => -2
  | some e =>
    match e.expireAt with
    | none => -1
    | some deadline => ((deadline - r.now + 500) / 1000 : ℕ)

def setNxEx (r : Redis) (key value : String) (secs : ℕ) : Redis × Bool :=
  match r.live key with
  | some _ => (r, false)
  | none => (r.setPx key value (1000 * secs), true)

def evict (r : Redis) (key : String) : Redis :=
  match r.entries key with
  | none => r
  | some e => if e.expired r.now then r.setEntry key none else r

def parseInteger (s : String) : Option ℤ :=
  (match s.toList with
    | '-' :: cs => (parseDigits cs).map fun n ↦ -(n : ℤ)
    | cs => (parseDigits cs).map fun n ↦ (n : ℤ)).filter
  fun n ↦ toString n == s && decide (-2 ^ 63 ≤ n) && decide (n < 2 ^ 63)

def notAnInteger : String := "ERR value is not an integer or out of range"

def incrOverflow : String := "ERR increment or decrement would overflow"

/-- `INCR`: an absent key counts as zero, and the deadline of a live key stays. -/
def incr (r : Redis) (key : String) : Except String (ℤ × Redis) :=
  match r.live key with
  | none => .ok (1, r.setEntry key (some ⟨"1", none⟩))
  | some e =>
    match parseInteger e.value with
    | none => .error notAnInteger
    | some n =>
      if n = 2 ^ 63 - 1 then .error incrOverflow
      else .ok (n + 1, r.setEntry key (some { e with value := toString (n + 1) }))

/-- The integer Redis reads off a number a script passes to a command, written with `%.17g`. -/
def scriptInteger (n : ℕ) : Option ℕ :=
  let d := toDouble n
  if d < 10 ^ 17 then some d else none

variable {r : Redis} {key key' : String}

@[simp] theorem now_setEntry {e : Option Entry} : (r.setEntry key e).now = r.now := rfl

@[simp] theorem entries_setEntry_self {e : Option Entry} : (r.setEntry key e).entries key = e := by
  exact Function.update_self key e r.entries

@[simp] theorem entries_setEntry_ne {e : Option Entry} (h : key' ≠ key) :
    (r.setEntry key e).entries key' = r.entries key' := by
  exact Function.update_of_ne h e r.entries

@[simp] theorem setEntry_setEntry {e e' : Option Entry} :
    (r.setEntry key e).setEntry key e' = r.setEntry key e' := by
  simp only [setEntry, Function.update_idem]

theorem get_eq_some_iff {value : String} :
    r.get key = some value ↔
      ∃ deadline, r.entries key = some ⟨value, deadline⟩ ∧
        (⟨value, deadline⟩ : Entry).expired r.now = false := by
  simp only [get, live, Option.map_eq_some_iff, Option.filter_eq_some_iff]
  constructor
  · rintro ⟨e, ⟨he, hlive⟩, rfl⟩
    exact ⟨e.expireAt, he, by simpa using hlive⟩
  · rintro ⟨deadline, he, hlive⟩
    exact ⟨⟨value, deadline⟩, ⟨he, by simpa using hlive⟩, rfl⟩

theorem live_eq_some_iff {e : Entry} :
    r.live key = some e ↔ r.entries key = some e ∧ e.expired r.now = false := by
  simp only [live, Option.filter_eq_some_iff, Bool.not_eq_true']

theorem live_eq_none_iff :
    r.live key = none ↔ ∀ e, r.entries key = some e → e.expired r.now = true := by
  simp only [live, Option.filter_eq_none_iff, Bool.not_eq_true', Bool.not_eq_false]

theorem live_of_persistent {value : String} (h : r.entries key = some ⟨value, none⟩) :
    r.live key = some ⟨value, none⟩ := by
  rw [live, h]
  rfl

theorem live_eq_none_of_absent (h : r.entries key = none) : r.live key = none := by
  rw [live, h]
  rfl

theorem get_eq_none_of_absent (h : r.entries key = none) : r.get key = none := by
  rw [get, live_eq_none_of_absent h]
  rfl

@[simp] theorem now_evict : (r.evict key).now = r.now := by
  unfold evict
  split
  · rfl
  · split <;> rfl

theorem entries_evict (r : Redis) (key key' : String) :
    (r.evict key).entries key' = r.entries key' ∨
      ((r.evict key).entries key' = none ∧
        ∃ e, r.entries key' = some e ∧ e.expired r.now = true) := by
  unfold evict
  split
  · exact .inl rfl
  · next e he =>
    split
    · next hexp =>
      by_cases hkey : key' = key
      · refine .inr ⟨?_, e, hkey ▸ he, hexp⟩
        rw [hkey, entries_setEntry_self]
      · exact .inl (entries_setEntry_ne hkey)
    · exact .inl rfl

theorem entries_pexpire (r : Redis) (key : String) (ttl : ℕ) (key' : String) :
    (r.pexpire key ttl).entries key' = r.entries key' ∨
      (key' = key ∧ ∃ e deadline, r.entries key' = some e ∧
        (r.pexpire key ttl).entries key' = some { e with expireAt := some deadline }) := by
  unfold pexpire
  split
  · exact .inl rfl
  · next e he =>
    by_cases hkey : key' = key
    · refine .inr ⟨hkey, e, r.now + ttl, ?_, ?_⟩
      · rw [hkey]
        exact (Option.filter_eq_some_iff.mp he).1
      · rw [hkey, entries_setEntry_self]
    · exact .inl (entries_setEntry_ne hkey)

theorem parseInteger_toString (n : ℕ) :
    parseInteger (toString n) = if n < 2 ^ 63 then some (n : ℤ) else none := by
  have hdigits : parseDigits (Nat.toDigits 10 n) = some n := parseDigits_toDigits n
  have hparse : (match (toString n).toList with
      | '-' :: cs => (parseDigits cs).map fun n ↦ -(n : ℤ)
      | cs => (parseDigits cs).map fun n ↦ (n : ℤ)) = some (n : ℤ) := by
    rw [toList_toString]
    split
    · next cs hcs =>
      have hall := all_isDigit_toDigits n
      rw [hcs] at hall
      simp at hall
    · rw [hdigits]
      rfl
  have hrender : toString (n : ℤ) = toString n := rfl
  rw [parseInteger, hparse, Option.filter_some]
  simp only [hrender, beq_self_eq_true, Bool.true_and, Bool.and_eq_true, decide_eq_true_eq]
  by_cases h : n < 2 ^ 63
  · rw [if_pos h, if_pos (by omega)]
  · rw [if_neg h, if_neg (by omega)]

end Redis

end Buzz.Lib
