import Buzz.Audio.RosterLog

namespace Buzz.Audio

open Buzz.Lib Buzz.Nostr

/-- What `read_owner_control` forwards to the client. -/
inductive ClientMsg
  | roster (revision : UInt64) (peers : List RosterPeer)
  | joined (revision : UInt64) (peer : RosterPeer)
  | left (revision : UInt64) (peer : RosterPeer)
deriving DecidableEq

namespace ClientMsg

def revision : ClientMsg → UInt64
  | roster revision _ | joined revision _ | left revision _ => revision

def apply (roster : ℕ → Option String) : ClientMsg → ℕ → Option String
  | .roster _ peers => rosterOf peers
  | .joined _ p => Function.update roster p.peerIndex (some p.pubkey)
  | .left _ p => Function.update roster p.peerIndex none

def replay (roster : ℕ → Option String) (msgs : List ClientMsg) : ℕ → Option String :=
  msgs.foldl apply roster

/-- How far a message takes the client in the history of the room. -/
def Advances (m n : ℕ) : ClientMsg → Prop
  | .roster .. => m ≤ n
  | .joined .. | .left .. => n = m + 1

end ClientMsg

/-- `read_owner_control`, with what it has forwarded and how often it has asked for a snapshot. -/
structure OwnerReader where
  revision : UInt64
  forwarded : List ClientMsg
  resyncs : ℕ
deriving DecidableEq

namespace OwnerReader

def start (roster : RosterSnapshot) : OwnerReader := ⟨roster.revision, [], 0⟩

def onDelta (r : OwnerReader) (d : RosterDelta) : OwnerReader :=
  if d.revision = r.revision + 1 then
    match d.joined, d.left with
    | some p, _ =>
      { r with revision := d.revision, forwarded := r.forwarded ++ [.joined d.revision p] }
    | none, some p =>
      { r with revision := d.revision, forwarded := r.forwarded ++ [.left d.revision p] }
    | none, none => { r with revision := d.revision }
  else if d.revision ≤ r.revision then r
  else { r with resyncs := r.resyncs + 1 }

def receive (r : OwnerReader) : HuddleControlMsg → OwnerReader
  | .rosterSnapshot s =>
    { r with revision := s.revision, forwarded := r.forwarded ++ [.roster s.revision s.peers] }
  | .rosterDelta d => r.onDelta d
  | .registerPeer .. | .peerRegistered .. | .rosterResync | .registerRejected ..
  | .unregisterPeer _ => r

def read (r : OwnerReader) (msgs : List HuddleControlMsg) : OwnerReader := msgs.foldl receive r

end OwnerReader

/-- What an ordered control stream carries to a client that was at the point `a` of the history of
the room, and where that leaves the client. -/
inductive Carries (tx : List RosterDelta) (a : ℕ) : List HuddleControlMsg → ℕ → Prop
  | nil : Carries tx a [] a
  | snapshot {msgs : List HuddleControlMsg} {b n : ℕ} {s : RosterSnapshot} : Carries tx a msgs b →
      b ≤ n → n ≤ tx.length → s.view = viewAt tx n → Carries tx a (msgs ++ [.rosterSnapshot s]) n
  | next {msgs : List HuddleControlMsg} {b : ℕ} {d : RosterDelta} : Carries tx a msgs b →
      tx[b]? = some d → Carries tx a (msgs ++ [.rosterDelta d]) (b + 1)
  | stale {msgs : List HuddleControlMsg} {b k : ℕ} {d : RosterDelta} : Carries tx a msgs b →
      tx[k]? = some d → k < b → b ≤ k + ROSTER_CAPACITY → Carries tx a (msgs ++ [.rosterDelta d]) b

/-- After each message the client has the roster of the room at the revision of the message, and
its points in the history of the room never go back. -/
structure Exact (tx : List RosterDelta) (roster : ℕ → Option String) (forwarded : List ClientMsg)
    (point : ℕ → ℕ) : Prop where
  replays : ∀ (j : ℕ) (msg : ClientMsg), forwarded[j]? = some msg → point (j + 1) ≤ tx.length ∧
    (⟨msg.revision, ClientMsg.replay roster (forwarded.take (j + 1))⟩ : RosterView) =
      viewAt tx (point (j + 1))
  advances : ∀ (j : ℕ) (msg : ClientMsg), forwarded[j]? = some msg →
    msg.Advances (point j) (point (j + 1))

variable {tx tx' : List RosterDelta} {a b : ℕ} {msgs rest : List HuddleControlMsg}

theorem Carries.extend (h : Carries tx a msgs b) (htx : tx <+: tx') : Carries tx' a msgs b := by
  have hget {k : ℕ} {d : RosterDelta} (hd : tx[k]? = some d) : tx'[k]? = some d := by
    obtain ⟨later, rfl⟩ := htx
    exact List.getElem?_append_left (List.getElem?_eq_some_iff.mp hd).1 ▸ hd
  induction h with
  | nil => exact .nil
  | snapshot _ hb hn hview ih =>
    refine ih.snapshot hb (hn.trans htx.length_le) ?_
    rw [hview, viewAt_extend htx hn]
  | next _ hd ih => exact ih.next (hget hd)
  | stale _ hd hk hb ih => exact ih.stale (hget hd) hk hb

theorem Carries.le_length (h : Carries tx a msgs b) (ha : a ≤ tx.length) : b ≤ tx.length := by
  induction h with
  | nil => exact ha
  | snapshot _ _ hn => exact hn
  | next _ hd => exact (List.getElem?_eq_some_iff.mp hd).1
  | stale _ _ _ _ ih => exact ih

/-- Whatever part of the stream has arrived is such a stream. -/
theorem Carries.of_append (h : Carries tx a (msgs ++ rest) b) : ∃ b', Carries tx a msgs b' := by
  induction rest using List.reverseRecOn generalizing b with
  | nil =>
    rw [List.append_nil] at h
    exact ⟨b, h⟩
  | append_singleton rest msg ih =>
    rw [← List.append_assoc] at h
    generalize hall : msgs ++ rest ++ [msg] = all at h
    cases h with
    | nil => simp at hall
    | snapshot h =>
      obtain ⟨rfl, -⟩ := List.append_inj' hall rfl
      exact ih h
    | next h =>
      obtain ⟨rfl, -⟩ := List.append_inj' hall rfl
      exact ih h
    | stale h =>
      obtain ⟨rfl, -⟩ := List.append_inj' hall rfl
      exact ih h

theorem Exact.nil {roster : ℕ → Option String} {point : ℕ → ℕ} : Exact tx roster [] point where
  replays _ _ h := nomatch h
  advances _ _ h := nomatch h

/-- One more message, for the next point. -/
theorem Exact.concat {roster : ℕ → Option String} {forwarded : List ClientMsg} {point : ℕ → ℕ}
    (h : Exact tx roster forwarded point) {msg : ClientMsg} {n : ℕ} (hn : n ≤ tx.length)
    (hview : (⟨msg.revision, ClientMsg.replay roster (forwarded ++ [msg])⟩ : RosterView) =
      viewAt tx n) (hadvances : msg.Advances (point forwarded.length) n) :
    Exact tx roster (forwarded ++ [msg]) (Function.update point (forwarded.length + 1) n) := by
  have hcases {j : ℕ} {m : ClientMsg} (hj : (forwarded ++ [msg])[j]? = some m) :
      (j < forwarded.length ∧ forwarded[j]? = some m) ∨ (j = forwarded.length ∧ m = msg) := by
    rcases Nat.lt_trichotomy j forwarded.length with hlt | rfl | hgt
    · rw [List.getElem?_append_left hlt] at hj
      exact .inl ⟨hlt, hj⟩
    · rw [List.getElem?_concat_length] at hj
      exact .inr ⟨rfl, (Option.some.inj hj).symm⟩
    · have hlen : (forwarded ++ [msg]).length ≤ j := by
        rw [List.length_append, List.length_singleton]
        exact hgt
      rw [List.getElem?_eq_none hlen] at hj
      nomatch hj
  have hold {j : ℕ} (hj : j ≤ forwarded.length) :
      Function.update point (forwarded.length + 1) n j = point j :=
    Function.update_of_ne (Nat.ne_of_lt (Nat.lt_succ_of_le hj)) ..
  refine ⟨fun j m hj ↦ ?_, fun j m hj ↦ ?_⟩
  · rcases hcases hj with ⟨hlt, hm⟩ | ⟨rfl, rfl⟩
    · rw [hold hlt, List.take_append_of_le_length hlt]
      exact h.replays j m hm
    · rw [Function.update_self, List.take_of_length_le (by simp)]
      exact ⟨hn, hview⟩
  · rcases hcases hj with ⟨hlt, hm⟩ | ⟨rfl, rfl⟩
    · rw [hold hlt, hold (Nat.le_of_lt hlt)]
      exact h.advances j m hm
    · rw [Function.update_self, hold (Nat.le_refl _)]
      exact hadvances

structure OwnerReader.At (r : OwnerReader) (tx : List RosterDelta) (roster : ℕ → Option String)
    (a b : ℕ) : Prop where
  revision : r.revision = .ofNat b
  replay : ClientMsg.replay roster r.forwarded = rosterAt tx b
  exact_points : ∃ point, point 0 = a ∧ point r.forwarded.length = b ∧
    Exact tx roster r.forwarded point

namespace OwnerReader

variable {r r' : OwnerReader} {roster : ℕ → Option String} {s : RosterSnapshot} {d : RosterDelta}

theorem at_start (hview : s.view = viewAt tx a) : (start s).At tx (rosterOf s.peers) a a where
  revision := congrArg RosterView.revision hview
  replay := congrArg RosterView.roster hview
  exact_points := ⟨fun _ ↦ a, rfl, rfl, .nil⟩

theorem At.forward (h : r.At tx roster a b) (msg : ClientMsg) {n : ℕ} (hn : n ≤ tx.length)
    (hrev : msg.revision = .ofNat n) (happly : msg.apply (rosterAt tx b) = rosterAt tx n)
    (hadvances : msg.Advances b n) (hr' : r'.revision = msg.revision)
    (hforwarded : r'.forwarded = r.forwarded ++ [msg]) : r'.At tx roster a n := by
  have hreplay : ClientMsg.replay roster (r.forwarded ++ [msg]) = rosterAt tx n := by
    rw [ClientMsg.replay, List.foldl_append, ← happly, ← h.replay]
    rfl
  obtain ⟨point, hzero, hlast, hexact⟩ := h.exact_points
  refine ⟨hr'.trans hrev, by rw [hforwarded, hreplay], ?_⟩
  rw [hforwarded]
  refine ⟨_, ?_, ?_, hexact.concat hn (RosterView.ext hrev hreplay) (by rw [hlast]; exact hadvances)⟩
  · rw [Function.update_of_ne (Nat.succ_ne_zero _).symm, hzero]
  · rw [List.length_append, List.length_singleton, Function.update_self]

theorem At.snapshot (h : r.At tx roster a b) {n : ℕ} (hb : b ≤ n) (hn : n ≤ tx.length)
    (hview : s.view = viewAt tx n) : (r.receive (.rosterSnapshot s)).At tx roster a n :=
  h.forward (.roster s.revision s.peers) hn (congrArg RosterView.revision hview)
    (congrArg RosterView.roster hview) hb rfl rfl

theorem At.next (h : r.At tx roster a b) (hd : tx[b]? = some d) (hrev : d.revision = .ofNat (b + 1))
    (htells : d.Tells) : (r.receive (.rosterDelta d)).At tx roster a (b + 1) := by
  have hnext : d.revision = r.revision + 1 := by
    rw [hrev, h.revision, UInt64.ofNat_add]
    rfl
  have hlt := (List.getElem?_eq_some_iff.mp hd).1
  have happly := rosterAt_succ hd
  rw [receive, onDelta, if_pos hnext]
  cases hjoined : d.joined with
  | some p =>
    refine h.forward (.joined d.revision p) hlt hrev ?_ rfl rfl rfl
    rw [happly, RosterDelta.apply, hjoined]
    rfl
  | none =>
    cases hleft : d.left with
    | some p =>
      refine h.forward (.left d.revision p) hlt hrev ?_ rfl rfl rfl
      rw [happly, RosterDelta.apply, hjoined, hleft]
      rfl
    | none =>
      rw [RosterDelta.Tells, hjoined, hleft] at htells
      exact absurd htells (by decide)

/-- A delta that a snapshot has overtaken is not taken for the next one: the revisions of the
deltas that the channel keeps do not come round. -/
theorem At.stale (h : r.At tx roster a b) {k : ℕ} (hrev : d.revision = .ofNat (k + 1)) (hk : k < b)
    (hb : b ≤ k + ROSTER_CAPACITY) : (r.receive (.rosterDelta d)).At tx roster a b := by
  have hne : d.revision ≠ r.revision + 1 := by
    rw [hrev, h.revision]
    intro heq
    have hmod := congrArg UInt64.toNat heq
    rw [UInt64.toNat_add, UInt64.toNat_ofNat', UInt64.toNat_ofNat', UInt64.toNat_one] at hmod
    rw [ROSTER_CAPACITY] at hb
    omega
  rw [receive, onDelta, if_neg hne]
  split
  · exact h
  · exact ⟨h.revision, h.replay, h.exact_points⟩

/-- A client that reads the stream is always somewhere in the history of the room. -/
theorem at_read (h : Carries tx a msgs b) (hview : s.view = viewAt tx a)
    (hdelta : ∀ (n : ℕ) (d : RosterDelta), tx[n]? = some d →
      d.revision = .ofNat (n + 1) ∧ d.Tells) :
    ((start s).read msgs).At tx (rosterOf s.peers) a b := by
  induction h with
  | nil => exact at_start hview
  | snapshot _ hb hn hsnap ih =>
    rw [read, List.foldl_append]
    exact ih.snapshot hb hn hsnap
  | next _ hd ih =>
    rw [read, List.foldl_append]
    exact ih.next hd (hdelta _ _ hd).1 (hdelta _ _ hd).2
  | stale _ hd hk hb ih =>
    rw [read, List.foldl_append]
    exact ih.stale (hdelta _ _ hd).1 hk hb

end OwnerReader

end Buzz.Audio
