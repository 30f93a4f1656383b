import Buzz.Gateway.PostgresSpec
import Buzz.Lib.Runs

namespace Buzz.Gateway

open Buzz.Lib Buzz.Nostr

/-- How far a transaction of more than one statement is. -/
inductive Phase
  | authorizing (a : Delivery) (dbNow : DateTime)
  | resolved (a : Delivery) (dbNow : DateTime) (id : Uuid)
  | lockedInstallation (a : Delivery) (dbNow : DateTime) (id : Uuid) (i : InstallationRow)
  | lockedDelegation (a : Delivery) (dbNow : DateTime) (id : Uuid) (i : InstallationRow)
      (key : Uuid × List UInt8) (d : DelegationRow)
  | upserting (d : Delegation)
  | delegable (d : Delegation) (i : InstallationRow)
deriving DecidableEq, Repr

namespace Phase

def installationLock : Phase → Option Uuid
  | lockedInstallation _ _ id _ => some id
  | lockedDelegation _ _ id _ _ _ => some id
  | delegable d _ => some d.installationId
  | _ => none

def delegationLock : Phase → Option (Uuid × List UInt8)
  | lockedDelegation _ _ _ _ key _ => some key
  | _ => none

end Phase

/-- The store with its open transactions. `issued` are the delegation ids ever granted, with the
key and the endpoint epoch they were granted for, `installed` the token ciphertext installed at
each endpoint epoch. -/
structure Authority where
  tables : Tables
  txs : Map ℕ Phase
  issued : Map Uuid ((Uuid × List UInt8) × ℤ)
  installed : Map (Uuid × ℤ) (List UInt8)
  permits : List (Delivery × DeliveryPermit)
deriving DecidableEq

/-- `call` runs a method of one statement, the others the transactions of `authorize_delivery` and
`upsert_delegation` statement by statement. -/
inductive Op
  | authorize (t : ℕ) (a : Delivery) (dbNow : DateTime)
  | upsert (t : ℕ) (d : Delegation)
  | resolve (t : ℕ)
  | lockInstallation (t : ℕ)
  | lockDelegation (t : ℕ)
  | commit (t : ℕ)
  | abort (t : ℕ)
  | call (c : Call) (dbNow : DateTime)
  | reap (now : ℤ)
deriving DecidableEq, Repr

def updatedInstallation : Call → Option Uuid
  | .advanceAssertionCounter id _ _ => some id
  | .rotateEndpoint id _ _ _ _ => some id
  | .revokeInstallation id _ _ => some id
  | _ => none

def updatedDelegation : Call → Option (Uuid × List UInt8)
  | .revokeDelegation id relay _ => (hexDecode relay).map fun bytes ↦ (id, bytes)
  | _ => none

def installs : Call → Option ((Uuid × ℤ) × List UInt8)
  | .createInstallation n => some ((n.id, n.endpointEpoch), n.tokenCiphertext)
  | .rotateEndpoint id _ new ciphertext _ => some ((id, new), ciphertext)
  | _ => none

namespace Authority

def empty : Authority := ⟨Tables.empty, ∅, ∅, ∅, []⟩

def enter (w : Authority) (t : ℕ) (p : Phase) :
    Authority := { w with txs := AList.insert t p w.txs }

/-- The transaction ends, which frees the rows it has locked. -/
def leave (w : Authority) (t : ℕ) : Authority := { w with txs := w.txs.erase t }

def installationFree (w : Authority) (id : Uuid) : Bool :=
  w.txs.entries.all fun e ↦ e.2.installationLock ≠ some id

def delegationFree (w : Authority) (key : Uuid × List UInt8) : Bool :=
  w.txs.entries.all fun e ↦ e.2.delegationLock ≠ some key

def freshInstallation (w : Authority) : Call → Bool
  | .createInstallation n => w.installed.entries.all fun e ↦ e.1.1 ≠ n.id
  | _ => true

def record (w : Authority) (c : Call) : Map (Uuid × ℤ) (List UInt8) :=
  match installs c with
  | some (epoch, ciphertext) => AList.insert epoch ciphertext w.installed
  | none => w.installed

def resolve (w : Authority) (t : ℕ) : Phase → Option Authority
  | .authorizing a dbNow =>
    match w.tables.installationOf a.delegationId with
    | some id => some (w.enter t (.resolved a dbNow id))
    | none => some (w.leave t)
  | _ => none

/-- `SELECT … FOR UPDATE` waits for the row's lock. -/
def lockInstallation (w : Authority) (t : ℕ) : Phase → Option Authority
  | .resolved a dbNow id =>
    if w.installationFree id then
      match okOr (w.tables.installations.lookup id) AuthorityError.rejected with
      | .error _ => some (w.leave t)
      | .ok i =>
        match Tables.admitsInstallation a i with
        | .error _ => some (w.leave t)
        | .ok _ => some (w.enter t (.lockedInstallation a dbNow id i))
    else none
  | .upserting d =>
    if w.installationFree d.installationId then
      match w.tables.delegableInstallation d with
      | .error _ => some (w.leave t)
      | .ok i => some (w.enter t (.delegable d i))
    else none
  | _ => none

def lockDelegation (w : Authority) (t : ℕ) : Phase → Option Authority
  | .lockedInstallation a dbNow id i =>
    match w.tables.admittedDelegation a with
    | .error _ => some (w.leave t)
    | .ok (key, d) =>
      if w.delegationFree key then some (w.enter t (.lockedDelegation a dbNow id i key d)) else none
  | _ => none

/-- The last statements of a transaction and its commit, or its end without effect. -/
def commit (w : Authority) (t : ℕ) : Phase → Option Authority
  | .lockedDelegation a dbNow _ i key d =>
    match w.tables.admitDelivery dbNow a i key d with
    | .error _ => some (w.leave t)
    | .ok (permit, tables) =>
      some { w.leave t with tables := tables, permits := w.permits ++ [(a, permit)] }
  | .delegable d _ =>
    match hexDecode d.relayPubkey with
    | none => some (w.leave t)
    | some relay =>
      if w.delegationFree (d.installationId, relay) ∧ d.id ∉ w.issued then
        match w.tables.writeDelegation d with
        | .error _ => some (w.leave t)
        | .ok tables =>
          some { w.leave t with
            tables := tables
            issued := AList.insert d.id ((d.installationId, relay), d.endpointEpoch) w.issued }
      else none
  | _ => none

def call (w : Authority) (c : Call) (dbNow : DateTime) : Option Authority :=
  if (updatedInstallation c).all w.installationFree ∧ (updatedDelegation c).all w.delegationFree ∧
      w.freshInstallation c then
    match w.tables.call dbNow c with
    | .error _ => some w
    | .ok (_, tables) => some { w with tables := tables, installed := w.record c }
  else none

/-- The deletes wait for the locks of the rows they take away. -/
def reap (w : Authority) (now : ℤ) : Option Authority :=
  match w.tables.reapExpired now with
  | .error _ => some w
  | .ok tables =>
    if (∀ e ∈ w.tables.installations.entries, e.1 ∉ tables.installations →
        w.installationFree e.1 = true) ∧
      (∀ e ∈ w.tables.delegations.entries, e.1 ∉ tables.delegations →
        w.delegationFree e.1 = true) then
      some { w with tables := tables }
    else none

/-- Whether a method is run by `call`: the two transactions have steps of their own. -/
def oneStatement : Call → Bool
  | .authorizeDelivery _ | .upsertDelegation _ => false
  | _ => true

def step (w : Authority) : Op → Option Authority
  | .authorize t a dbNow =>
    if t ∈ w.txs then none
    else match Tables.decodeDelivery a with
      | .error _ => some w
      | .ok _ => some (w.enter t (.authorizing a dbNow))
  | .upsert t d => if t ∈ w.txs then none else some (w.enter t (.upserting d))
  | .resolve t => (w.txs.lookup t).bind (w.resolve t)
  | .lockInstallation t => (w.txs.lookup t).bind (w.lockInstallation t)
  | .lockDelegation t => (w.txs.lookup t).bind (w.lockDelegation t)
  | .commit t => (w.txs.lookup t).bind (w.commit t)
  | .abort t => if t ∈ w.txs then some (w.leave t) else none
  | .call c dbNow => if oneStatement c then w.call c dbNow else none
  | .reap now => w.reap now

end Authority

end Buzz.Gateway
