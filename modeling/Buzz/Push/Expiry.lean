import Buzz.Push.LeaseSpec

namespace Buzz.Push

open Buzz.Lib Buzz.Nostr Buzz.Db

namespace Leases

variable {leases : Leases} {author : PublicKey} {now : Timestamptz}

end Leases

namespace LeaseTables

variable {t : LeaseTables} {event : Event} {installationId : String} {version : LeaseVersion}
  {active : Option ActiveLease} {maxActiveLeases : ℤ} {now : Timestamptz}

def IsOutcome {α : Type} (x : Except Refusal α) : Prop :=
  ∀ e, x ≠ .error (.error e)

theorem IsOutcome.bind {α β : Type} {x : Except Refusal α} {f : α → Except Refusal β}
    (hx : IsOutcome x) (hf : ∀ a, x = .ok a → IsOutcome (f a)) : IsOutcome (x >>= f) := by
  cases x with
  | error r =>
    intro e heq
    cases heq
    exact hx e rfl
  | ok a => exact hf a rfl

end LeaseTables

end Buzz.Push
