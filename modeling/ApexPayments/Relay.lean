import ApexPayments.Store
import Mathlib.Data.List.Sort

/-!
`OutboxRelay.drain_batch`: one transaction that takes unpublished outbox rows in the
order of their creation, passes over rows that another transaction holds, and marks
the rows it has taken as published.
-/
namespace ApexPayments.Relay

open Domain Store RowLocking

/-- `SELECT ... WHERE id = :id FOR UPDATE SKIP LOCKED` on `outbox`. -/
def tryLockOutbox (id : Uuid) : Program (Option Outbox) := do
  match ← Prog.tryLockRow (B := backend) (.outbox id) with
  | some (.outbox ev) => pure (some ev)
  | _ => pure none

def unpublished (s : Database) : List Outbox := s.outbox.rows.filter (·.publishedAt.isNone)

/-- The rows in ascending `created_at`, with equal times in the order in which the
scan returned them. -/
def byCreation (found : List Outbox) (order : List Uuid) : List Outbox :=
  (order.filterMap fun id => found.find? fun ev => ev.id = id).insertionSort
    fun ev ev' => ev.createdAt ≤ ev'.createdAt

/-- Lock rows one after the other until the limit is reached, keeping those whose
latest version is still unpublished. -/
def lockUnpublished : ℕ → List Uuid → Program (List Outbox)
  | _, [] => pure []
  | 0, _ :: _ => pure []
  | limit + 1, id :: ids => do
      match ← tryLockOutbox id with
      | none => lockUnpublished (limit + 1) ids
      | some ev =>
          if ev.publishedAt.isNone then do
            let rest ← lockUnpublished limit ids
            pure (ev :: rest)
          else lockUnpublished (limit + 1) ids

def selectUnpublished (batchSize : ℕ) : Program (List Outbox) := do
  let found ← Prog.select (B := backend) unpublished
  let order ← Prog.askFor (B := backend) (.scan (found.map Outbox.id))
  lockUnpublished batchSize ((byCreation found order.val).map Outbox.id)

def publish (now : Time) (ev : Outbox) : Outbox := { ev with publishedAt := some now }

/-- The events are logged in the order of this list. -/
def publishAll (now : Time) (events : List Outbox) : List (Write backend) :=
  events.map fun ev => .update (.outbox (publish now ev))

def drainBatch (batchSize : ℕ) : Program ℕ := do
  match ← selectUnpublished batchSize with
  | [] => do
      Prog.commitAll
      pure 0
  | events => do
      let t ← now
      Prog.stageRows (publishAll t events)
      Prog.commitAll
      pure events.length

end ApexPayments.Relay
