import ApexPayments.Service
import ApexPayments.RowLocking.Races

/-!
Calls that wait. Every program but the relay's waits for each row that it locks.
-/
namespace ApexPayments.Service

open Domain Store Ledger Payments Webhooks RowLocking

theorem waits_ofExcept {α : Type} (x : Except Exn α) : (ofExcept x).Waits := by
  cases x <;> trivial

theorem waits_lockPayment (id : Uuid) : (lockPayment id).Waits := by
  unfold lockPayment
  refine Prog.Waits.bind (Prog.waits_lockRow _) ?_
  intro row
  cases row with
  | none => trivial
  | some row => cases row <;> trivial

theorem waits_lockBalances (ids : List Uuid) (b : BalancesMap) : (lockBalances ids b).Waits := by
  induction ids generalizing b with
  | nil => trivial
  | cons a ids ih =>
    unfold lockBalances
    refine Prog.Waits.bind ?_ ?_
    · refine Prog.Waits.bind (Prog.waits_lockRow _) ?_
      intro row
      cases row with
      | none => trivial
      | some row => cases row <;> trivial
    · intro row
      cases row with
      | none => exact ih _
      | some row => exact ih _

theorem waits_post (type : TransactionType) (referenceId : Uuid) (ps : List Posting) :
    (post type referenceId ps).Waits := by
  unfold post
  refine Prog.Waits.bind ?_ fun _ => Prog.Waits.bind Prog.waits_drawIdent fun id =>
    Prog.Waits.bind (Prog.waits_stageRow _) fun _ => Prog.Waits.bind Prog.waits_flushAll
      fun _ => Prog.Waits.bind (waits_lockBalances _ _) fun b =>
        Prog.Waits.bind (Prog.waits_stageRows _) fun _ => ?_
  · cases validateBalanced ps <;> trivial
  · cases (applyPostings id 0 ps b).failure <;> trivial

theorem waits_addOutbox (aggregateType : String) (aggregateId : Uuid) (eventType : String)
    (payload : List (String × Json)) :
    (addOutbox aggregateType aggregateId eventType payload).Waits := by
  unfold addOutbox
  exact Prog.Waits.bind Prog.waits_drawIdent fun _ =>
    Prog.Waits.bind (Prog.waits_askFor _) fun _ => Prog.waits_stageRow _

theorem waits_hold (p : Payment) : (hold p).Waits := by
  unfold hold
  refine Prog.Waits.bind (Prog.waits_stageRow _) fun _ => ?_
  refine Prog.Waits.bind Prog.waits_flushAll fun _ => ?_
  refine Prog.Waits.bind (waits_post _ _ _) fun _ => ?_
  exact Prog.Waits.bind (waits_addOutbox _ _ _ _) fun _ =>
    Prog.Waits.bind Prog.waits_flushAll fun _ => trivial

theorem waits_settle (id : Uuid) (reference : String) : (settle id reference).Waits := by
  unfold settle
  refine (waits_lockPayment id).bind ?_
  intro row
  cases row with
  | none => trivial
  | some p =>
    refine Prog.Waits.bind (Prog.waits_stageRow _) fun _ => ?_
    refine Prog.Waits.bind (waits_post _ _ _) fun _ => ?_
    exact Prog.Waits.bind (waits_addOutbox _ _ _ _) fun _ =>
      Prog.Waits.bind Prog.waits_flushAll fun _ => trivial

theorem waits_reverse (id : Uuid) : (reverse id).Waits := by
  unfold reverse
  refine (waits_lockPayment id).bind ?_
  intro row
  cases row with
  | none => trivial
  | some p =>
    refine Prog.Waits.bind (Prog.waits_stageRow _) fun _ => ?_
    refine Prog.Waits.bind (waits_post _ _ _) fun _ => ?_
    exact Prog.Waits.bind (waits_addOutbox _ _ _ _) fun _ =>
      Prog.Waits.bind Prog.waits_flushAll fun _ => trivial

theorem waits_claimOrReplay (ext : Externals) (m k : String) (payload : Payload) :
    (claimOrReplay ext m k payload).Waits := by
  unfold claimOrReplay
  refine Prog.Waits.bind (Prog.waits_select _) ?_
  intro record
  cases record with
  | none => exact Prog.Waits.bind (Prog.waits_stageRow _) fun _ =>
      Prog.Waits.bind Prog.waits_flushAll fun _ => trivial
  | some r =>
    by_cases hhash : r.requestHash ≠ ext.hash payload
    · simp only [if_pos hhash]
      trivial
    · simp only [if_neg hhash]
      cases r.status <;> trivial

theorem waits_complete (m k : String) (id : Uuid) (code : ℤ) (body : ResponseBody) :
    (complete m k id code body).Waits := by
  unfold complete
  refine Prog.Waits.bind (Prog.waits_select _) ?_
  intro record
  cases record with
  | none => trivial
  | some r =>
    refine Prog.Waits.bind ?_ ?_
    · unfold lockRecord
      refine Prog.Waits.bind (Prog.waits_lockRow _) ?_
      intro row
      cases row with
      | none => trivial
      | some row => cases row <;> trivial
    · intro row
      cases row with
      | none => trivial
      | some row => exact Prog.Waits.bind (Prog.waits_stageRow _) fun _ => Prog.waits_flushAll

theorem waits_resolve (k : String) (req : CreatePaymentRequest) (id : Uuid)
    (result : AuthorizationResult) : (resolve k req id result).Waits := by
  unfold resolve
  refine Prog.Waits.bind ?_ fun p => ?_
  · unfold applyResult
    cases result.outcome with
    | captured => exact waits_settle _ _
    | declined => exact waits_reverse _
    | pending =>
      refine (waits_lockPayment id).bind ?_
      intro row
      cases row <;> trivial
  · exact Prog.Waits.bind (waits_complete _ _ _ _ _) fun _ =>
      Prog.Waits.bind Prog.waits_commitAll fun _ => trivial

theorem waits_create (ext : Externals) (k : String) (req : CreatePaymentRequest) :
    (create ext k req).Waits := by
  unfold create
  refine Prog.Waits.bind Prog.waits_drawIdent fun id => ?_
  refine Prog.Waits.bind (waits_claimOrReplay _ _ _ _) ?_
  intro replay
  cases replay with
  | none =>
    refine Prog.Waits.bind (Prog.waits_askFor _) fun t => ?_
    refine Prog.Waits.bind (waits_hold _) fun p => ?_
    refine Prog.Waits.bind Prog.waits_commitAll fun _ => ?_
    refine Prog.Waits.bind (Prog.waits_callOut _) ?_
    intro ans
    cases ans with
    | error message => trivial
    | ok result => exact waits_resolve k req p.id result
  | some stored => exact Prog.Waits.bind (waits_ofExcept _) fun _ =>
      Prog.Waits.bind Prog.waits_commitAll fun _ => trivial

theorem waits_refund (ext : Externals) (k : String) (id : Uuid) (amount : ℤ) :
    (refund ext k id amount).Waits := by
  unfold refund
  refine Prog.Waits.bind (waits_claimOrReplay _ _ _ _) ?_
  intro replay
  cases replay with
  | none =>
    refine Prog.Waits.bind (waits_lockPayment id) ?_
    intro row
    cases row with
    | none => trivial
    | some p =>
      dsimp only
      split
      · trivial
      · split
        · trivial
        · refine Prog.Waits.bind Prog.waits_drawIdent fun rid => ?_
          refine Prog.Waits.bind (Prog.waits_askFor _) fun t => ?_
          refine Prog.Waits.bind (Prog.waits_stageRow _) fun _ => ?_
          refine Prog.Waits.bind (Prog.waits_stageRow _) fun _ => ?_
          refine Prog.Waits.bind (waits_post _ _ _) fun _ => ?_
          refine Prog.Waits.bind (waits_addOutbox _ _ _ _) fun _ => ?_
          exact Prog.Waits.bind (waits_complete _ _ _ _ _) fun _ => trivial
  | some stored => exact Prog.Waits.bind (waits_ofExcept _) fun _ => trivial

theorem waits_selectForUpdate (matching : Payment → Bool) : (selectForUpdate matching).Waits := by
  have hlock : ∀ ids, (lockMatching matching ids).Waits := by
    intro ids
    induction ids with
    | nil => trivial
    | cons id ids ih =>
      unfold lockMatching
      refine Prog.Waits.bind (waits_lockPayment id) fun row => Prog.Waits.bind ih fun rest => ?_
      cases row <;> trivial
  unfold selectForUpdate
  refine Prog.Waits.bind (Prog.waits_select _) fun found => ?_
  exact Prog.Waits.bind (Prog.waits_askFor _) fun order => hlock _

theorem waits_transition (eventType : Json) (reference : String) :
    (transition eventType reference).Waits := by
  unfold transition
  refine Prog.Waits.bind (waits_selectForUpdate _) ?_
  intro ps
  rcases ps with _ | ⟨p, _ | ⟨q, ps⟩⟩
  · trivial
  · by_cases hst : p.status = .authorized
    · simp only [if_pos hst]
      refine Prog.Waits.bind (waits_ofExcept _) ?_
      intro kind
      rcases kind with _ | _ | _
      · trivial
      · exact Prog.Waits.bind (waits_settle _ _) fun _ => trivial
      · exact Prog.Waits.bind (waits_reverse _) fun _ => trivial
    · simp only [if_neg hst]
      trivial
  · trivial

theorem waits_applyEvent (rawBody : String) (event : Webhooks.Event) :
    (applyEvent rawBody event).Waits := by
  unfold applyEvent
  refine Prog.Waits.bind (waits_ofExcept _) fun eventId => ?_
  refine Prog.Waits.bind (Prog.waits_select _) ?_
  intro seen
  cases seen with
  | some e => trivial
  | none =>
    refine Prog.Waits.bind (Prog.waits_stageRow _) fun _ => ?_
    refine Prog.Waits.bind Prog.waits_flushAll fun _ => ?_
    by_cases href : truthy event.pspReference = true
    · simp only [if_pos href]
      exact Prog.Waits.bind (waits_ofExcept _) fun reference => waits_transition _ _
    · simp only [if_neg href]
      trivial

theorem waits_handle (ext : Externals) (rawBody signature : String) :
    (handle ext rawBody signature).Waits := by
  unfold handle
  split
  · trivial
  · refine Prog.Waits.bind (waits_ofExcept _) fun isValid => ?_
    split
    · split
      · trivial
      · refine Prog.Waits.bind Prog.waits_drawIdent fun fresh => ?_
        exact Prog.Waits.bind (waits_ofExcept _) fun event => waits_applyEvent _ _
    · trivial

theorem waits_expireStaleHolds (timeoutMinutes : ℤ) : (expireStaleHolds timeoutMinutes).Waits := by
  have hall : ∀ ps count, (reverseAll ps count).Waits := by
    intro ps
    induction ps with
    | nil => exact fun _ => trivial
    | cons p ps ih => exact fun count => Prog.Waits.bind (waits_reverse _) fun _ => ih _
  unfold expireStaleHolds
  refine Prog.Waits.bind (Prog.waits_askFor _) fun t => ?_
  exact Prog.Waits.bind (waits_selectForUpdate _) fun stale => hall _ _

/-- Only the relay passes over rows that are locked. -/
theorem waits_program (ext : Externals) {c : Call} (hc : ∀ n, c ≠ .drain n) :
    (program ext c).Waits := by
  cases c with
  | create k req => exact waits_create ext k req
  | refund k id req =>
    exact Prog.Waits.bind (waits_refund _ _ _ _) fun _ => Prog.Waits.bind Prog.waits_commitAll fun _ => trivial
  | webhook rawBody signature =>
    exact Prog.Waits.bind (waits_handle _ _ _) fun _ => Prog.Waits.bind Prog.waits_commitAll fun _ => trivial
  | expire timeoutMinutes =>
    exact Prog.Waits.bind (waits_expireStaleHolds _) fun _ =>
      Prog.Waits.bind Prog.waits_commitAll fun _ => trivial
  | post type referenceId postings =>
    exact Prog.Waits.bind (waits_post _ _ _) fun _ => Prog.Waits.bind Prog.waits_commitAll fun _ => trivial
  | drain n => exact absurd rfl (hc n)

end ApexPayments.Service
