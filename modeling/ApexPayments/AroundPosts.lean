import ApexPayments.Changes
import ApexPayments.RowLocking.Preservation

/-!
What the services do around their posts: they read and lock rows, write rows outside
the ledger and raise errors of their own. A condition on sessions that all of this
preserves, and that `post` preserves, holds along every stretch of every call.
-/
namespace ApexPayments.Service

open Domain Store Ledger Payments Webhooks Relay RowLocking

section Neutral

/-- The database refuses the new balance of an account. -/
def BalanceRefused (e : Exn) : Prop :=
  e = .dataError "balance" ∨ e = .checkViolation "non_negative_balance"

/-- Keys of rows other than balances. -/
def NotBalance : Key → Prop
  | .accountBalance _ => False
  | _ => True

/-- A condition that the services preserve around their posts. -/
structure Neutral (F : Frame backend) (I : Session backend → Prop) (E : Exn → Prop) : Prop extends
    Prog.Steady F I E NotBalance where
  stage : ∀ L w, OutsideLedger w.row → I L → I (L.stage w)
  post : ∀ type referenceId postings, (post type referenceId postings).Preserves F I E
  raises : ∀ e, ¬ BalanceRefused e → E e

namespace Neutral

variable {α β : Type} {F : Frame backend} {I : Session backend → Prop} {E : Exn → Prop}

theorem raise (h : Neutral F I E) {e : Exn} (he : ¬ BalanceRefused e) :
    (Store.raise e : Program α).Preserves F I E := Prog.Preserves.raise (h.raises e he)

theorem ofExcept (h : Neutral F I E) {x : Except Exn α}
    (hx : ∀ e, x = .error e → ¬ BalanceRefused e) : (Ledger.ofExcept x).Preserves F I E := by
  cases x with
  | ok a => exact Prog.Preserves.pure a
  | error e => exact h.raise (hx e rfl)

theorem add (h : Neutral F I E) {r : Row} (hr : OutsideLedger r) :
    (add r).Preserves F I E := Prog.Steady.stageRow fun L => h.stage L _ hr

theorem modify (h : Neutral F I E) {r : Row} (hr : OutsideLedger r) :
    (modify r).Preserves F I E := Prog.Steady.stageRow fun L => h.stage L _ hr

theorem flush (h : Neutral F I E) : Store.flush.Preserves F I E := h.flushAll

theorem uuid4 (h : Neutral F I E) : Store.uuid4.Preserves F I E := h.drawIdent

theorem now : Store.now.Preserves F I E := Prog.Steady.askFor (B := backend) .now

section Locks

theorem lockPayment (h : Neutral F I E) (id : Uuid) : (lockPayment id).Preserves F I E := by
  refine Prog.Preserves.bind (h.lockRow (k := .payment id) trivial) ?_
  rintro (_ | row)
  · exact Prog.Preserves.pure _
  · cases row <;> exact Prog.Preserves.pure _

theorem lockRecord (h : Neutral F I E) (m k : String) : (lockRecord m k).Preserves F I E := by
  refine Prog.Preserves.bind (h.lockRow (k := .idempotencyRecord m k) trivial) ?_
  rintro (_ | row)
  · exact Prog.Preserves.pure _
  · cases row <;> exact Prog.Preserves.pure _

theorem tryLockOutbox (h : Neutral F I E) (id : Uuid) : (tryLockOutbox id).Preserves F I E := by
  refine Prog.Preserves.bind (h.tryLockRow (k := .outbox id) trivial) ?_
  rintro (_ | row)
  · exact Prog.Preserves.pure _
  · cases row <;> exact Prog.Preserves.pure _

theorem lockMatching (h : Neutral F I E) (matching : Payment → Bool) (ids : List Uuid) :
    (lockMatching matching ids).Preserves F I E := by
  induction ids with
  | nil => exact Prog.Preserves.pure _
  | cons id ids ih =>
    refine Prog.Preserves.bind (h.lockPayment id) fun row => ?_
    refine Prog.Preserves.bind ih fun rest => ?_
    cases row <;> exact Prog.Preserves.pure _

theorem selectForUpdate (h : Neutral F I E) (matching : Payment → Bool) :
    (selectForUpdate matching).Preserves F I E :=
  Prog.Preserves.bind (h.select _) fun _ =>
    Prog.Preserves.bind (Prog.Steady.askFor _) fun _ => h.lockMatching _ _

end Locks

section Idempotency

theorem claimOrReplay (h : Neutral F I E) (ext : Externals) (m k : String) (payload : Payload) :
    (claimOrReplay ext m k payload).Preserves F I E := by
  refine Prog.Preserves.bind (h.select _) ?_
  rintro (_ | record)
  · refine Prog.Preserves.bind (h.add trivial) fun _ => ?_
    exact Prog.Preserves.bind h.flush fun _ => Prog.Preserves.pure _
  · change Prog.Preserves F I E (if record.requestHash ≠ ext.hash payload then _ else _)
    split
    · exact h.raise (by simp [BalanceRefused])
    · cases record.status with
      | inProgress => exact h.raise (by simp [BalanceRefused])
      | completed => exact Prog.Preserves.pure _

theorem complete (h : Neutral F I E) (m k : String) (id : Uuid) (code : ℤ) (body : ResponseBody) :
    (complete m k id code body).Preserves F I E := by
  refine Prog.Preserves.bind (h.select _) ?_
  rintro (_ | record)
  · exact Prog.Preserves.pure _
  · refine Prog.Preserves.bind (h.lockRecord m k) ?_
    rintro (_ | current)
    · exact h.raise (by simp [BalanceRefused])
    · exact Prog.Preserves.bind (h.modify trivial) fun _ => h.flush

end Idempotency

section Saga

theorem addOutbox (h : Neutral F I E) (aggregateType : String) (id : Uuid) (eventType : String)
    (payload : List (String × Json)) :
    (addOutbox aggregateType id eventType payload).Preserves F I E :=
  Prog.Preserves.bind h.uuid4 fun _ => Prog.Preserves.bind now fun _ => h.add trivial

theorem hold (h : Neutral F I E) (p : Payment) : (hold p).Preserves F I E := by
  refine Prog.Preserves.bind (h.add trivial) fun _ => ?_
  refine Prog.Preserves.bind h.flush fun _ => ?_
  refine Prog.Preserves.bind (h.post _ _ _) fun _ => ?_
  refine Prog.Preserves.bind (h.addOutbox _ _ _ _) fun _ => ?_
  exact Prog.Preserves.bind h.flush fun _ => Prog.Preserves.pure _

theorem settle (h : Neutral F I E) (id : Uuid) (r : String) : (settle id r).Preserves F I E := by
  refine Prog.Preserves.bind (h.lockPayment id) ?_
  rintro (_ | p)
  · exact h.raise (by simp [BalanceRefused])
  · refine Prog.Preserves.bind (h.modify trivial) fun _ => ?_
    refine Prog.Preserves.bind (h.post _ _ _) fun _ => ?_
    refine Prog.Preserves.bind (h.addOutbox _ _ _ _) fun _ => ?_
    exact Prog.Preserves.bind h.flush fun _ => Prog.Preserves.pure _

theorem reverse (h : Neutral F I E) (id : Uuid) : (reverse id).Preserves F I E := by
  refine Prog.Preserves.bind (h.lockPayment id) ?_
  rintro (_ | p)
  · exact h.raise (by simp [BalanceRefused])
  · refine Prog.Preserves.bind (h.modify trivial) fun _ => ?_
    refine Prog.Preserves.bind (h.post _ _ _) fun _ => ?_
    refine Prog.Preserves.bind (h.addOutbox _ _ _ _) fun _ => ?_
    exact Prog.Preserves.bind h.flush fun _ => Prog.Preserves.pure _

theorem awaitWebhook (h : Neutral F I E) (id : Uuid) (r : Option String) :
    (awaitWebhook id r).Preserves F I E := by
  refine Prog.Preserves.bind (h.lockPayment id) ?_
  rintro (_ | p)
  · exact h.raise (by simp [BalanceRefused])
  · exact Prog.Preserves.bind (h.modify trivial) fun _ => Prog.Preserves.pure _

theorem applyResult (h : Neutral F I E) (id : Uuid) (result : AuthorizationResult) :
    (applyResult id result).Preserves F I E := by
  unfold Payments.applyResult
  cases result.outcome with
  | captured => exact h.settle _ _
  | declined => exact h.reverse _
  | pending => exact h.awaitWebhook _ _

end Saga

section Calls

theorem resolve (h : Neutral F I E) (k : String) (req : CreatePaymentRequest) (id : Uuid)
    (result : AuthorizationResult) : (resolve k req id result).Preserves F I E := by
  refine Prog.Preserves.bind (h.applyResult id result) fun _ => ?_
  refine Prog.Preserves.bind (h.complete _ _ _ _ _) fun _ => ?_
  exact Prog.Preserves.bind h.commitAll fun _ => Prog.Preserves.pure _

theorem afterHold (h : Neutral F I E) (k : String) (req : CreatePaymentRequest) (p : Payment) :
    (afterHold k req p).Preserves F I E := by
  refine Prog.Preserves.bind (Prog.Steady.callOut _) ?_
  rintro (message | result)
  · exact h.raise (by simp [BalanceRefused])
  · exact h.resolve k req p.id result

theorem create (h : Neutral F I E) (ext : Externals) (k : String) (req : CreatePaymentRequest) :
    (create ext k req).Preserves F I E := by
  refine Prog.Preserves.bind h.uuid4 fun id => ?_
  refine Prog.Preserves.bind (h.claimOrReplay _ _ _ _) ?_
  rintro (_ | ⟨code, body⟩)
  · refine Prog.Preserves.bind now fun _ => ?_
    refine Prog.Preserves.bind (h.hold _) fun _ => ?_
    exact Prog.Preserves.bind h.commitAll fun _ => h.afterHold _ _ _
  · refine Prog.Preserves.bind (h.ofExcept ?_) fun _ => ?_
    · rintro e he
      rcases body with _ | (_ | _) <;> cases he <;> simp [BalanceRefused]
    · exact Prog.Preserves.bind h.commitAll fun _ => Prog.Preserves.pure _

theorem refund (h : Neutral F I E) (ext : Externals) (k : String) (id : Uuid) (amount : ℤ) :
    (refund ext k id amount).Preserves F I E := by
  refine Prog.Preserves.bind (h.claimOrReplay _ _ _ _) ?_
  rintro (_ | ⟨code, body⟩)
  · refine Prog.Preserves.bind (h.lockPayment id) ?_
    rintro (_ | p)
    · exact h.raise (by simp [BalanceRefused])
    · change Prog.Preserves F I E (if _ then _ else if _ then _ else _)
      split
      · exact h.raise (by simp [BalanceRefused])
      · split
        · exact h.raise (by simp [BalanceRefused])
        · refine Prog.Preserves.bind h.uuid4 fun _ => ?_
          refine Prog.Preserves.bind now fun _ => ?_
          refine Prog.Preserves.bind (h.add trivial) fun _ => ?_
          refine Prog.Preserves.bind (h.modify trivial) fun _ => ?_
          refine Prog.Preserves.bind (h.post _ _ _) fun _ => ?_
          refine Prog.Preserves.bind (h.addOutbox _ _ _ _) fun _ => ?_
          exact Prog.Preserves.bind (h.complete _ _ _ _ _) fun _ => Prog.Preserves.pure _
  · refine Prog.Preserves.bind (h.ofExcept ?_) fun _ => Prog.Preserves.pure _
    rintro e he
    rcases body with _ | (_ | _) <;> cases he <;> simp [BalanceRefused]

theorem transition (h : Neutral F I E) (eventType : Json) (r : String) :
    (transition eventType r).Preserves F I E := by
  refine Prog.Preserves.bind (h.selectForUpdate _) ?_
  rintro (_ | ⟨p, _ | ⟨q, ps⟩⟩)
  · exact Prog.Preserves.pure _
  · change Prog.Preserves F I E (if _ then _ else _)
    split
    · refine Prog.Preserves.bind (h.ofExcept ?_) ?_
      · intro e he
        rw [kindOf_error he]
        simp [BalanceRefused]
      · rintro (_ | (_ | _))
        · exact Prog.Preserves.pure _
        · exact Prog.Preserves.bind (h.settle _ _) fun _ => Prog.Preserves.pure _
        · exact Prog.Preserves.bind (h.reverse _) fun _ => Prog.Preserves.pure _
    · exact Prog.Preserves.pure _
  · exact h.raise (by simp [BalanceRefused])

theorem applyEvent (h : Neutral F I E) (rawBody : String) (event : Webhooks.Event) :
    (applyEvent rawBody event).Preserves F I E := by
  refine Prog.Preserves.bind (h.ofExcept ?_) fun eventId => ?_
  · intro e he
    rcases eventKey_error he with rfl | ⟨c, rfl⟩ <;> simp [BalanceRefused]
  refine Prog.Preserves.bind (h.select _) ?_
  rintro (_ | seen)
  · refine Prog.Preserves.bind (h.add trivial) fun _ => ?_
    refine Prog.Preserves.bind h.flush fun _ => ?_
    change Prog.Preserves F I E (if _ then _ else _)
    split
    · refine Prog.Preserves.bind (h.ofExcept ?_) fun r => h.transition _ r
      intro e he
      rw [textParameter_error he]
      simp [BalanceRefused]
    · exact Prog.Preserves.pure _
  · exact Prog.Preserves.pure _

theorem handle (h : Neutral F I E) (ext : Externals) (rawBody signature : String) :
    (handle ext rawBody signature).Preserves F I E := by
  unfold Webhooks.handle
  split
  · exact h.raise (by simp [BalanceRefused])
  · refine Prog.Preserves.bind (h.ofExcept ?_) fun isValid => ?_
    · intro e he
      rw [signature_error he]
      simp [BalanceRefused]
    · cases isValid with
      | false => exact h.raise (by simp [BalanceRefused])
      | true =>
        simp only [if_true]
        split
        · exact h.raise (by simp [BalanceRefused])
        · refine Prog.Preserves.bind h.uuid4 fun _ => ?_
          refine Prog.Preserves.bind (h.ofExcept ?_) fun _ => h.applyEvent _ _
          intro e he
          rcases pythonic_of_parse e he with rfl | ⟨k, rfl⟩ | ⟨n, rfl⟩ <;> simp [BalanceRefused]

theorem reverseAll (h : Neutral F I E) (ps : List Payment) (count : ℕ) :
    (reverseAll ps count).Preserves F I E := by
  induction ps generalizing count with
  | nil => exact Prog.Preserves.pure _
  | cons p ps ih => exact Prog.Preserves.bind (h.reverse p.id) fun _ => ih _

theorem expireStaleHolds (h : Neutral F I E) (timeoutMinutes : ℤ) :
    (expireStaleHolds timeoutMinutes).Preserves F I E :=
  Prog.Preserves.bind now fun _ =>
    Prog.Preserves.bind (h.selectForUpdate _) fun ps => h.reverseAll ps 0

theorem lockUnpublished (h : Neutral F I E) (limit : ℕ) (ids : List Uuid) :
    (lockUnpublished limit ids).Preserves F I E := by
  induction ids generalizing limit with
  | nil =>
    cases limit <;> exact Prog.Preserves.pure _
  | cons id ids ih =>
    cases limit with
    | zero => exact Prog.Preserves.pure _
    | succ limit =>
      refine Prog.Preserves.bind (h.tryLockOutbox id) ?_
      rintro (_ | ev)
      · exact ih _
      · change Prog.Preserves F I E (if _ then _ else _)
        split
        · exact Prog.Preserves.bind (ih _) fun _ => Prog.Preserves.pure _
        · exact ih _

theorem stageRows (h : Neutral F I E) {ws : List (Write backend)}
    (hws : ∀ w ∈ ws, OutsideLedger w.row) : (Prog.stageRows ws).Preserves F I E := by
  induction ws with
  | nil => exact Prog.Preserves.pure ()
  | cons w ws ih =>
    refine Prog.Preserves.bind (Prog.Steady.stageRow fun L => h.stage L w ?_)
      fun _ => ih fun v hv => hws v (List.mem_cons_of_mem _ hv)
    exact hws w (List.mem_cons_self ..)

theorem drainBatch (h : Neutral F I E) (batchSize : ℕ) :
    (drainBatch batchSize).Preserves F I E := by
  have hselect : (selectUnpublished batchSize).Preserves F I E :=
    Prog.Preserves.bind (h.select _) fun _ =>
      Prog.Preserves.bind (Prog.Steady.askFor _) fun _ => h.lockUnpublished _ _
  refine Prog.Preserves.bind hselect ?_
  rintro (_ | ⟨ev, evs⟩)
  · exact Prog.Preserves.bind h.commitAll fun _ => Prog.Preserves.pure _
  · refine Prog.Preserves.bind now fun _ => ?_
    refine Prog.Preserves.bind (h.stageRows ?_) fun _ => ?_
    · intro w hw
      obtain ⟨e, _, rfl⟩ := List.mem_map.mp hw
      trivial
    · exact Prog.Preserves.bind h.commitAll fun _ => Prog.Preserves.pure _

/-- Every call preserves the condition from its start to its first boundary. -/
theorem program (h : Neutral F I E) (ext : Externals) (c : Call) :
    (program ext c).Preserves F I E := by
  cases c with
  | create k req => exact h.create ext k req
  | refund k id req =>
    refine Prog.Preserves.bind (h.refund _ _ _ _) fun _ => ?_
    exact Prog.Preserves.bind h.commitAll fun _ => Prog.Preserves.pure _
  | webhook rawBody signature =>
    refine Prog.Preserves.bind (h.handle _ _ _) fun _ => ?_
    exact Prog.Preserves.bind h.commitAll fun _ => Prog.Preserves.pure _
  | expire timeoutMinutes =>
    refine Prog.Preserves.bind (h.expireStaleHolds _) fun _ => ?_
    exact Prog.Preserves.bind h.commitAll fun _ => Prog.Preserves.pure _
  | post type referenceId postings =>
    refine Prog.Preserves.bind (h.post _ _ _) fun _ => ?_
    exact Prog.Preserves.bind h.commitAll fun _ => Prog.Preserves.pure _
  | drain batchSize =>
    exact Prog.Preserves.bind (h.drainBatch _) fun _ => Prog.Preserves.pure _

end Calls

/-- At every stage a call preserves the condition, unless it has already raised. -/
theorem of_stage (h : Neutral F I E) {ext : Externals} {c : Call} {base : Program Reply}
    {trace : List (RowLocking.Event backend)} (hs : Stage ext c base trace)
    (hbase : ∀ e, base ≠ .raise e) : base.Preserves F I E := by
  cases hs with
  | start c => exact h.program ext c
  | held k req p ws hws => exact h.afterHold k req p
  | answered k req p ws result hws => exact h.resolve k req p.id result
  | failed c e => exact absurd rfl (hbase e)
  | stranded k req p ws e hws => exact absurd rfl (hbase e)
  | strandedLate k req p ws ans e hws => exact absurd rfl (hbase e)
  | returned c reply ws hc => exact Prog.Preserves.pure _
  | replayed k req code resp => exact Prog.Preserves.pure _
  | resolved k req p ws ws₂ ans resp hws hws₂ => exact Prog.Preserves.pure _

end Neutral

/-- The errors that calls have raised come from transactions that started in the
condition. -/
theorem raised_of_neutral {ext : Externals} {skips : Key → Prop} {E : Exn → Prop}
    {allowed : Moment → Atomic.Act backend Call → Prop} {a₀ a : Moment}
    (I : Frame backend → Session backend → Prop)
    (hneutral : ∀ a h, Atomic.Reach (program ext) allowed Older skips a₀ a →
      Neutral (a.frame Older skips h) (I (a.frame Older skips h)) E ∧
        I (a.frame Older skips h) (.fresh backend))
    (howned : Owned ext a₀) (h₀ : ∀ pid h e, a₀.heads pid = some h → h.base = .raise e → E e)
    (hreach : Atomic.Reach (program ext) allowed Older skips a₀ a) :
    ∀ pid h e, a.heads pid = some h → h.base = .raise e → E e := by
  have hput : ∀ (a : Moment) (pid : ℕ) (h' : Head), (∀ e, h'.base = .raise e → E e) →
      (∀ pid h e, a.heads pid = some h → h.base = .raise e → E e) →
      ∀ pid₂ h₂ e, (a.put pid h').heads pid₂ = some h₂ → h₂.base = .raise e → E e := by
    intro a pid h' hE hall pid₂ h₂ e hp₂ hb
    rcases Atomic.heads_put hp₂ with ⟨_, rfl⟩ | ⟨_, hp₂⟩
    · exact hE e hb
    · exact hall pid₂ h₂ e hp₂ hb
  have hraised : ∀ {F : Frame backend} {p : Program Reply}, p.Preserves F (I F) E →
      I F (.fresh backend) → ∀ e, p = .raise e → E e := by
    rintro F p hp hI e rfl
    exact hp _ hI (.raised e (.fresh backend)) rfl
  induction hreach with
  | refl => exact h₀
  | @tail a₁ a₂ hreach hstep ih =>
    have howned₁ := owned_of_reach howned hreach
    obtain ⟨act, hs, _⟩ := hstep
    cases hs with
    | start pid c hp =>
      obtain ⟨hn, hI⟩ := hneutral a₁ ⟨c, a₁.db, program ext c, []⟩ hreach
      exact hput _ pid _ (hraised (hn.program ext c) hI) ih
    | call pid h q next ans L hp ho hr =>
      obtain ⟨hn, hI⟩ := hneutral a₁ h hreach
      refine hput _ pid _ ?_ ih
      obtain ⟨k, req, p, ws, hc, hbase, ht, hws⟩ := calling_of_stage (howned₁.stage pid h hp) hr
      rw [hbase] at hr
      cases hr
      rcases ans with message | result
      · intro e hb
        cases hb
        exact hn.raises _ (by simp [BalanceRefused])
      · exact hraised (hn.resolve k req p.id result) hI
    | commit pid h next L hp ho hr =>
      refine hput _ pid _ ?_ ih
      intro e hb
      change next = .raise e at hb
      rcases next_of_committed (committed_of_stage (howned₁.stage pid h hp) hr) with
        ⟨v, rfl⟩ | ⟨k, req, p, rfl⟩ <;> contradiction
    | fail pid h e hp ho hr hv he =>
      obtain ⟨hn, hI⟩ := hneutral a₁ h hreach
      refine hput _ pid _ ?_ ih
      intro e' hb
      cases hb
      rcases hr with rfl | ⟨L, hr⟩
      · exact hn.raises _ (by simp [BalanceRefused])
      · exact hn.of_stage (howned₁.stage pid h hp) he _ hI _ hr

end Neutral

end ApexPayments.Service
