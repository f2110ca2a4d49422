import ApexPayments.CreateTransactions
import ApexPayments.RefundTransaction
import ApexPayments.RelayTransaction
import ApexPayments.WebhookTransaction

/-!
The stages of a call between its transactions, and every way in which the next
transaction of a call can commit.
-/
namespace ApexPayments.Service

open Domain Store Ledger Payments Webhooks Relay RowLocking

variable {F : Frame backend} {ext : Externals}

section Stages

def Call.isCreate : Call → Prop
  | create _ _ => True
  | _ => False

/-- Where a call can stand, by its program and by what it has done. -/
inductive Stage (ext : Externals) : Call → Program Reply → List (RowLocking.Event backend) → Prop
  | start (c : Call) : Stage ext c (program ext c) []
  | failed (c : Call) (e : Exn) : Stage ext c (.raise e) []
  | returned (c : Call) (reply : Reply) (ws : List (Write backend)) (hc : ¬ c.isCreate) :
      Stage ext c (pure reply) [.committed ws]
  | replayed (k : String) (req : CreatePaymentRequest) (code : ℤ) (resp : PaymentResponse) :
      Stage ext (.create k req) (pure (.payment code resp)) [.committed []]
  | held (k : String) (req : CreatePaymentRequest) (p : Payment) (ws : List (Write backend))
      (hws : insertedPayments ws = [p]) :
      Stage ext (.create k req) (afterHold k req p) [.committed ws]
  | answered (k : String) (req : CreatePaymentRequest) (p : Payment) (ws : List (Write backend))
      (result : AuthorizationResult) (hws : insertedPayments ws = [p]) :
      Stage ext (.create k req) (resolve k req p.id result)
        [.committed ws, .answered (.authorize p) (.ok result)]
  | stranded (k : String) (req : CreatePaymentRequest) (p : Payment) (ws : List (Write backend))
      (e : Exn) (hws : insertedPayments ws = [p]) : Stage ext (.create k req) (.raise e) [.committed ws]
  | strandedLate (k : String) (req : CreatePaymentRequest) (p : Payment)
      (ws : List (Write backend)) (ans : Answer (.authorize p)) (e : Exn)
      (hws : insertedPayments ws = [p]) :
      Stage ext (.create k req) (.raise e) [.committed ws, .answered (.authorize p) ans]
  | resolved (k : String) (req : CreatePaymentRequest) (p : Payment) (ws ws₂ : List (Write backend))
      (ans : Answer (.authorize p)) (resp : PaymentResponse) (hws : insertedPayments ws = [p])
      (hws₂ : insertedPayments ws₂ = []) :
      Stage ext (.create k req) (pure (.payment 201 resp))
        [.committed ws, .answered (.authorize p) ans, .committed ws₂]

/-- The payment that a call of `create` has opened. -/
def openedBy (h : Head) : Option Payment :=
  match h.call, h.trace with
  | .create _ _, .committed ws :: _ => (insertedPayments ws).head?
  | _, _ => none

/-- The payment that a call of `create` has opened and not resolved. -/
def owned (h : Head) : Option Payment :=
  match h.call, h.trace with
  | .create _ _, [.committed ws] => (insertedPayments ws).head?
  | .create _ _, [.committed ws, .answered _ _] => (insertedPayments ws).head?
  | _, _ => none

end Stages

section Commits

/-- A committed transaction of a call, by what it did. -/
inductive Committed (ext : Externals) (F : Frame backend) (h : Head) (next : Program Reply)
    (L : Session backend) : Prop
  | replayed (k : String) (req : CreatePaymentRequest) (r : IdempotencyRecord)
      (resp : PaymentResponse) (hc : h.call = .create k req) (ht : h.trace = [])
      (hr : Replays F ext k req r resp next L)
  | opened (k : String) (req : CreatePaymentRequest) (p : Payment) (txn : LedgerTransaction)
      (event : Outbox) (hc : h.call = .create k req) (ht : h.trace = [])
      (ho : Opens F ext k req p txn event next L)
  | resolved (k : String) (req : CreatePaymentRequest) (p p' : Payment)
      (ws : List (Write backend)) (result : AuthorizationResult) (hc : h.call = .create k req)
      (hws : insertedPayments ws = [p])
      (ht : h.trace = [.committed ws, .answered (.authorize p) (.ok result)])
      (hr : Resolves F k req p.id result p' next L)
  | refundReplayed (k : String) (id : Uuid) (req : RefundRequest)
      (hc : h.call = .refund k id req) (ht : h.trace = []) (hr : RefundReplays next L)
  | refunded (k : String) (id : Uuid) (req : RefundRequest) (p : Payment) (r : Refund)
      (txn : LedgerTransaction) (event : Outbox) (hc : h.call = .refund k id req)
      (ht : h.trace = []) (hr : Refunds F ext k id req.amount p r txn event next L)
  | webhook (rawBody signature : String) (event : Webhooks.Event) (eventId : String) (i : Uuid)
      (hc : h.call = .webhook rawBody signature) (ht : h.trace = [])
      (hw : Webhooked F ext rawBody event eventId i next L) (hp : L.pending = [])
  | expired (timeoutMinutes : ℤ) (ps : List Payment) (hc : h.call = .expire timeoutMinutes)
      (ht : h.trace = []) (he : Expires F ps next L)
  | posted (type : TransactionType) (referenceId : Uuid) (postings : List Posting)
      (txn : LedgerTransaction) (hc : h.call = .post type referenceId postings)
      (ht : h.trace = []) (hp : PostCommits F type referenceId postings txn next L)
  | drained (batchSize : ℕ) (evs : List Outbox) (t : Time) (hc : h.call = .drain batchSize)
      (ht : h.trace = []) (hd : Drains F batchSize evs t next L)

/-- Why the next transaction of a call can fail. -/
inductive Failing (ext : Externals) (F : Frame backend) (h : Head) (e : Exn) : Prop
  | create (k : String) (req : CreatePaymentRequest) (hc : h.call = .create k req)
      (ht : h.trace = []) (hf : CreateFails F ext k req e)
  | resolve (k : String) (req : CreatePaymentRequest) (p : Payment) (ws : List (Write backend))
      (result : AuthorizationResult) (hc : h.call = .create k req)
      (hws : insertedPayments ws = [p])
      (ht : h.trace = [.committed ws, .answered (.authorize p) (.ok result)])
      (hf : ResolveFails F F.hi p.id e)
  | refund (k : String) (id : Uuid) (req : RefundRequest) (hc : h.call = .refund k id req)
      (hf : Untriggered F e)
  | webhook (rawBody signature : String) (hc : h.call = .webhook rawBody signature)
      (hf : DeliveryFails F F.hi e)
  | expire (timeoutMinutes : ℤ) (hc : h.call = .expire timeoutMinutes) (hf : ExpiryFails F e)
  | post (type : TransactionType) (referenceId : Uuid) (postings : List Posting)
      (hc : h.call = .post type referenceId postings) (hf : Untriggered F e)

theorem commits_mono {E E' : Exn → Prop} {Q Q' : Program Reply → Session backend → Prop}
    {base : Program Reply} (h : base.Ensures F (.fresh backend) (Stop.Commits E Q))
    (hE : ∀ e, E e → E' e) (hQ : ∀ next L, Q next L → Q' next L) :
    base.Ensures F (.fresh backend) (Stop.Commits E' Q') := by
  refine h.mono ?_
  rintro (_ | _ | _ | _) ho
  · exact ho
  · exact hE _ ho
  · exact hQ _ _ ho
  · exact ho

theorem start_ensures (h : Head) (ht : h.trace = []) :
    (program ext h.call).Ensures F (.fresh backend)
      (Stop.Commits (Failing ext F h) (Committed ext F h)) := by
  cases hc : h.call with
  | create k req =>
    refine commits_mono (create_ensures ext k req) (fun e he => .create k req hc ht he) ?_
    rintro next L (⟨r, resp, hr⟩ | ⟨p, txn, event, ho⟩)
    · exact .replayed k req r resp hc ht hr
    · exact .opened k req p txn event hc ht ho
  | refund k id req =>
    refine commits_mono (refund_ensures ext k id req) (fun e he => .refund k id req hc he) ?_
    rintro next L (hr | ⟨p, r, txn, event, hr⟩)
    · exact .refundReplayed k id req hc ht hr
    · exact .refunded k id req p r txn event hc ht hr
  | webhook rawBody signature =>
    refine commits_mono (webhook_ensures ext rawBody signature)
      (fun e he => .webhook rawBody signature hc he) ?_
    rintro next L ⟨event, eventId, i, hw, hp⟩
    exact .webhook rawBody signature event eventId i hc ht hw hp
  | expire timeoutMinutes =>
    refine commits_mono (expire_ensures ext timeoutMinutes)
      (fun e he => .expire timeoutMinutes hc he) ?_
    rintro next L ⟨ps, he⟩
    exact .expired timeoutMinutes ps hc ht he
  | post type referenceId postings =>
    refine commits_mono (directPost_ensures ext type referenceId postings)
      (fun e he => .post type referenceId postings hc he) ?_
    rintro next L ⟨txn, hp⟩
    exact .posted type referenceId postings txn hc ht hp
  | drain batchSize =>
    refine commits_mono (drain_ensures ext batchSize) (fun _ he => he.elim) ?_
    rintro next L ⟨evs, t, hd⟩
    exact .drained batchSize evs t hc ht hd

theorem answered_ensures (h : Head) {k : String} {req : CreatePaymentRequest} {p : Payment}
    {ws : List (Write backend)} {result : AuthorizationResult} (hc : h.call = .create k req)
    (hws : insertedPayments ws = [p])
    (ht : h.trace = [.committed ws, .answered (.authorize p) (.ok result)]) :
    (resolve k req p.id result).Ensures F (.fresh backend)
      (Stop.Commits (Failing ext F h) (Committed ext F h)) := by
  refine commits_mono (resolve_ensures k req p.id result)
    (fun e he => .resolve k req p ws result hc hws ht he) ?_
  rintro next L ⟨p', hr⟩
  exact .resolved k req p p' ws result hc hws ht hr

/-- How a stretch of a call can stop, by its stage. -/
theorem stops_of_stage {h : Head} (hs : Stage ext h.call h.base h.trace) {o : Stop backend Reply}
    (hr : h.base.Runs F (.fresh backend) o) :
    Stop.Commits (Failing ext F h) (Committed ext F h) o ∨
      (∃ v, h.base = .pure v) ∨ (∃ e, h.base = .raise e) ∨
      ∃ k req p ws, h.call = .create k req ∧ h.base = afterHold k req p ∧
        h.trace = [.committed ws] ∧ insertedPayments ws = [p] := by
  generalize hc : h.call = c at hs
  generalize hb : h.base = base at hs hr ⊢
  generalize ht : h.trace = trace at hs
  cases hs with
  | start c =>
    rw [← hc] at hr
    exact Or.inl (start_ensures h ht o hr)
  | answered k req p ws result hws => exact Or.inl (answered_ensures h hc hws ht o hr)
  | held k req p ws hws => exact Or.inr (Or.inr (Or.inr ⟨k, req, p, ws, rfl, rfl, rfl, hws⟩))
  | failed c e => exact Or.inr (Or.inr (Or.inl ⟨e, rfl⟩))
  | stranded k req p ws e hws => exact Or.inr (Or.inr (Or.inl ⟨e, rfl⟩))
  | strandedLate k req p ws ans e hws => exact Or.inr (Or.inr (Or.inl ⟨e, rfl⟩))
  | returned c reply ws hc => exact Or.inr (Or.inl ⟨reply, rfl⟩)
  | replayed k req code resp => exact Or.inr (Or.inl ⟨_, rfl⟩)
  | resolved k req p ws ws₂ ans resp hws hws₂ => exact Or.inr (Or.inl ⟨_, rfl⟩)

theorem committed_of_stage {h : Head} (hs : Stage ext h.call h.base h.trace)
    {next : Program Reply} {L : Session backend}
    (hr : h.base.Runs F (.fresh backend) (.committed next L)) : Committed ext F h next L := by
  rcases stops_of_stage hs hr with h' | ⟨v, hb⟩ | ⟨e, hb⟩ | ⟨k, req, p, ws, _, hb, _, _⟩
  · exact h'
  all_goals
    rw [hb] at hr
    contradiction

theorem failing_of_stage {h : Head} (hs : Stage ext h.call h.base h.trace)
    (he : ∀ e, h.base ≠ .raise e) {e : Exn} {L : Session backend}
    (hr : h.base.Runs F (.fresh backend) (.raised e L)) : Failing ext F h e := by
  rcases stops_of_stage hs hr with h' | ⟨v, hb⟩ | ⟨e', hb⟩ | ⟨k, req, p, ws, _, hb, _, _⟩
  · exact h'
  · rw [hb] at hr
    contradiction
  · exact absurd hb (he e')
  · rw [hb] at hr
    contradiction

/-- A call that runs into the provider has just committed its hold. -/
theorem calling_of_stage {h : Head} (hs : Stage ext h.call h.base h.trace) {q : Query}
    {next : Answer q → Program Reply} {L : Session backend}
    (hr : h.base.Runs F (.fresh backend) (.calling q next L)) :
    ∃ k req p ws, h.call = .create k req ∧ h.base = afterHold k req p ∧
      h.trace = [.committed ws] ∧ insertedPayments ws = [p] := by
  rcases stops_of_stage hs hr with h' | ⟨v, hb⟩ | ⟨e, hb⟩ | h'
  · exact h'.elim
  · rw [hb] at hr
    contradiction
  · rw [hb] at hr
    contradiction
  · exact h'

/-- The stage after the provider has answered. -/
theorem stage_after_call {k : String} {req : CreatePaymentRequest} {p : Payment}
    {ws : List (Write backend)} (hws : insertedPayments ws = [p]) {q : Query}
    {next : Answer q → Program Reply} {L : Session backend} (ans : Answer q)
    (hr : (afterHold k req p).Runs F (.fresh backend) (.calling q next L)) :
    Stage ext (.create k req) (next ans) [.committed ws, .answered q ans] := by
  cases hr
  cases ans with
  | error message => exact .strandedLate k req p ws _ _ hws
  | ok result => exact .answered k req p ws result hws

/-- The stage after a commit. -/
theorem stage_after_commit {h : Head} {next : Program Reply} {L : Session backend}
    (hc : Committed ext F h next L) :
    Stage ext h.call next (h.trace ++ [.committed L.flushed]) := by
  cases hc with
  | replayed k req r resp hc ht hr =>
    rw [hc, ht, hr.next, hr.flushed]
    exact .replayed k req _ resp
  | opened k req p txn event hc ht ho =>
    rw [hc, ht, ho.next]
    exact .held k req p _ ho.opened
  | resolved k req p p' ws result hc hws ht hr =>
    rw [hc, ht, hr.next]
    exact .resolved k req p ws _ _ _ hws hr.opened
  | refundReplayed k id req hc ht hr =>
    obtain ⟨_, code, resp, rfl⟩ := hr
    rw [hc, ht]
    exact .returned _ _ _ (by simp [Call.isCreate])
  | refunded k id req p r txn event hc ht hr =>
    rw [hc, ht, hr.next]
    exact .returned _ _ _ (by simp [Call.isCreate])
  | webhook rawBody signature event eventId i hc ht hw hp =>
    rw [hc, ht, hw.next]
    exact .returned _ _ _ (by simp [Call.isCreate])
  | expired timeoutMinutes ps hc ht he =>
    rw [hc, ht, he.next]
    exact .returned _ _ _ (by simp [Call.isCreate])
  | posted type referenceId postings txn hc ht hp =>
    rw [hc, ht, hp.next]
    exact .returned _ _ _ (by simp [Call.isCreate])
  | drained batchSize evs t hc ht hd =>
    rw [hc, ht, hd.next]
    exact .returned _ _ _ (by simp [Call.isCreate])

/-- The stage after a failure. -/
theorem stage_after_failure {h : Head} (hs : Stage ext h.call h.base h.trace)
    (hv : ∀ v, h.base ≠ .pure v) (he : ∀ e, h.base ≠ .raise e) (e : Exn) :
    Stage ext h.call (.raise e) h.trace := by
  generalize hc : h.call = c at hs ⊢
  generalize hb : h.base = base at hs hv he
  generalize ht : h.trace = trace at hs ⊢
  cases hs with
  | start c => exact .failed c e
  | held k req p ws hws => exact .stranded k req p ws e hws
  | answered k req p ws result hws => exact .strandedLate k req p ws _ e hws
  | failed c e' => exact absurd rfl (he e')
  | stranded k req p ws e' hws => exact absurd rfl (he e')
  | strandedLate k req p ws ans e' hws => exact absurd rfl (he e')
  | returned c reply ws hc => exact absurd rfl (hv reply)
  | replayed k req code resp => exact absurd rfl (hv _)
  | resolved k req p ws ws₂ ans resp hws hws₂ => exact absurd rfl (hv _)

end Commits

end ApexPayments.Service
