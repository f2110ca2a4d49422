import ApexPayments.Ledger

/-!
The services that move payments: the idempotency claim and its completion, the
hold, settle and reverse steps of the saga, the two transactions of
`PaymentService.create`, refunds and the expiry of stale holds.
-/
namespace ApexPayments.Payments

open Domain Store Ledger RowLocking

/-- `PSP_SUSPENSE_ACCOUNT_ID`, the account of money in flight. -/
def suspenseAccountId : Uuid := 1

section Idempotency

/-- `record.response_code or 200`. -/
def codeOr200 : Option ℤ → ℤ
  | none => 200
  | some code => if code = 0 then 200 else code

/-- The Redis lock is left out: its result is discarded. -/
def claimOrReplay (ext : Externals) (merchantId idemKey : String) (payload : Payload) :
    Program (Option (ℤ × Option ResponseBody)) := do
  let reqHash := ext.hash payload
  let record ← Prog.select (B := backend) fun s => s.idempotencyKeys.find? (merchantId, idemKey)
  match record with
  | none => do
      add (.idempotencyRecord ⟨merchantId, idemKey, reqHash, .inProgress, none, none, none⟩)
      flush
      pure none
  | some record =>
      if record.requestHash ≠ reqHash then raise (.idempotencyMismatch idemKey)
      else
        match record.status with
        | .inProgress => raise (.idempotencyConflict idemKey)
        | .completed => pure (some (codeOr200 record.responseCode, record.responseBody))

def complete (merchantId idemKey : String) (resourceId : Uuid) (responseCode : ℤ)
    (responseBody : ResponseBody) : Program Unit := do
  let record ← Prog.select (B := backend) fun s => s.idempotencyKeys.find? (merchantId, idemKey)
  match record with
  | none => pure ()
  | some _ => do
      match ← lockRecord merchantId idemKey with
      | none => raise .staleData
      | some current => do
          modify (.idempotencyRecord { current with
            status := .completed
            resourceId := some resourceId
            responseCode := some responseCode
            responseBody := some responseBody })
          flush

end Idempotency

section Saga

def addOutbox (aggregateType : String) (aggregateId : Uuid) (eventType : String)
    (payload : List (String × Json)) : Program Unit := do
  let id ← uuid4
  let createdAt ← now
  add (.outbox ⟨id, aggregateType, aggregateId, eventType, payload, createdAt, none⟩)

def eventPayload (payment : Payment) : List (String × Json) :=
  [("paymentId", .str payment.id.str), ("merchantId", .str payment.merchantId),
    ("amount", .int payment.amount)]

/-- Phase 1: reserve the payer's funds in the suspense account. -/
def hold (payment : Payment) : Program Payment := do
  let payment := { payment with status := .processing }
  add (.payment payment)
  flush
  let _ ← post .payment payment.id
    [⟨payment.payerAccount, .debit, payment.amount⟩,
     ⟨suspenseAccountId, .credit, payment.amount⟩]
  addOutbox "payment" payment.id "payment.processing" (eventPayload payment ++
    [("currency", .str payment.currency), ("status", .str payment.status.value)])
  flush
  pure payment

/-- Phase 3a: pay the held funds out to the payee. -/
def settle (paymentId : Uuid) (pspReference : String) : Program Payment := do
  match ← lockPayment paymentId with
  | none => raise (.paymentNotFound paymentId)
  | some payment => do
      let payment := { payment with
        status := .succeeded
        pspReference := some pspReference
        version := payment.version + 1 }
      modify (.payment payment)
      let _ ← post .payment payment.id
        [⟨suspenseAccountId, .debit, payment.amount⟩,
         ⟨payment.payeeAccount, .credit, payment.amount⟩]
      addOutbox "payment" payment.id "payment.succeeded" (eventPayload payment ++
        [("currency", .str payment.currency), ("status", .str payment.status.value),
         ("pspReference", .str pspReference)])
      flush
      pure payment

/-- Phase 3b: return the held funds to the payer. -/
def reverse (paymentId : Uuid) : Program Payment := do
  match ← lockPayment paymentId with
  | none => raise (.paymentNotFound paymentId)
  | some payment => do
      let payment := { payment with status := .failed, version := payment.version + 1 }
      modify (.payment payment)
      let _ ← post .reversal payment.id
        [⟨suspenseAccountId, .debit, payment.amount⟩,
         ⟨payment.payerAccount, .credit, payment.amount⟩]
      addOutbox "payment" payment.id "payment.failed"
        (eventPayload payment ++ [("status", .str payment.status.value)])
      flush
      pure payment

end Saga

section Create

def toResponse (payment : Payment) : PaymentResponse where
  id := payment.id
  merchantId := payment.merchantId
  payerAccountId := payment.payerAccount
  payeeAccountId := payment.payeeAccount
  amount := payment.amount
  currency := payment.currency
  status := payment.status
  pspReference := payment.pspReference
  refundedAmount := payment.refundedAmount
  createdAt := payment.createdAt

/-- `PaymentResponse(**body)`. -/
def paymentResponse : Option ResponseBody → Except Exn PaymentResponse
  | some (.payment r) => .ok r
  | _ => .error .validationError

/-- `RefundResponse(**body)`. -/
def refundResponse : Option ResponseBody → Except Exn RefundResponse
  | some (.refund r) => .ok r
  | _ => .error .validationError

/-- What a call returns to its caller. -/
inductive Reply where
  | payment (code : ℤ) (body : PaymentResponse)
  | refund (code : ℤ) (body : RefundResponse)
  | handled
  | expired (count : ℕ)
  | posted (txn : LedgerTransaction)
  | drained (count : ℕ)
  deriving DecidableEq

/-- The state of a pending authorization waits for a webhook. -/
def awaitWebhook (paymentId : Uuid) (pspReference : Option String) : Program Payment := do
  match ← lockPayment paymentId with
  | none => raise .noResultFound
  | some payment => do
      let payment := { payment with status := .authorized, pspReference := pspReference }
      modify (.payment payment)
      pure payment

/-- The step of the saga that the provider's answer selects. -/
def applyResult (paymentId : Uuid) (authResult : AuthorizationResult) : Program Payment :=
  match authResult.outcome with
  | .captured => settle paymentId (authResult.pspReference.getD "")
  | .declined => reverse paymentId
  | .pending => awaitWebhook paymentId authResult.pspReference

/-- Transaction 2 of `create`: settle, reverse or await, and complete the key. -/
def resolve (idempotencyKey : String) (request : CreatePaymentRequest) (paymentId : Uuid)
    (authResult : AuthorizationResult) : Program Reply := do
  let payment ← applyResult paymentId authResult
  let response := toResponse payment
  complete request.merchantId idempotencyKey payment.id 201 (.payment response)
  Prog.commitAll
  pure (.payment 201 response)

/-- What `create` still has to do once its hold has committed. -/
def afterHold (idempotencyKey : String) (request : CreatePaymentRequest) (payment : Payment) :
    Program Reply := do
  match ← Prog.callOut (B := backend) (.authorize payment) with
  | .error message => raise (.runtimeError message)
  | .ok authResult => resolve idempotencyKey request payment.id authResult

def newPayment (id : Uuid) (request : CreatePaymentRequest) (createdAt : Time) : Payment where
  id := id
  merchantId := request.merchantId
  payerAccount := request.payerAccountId
  payeeAccount := request.payeeAccountId
  amount := request.amount
  currency := request.currency
  status := .created
  pspReference := none
  refundedAmount := 0
  version := 0
  createdAt := createdAt

def create (ext : Externals) (idempotencyKey : String) (request : CreatePaymentRequest) :
    Program Reply := do
  let paymentId ← uuid4
  match ← claimOrReplay ext request.merchantId idempotencyKey (.create request) with
  | some (code, body) => do
      let response ← ofExcept (paymentResponse body)
      Prog.commitAll
      pure (.payment code response)
  | none => do
      let createdAt ← now
      let payment ← hold (newPayment paymentId request createdAt)
      Prog.commitAll
      afterHold idempotencyKey request payment

end Create

section Refund

def refund (ext : Externals) (idempotencyKey : String) (paymentId : Uuid) (amount : ℤ) :
    Program (ℤ × RefundResponse) := do
  match ← claimOrReplay ext "merchant_refund" idempotencyKey (.refund paymentId amount) with
  | some (code, body) => do
      let response ← ofExcept (refundResponse body)
      pure (code, response)
  | none => do
      match ← lockPayment paymentId with
      | none => raise (.paymentNotFound paymentId)
      | some payment =>
          if payment.status ≠ .succeeded ∧ payment.status ≠ .refundPending then
            raise (.refundNotAllowed
              ("Cannot refund payment with status: " ++ payment.status.value))
          else if payment.refundedAmount + amount > payment.amount then
            raise (.refundNotAllowed ("Refund amount " ++ toString amount ++
              " exceeds capturable balance (" ++
              toString (payment.amount - payment.refundedAmount) ++ ")"))
          else do
            let refundId ← uuid4
            let createdAt ← now
            let record : Refund := ⟨refundId, payment.id, amount, .succeeded, createdAt⟩
            add (.refund record)
            let refundedAmount := payment.refundedAmount + amount
            modify (.payment { payment with
              refundedAmount := refundedAmount
              status := if refundedAmount = payment.amount then .refunded else payment.status
              version := payment.version + 1 })
            let _ ← post .refund refundId
              [⟨payment.payeeAccount, .debit, amount⟩, ⟨payment.payerAccount, .credit, amount⟩]
            addOutbox "refund" refundId "refund.completed"
              [("refundId", .str refundId.str), ("paymentId", .str payment.id.str),
               ("amount", .int amount), ("status", .str record.status.value)]
            let response : RefundResponse :=
              ⟨refundId, payment.id, amount, record.status, record.createdAt⟩
            complete "merchant_refund" idempotencyKey refundId 201 (.refund response)
            pure (201, response)

end Refund

section Reconciliation

def reverseAll : List Payment → ℕ → Program ℕ
  | [], count => pure count
  | p :: ps, count => do
      let _ ← reverse p.id
      reverseAll ps (count + 1)

/-- One minute in the unit of `Time`. -/
def minute : Time := 60000000

def expireStaleHolds (timeoutMinutes : ℤ) : Program ℕ := do
  let t ← now
  let cutoff := t - timeoutMinutes * minute
  let stale ← selectForUpdate fun p => p.status = .authorized ∧ p.createdAt < cutoff
  reverseAll stale 0

end Reconciliation

end ApexPayments.Payments
