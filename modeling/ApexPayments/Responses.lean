import ApexPayments.RequestHash
import ApexPayments.Suspense

/-!
What the endpoints answer over HTTP. A domain exception is answered with its status and its
message, also when it ends a call of `create` between its two transactions; so it matters that
every such exception comes before the call has changed anything.
-/
namespace ApexPayments.Domain

/-- `exc.__class__.__name__` of the domain exceptions. -/
def Exn.className : Exn → Option String
  | insufficientFunds _ _ _ => some "InsufficientFundsException"
  | accountNotFound _ => some "AccountNotFoundException"
  | paymentNotFound _ => some "PaymentNotFoundException"
  | idempotencyConflict _ => some "IdempotencyConflictException"
  | idempotencyMismatch _ => some "IdempotencyMismatchException"
  | invalidSignature => some "InvalidSignatureException"
  | refundNotAllowed _ => some "RefundNotAllowedException"
  | ledgerImbalance _ => some "LedgerImbalanceException"
  | _ => none

end ApexPayments.Domain

namespace ApexPayments.Service

open Domain Store Ledger Payments Webhooks RowLocking

section Endpoints

/-- The JSON that a response carries. -/
inductive Content where
  | payment (response : PaymentResponse)
  | refund (response : RefundResponse)
  | acknowledged
  | error (message type : String)
  deriving DecidableEq

structure Response where
  statusCode : ℤ
  content : Content
  deriving DecidableEq

/-- An exception of another kind is left to the server. -/
def domainExceptionHandler (exc : Exn) : Option Response := do
  let (statusCode, message) ← exc.domain
  let type ← exc.className
  pure ⟨statusCode, .error message type⟩

/-- `create_payment` and `process_refund` pass on the status of their service, and
`handle_webhook` acknowledges. The other calls are not requests. -/
def response : Reply → Option Response
  | .payment statusCode payment => some ⟨statusCode, .payment payment⟩
  | .refund statusCode refund => some ⟨statusCode, .refund refund⟩
  | .handled => some ⟨200, .acknowledged⟩
  | _ => none

/-- The response to a call, once it has ended. -/
def answer : Program Reply → Option Response
  | .pure reply => response reply
  | .raise exc => domainExceptionHandler exc
  | _ => none

/-- The status codes of the endpoints. -/
def statusCodes : Call → List ℤ
  | .create _ _ => [201, 409, 422]
  | .refund _ _ _ => [201, 404, 409, 422]
  | .webhook _ _ => [200, 401]
  | _ => []

/-- Both halves of a handled exception are known together. -/
theorem className_isSome (e : Exn) : e.className.isSome = e.domain.isSome := by
  cases e <;> rfl

theorem handler_eq_some {e : Exn} {r : Response} (h : domainExceptionHandler e = some r) :
    ∃ code message type, e.domain = some (code, message) ∧ r = ⟨code, .error message type⟩ := by
  unfold domainExceptionHandler at h
  cases hd : e.domain with
  | none =>
    rw [hd] at h
    contradiction
  | some x =>
    obtain ⟨code, message⟩ := x
    have hc := className_isSome e
    rw [hd] at h hc
    obtain ⟨type, htype⟩ := Option.isSome_iff_exists.mp hc
    rw [htype] at h
    cases h
    exact ⟨code, message, type, rfl, rfl⟩

end Endpoints

section Refusals

/-- The exception is not one of the domain. -/
def Internal (e : Exn) : Prop := e.domain = none

/-- The account has less than it is to pay. -/
def Short (a : Uuid) (n : ℤ) (e : Exn) : Prop := ∃ b < n, e = .insufficientFunds a b n

/-- The domain exceptions that a call can end in. -/
inductive Refuses (ext : Externals) : Call → Exn → Prop
  | conflict (k : String) (req : CreatePaymentRequest) :
      Refuses ext (.create k req) (.idempotencyConflict k)
  | mismatch (k : String) (req : CreatePaymentRequest) :
      Refuses ext (.create k req) (.idempotencyMismatch k)
  | unfunded (k : String) (req : CreatePaymentRequest) (e : Exn)
      (hshort : Short req.payerAccountId req.amount e) : Refuses ext (.create k req) e
  | refundConflict (k : String) (id : Uuid) (req : RefundRequest) :
      Refuses ext (.refund k id req) (.idempotencyConflict k)
  | refundMismatch (k : String) (id : Uuid) (req : RefundRequest) :
      Refuses ext (.refund k id req) (.idempotencyMismatch k)
  | notFound (k : String) (id : Uuid) (req : RefundRequest) :
      Refuses ext (.refund k id req) (.paymentNotFound id)
  | notAllowed (k : String) (id : Uuid) (req : RefundRequest) (message : String) :
      Refuses ext (.refund k id req) (.refundNotAllowed message)
  | refundUnfunded (k : String) (id : Uuid) (req : RefundRequest) (payee : Uuid) (e : Exn)
      (hshort : Short payee req.amount e) : Refuses ext (.refund k id req) e
  | unsigned (rawBody signature : String)
      (hunsigned : signature = "" ∨ signatureIsValid ext rawBody signature = .ok false) :
      Refuses ext (.webhook rawBody signature) .invalidSignature

/-- A refusal has one of the error codes of its endpoint. -/
theorem Refuses.code {ext : Externals} {c : Call} {e : Exn} (h : Refuses ext c e) :
    ∃ code message, e.domain = some (code, message) ∧ (code : ℤ) ∈ statusCodes c ∧ 400 ≤ code := by
  have hshort : ∀ a n, Short a n e → ∃ message, e.domain = some (422, message) := by
    rintro a n ⟨b, -, rfl⟩
    exact ⟨_, rfl⟩
  cases h with
  | unfunded k req e hs | refundUnfunded k id req payee e hs =>
    obtain ⟨message, hd⟩ := hshort _ _ hs
    exact ⟨422, message, hd, by simp [statusCodes], by omega⟩
  | conflict | mismatch | refundConflict | refundMismatch | notFound | notAllowed | unsigned =>
    exact ⟨_, _, rfl, by simp [statusCodes], by omega⟩

end Refusals


section Raising

variable {F : Frame backend} {L L' : Session backend} {ext : Externals} {e : Exn} {id : Uuid}

theorem internal_of_refused (h : Refused e) : Internal e := by
  rcases h with ⟨c, rfl⟩ | ⟨c, rfl⟩ | ⟨c, rfl⟩ | ⟨c, rfl⟩ <;> rfl

theorem internal_of_deferred {s : Database} {rows : List Row}
    (h : s.assertLedgerBalanced rows = some e) : Internal e := by
  obtain ⟨i, n, rfl⟩ := assertLedgerBalanced_error h
  rfl

/-- A posting pair is never out of balance. -/
theorem internal_of_pair {a b : Uuid} {n : ℤ}
    (h : validateBalanced [⟨a, .debit, n⟩, ⟨b, .credit, n⟩] = .error e) : Internal e := by
  by_cases hn : n ≤ 0
  · simp only [validateBalanced, netAmount, hn, if_true, List.length_cons, List.length_nil] at h
    cases h
    rfl
  · simp [validateBalanced, netAmount, hn] at h

/-- What a transfer between two accounts can raise. -/
theorem short_of_pair {a b : Uuid} {n : ℤ}
    (h : PostRaises F [⟨a, .debit, n⟩, ⟨b, .credit, n⟩] L e) : Internal e ∨ Short a n e := by
  rcases h with h | h | ⟨before, p, after, hsplit, hd, hlt, rfl⟩
  · exact Or.inl (internal_of_pair h)
  · exact Or.inl (internal_of_refused h)
  · right
    rcases before with _ | ⟨p₁, _ | ⟨p₂, before⟩⟩
    · cases hsplit
      exact ⟨_, hlt, rfl⟩
    · cases hsplit
      contradiction
    · simp at hsplit

end Raising

end ApexPayments.Service
