import Mathlib.Data.List.Basic
import Mathlib.Data.Int.Basic

/-!
The data of the payments engine: enumerations, table rows, request and response
schemas and the exceptions its services raise. Columns that no modelled function
reads (owner data, `updated_at`, receipt times) are left out.
-/
namespace ApexPayments.Domain

/-- A UUID by its integer value, which is also the order Python sorts by. -/
abbrev Uuid := ℕ

namespace Uuid

private def hexDigits (u : Uuid) : List Char :=
  let digits := Nat.toDigits 16 u
  List.replicate (32 - digits.length) '0' ++ digits

/-- `str(u)`: 32 hexadecimal digits in groups of 8, 4, 4, 4 and 12. -/
def str (u : Uuid) : String :=
  let ds := hexDigits u
  String.ofList (ds.take 8 ++ '-' :: (ds.drop 8).take 4 ++ '-' :: (ds.drop 12).take 4 ++
    '-' :: (ds.drop 16).take 4 ++ '-' :: ds.drop 20)

private theorem notMem_toDigits {c : Char} (hdigit : ∀ d < 16, c ≠ Nat.digitChar d) (n : ℕ) :
    c ∉ Nat.toDigits 16 n := by
  induction n using Nat.strongRecOn with
  | ind n ih =>
    rw [Nat.toDigits_eq_if (by decide)]
    by_cases hn : n < 16
    · simp [hn, hdigit n hn]
    · have hrest := ih (n / 16) (by omega)
      have hlast := hdigit (n % 16) (by omega)
      simp [hn, hrest, hlast]

theorem nul_notMem_str (u : Uuid) : Char.ofNat 0 ∉ u.str.toList := by
  have hdigits : Char.ofNat 0 ∉ hexDigits u := by
    simp [hexDigits, List.mem_append, notMem_toDigits (c := Char.ofNat 0) (by decide)]
  have htake : ∀ m n, Char.ofNat 0 ∉ ((hexDigits u).drop m).take n := fun m n h =>
    hdigits (List.mem_of_mem_drop (List.mem_of_mem_take h))
  have hfirst : Char.ofNat 0 ∉ (hexDigits u).take 8 := fun h => hdigits (List.mem_of_mem_take h)
  have hlast : Char.ofNat 0 ∉ (hexDigits u).drop 20 := fun h => hdigits (List.mem_of_mem_drop h)
  simp [str, htake, hfirst, hlast]

/-- The number that hexadecimal digits stand for. -/
private def hexNumber (ds : List Char) : ℕ :=
  ds.foldl (fun n c => 16 * n + if c.isDigit then c.toNat - 48 else c.toNat - 87) 0

private theorem hexNumber_toDigits (n : ℕ) : hexNumber (Nat.toDigits 16 n) = n := by
  have hdigit : ∀ d < 16, (if (Nat.digitChar d).isDigit then (Nat.digitChar d).toNat - 48
      else (Nat.digitChar d).toNat - 87) = d := by decide
  induction n using Nat.strongRecOn with
  | ind n ih =>
    rw [Nat.toDigits_eq_if (by decide)]
    by_cases hn : n < 16
    · rw [if_pos hn]
      exact (Nat.zero_add _).trans (hdigit n hn)
    · rw [if_neg hn, hexNumber, List.foldl_append]
      have hrest := ih (n / 16) (by omega)
      unfold hexNumber at hrest
      rw [hrest, List.foldl_cons, List.foldl_nil, hdigit (n % 16) (by omega)]
      omega

private theorem hexNumber_hexDigits (u : Uuid) : hexNumber (hexDigits u) = u := by
  have hzeros : ∀ k : ℕ, (List.replicate k '0').foldl
      (fun n c => 16 * n + if c.isDigit then c.toNat - 48 else c.toNat - 87) 0 = 0 := by
    intro k
    induction k with
    | zero => rfl
    | succ k ih => exact ih
  have hnumber := hexNumber_toDigits u
  unfold hexNumber hexDigits at *
  rw [List.foldl_append, hzeros]
  exact hnumber

private theorem filter_str (u : Uuid) : u.str.toList.filter (fun c => c ≠ '-') = hexDigits u := by
  have hdash : ∀ c ∈ hexDigits u, c ≠ '-' := by
    intro c hc hdash
    subst hdash
    simp [hexDigits, List.mem_append, notMem_toDigits (c := '-') (by decide)] at hc
  have hkept : ∀ ds : List Char, (∀ c ∈ ds, c ∈ hexDigits u) → ds.filter (fun c => c ≠ '-') = ds :=
    fun ds hds => List.filter_eq_self.mpr fun c hc => decide_eq_true (hdash c (hds c hc))
  have hgroup : ∀ m n, ((hexDigits u).drop m).take n ++ (hexDigits u).drop (m + n) =
      (hexDigits u).drop m := by
    intro m n
    rw [← List.drop_drop]
    exact List.take_append_drop n _
  have htake : ∀ m n, (((hexDigits u).drop m).take n).filter (fun c => c ≠ '-') =
      ((hexDigits u).drop m).take n := fun m n =>
    hkept _ fun c hc => List.mem_of_mem_drop (List.mem_of_mem_take hc)
  have hfirst := hkept ((hexDigits u).take 8) fun c hc => List.mem_of_mem_take hc
  have hlast := hkept ((hexDigits u).drop 20) fun c hc => List.mem_of_mem_drop hc
  have hsplit := List.take_append_drop 8 (hexDigits u)
  rw [← hgroup 8 4, ← hgroup 12 4, ← hgroup 16 4] at hsplit
  refine Eq.trans ?_ hsplit
  simp only [str, String.toList_ofList, List.filter_append, List.filter_cons, hfirst, htake, hlast]
  simp

theorem str_injective : Function.Injective str := by
  intro u v h
  have hdigits : hexDigits u = hexDigits v := by
    rw [← filter_str u, h, filter_str v]
  have hnumber := congrArg hexNumber hdigits
  rw [hexNumber_hexDigits, hexNumber_hexDigits] at hnumber
  exact hnumber

end Uuid

/-- Points in time, in microseconds since the epoch. -/
abbrev Time := ℤ

inductive Direction where
  | debit
  | credit
  deriving DecidableEq

inductive TransactionType where
  | payment
  | refund
  | reversal
  | fee
  deriving DecidableEq

inductive PaymentStatus where
  | created
  | processing
  | authorized
  | succeeded
  | failed
  | fundsLocked
  | refundPending
  | refunded
  deriving DecidableEq

def PaymentStatus.value : PaymentStatus → String
  | created => "CREATED"
  | processing => "PROCESSING"
  | authorized => "AUTHORIZED"
  | succeeded => "SUCCEEDED"
  | failed => "FAILED"
  | fundsLocked => "FUNDS_LOCKED"
  | refundPending => "REFUND_PENDING"
  | refunded => "REFUNDED"

inductive RefundStatus where
  | pending
  | succeeded
  | failed
  deriving DecidableEq

def RefundStatus.value : RefundStatus → String
  | pending => "PENDING"
  | succeeded => "SUCCEEDED"
  | failed => "FAILED"

inductive WebhookStatus where
  | received
  | processed
  | failed
  deriving DecidableEq

inductive IdempotencyStatus where
  | inProgress
  | completed
  deriving DecidableEq

inductive AuthorizationOutcome where
  | captured
  | pending
  | declined
  deriving DecidableEq

/-- JSON values as Python holds them; a float is kept by its IEEE 754 bits. -/
inductive Json where
  | null
  | bool (b : Bool)
  | int (i : ℤ)
  | float (bits : BitVec 64)
  | str (s : String)
  | arr (xs : List Json)
  | obj (fields : List (String × Json))

structure Account where
  id : Uuid
  currency : String
  deriving DecidableEq

structure AccountBalance where
  accountId : Uuid
  balance : ℤ
  version : ℤ
  deriving DecidableEq

structure LedgerTransaction where
  id : Uuid
  type : TransactionType
  referenceId : Uuid
  deriving DecidableEq

/-- An entry is identified by its transaction and its place in the posting list,
where the table has a serial number that nothing reads. -/
structure LedgerEntry where
  transactionId : Uuid
  line : ℕ
  accountId : Uuid
  direction : Direction
  amount : ℤ
  deriving DecidableEq

structure Payment where
  id : Uuid
  merchantId : String
  payerAccount : Uuid
  payeeAccount : Uuid
  amount : ℤ
  currency : String
  status : PaymentStatus
  pspReference : Option String
  refundedAmount : ℤ
  version : ℤ
  createdAt : Time
  deriving DecidableEq

structure Refund where
  id : Uuid
  paymentId : Uuid
  amount : ℤ
  status : RefundStatus
  createdAt : Time
  deriving DecidableEq

structure Outbox where
  id : Uuid
  aggregateType : String
  aggregateId : Uuid
  eventType : String
  payload : List (String × Json)
  createdAt : Time
  publishedAt : Option Time

structure WebhookEvent where
  pspEventId : String
  payload : String
  status : WebhookStatus
  deriving DecidableEq

/-- A schema-valid payment request. -/
structure CreatePaymentRequest where
  merchantId : String
  payerAccountId : Uuid
  payeeAccountId : Uuid
  amount : ℤ
  currency : String
  merchantId_nonempty : 1 ≤ merchantId.length
  amount_pos : 0 < amount
  currency_length : currency.length = 3
  deriving DecidableEq

/-- A schema-valid refund request. -/
structure RefundRequest where
  amount : ℤ
  amount_pos : 0 < amount
  deriving DecidableEq

structure PaymentResponse where
  id : Uuid
  merchantId : String
  payerAccountId : Uuid
  payeeAccountId : Uuid
  amount : ℤ
  currency : String
  status : PaymentStatus
  pspReference : Option String
  refundedAmount : ℤ
  createdAt : Time
  deriving DecidableEq

structure RefundResponse where
  id : Uuid
  paymentId : Uuid
  amount : ℤ
  status : RefundStatus
  createdAt : Time
  deriving DecidableEq

/-- A response as `model_dump` stores it; the JSON round trip is faithful. -/
inductive ResponseBody where
  | payment (r : PaymentResponse)
  | refund (r : RefundResponse)
  deriving DecidableEq

structure IdempotencyRecord where
  merchantId : String
  idemKey : String
  requestHash : String
  status : IdempotencyStatus
  resourceId : Option Uuid
  responseCode : Option ℤ
  responseBody : Option ResponseBody
  deriving DecidableEq

/-- The dictionaries that callers hash into a request hash. -/
inductive Payload where
  | create (request : CreatePaymentRequest)
  | refund (paymentId : Uuid) (amount : ℤ)
  deriving DecidableEq

structure AuthorizationResult where
  outcome : AuthorizationOutcome
  pspReference : Option String
  declineReason : Option String
  deriving DecidableEq

/-- What a service or the database raises. -/
inductive Exn where
  | insufficientFunds (accountId : Uuid) (currentBalance requiredAmount : ℤ)
  | accountNotFound (accountId : Uuid)
  | paymentNotFound (paymentId : Uuid)
  | idempotencyConflict (key : String)
  | idempotencyMismatch (key : String)
  | invalidSignature
  | refundNotAllowed (message : String)
  | ledgerImbalance (netAmount : ℤ)
  | valueError (message : String)
  | typeError
  | keyError (key : String)
  | attributeError (name : String)
  | unicodeDecodeError
  | runtimeError (message : String)
  | validationError
  | noResultFound
  | multipleResultsFound
  | staleData
  | dataError (column : String)
  | checkViolation (name : String)
  | uniqueViolation (name : String)
  | foreignKeyViolation (column : String)
  | notNullViolation (column : String)
  | ledgerUnbalanced (transactionId : Uuid) (net : ℤ)
  | cancelled
  deriving DecidableEq

namespace Exn

/-- The status code and message of the domain exceptions. -/
def domain : Exn → Option (ℕ × String)
  | insufficientFunds a b r => some (422, "Insufficient funds for account " ++ a.str ++
      ": balance=" ++ toString b ++ ", required=" ++ toString r)
  | accountNotFound a => some (404, "Account not found: " ++ a.str)
  | paymentNotFound p => some (404, "Payment not found: " ++ p.str)
  | idempotencyConflict k =>
      some (409, "Concurrent request in progress for idempotency key: " ++ k)
  | idempotencyMismatch k => some (422, "Idempotency key '" ++ k ++
      "' was previously used with a different request payload")
  | invalidSignature => some (401, "Invalid webhook signature")
  | refundNotAllowed m => some (422, m)
  | ledgerImbalance n => some (500, "Ledger entries are unbalanced (net = " ++ toString n ++
      "). Sum of signed amounts must be zero.")
  | _ => none

end Exn

end ApexPayments.Domain
