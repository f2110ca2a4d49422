import ApexPayments.Domain
import ApexPayments.RowLocking.Program
import ApexPayments.RowLocking.Table

/-!
The PostgreSQL schema as a back end: its tables, the constraints that a written
row has to meet, the deferred trigger on ledger entries, and what a running
service asks of its surroundings (the clock, the order in which an unordered
query returns its rows, and the payment provider).
-/
namespace ApexPayments.Store

open Domain RowLocking

structure Database where
  accounts : Table Account.id
  accountBalances : Table AccountBalance.accountId
  ledgerTransactions : Table LedgerTransaction.id
  ledgerEntries : Table fun e : LedgerEntry => (e.transactionId, e.line)
  payments : Table Payment.id
  refunds : Table Refund.id
  idempotencyKeys : Table fun r : IdempotencyRecord => (r.merchantId, r.idemKey)
  outbox : Table Outbox.id
  webhookEvents : Table WebhookEvent.pspEventId

inductive Key where
  | accountBalance (accountId : Uuid)
  | ledgerTransaction (id : Uuid)
  | ledgerEntry (transactionId : Uuid) (line : ℕ)
  | payment (id : Uuid)
  | refund (id : Uuid)
  | idempotencyRecord (merchantId idemKey : String)
  | outbox (id : Uuid)
  | webhookEvent (pspEventId : String)
  deriving DecidableEq

inductive Row where
  | accountBalance (r : AccountBalance)
  | ledgerTransaction (r : LedgerTransaction)
  | ledgerEntry (r : LedgerEntry)
  | payment (r : Payment)
  | refund (r : Refund)
  | idempotencyRecord (r : IdempotencyRecord)
  | outbox (r : Outbox)
  | webhookEvent (r : WebhookEvent)

def Row.key : Row → Key
  | accountBalance r => .accountBalance r.accountId
  | ledgerTransaction r => .ledgerTransaction r.id
  | ledgerEntry r => .ledgerEntry r.transactionId r.line
  | payment r => .payment r.id
  | refund r => .refund r.id
  | idempotencyRecord r => .idempotencyRecord r.merchantId r.idemKey
  | outbox r => .outbox r.id
  | webhookEvent r => .webhookEvent r.pspEventId

namespace Database

def get (s : Database) : Key → Option Row
  | .accountBalance a => (s.accountBalances.find? a).map .accountBalance
  | .ledgerTransaction i => (s.ledgerTransactions.find? i).map .ledgerTransaction
  | .ledgerEntry t n => (s.ledgerEntries.find? (t, n)).map .ledgerEntry
  | .payment i => (s.payments.find? i).map .payment
  | .refund i => (s.refunds.find? i).map .refund
  | .idempotencyRecord m k => (s.idempotencyKeys.find? (m, k)).map .idempotencyRecord
  | .outbox i => (s.outbox.find? i).map .outbox
  | .webhookEvent i => (s.webhookEvents.find? i).map .webhookEvent

def put (s : Database) : Row → Database
  | .accountBalance r => { s with accountBalances := s.accountBalances.put r }
  | .ledgerTransaction r => { s with ledgerTransactions := s.ledgerTransactions.put r }
  | .ledgerEntry r => { s with ledgerEntries := s.ledgerEntries.put r }
  | .payment r => { s with payments := s.payments.put r }
  | .refund r => { s with refunds := s.refunds.put r }
  | .idempotencyRecord r => { s with idempotencyKeys := s.idempotencyKeys.put r }
  | .outbox r => { s with outbox := s.outbox.put r }
  | .webhookEvent r => { s with webhookEvents := s.webhookEvents.put r }

theorem get_put_self (s : Database) (r : Row) : (s.put r).get r.key = some r := by
  cases r with
  | accountBalance r => exact congrArg (Option.map Row.accountBalance) (s.accountBalances.find?_put_self r)
  | ledgerTransaction r => exact congrArg (Option.map Row.ledgerTransaction) (s.ledgerTransactions.find?_put_self r)
  | ledgerEntry r => exact congrArg (Option.map Row.ledgerEntry) (s.ledgerEntries.find?_put_self r)
  | payment r => exact congrArg (Option.map Row.payment) (s.payments.find?_put_self r)
  | refund r => exact congrArg (Option.map Row.refund) (s.refunds.find?_put_self r)
  | idempotencyRecord r => exact congrArg (Option.map Row.idempotencyRecord) (s.idempotencyKeys.find?_put_self r)
  | outbox r => exact congrArg (Option.map Row.outbox) (s.outbox.find?_put_self r)
  | webhookEvent r => exact congrArg (Option.map Row.webhookEvent) (s.webhookEvents.find?_put_self r)

theorem get_put_of_ne (s : Database) (r : Row) (k : Key) (hk : k ≠ r.key) :
    (s.put r).get k = s.get k := by
  cases r <;> cases k <;> try rfl
  all_goals
    refine congrArg (Option.map _) (Table.find?_put_of_ne _ _ _ fun h => hk ?_)
    simp_all [Row.key]

/-- The debits minus the credits of one ledger transaction, as the trigger sums them. -/
def entryNet (s : Database) (transactionId : Uuid) : ℤ :=
  s.ledgerEntries.sum fun e =>
    if e.transactionId = transactionId then
      if e.direction = .debit then e.amount else -e.amount
    else 0

end Database

/-- The values a `BIGINT` column holds. -/
def bigint (x : ℤ) : Bool := -2 ^ 63 ≤ x ∧ x < 2 ^ 63

/-- The strings a `VARCHAR(n)` column holds. -/
def varchar (n : ℕ) (s : String) : Bool := s.length ≤ n ∧ Char.ofNat 0 ∉ s.toList

def firstFailing : List (Bool × Exn) → Option Exn
  | [] => none
  | (ok, e) :: checks => if ok then firstFailing checks else some e

theorem firstFailing_eq_none_iff (checks : List (Bool × Exn)) :
    firstFailing checks = none ↔ ∀ c ∈ checks, c.1 = true := by
  induction checks with
  | nil => simp [firstFailing]
  | cons c checks ih =>
    obtain ⟨ok, e⟩ := c
    cases ok <;> simp [firstFailing, ih]

namespace Database

def hasAccount (s : Database) (a : Uuid) : Bool := (s.accounts.find? a).isSome

/-- Column ranges, `CHECK` constraints and foreign keys of the tables. -/
def checks (s : Database) : Row → List (Bool × Exn)
  | .accountBalance r =>
      [(bigint r.balance, .dataError "balance"),
       (bigint r.version, .dataError "version"),
       (0 ≤ r.balance, .checkViolation "non_negative_balance"),
       (s.hasAccount r.accountId, .foreignKeyViolation "account_balances.account_id")]
  | .ledgerTransaction _ => []
  | .ledgerEntry r =>
      [(bigint r.amount, .dataError "amount"),
       (0 < r.amount, .checkViolation "positive_amount"),
       ((s.ledgerTransactions.find? r.transactionId).isSome,
         .foreignKeyViolation "ledger_entries.transaction_id"),
       (s.hasAccount r.accountId, .foreignKeyViolation "ledger_entries.account_id")]
  | .payment r =>
      [(varchar 255 r.merchantId, .dataError "merchant_id"),
       (bigint r.amount, .dataError "amount"),
       (varchar 3 r.currency, .dataError "currency"),
       (r.pspReference.all (varchar 255), .dataError "psp_reference"),
       (bigint r.refundedAmount, .dataError "refunded_amount"),
       (bigint r.version, .dataError "version"),
       (s.hasAccount r.payerAccount, .foreignKeyViolation "payments.payer_account"),
       (s.hasAccount r.payeeAccount, .foreignKeyViolation "payments.payee_account")]
  | .refund r =>
      [(bigint r.amount, .dataError "amount"),
       (0 < r.amount, .checkViolation "positive_refund_amount"),
       ((s.payments.find? r.paymentId).isSome, .foreignKeyViolation "refunds.payment_id")]
  | .idempotencyRecord r =>
      [(varchar 255 r.merchantId, .dataError "merchant_id"),
       (varchar 255 r.idemKey, .dataError "idem_key")]
  | .outbox _ => []
  | .webhookEvent r =>
      [(varchar 255 r.pspEventId, .dataError "psp_event_id"),
       (Char.ofNat 0 ∉ r.payload.toList, .dataError "payload")]

def violation (s : Database) (r : Row) : Option Exn := firstFailing (s.checks r)

/-- `assert_ledger_balanced`, run at commit for every inserted ledger entry. -/
def assertLedgerBalanced (s : Database) : List Row → Option Exn
  | [] => none
  | .ledgerEntry e :: rows =>
      if s.entryNet e.transactionId = 0 then s.assertLedgerBalanced rows
      else some (.ledgerUnbalanced e.transactionId (s.entryNet e.transactionId))
  | _ :: rows => s.assertLedgerBalanced rows

end Database

def duplicate : Row → Exn
  | .accountBalance _ => .uniqueViolation "account_balances_pkey"
  | .ledgerTransaction _ => .uniqueViolation "ledger_transactions_pkey"
  | .ledgerEntry _ => .uniqueViolation "ledger_entries_pkey"
  | .payment _ => .uniqueViolation "payments_pkey"
  | .refund _ => .uniqueViolation "refunds_pkey"
  | .idempotencyRecord _ => .uniqueViolation "uq_idempotency_merchant_key"
  | .outbox _ => .uniqueViolation "outbox_pkey"
  | .webhookEvent _ => .uniqueViolation "webhook_events_pkey"

/-- The library functions and secrets the services use. `hash` is the SHA-256 of
the sorted JSON of a payload and `loads` is `json.loads`; `constructEvent` tells
whether the Stripe library returns instead of raising. -/
structure Externals where
  hash : Payload → String
  hmacSha256 : (secret payload : String) → String
  constructEvent : (payload sigHeader secret : String) → Bool
  loads : String → Option Json
  pspWebhookSecret : String
  stripeWebhookSecret : String

inductive Query where
  | now
  /-- The order in which a query without `ORDER BY` returns the rows it found. -/
  | scan (ids : List Uuid)
  | authorize (payment : Payment)

def Answer : Query → Type
  | .now => Time
  | .scan ids => { found : List Uuid // found.Perm ids }
  | .authorize _ => Except String AuthorizationResult

abbrev backend : Backend where
  Store := Database
  Key := Key
  Row := Row
  Ident := Uuid
  Query := Query
  Answer := Answer
  Error := Exn
  keyOf := Row.key
  get := Database.get
  put := Database.put
  get_put_self := Database.get_put_self
  get_put_of_ne := Database.get_put_of_ne
  violation := Database.violation
  deferred := Database.assertLedgerBalanced
  duplicate := duplicate
  cancelled := .cancelled

abbrev Program := Prog backend

/-- `SELECT ... WHERE id = :id FOR UPDATE` on `payments`. -/
def lockPayment (id : Uuid) : Program (Option Payment) := do
  match ← Prog.lockRow (B := backend) (.payment id) with
  | some (.payment p) => pure (some p)
  | _ => pure none

/-- `SELECT ... WHERE account_id = :id FOR UPDATE` on `account_balances`. -/
def lockBalance (accountId : Uuid) : Program (Option AccountBalance) := do
  match ← Prog.lockRow (B := backend) (.accountBalance accountId) with
  | some (.accountBalance b) => pure (some b)
  | _ => pure none

/-- The row lock that an `UPDATE` of an idempotency record takes. -/
def lockRecord (merchantId idemKey : String) : Program (Option IdempotencyRecord) := do
  match ← Prog.lockRow (B := backend) (.idempotencyRecord merchantId idemKey) with
  | some (.idempotencyRecord r) => pure (some r)
  | _ => pure none

/-- Lock the rows found by a query one after the other, keeping those whose latest
version still matches. -/
def lockMatching (matching : Payment → Bool) : List Uuid → Program (List Payment)
  | [] => pure []
  | id :: ids => do
      let row ← lockPayment id
      let rest ← lockMatching matching ids
      match row with
      | some p => pure (if matching p then p :: rest else rest)
      | none => pure rest

/-- `SELECT ... WHERE matching FOR UPDATE` on `payments`. -/
def selectForUpdate (matching : Payment → Bool) : Program (List Payment) := do
  let found ← Prog.select (B := backend) fun s => (s.payments.rows.filter matching).map Payment.id
  let order ← Prog.askFor (B := backend) (.scan found)
  lockMatching matching order.val

def add (r : Row) : Program Unit := Prog.stageRow (B := backend) (.insert r)

def modify (r : Row) : Program Unit := Prog.stageRow (B := backend) (.update r)

def flush : Program Unit := Prog.flushAll

def uuid4 : Program Uuid := Prog.drawIdent (B := backend)

def now : Program Time := Prog.askFor (B := backend) .now

def raise {α : Type} (e : Exn) : Program α := Prog.raise (B := backend) e

end ApexPayments.Store
