import ApexPayments.Webhooks
import ApexPayments.Relay
import ApexPayments.RowLocking.Atomic

/-!
The running service: the calls it accepts, the program each of them runs with its
transaction blocks, and the stages a call passes through between its transactions.
-/
namespace ApexPayments.Service

open Domain Store Ledger Payments Webhooks Relay RowLocking

inductive Call where
  | create (idempotencyKey : String) (request : CreatePaymentRequest)
  | refund (idempotencyKey : String) (paymentId : Uuid) (request : RefundRequest)
  | webhook (rawBody signature : String)
  | expire (timeoutMinutes : ℤ)
  | post (type : TransactionType) (referenceId : Uuid) (postings : List Posting)
  | drain (batchSize : ℕ)

/-- The calls of the services, without direct use of the ledger. -/
def Call.isService : Call → Prop
  | post _ _ _ => False
  | _ => True

/-- The key and the request of a call of `create`. -/
def Call.create? : Call → Option (String × CreatePaymentRequest)
  | create idempotencyKey request => some (idempotencyKey, request)
  | _ => none

theorem Call.eq_create {c : Call} {k : String} {req : CreatePaymentRequest}
    (h : c.create? = some (k, req)) : c = create k req := by
  cases c with
  | create k' req' =>
    cases h
    rfl
  | _ => contradiction

/-- What a call runs. `create` and `drain` open their own transactions; the others run
in one transaction that their caller opens. -/
def program (ext : Externals) : Call → Program Reply
  | .create idempotencyKey request => create ext idempotencyKey request
  | .refund idempotencyKey paymentId request => do
      let (code, response) ← refund ext idempotencyKey paymentId request.amount
      Prog.commitAll
      pure (.refund code response)
  | .webhook rawBody signature => do
      handle ext rawBody signature
      Prog.commitAll
      pure .handled
  | .expire timeoutMinutes => do
      let count ← expireStaleHolds timeoutMinutes
      Prog.commitAll
      pure (.expired count)
  | .post type referenceId postings => do
      let txn ← post type referenceId postings
      Prog.commitAll
      pure (.posted txn)
  | .drain batchSize => do
      let count ← drainBatch batchSize
      pure (.drained count)

abbrev State := System backend Call Reply

abbrev Head := Header backend Call Reply

section Sample

/-- A service whose signatures and hashes are constants. -/
def sampleExternals : Externals where
  hash _ := "hash"
  hmacSha256 _ _ := "sig"
  constructEvent _ _ _ := false
  loads body := some (.obj [("pspEventId", .str body), ("type", .str "payment.captured"),
    ("pspReference", .str "psp")])
  pspWebhookSecret := "secret"
  stripeWebhookSecret := ""

/-- The suspense account, and the accounts 2, 3 and 4 in two currencies. -/
def sampleDatabase : Database where
  accounts := ⟨[⟨suspenseAccountId, "USD"⟩, ⟨2, "USD"⟩, ⟨3, "USD"⟩, ⟨4, "EUR"⟩], by decide⟩
  accountBalances := ⟨[⟨2, 100, 0⟩], by decide⟩
  ledgerTransactions := .empty _
  ledgerEntries := .empty _
  payments := .empty _
  refunds := .empty _
  idempotencyKeys := .empty _
  outbox := .empty _
  webhookEvents := .empty _

/-- A payment of 50 from account 2. -/
def sampleRequest (payee : Uuid) : CreatePaymentRequest where
  merchantId := "shop"
  payerAccountId := 2
  payeeAccountId := payee
  amount := 50
  currency := "USD"
  merchantId_nonempty := by decide
  amount_pos := by decide
  currency_length := by decide

/-- Surroundings with one outcome of the provider and one clock reading. -/
def sampleOracle (result : Except String AuthorizationResult) (t : Time) (ident : Uuid) :
    Oracle backend where
  ident := ident
  answer
    | .now => t
    | .scan ids => ⟨ids, List.Perm.refl ids⟩
    | .authorize _ => result

/-- `n` statements of process `pid`, with the identifiers from `first` on. -/
def sampleSteps (pid first n : ℕ) (result : Except String AuthorizationResult) (t : Time) :
    List (Label backend Call) :=
  (List.range n).map fun i => .run pid (sampleOracle result t (first + i))

end Sample

end ApexPayments.Service
