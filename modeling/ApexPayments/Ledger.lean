import ApexPayments.Store
import ApexPayments.DoubleEntry
import Mathlib.Data.List.Dedup
import Mathlib.Data.List.Sort

/-!
`LedgerService`: validation of a posting list, the balance loop and `post`, which
writes one ledger transaction, locks the balance rows in ascending account order
(creating missing ones) and applies the postings.
-/
namespace ApexPayments.Ledger

open Domain Store RowLocking

structure Posting where
  accountId : Uuid
  direction : Direction
  amount : ℤ
  deriving DecidableEq

def netAmount : List Posting → ℤ → Except Exn ℤ
  | [], net => .ok net
  | p :: ps, net =>
      if p.amount ≤ 0 then
        .error (.valueError ("Posting amount must be strictly positive: " ++ toString p.amount))
      else
        match p.direction with
        | .debit => netAmount ps (net + p.amount)
        | .credit => netAmount ps (net - p.amount)

def validateBalanced (postings : List Posting) : Except Exn Unit :=
  if postings.length < 2 then .error (.ledgerImbalance 0)
  else
    match netAmount postings 0 with
    | .error e => .error e
    | .ok net => if net ≠ 0 then .error (.ledgerImbalance net) else .ok ()

def sortedAccountIds (postings : List Posting) : List Uuid :=
  (postings.map Posting.accountId).dedup.insertionSort (· ≤ ·)

/-- The rows that `post` has loaded, by account. -/
abbrev BalancesMap := Uuid → AccountBalance

def zeroBalance (a : Uuid) : AccountBalance := ⟨a, 0, 0⟩

/-- Lock the balance rows one after the other; a missing row is created. -/
def lockBalances : List Uuid → BalancesMap → Program BalancesMap
  | [], balances => pure balances
  | a :: ids, balances => do
      match ← lockBalance a with
      | some row => lockBalances ids (Function.update balances a row)
      | none => do
          add (.accountBalance (zeroBalance a))
          flush
          lockBalances ids (Function.update balances a (zeroBalance a))

/-- The session's objects after the posting loop, and the error that stopped it. -/
structure Applied where
  entries : List LedgerEntry
  balances : BalancesMap
  failure : Option Exn

def applyPosting (balances : BalancesMap) (p : Posting) : Except Exn BalancesMap :=
  let bal := balances p.accountId
  match p.direction with
  | .debit =>
      if bal.balance < p.amount then
        .error (.insufficientFunds p.accountId bal.balance p.amount)
      else
        .ok (Function.update balances p.accountId
          { bal with balance := bal.balance - p.amount, version := bal.version + 1 })
  | .credit =>
      .ok (Function.update balances p.accountId
        { bal with balance := bal.balance + p.amount, version := bal.version + 1 })

def entryOf (transactionId : Uuid) (line : ℕ) (p : Posting) : LedgerEntry :=
  ⟨transactionId, line, p.accountId, p.direction, p.amount⟩

/-- The posting loop. The entry of a posting is added before its funds are checked. -/
def applyPostings (transactionId : Uuid) : ℕ → List Posting → BalancesMap → Applied
  | _, [], balances => ⟨[], balances, none⟩
  | line, p :: ps, balances =>
      match applyPosting balances p with
      | .error e => ⟨[entryOf transactionId line p], balances, some e⟩
      | .ok balances' =>
          let rest := applyPostings transactionId (line + 1) ps balances'
          { rest with entries := entryOf transactionId line p :: rest.entries }

def ofExcept {α : Type} : Except Exn α → Program α
  | .ok a => pure a
  | .error e => raise e

/-- What the loop leaves staged: the new entries and the rows it changed. -/
def staged (ids : List Uuid) (applied : Applied) : List (Write backend) :=
  applied.entries.map (fun e => .insert (.ledgerEntry e)) ++
    ids.map fun a => .update (.accountBalance (applied.balances a))

def post (type : TransactionType) (referenceId : Uuid) (postings : List Posting) :
    Program LedgerTransaction := do
  ofExcept (validateBalanced postings)
  let id ← uuid4
  let txn : LedgerTransaction := ⟨id, type, referenceId⟩
  add (.ledgerTransaction txn)
  flush
  let ids := sortedAccountIds postings
  let balances ← lockBalances ids zeroBalance
  let applied := applyPostings id 0 postings balances
  Prog.stageRows (staged ids applied)
  match applied.failure with
  | some e => raise e
  | none => do
      flush
      pure txn

end ApexPayments.Ledger
