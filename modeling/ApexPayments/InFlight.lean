import ApexPayments.Audit

/-!
Money in flight. Between hold and resolution the amount of a payment is with the
suspense account instead of its payer, so the total of any set of accounts differs
from its initial value by what payments in flight have brought in or taken out. This
needs payer and payee to be on the same side of the set.
-/
namespace ApexPayments.Service

open Domain Store Ledger Payments Webhooks RowLocking DoubleEntry

section Totals

def total (s : Database) (S : Finset Uuid) : ℤ := ∑ a ∈ S, balanceOf s a

/-- What a posting list brings into a set of accounts. -/
def inflow (S : Finset Uuid) (ps : List Posting) : ℤ :=
  ((moves ps).map fun m => if m.1 ∈ S then m.2 else 0).sum

theorem total_posted {s s' : Database} {txn : LedgerTransaction} {ps : List Posting}
    (h : Posted s s' txn ps) (S : Finset Uuid) : total s' S = total s S + inflow S ps := by
  unfold total inflow
  rw [← sum_net, ← Finset.sum_add_distrib]
  exact Finset.sum_congr rfl fun a _ => h.balance a

theorem total_congr {s s' : Database} (h : s'.accountBalances = s.accountBalances)
    (S : Finset Uuid) : total s' S = total s S := by
  unfold total balanceOf
  rw [h]

theorem total_transferred {t : Transfer} {txn : LedgerTransaction} {event : Outbox}
    {s s' : Database} (h : Transferred t txn event s s') (S : Finset Uuid) :
    total s' S = total s S + inflow S t.postings := by
  obtain ⟨s₁, hp, rfl⟩ := h.posted
  exact total_posted hp S

/-- An amount, as a set of accounts sees it at one account. -/
def amountAt (S : Finset Uuid) (a : Uuid) (n : ℤ) : ℤ := if a ∈ S then n else 0

theorem inflow_pair (S : Finset Uuid) (a b : Uuid) (n : ℤ) :
    inflow S [⟨a, .debit, n⟩, ⟨b, .credit, n⟩] = amountAt S b n - amountAt S a n := by
  simp only [inflow, moves, signed, List.map_cons, List.map_nil, List.sum_cons, List.sum_nil, amountAt]
  split_ifs <;> ring

end Totals

section Flows

def Payment.inFlight (p : Payment) : Bool := p.status = .processing ∨ p.status = .authorized

/-- What a payment in flight has brought into a set of accounts. -/
def share (S : Finset Uuid) (p : Payment) : ℤ :=
  if Payment.inFlight p then amountAt S suspenseAccountId p.amount - amountAt S p.payerAccount p.amount else 0

/-- Calls of the services whose payments are between accounts related by `T`. -/
def Call.between (T : Uuid → Uuid → Prop) : Call → Prop
  | create _ req => T req.payerAccountId req.payeeAccountId
  | post _ _ _ => False
  | _ => True

/-- The total of a set of accounts is its base and the shares of all payments in flight. -/
structure Flows (T : Uuid → Uuid → Prop) (S : Finset Uuid) (base : ℤ) (s : Database) : Prop where
  terms : ∀ p ∈ s.payments.rows, T p.payerAccount p.payeeAccount ∧ 0 < p.amount
  total : total s S = base + s.payments.sum (share S)

variable {T : Uuid → Uuid → Prop} {S : Finset Uuid} {base : ℤ}

/-- A payment row is written and the money moves by the change of its share. -/
theorem Flows.put {s s' : Database} {q : Payment} (h : Flows T S base s)
    (hpayments : s'.payments = s.payments.put q)
    (hterms : T q.payerAccount q.payeeAccount ∧ 0 < q.amount)
    (htotal : Service.total s' S = Service.total s S + share S q -
      ((s.payments.find? q.id).map (share S)).getD 0) : Flows T S base s' := by
  constructor
  · rw [hpayments]
    intro p hp
    rcases (s.payments.mem_put q p).mp hp with rfl | ⟨hp, _⟩
    · exact hterms
    · exact h.terms p hp
  · rw [htotal, hpayments, Table.sum_put, h.total]
    ring

/-- A payment in flight settles, is reversed or is parked. -/
theorem Flows.moved {s s' : Database} {used ids : List Uuid} {p q : Payment}
    (hT : ∀ x y, T x y → (x ∈ S ↔ y ∈ S)) (h : Flows T S base s)
    (hfound : s.payments.find? p.id = some p)
    (hguard : p.status = .processing ∨ p.status = .authorized) (hm : Moved used s p q ids s') :
    Flows T S base s' := by
  have hp := h.terms p (Table.mem_of_find? hfound)
  have hin : Payment.inFlight p = true := by simpa [Payment.inFlight] using hguard
  have hshare : share S p = amountAt S suspenseAccountId p.amount - amountAt S p.payerAccount p.amount :=
    if_pos hin
  obtain ⟨hterms, -, -⟩ := hm.terms
  refine h.put hm.same.payments ?_ ?_
  · rw [hterms.payer, hterms.payee, hterms.amount]
    exact hp
  · rw [hterms.id, hfound]
    simp only [Option.map_some, Option.getD_some]
    cases hm with
    | settled r txn event _ ht he hm =>
      have hpayee : amountAt S p.payeeAccount p.amount = amountAt S p.payerAccount p.amount := by
        simp only [amountAt, hT _ _ hp.1]
      have hsum := total_transferred hm S
      have hzero : share S (settled r p) = 0 := if_neg (by simp [Payment.inFlight, settled])
      rw [hsum, hzero, hshare]
      change Service.total s S + inflow S [⟨suspenseAccountId, .debit, p.amount⟩,
        ⟨p.payeeAccount, .credit, p.amount⟩] = _
      rw [inflow_pair, hpayee]
      ring
    | reversed txn event _ ht he hm =>
      have hsum := total_transferred hm S
      have hzero : share S (reversed p) = 0 := if_neg (by simp [Payment.inFlight, reversed])
      rw [hsum, hzero, hshare]
      change Service.total s S + inflow S [⟨suspenseAccountId, .debit, p.amount⟩,
        ⟨p.payerAccount, .credit, p.amount⟩] = _
      rw [inflow_pair]
      ring
    | awaiting r =>
      have hsame : share S (awaiting r p) = share S p := by
        rw [hshare]
        exact if_pos (by simp [Payment.inFlight, awaiting])
      rw [hsame, add_sub_cancel_right]
      exact total_congr rfl S

theorem Flows.change {s s' : Database} {used used' : List Uuid}
    (hT : ∀ x y, T x y → (x ∈ S ↔ y ∈ S)) (h : Flows T S base s)
    (hc : Change (Call.between T) s used s' used') : Flows T S base s' := by
  cases hc with
  | booked _ ids hs =>
    unfold SameBooks at hs
    rw [hs]
    exact ⟨h.terms, h.total⟩
  | opened k req createdAt p txn event _ hP hp hfresh hid htxn hevent ht =>
    have hshare : share S p = amountAt S suspenseAccountId p.amount - amountAt S p.payerAccount p.amount := by
      rw [hp]
      exact if_pos rfl
    refine h.put ht.same.payments ?_ ?_
    · rw [hp]
      exact ⟨hP, req.amount_pos⟩
    · rw [total_transferred ht S, hfresh, hshare]
      change Service.total s S + inflow S [⟨p.payerAccount, .debit, p.amount⟩,
        ⟨suspenseAccountId, .credit, p.amount⟩] = _
      rw [inflow_pair, Option.map_none, Option.getD_none, sub_zero]
  | moved p q ids _ hfound hguard hm => exact h.moved hT hfound hguard hm
  | refunded p r txn event _ createdAt hamount hr hfound hstatus hcap hfresh hid htxn hevent ht =>
    have hp := h.terms p (Table.mem_of_find? hfound)
    have hpayee : amountAt S p.payeeAccount r.amount = amountAt S p.payerAccount r.amount := by
      simp only [amountAt, hT _ _ hp.1]
    have hout : share S p = 0 := by
      refine if_neg ?_
      rcases hstatus with hst | hst <;> simp [Payment.inFlight, hst]
    have hout' : share S (refunded r.amount p) = 0 := by
      refine if_neg ?_
      rcases hstatus with hst | hst <;> simp only [Payment.inFlight, refunded, hst] <;>
        split_ifs <;> simp
    refine h.put ht.same.payments hp ?_
    have hid : (refunded r.amount p).id = p.id := rfl
    rw [total_transferred ht S, hid, hfound, hout']
    simp only [Option.map_some, Option.getD_some, hout, add_zero, sub_zero]
    change Service.total s S + inflow S [⟨p.payeeAccount, .debit, r.amount⟩,
      ⟨p.payerAccount, .credit, r.amount⟩] = _
    rw [inflow_pair, hpayee, sub_self, add_zero]
  | posted type referenceId postings txn _ hP htype href htxn hp => exact hP.elim
  | published ev t hfound hnew => exact ⟨h.terms, h.total⟩

theorem Flows.initial {db : Database} (h : db.payments.rows = []) :
    Flows T S (Service.total db S) db := by
  refine ⟨by simp [h], ?_⟩
  simp [Table.sum, h]

end Flows

section Accounts

variable {P : Call → Prop} {s s' : Database} {used used' : List Uuid}

/-- No operation opens or changes an account. -/
theorem accounts_of_changes (h : Changes P s used s' used') : s'.accounts = s.accounts := by
  have hstep : ∀ t u t' u', t.accounts = s.accounts → Change P t u t' u' →
      t'.accounts = s.accounts := by
    intro t u t' u' ht hc
    rcases hc.ledger with hs | ⟨txn, ps, s₁, s₂, hs, hp, hs'⟩
    · exact hs.accounts.trans ht
    · rw [hs'.accounts, hp.elsewhere]
      exact hs.accounts.trans ht
  exact h.invariant hstep rfl

end Accounts

end ApexPayments.Service
