import ApexPayments.InFlight

/-!
Every balance is explained by the payments. A payment moves its amount from the payer to the
suspense account while it is in flight, and from the payer to the payee, less what has been
refunded, once it is settled; a failed payment moves nothing. What the accounts hold beyond
their initial balances is the sum of these positions, whoever pays whom.
-/
namespace ApexPayments.Service

open Domain Store Ledger Payments RowLocking DoubleEntry

section Positions

/-- What a move of `n` from one account to another adds to the account `a`. -/
def carried (a source target : Uuid) (n : ℤ) : ℤ :=
  (if target = a then n else 0) - if source = a then n else 0

/-- What a payment has added to the account `a`. -/
def position (a : Uuid) (p : Payment) : ℤ :=
  match p.status with
  | .processing => carried a p.payerAccount suspenseAccountId p.amount
  | .authorized => carried a p.payerAccount suspenseAccountId p.amount
  | .succeeded => carried a p.payerAccount p.payeeAccount (p.amount - p.refundedAmount)
  | .refundPending => carried a p.payerAccount p.payeeAccount (p.amount - p.refundedAmount)
  | .refunded => carried a p.payerAccount p.payeeAccount (p.amount - p.refundedAmount)
  | .failed => 0
  | .created => 0
  | .fundsLocked => 0

/-- The balances are the base and the positions of all payments. -/
structure Explained (base : Uuid → ℤ) (s : Database) : Prop where
  unrefunded : ∀ p ∈ s.payments.rows, Payment.inFlight p → p.refundedAmount = 0
  balance : ∀ a, balanceOf s a = base a + s.payments.sum (position a)

variable {base : Uuid → ℤ} {s s' : Database}

theorem carried_sub (a x y : Uuid) (m n : ℤ) :
    carried a x y (m - n) = carried a x y m + carried a y x n := by
  unfold carried
  split_ifs <;> omega

/-- A move on to a third account. -/
theorem carried_on (a x y z : Uuid) (n : ℤ) :
    carried a x y n + carried a y z n = carried a x z n := by
  unfold carried
  split_ifs <;> omega

theorem carried_back (a x y : Uuid) (n : ℤ) : carried a x y n + carried a y x n = 0 := by
  unfold carried
  split_ifs <;> omega

theorem balance_transferred {t : Transfer} {txn : LedgerTransaction} {event : Outbox} {x y : Uuid}
    {n : ℤ} (h : Transferred t txn event s s')
    (ht : t.postings = [⟨x, .debit, n⟩, ⟨y, .credit, n⟩]) (a : Uuid) :
    balanceOf s' a = balanceOf s a + carried a x y n := by
  obtain ⟨s₁, hp, rfl⟩ := h.posted
  have hnet : net (moves t.postings) a = carried a x y n := by
    rw [ht]
    simp only [moves, signed, List.map_cons, List.map_nil, net_cons, net_nil, carried]
    split_ifs <;> omega
  rw [← hnet]
  exact hp.balance a

theorem position_inFlight {p : Payment} (h : Payment.inFlight p) (a : Uuid) :
    position a p = carried a p.payerAccount suspenseAccountId p.amount := by
  rcases of_decide_eq_true h with hst | hst
  · unfold position
    rw [hst]
  · unfold position
    rw [hst]

theorem position_settled {p : Payment} (h : p.status = .succeeded ∨ p.status = .refundPending ∨
    p.status = .refunded) (a : Uuid) :
    position a p = carried a p.payerAccount p.payeeAccount (p.amount - p.refundedAmount) := by
  unfold position
  rcases h with hst | hst | hst <;> rw [hst]

/-- A payment row is written, and the balances move by the change of its position. -/
theorem Explained.put {q : Payment} (h : Explained base s)
    (hpayments : s'.payments = s.payments.put q)
    (hq : Payment.inFlight q → q.refundedAmount = 0)
    (hbalance : ∀ a, balanceOf s' a = balanceOf s a + position a q -
      ((s.payments.find? q.id).map (position a)).getD 0) : Explained base s' := by
  constructor
  · rw [hpayments]
    intro p hp hin
    rcases (s.payments.mem_put q p).mp hp with rfl | ⟨hp, -⟩
    · exact hq hin
    · exact h.unrefunded p hp hin
  · intro a
    rw [hbalance a, hpayments, Table.sum_put, h.balance a]
    omega

/-- A payment in flight settles, is reversed or is parked. -/
theorem Explained.moved {used ids : List Uuid} {p q : Payment} (h : Explained base s)
    (hfound : s.payments.find? p.id = some p)
    (hguard : p.status = .processing ∨ p.status = .authorized) (hm : Moved used s p q ids s') :
    Explained base s' := by
  have hin : Payment.inFlight p := decide_eq_true hguard
  have hzero := h.unrefunded p (Table.mem_of_find? hfound) hin
  have hold : ∀ a, ((s.payments.find? p.id).map (position a)).getD 0 =
      carried a p.payerAccount suspenseAccountId p.amount := by
    intro a
    rw [hfound]
    exact position_inFlight hin a
  have hid : q.id = p.id := hm.terms.1.id
  cases hm with
  | settled r txn event _ ht he hm =>
    refine h.put hm.same.payments (fun _ => hzero) fun a => ?_
    rw [hid, hold a, position_settled (Or.inl rfl) a]
    have hmoved := balance_transferred hm rfl a
    have hon := carried_on a p.payerAccount suspenseAccountId p.payeeAccount p.amount
    have hnone : (settled r p).amount - (settled r p).refundedAmount = p.amount := by
      change p.amount - p.refundedAmount = p.amount
      omega
    rw [hnone]
    change balanceOf s' a = balanceOf s a + carried a suspenseAccountId p.payeeAccount p.amount at hmoved
    change _ = _ + carried a p.payerAccount p.payeeAccount p.amount - _
    omega
  | reversed txn event _ ht he hm =>
    refine h.put hm.same.payments (fun _ => hzero) fun a => ?_
    rw [hid, hold a]
    have hmoved := balance_transferred hm rfl a
    have hback := carried_back a p.payerAccount suspenseAccountId p.amount
    change balanceOf s' a = balanceOf s a + carried a suspenseAccountId p.payerAccount p.amount at hmoved
    change _ = _ + 0 - _
    omega
  | awaiting r =>
    refine h.put rfl (fun _ => hzero) fun a => ?_
    rw [hid, hold a]
    change balanceOf s a = _ + carried a p.payerAccount suspenseAccountId p.amount - _
    omega

/-- A refund gives back a part of what the payee holds. -/
theorem Explained.refunded {p : Payment} {r : Refund} {txn : LedgerTransaction} {event : Outbox}
    (h : Explained base s) (hfound : s.payments.find? p.id = some p)
    (hstatus : p.status = .succeeded ∨ p.status = .refundPending)
    (ht : Transferred (refundOf p r) txn event
      ((s.put (.refund r)).put (.payment (Service.refunded r.amount p))) s') : Explained base s' := by
  have hsettled : (Service.refunded r.amount p).status = .succeeded ∨
      (Service.refunded r.amount p).status = .refundPending ∨
      (Service.refunded r.amount p).status = .refunded := by
    unfold Service.refunded
    dsimp only
    split
    · exact Or.inr (Or.inr rfl)
    · exact hstatus.imp_right Or.inl
  refine h.put ht.same.payments ?_ fun a => ?_
  · intro hin
    exfalso
    rcases of_decide_eq_true hin with hst | hst <;>
      rcases hsettled with hst' | hst' | hst' <;>
        exact absurd (hst.symm.trans hst') (by decide)
  · have hmoved := balance_transferred ht rfl a
    have hold : ((s.payments.find? (Service.refunded r.amount p).id).map (position a)).getD 0 =
        carried a p.payerAccount p.payeeAccount (p.amount - p.refundedAmount) := by
      rw [show (Service.refunded r.amount p).id = p.id from rfl, hfound]
      exact position_settled (hstatus.imp_right Or.inl) a
    rw [hold, position_settled hsettled a]
    have hless := carried_sub a p.payerAccount p.payeeAccount (p.amount - p.refundedAmount) r.amount
    change balanceOf s' a = balanceOf s a + carried a p.payeeAccount p.payerAccount r.amount at hmoved
    change _ = _ + carried a p.payerAccount p.payeeAccount
      (p.amount - (p.refundedAmount + r.amount)) - _
    rw [← Int.sub_sub, hless]
    omega

theorem Explained.change {used used' : List Uuid} (h : Explained base s)
    (hc : Change Call.isService s used s' used') : Explained base s' := by
  cases hc with
  | booked _ ids hs =>
    unfold SameBooks at hs
    rw [hs]
    exact ⟨h.unrefunded, h.balance⟩
  | opened k req createdAt p txn event _ hP hp hfresh hid htxn hevent ht =>
    have hin : Payment.inFlight p := by
      rw [hp]
      rfl
    refine h.put ht.same.payments (fun _ => ?_) fun a => ?_
    · rw [hp]
      rfl
    · have hmoved := balance_transferred ht rfl a
      change balanceOf s' a = balanceOf s a + carried a p.payerAccount suspenseAccountId p.amount at hmoved
      rw [hfresh, position_inFlight hin a, hmoved]
      exact (sub_zero _).symm
  | moved p q ids _ hfound hguard hm => exact h.moved hfound hguard hm
  | refunded p r txn event _ createdAt hamount hr hfound hstatus hcap hfresh hid htxn hevent ht =>
    exact h.refunded hfound hstatus ht
  | posted type referenceId postings txn _ hP htype href htxn hp => exact hP.elim
  | published ev t hfound hnew => exact ⟨h.unrefunded, h.balance⟩

end Positions

section Runs

variable {ext : Externals} {db : Database} {spent : List Uuid} {σ : State}

/-- In every committed state, what an account holds beyond its initial balance is the sum of the
positions of all payments. -/
theorem balances_explained_by_payments (hpayments : db.payments.rows = [])
    (h : System.Run (program ext) (Starts Call.isService) (System.initial db spent) σ) (a : Uuid) :
    balanceOf σ.db a = balanceOf db a + σ.db.payments.sum (position a) := by
  have hinit : Explained (balanceOf db) db := by
    refine ⟨?_, fun a => ?_⟩
    · rw [hpayments]
      exact fun _ hp => absurd hp List.not_mem_nil
    · unfold Table.sum
      rw [hpayments]
      exact (add_zero _).symm
  have hrunning : Running ext Call.isService anyKey (System.initial db spent) :=
    running_initial db spent
  obtain ⟨-, hchanges⟩ := changes_of_run hrunning h
  exact (hchanges.invariant (fun _ _ _ _ => Explained.change) hinit).balance a

/-- A captured payment of 50, of which 20 have been refunded. -/
theorem balances_explained_by_payments_sample :
    ∃ σ, System.Run (program sampleExternals) (Starts Call.isService)
        (System.initial sampleDatabase []) σ ∧
      [2, 3, suspenseAccountId].map (fun a => σ.db.payments.sum (position a)) = [-30, 30, 0] ∧
      ∀ a, balanceOf σ.db a = balanceOf sampleDatabase a + σ.db.payments.sum (position a) := by
  obtain ⟨σ, hrun, hpositions⟩ : ∃ σ, System.Run (program sampleExternals) (Starts Call.isService)
      (System.initial sampleDatabase []) σ ∧
      [2, 3, suspenseAccountId].map (fun a => σ.db.payments.sum (position a)) = [-30, 30, 0] := by
    refine System.exists_run_of_exec ((.start 0 (.create "key" (sampleRequest 3)) ::
      sampleSteps 0 10 68 (.ok ⟨.captured, some "psp", none⟩) 0) ++
      (.start 1 (.refund "back" 10 ⟨20, by decide⟩) :: sampleSteps 1 100 37 (.error "unused") 5)) ?_ ?_
    · decide +kernel
    · exact starts_append (starts_sample (P := Call.isService) trivial)
        (starts_sample (P := Call.isService) trivial)
  exact ⟨σ, hrun, hpositions, balances_explained_by_payments rfl hrun⟩

end Runs

end ApexPayments.Service
