import ApexPayments.Suspense

/-!
Money per currency. Double entry only sums integers, and no operation compares the
currencies of the accounts it posts to; the total of a currency is conserved between
payments in flight when every payment is made between accounts of one currency.
-/
namespace ApexPayments.Service

open Domain Store Ledger Payments Webhooks RowLocking

section Currencies

/-- The accounts of a currency. -/
def accountsIn (s : Database) (currency : String) : Finset Uuid :=
  ((s.accounts.rows.filter fun a => a.currency = currency).map Account.id).toFinset

def currencyOf (s : Database) (a : Uuid) : Option String :=
  (s.accounts.find? a).map Account.currency

def sameCurrency (s : Database) (payer payee : Uuid) : Prop :=
  currencyOf s payer = currencyOf s payee

instance (s : Database) (payer payee : Uuid) : Decidable (sameCurrency s payer payee) :=
  inferInstanceAs (Decidable (_ = _))

theorem mem_accountsIn {s : Database} {c : String} {a : Uuid} :
    a ∈ accountsIn s c ↔ currencyOf s a = some c := by
  simp only [accountsIn, List.mem_toFinset, List.mem_map, List.mem_filter, decide_eq_true_eq,
    currencyOf, Option.map_eq_some_iff]
  constructor
  · rintro ⟨x, ⟨hx, hc⟩, rfl⟩
    exact ⟨x, Table.find?_of_mem hx, hc⟩
  · rintro ⟨x, hx, hc⟩
    exact ⟨x, ⟨Table.mem_of_find? hx, hc⟩, Table.key_of_find? hx⟩

/-- With no payment in flight, every total is back at its base. -/
theorem total_of_idle {T : Uuid → Uuid → Prop} {S : Finset Uuid} {base : ℤ} {s : Database}
    (h : Flows T S base s) (hidle : ∀ p ∈ s.payments.rows, Payment.inFlight p = false) :
    total s S = base := by
  have hzero : s.payments.sum (share S) = 0 := by
    unfold Table.sum
    refine List.sum_eq_zero ?_
    intro x hx
    obtain ⟨p, hp, rfl⟩ := List.mem_map.mp hx
    rw [share, hidle p hp]
    rfl
  rw [h.total, hzero, add_zero]

end Currencies

section Claim

variable {ext : Externals} {db : Database} {spent : List Uuid} {σ : State}

/-- Payments between accounts of one currency conserve every currency. -/
theorem money_conserved_per_currency (hpayments : db.payments.rows = [])
    (h : System.Run (program ext) (Starts (Call.between (sameCurrency db)))
      (System.initial db spent) σ)
    (hidle : ∀ p ∈ σ.db.payments.rows, Payment.inFlight p = false) (currency : String) :
    total σ.db (accountsIn σ.db currency) = total db (accountsIn db currency) := by
  obtain ⟨-, hchanges⟩ := changes_of_run (running_initial db spent) h
  have haccounts : accountsIn σ.db currency = accountsIn db currency := by
    have heq : σ.db.accounts = db.accounts := accounts_of_changes hchanges
    rw [accountsIn, heq]
    rfl
  rw [haccounts]
  have hflows : Flows (sameCurrency db) (accountsIn db currency)
      (total db (accountsIn db currency)) σ.db := by
    refine hchanges.invariant (fun _ _ _ _ => Flows.change ?_) (Flows.initial hpayments)
    intro x y hxy
    rw [mem_accountsIn, mem_accountsIn, hxy]
  exact total_of_idle hflows hidle

theorem money_conserved_per_currency_sample :
    ∃ σ, System.Run (program sampleExternals) (Starts (Call.between (sameCurrency sampleDatabase)))
        (System.initial sampleDatabase []) σ ∧ balanceOf σ.db 3 = 50 ∧
      total σ.db (accountsIn σ.db "USD") = total sampleDatabase (accountsIn sampleDatabase "USD") := by
  obtain ⟨σ, hrun, hend⟩ : ∃ σ, System.Run (program sampleExternals)
      (Starts (Call.between (sameCurrency sampleDatabase))) (System.initial sampleDatabase []) σ ∧
      (balanceOf σ.db 3, σ.db.payments.rows.map Payment.inFlight) = (50, [false]) := by
    refine System.exists_run_of_exec (.start 0 (.create "key" (sampleRequest 3)) ::
      sampleSteps 0 10 68 (.ok ⟨.captured, some "psp", none⟩) 0) ?_ ?_
    · decide +kernel
    · exact starts_sample (show sameCurrency sampleDatabase 2 3 by decide)
  obtain ⟨hbalance, hidle⟩ := Prod.mk.inj hend
  refine ⟨σ, hrun, hbalance, money_conserved_per_currency rfl hrun ?_ "USD"⟩
  intro p hp
  have hmem := List.mem_map_of_mem (f := Payment.inFlight) hp
  rw [hidle] at hmem
  exact List.mem_singleton.mp hmem

/-- A payment from a dollar account to a euro account turns 50 dollars into euros. -/
theorem money_not_conserved_per_currency :
    ¬ ∀ (ext : Externals) (db : Database) (spent : List Uuid) (σ : State),
      db.payments.rows = [] →
      System.Run (program ext) (Starts Call.isService) (System.initial db spent) σ →
      (∀ p ∈ σ.db.payments.rows, Payment.inFlight p = false) → ∀ currency,
      total σ.db (accountsIn σ.db currency) = total db (accountsIn db currency) := by
  intro hall
  obtain ⟨σ, hrun, hend⟩ : ∃ σ, System.Run (program sampleExternals) (Starts Call.isService)
      (System.initial sampleDatabase []) σ ∧
      (total σ.db (accountsIn σ.db "USD"), σ.db.payments.rows.map Payment.inFlight) =
        (50, [false]) := by
    refine System.exists_run_of_exec (.start 0 (.create "key" (sampleRequest 4)) ::
      sampleSteps 0 10 68 (.ok ⟨.captured, some "psp", none⟩) 0) ?_ ?_
    · decide +kernel
    · exact starts_sample trivial
  obtain ⟨htotal, hidle⟩ := Prod.mk.inj hend
  have hsame := hall sampleExternals sampleDatabase [] σ rfl hrun (by
    intro p hp
    have hmem := List.mem_map_of_mem (f := Payment.inFlight) hp
    rw [hidle] at hmem
    exact List.mem_singleton.mp hmem) "USD"
  rw [htotal] at hsame
  exact absurd hsame (by decide)

end Claim

end ApexPayments.Service
