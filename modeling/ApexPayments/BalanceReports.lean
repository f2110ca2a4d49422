import ApexPayments.Audit
import ApexPayments.RowLocking.Serial

/-!
The audit against the balances that the API reports. The audit starts from the balance
rows, so an account without one escapes it, while the API reports 0 for that account.
-/
namespace ApexPayments.Service

open Domain Store Ledger RowLocking

section Endpoint

structure BalanceResponse where
  accountId : Uuid
  balance : ℤ
  currency : String
  deriving DecidableEq

/-- The balance row of an account, joined with the currency of its account. -/
def balanceRow (s : Database) (accountId : Uuid) : Option (AccountBalance × String) := do
  let row ← s.accountBalances.find? accountId
  let account ← s.accounts.find? row.accountId
  pure (row, account.currency)

def getBalance (accountId : Uuid) : Program BalanceResponse := do
  match ← Prog.select (B := backend) fun s => balanceRow s accountId with
  | some (row, currency) => pure ⟨row.accountId, row.balance, currency⟩
  | none => do
      match ← Prog.select (B := backend) fun s => s.accounts.find? accountId with
      | none => raise (.accountNotFound accountId)
      | some account => pure ⟨accountId, 0, account.currency⟩

/-- What a call that only reads returns, with nothing beside it. -/
def Returns {α : Type} (p : Program α) (s : Database) (a : α) : Prop :=
  ∃ L, p.Runs (.alone s []) (.fresh backend) (.value a L)

end Endpoint

section Contents

/-- Contents of the tables in which every balance and every entry meets its constraints. -/
structure Lawful (s : Database) : Prop where
  balances : ∀ r ∈ s.accountBalances.rows, s.violation (.accountBalance r) = none
  entries : ∀ e ∈ s.ledgerEntries.rows, s.violation (.ledgerEntry e) = none

variable {s : Database}

theorem Lawful.account (hs : Lawful s) {r : AccountBalance} (hr : r ∈ s.accountBalances.rows) :
    ∃ account, s.accounts.find? r.accountId = some account := by
  have hchecks := (firstFailing_eq_none_iff _).mp (hs.balances r hr)
  have haccount : s.hasAccount r.accountId = true := by
    apply hchecks (s.hasAccount r.accountId, .foreignKeyViolation "account_balances.account_id")
    simp [Database.checks]
  exact Option.isSome_iff_exists.mp haccount

/-- The total of the entries of one direction. -/
def totalOf (d : Direction) (s : Database) : ℤ :=
  s.ledgerEntries.sum fun e => if e.direction = d then e.amount else 0

theorem ledgerNet_eq (s : Database) : ledgerNet s = totalOf .debit s - totalOf .credit s := by
  unfold ledgerNet totalOf Table.sum
  induction s.ledgerEntries.rows with
  | nil => rfl
  | cons e es ih =>
    simp only [List.map_cons, List.sum_cons, ih]
    cases hd : e.direction with
    | debit =>
      simp only [reduceCtorEq, if_true, if_false]
      ring
    | credit =>
      simp only [reduceCtorEq, if_true, if_false]
      ring

end Contents

section Answers

variable {s : Database}

/-- The audit of one store returns the sums and the drifted rows of that store. -/
theorem returns_audit_iff (r : IntegrityResponse) :
    Returns auditIntegrity s r ↔ r = ⟨ledgerNet s = 0 ∧ (driftedAccounts s).length = 0, ledgerNet s,
      (driftedAccounts s).length⟩ := by
  unfold Returns auditIntegrity
  constructor
  · intro ⟨L, hL⟩
    rw [Prog.runs_select_alone (by simp [Session.fresh])] at hL
    rw [Prog.runs_select_alone (by simp [Session.fresh, Session.see])] at hL
    cases hL
    rfl
  · intro hr
    subst hr
    refine ⟨((Session.fresh backend).see s).see s, ?_⟩
    rw [Prog.runs_select_alone (by simp [Session.fresh])]
    rw [Prog.runs_select_alone (by simp [Session.fresh, Session.see])]
    rfl

/-- The API reports the balance of the row, and 0 for an account without one. -/
theorem returns_balance_iff {account : Account} (ha : account ∈ s.accounts.rows)
    (r : BalanceResponse) : Returns (getBalance account.id) s r ↔
      r = ⟨account.id, balanceOf s account.id, account.currency⟩ := by
  have hfind := Table.find?_of_mem ha
  unfold Returns getBalance
  simp only [Prog.runs_select_alone (B := backend) (s := s) (L := .fresh backend) (by simp [Session.fresh])]
  cases hrow : s.accountBalances.find? account.id with
  | some row =>
    have hid : row.accountId = account.id := Table.key_of_find? hrow
    have hjoin : balanceRow (view s (Session.fresh backend).flushed) account.id =
        some (row, account.currency) := by
      change balanceRow s account.id = _
      simp [balanceRow, hrow, hid, hfind]
    rw [balanceOf_of_find hrow, hjoin]
    dsimp only
    rw [hid]
    constructor
    · intro h
      obtain ⟨L, hL⟩ := h
      cases hL
      rfl
    · intro hr
      exact ⟨_, congrArg (Stop.value · _) hr⟩
  | none =>
    have hjoin : balanceRow (view s (Session.fresh backend).flushed) account.id = none := by
      change balanceRow s account.id = _
      simp [balanceRow, hrow]
    have hzero : balanceOf s account.id = 0 := by simp [balanceOf, hrow]
    rw [hzero, hjoin]
    dsimp only
    simp only [Prog.runs_select_alone (B := backend) (s := s) (L := (Session.fresh backend).see s)
      (by simp [Session.fresh, Session.see])]
    have haccount : (view s ((Session.fresh backend).see s).flushed).accounts.find? account.id =
        some account := hfind
    rw [haccount]
    constructor
    · intro h
      obtain ⟨L, hL⟩ := h
      cases hL
      rfl
    · intro hr
      exact ⟨_, congrArg (Stop.value · _) hr⟩

end Answers

section Agreement

variable {s : Database} {reported : Uuid → ℤ}

/-- The audit tells whether debits equal credits and every reported balance is the sum of
its entries, and counts the accounts for which it is not. -/
structure Truthful (s : Database) (reported : Uuid → ℤ) (r : IntegrityResponse) : Prop where
  balanced : r.balanced = true ↔ totalOf .debit s = totalOf .credit s ∧
    ∀ account ∈ s.accounts.rows, reported account.id = computedBalance s account.id
  count : r.driftedAccountsCount = (s.accounts.rows.filter fun account =>
    reported account.id ≠ computedBalance s account.id).length

/-- The accounts whose reported balance is not the sum of their entries. -/
def misreported (s : Database) (reported : Uuid → ℤ) : List Uuid :=
  (s.accounts.rows.filter fun account =>
    reported account.id ≠ computedBalance s account.id).map Account.id

theorem mem_misreported {a : Uuid} : a ∈ misreported s reported ↔
    s.hasAccount a = true ∧ reported a ≠ computedBalance s a := by
  unfold misreported Database.hasAccount
  constructor
  · intro ha
    obtain ⟨account, hmem, rfl⟩ := List.mem_map.mp ha
    obtain ⟨hrow, hne⟩ := List.mem_filter.mp hmem
    rw [Table.find?_of_mem hrow]
    exact ⟨rfl, by simpa using hne⟩
  · intro ⟨hsome, hne⟩
    obtain ⟨account, hfind⟩ := Option.isSome_iff_exists.mp hsome
    obtain rfl := Table.key_of_find? hfind
    apply List.mem_map_of_mem
    apply List.mem_filter.mpr
    exact ⟨Table.mem_of_find? hfind, by simpa using hne⟩

theorem nodup_misreported : (misreported s reported).Nodup :=
  s.accounts.nodup.sublist ((List.filter_sublist).map _)

theorem mem_driftedAccounts {a : Uuid} : a ∈ driftedAccounts s ↔
    ∃ row, s.accountBalances.find? a = some row ∧ row.balance ≠ computedBalance s a := by
  unfold driftedAccounts
  constructor
  · intro ha
    obtain ⟨row, hmem, rfl⟩ := List.mem_map.mp ha
    obtain ⟨hrow, hne⟩ := List.mem_filter.mp hmem
    exact ⟨row, Table.find?_of_mem hrow, by simpa using hne⟩
  · intro ⟨row, hfind, hne⟩
    obtain rfl := Table.key_of_find? hfind
    apply List.mem_map_of_mem
    apply List.mem_filter.mpr
    exact ⟨Table.mem_of_find? hfind, by simpa using hne⟩

theorem nodup_driftedAccounts : (driftedAccounts s).Nodup :=
  s.accountBalances.nodup.sublist ((List.filter_sublist).map _)

/-- What the audit finds is misreported. -/
theorem misreported_of_drifted (hs : Lawful s) (hreported : ∀ a, s.hasAccount a = true →
    reported a = balanceOf s a) {a : Uuid} (ha : a ∈ driftedAccounts s) :
    a ∈ misreported s reported := by
  obtain ⟨row, hfind, hne⟩ := mem_driftedAccounts.mp ha
  obtain rfl := Table.key_of_find? hfind
  obtain ⟨account, haccount⟩ := hs.account (Table.mem_of_find? hfind)
  have hsome : s.hasAccount row.accountId = true := by simp [Database.hasAccount, haccount]
  refine mem_misreported.mpr ⟨hsome, ?_⟩
  rw [hreported _ hsome, balanceOf_of_find hfind]
  exact hne

/-- What the audit does not find is misreported only where there is no balance row. -/
theorem drifted_of_misreported (hreported : ∀ a, s.hasAccount a = true → reported a = balanceOf s a)
    {a : Uuid} (ha : a ∈ misreported s reported) :
    a ∈ driftedAccounts s ∨ s.accountBalances.find? a = none ∧ computedBalance s a ≠ 0 := by
  obtain ⟨hsome, hne⟩ := mem_misreported.mp ha
  rw [hreported a hsome] at hne
  cases hrow : s.accountBalances.find? a with
  | some row =>
    rw [balanceOf_of_find hrow] at hne
    exact Or.inl (mem_driftedAccounts.mpr ⟨row, hrow, hne⟩)
  | none =>
    have hzero : balanceOf s a = 0 := by simp [balanceOf, hrow]
    rw [hzero] at hne
    exact Or.inr ⟨rfl, Ne.symm hne⟩

/-- Where no account escapes the audit, it finds exactly the misreported ones. -/
theorem length_misreported (hs : Lawful s) (hreported : ∀ a, s.hasAccount a = true →
    reported a = balanceOf s a) (hcovered : ∀ account ∈ s.accounts.rows,
      s.accountBalances.find? account.id = none → computedBalance s account.id = 0) :
    (driftedAccounts s).length = (misreported s reported).length := by
  apply List.Perm.length_eq
  apply (List.perm_ext_iff_of_nodup nodup_driftedAccounts nodup_misreported).mpr
  intro a
  constructor
  · exact misreported_of_drifted hs hreported
  · intro ha
    rcases drifted_of_misreported hreported ha with hdrifted | ⟨hnone, hne⟩
    · exact hdrifted
    · obtain ⟨hsome, -⟩ := mem_misreported.mp ha
      obtain ⟨account, hfind⟩ := Option.isSome_iff_exists.mp hsome
      obtain rfl := Table.key_of_find? hfind
      exact absurd (hcovered account (Table.mem_of_find? hfind) hnone) hne

/-- An account that escapes the audit is missing from its count. -/
theorem length_lt_misreported (hs : Lawful s) (hreported : ∀ a, s.hasAccount a = true →
    reported a = balanceOf s a) {account : Account} (ha : account ∈ s.accounts.rows)
    (hnone : s.accountBalances.find? account.id = none) (hne : computedBalance s account.id ≠ 0) :
    (driftedAccounts s).length < (misreported s reported).length := by
  have hsome : s.hasAccount account.id = true := by
    simp [Database.hasAccount, Table.find?_of_mem ha]
  have hself : account.id ∈ misreported s reported := by
    refine mem_misreported.mpr ⟨hsome, ?_⟩
    have hzero : balanceOf s account.id = 0 := by simp [balanceOf, hnone]
    rw [hreported _ hsome, hzero]
    exact Ne.symm hne
  have hnot : account.id ∉ driftedAccounts s := by
    intro hmem
    obtain ⟨row, hrow, -⟩ := mem_driftedAccounts.mp hmem
    rw [hnone] at hrow
    contradiction
  have hsub : account.id :: driftedAccounts s ⊆ misreported s reported := by
    intro b hb
    rcases List.mem_cons.mp hb with rfl | hb
    · exact hself
    · exact misreported_of_drifted hs hreported hb
  exact (List.subperm_of_subset (List.nodup_cons.mpr ⟨hnot, nodup_driftedAccounts⟩) hsub).length_le

/-- The audit is sound and complete exactly when every account without a balance row has
entries that add up to 0. -/
theorem audit_truthful_iff (hs : Lawful s) :
    (∃ r, Returns auditIntegrity s r) ∧
    (∀ account ∈ s.accounts.rows, ∃ b, Returns (getBalance account.id) s b) ∧
    ∀ r reported, Returns auditIntegrity s r →
      (∀ account ∈ s.accounts.rows, ∃ b, Returns (getBalance account.id) s b ∧
        reported account.id = b.balance) →
      (Truthful s reported r ↔ ∀ account ∈ s.accounts.rows,
        s.accountBalances.find? account.id = none → computedBalance s account.id = 0) := by
  refine ⟨⟨_, (returns_audit_iff _).mpr rfl⟩,
    fun account ha => ⟨_, (returns_balance_iff ha _).mpr rfl⟩, ?_⟩
  intro r reported hr hb
  have hreported : ∀ a, s.hasAccount a = true → reported a = balanceOf s a := by
    intro a ha
    obtain ⟨account, hfind⟩ := Option.isSome_iff_exists.mp ha
    obtain rfl := Table.key_of_find? hfind
    obtain ⟨b, hreturns, hsame⟩ := hb account (Table.mem_of_find? hfind)
    rw [hsame, (returns_balance_iff (Table.mem_of_find? hfind) b).mp hreturns]
  have hlength : (misreported s reported).length = (s.accounts.rows.filter fun account =>
      reported account.id ≠ computedBalance s account.id).length := List.length_map ..
  rw [(returns_audit_iff r).mp hr]
  constructor
  · intro htruth account ha hnone
    by_contra hne
    have hlt := length_lt_misreported hs hreported ha hnone hne
    have hcount : (driftedAccounts s).length = _ := htruth.count
    omega
  · intro hcovered
    have hsame := (length_misreported hs hreported hcovered).trans hlength
    refine ⟨?_, hsame⟩
    have hnet : ledgerNet s = 0 ↔ totalOf .debit s = totalOf .credit s := by
      rw [ledgerNet_eq]
      omega
    rw [decide_eq_true_eq, hnet, hsame, List.length_eq_zero_iff, List.filter_eq_nil_iff]
    simp

end Agreement

section Sample

/-- One transaction of 50 from account 2 to account 3, whose balance rows are gone. -/
def strayDatabase : Database :=
  { sampleDatabase with
    accountBalances := .empty _
    ledgerTransactions := ⟨[⟨9, .payment, 10⟩], by decide⟩
    ledgerEntries := ⟨[⟨9, 0, 2, .debit, 50⟩, ⟨9, 1, 3, .credit, 50⟩], by decide⟩ }

theorem lawful_sample : Lawful sampleDatabase := ⟨by decide, by decide⟩

theorem lawful_stray : Lawful strayDatabase := ⟨by decide, by decide⟩

/-- The sample has a balance without entries, which the audit reports. -/
theorem audit_truthful_iff_sample :
    ∃ r, Returns auditIntegrity sampleDatabase r ∧ r.driftedAccountsCount = 1 ∧
      Truthful sampleDatabase (balanceOf sampleDatabase) r := by
  obtain ⟨⟨r, hr⟩, -, htruthful⟩ := audit_truthful_iff lawful_sample
  refine ⟨r, hr, ?_, (htruthful r _ hr ?_).mpr (by decide)⟩
  · rw [(returns_audit_iff r).mp hr]
    decide
  · intro account ha
    exact ⟨_, (returns_balance_iff ha _).mpr rfl, rfl⟩

/-- The audit gives the all-clear although the API reports 0 for two accounts with entries. -/
theorem audit_misses_lost_rows :
    ¬ ∀ (s : Database) (r : IntegrityResponse) (reported : Uuid → ℤ), Lawful s →
      Returns auditIntegrity s r →
      (∀ account ∈ s.accounts.rows, ∃ b, Returns (getBalance account.id) s b ∧
        reported account.id = b.balance) → Truthful s reported r := by
  intro hall
  have htruth := hall strayDatabase ⟨true, 0, 0⟩ (balanceOf strayDatabase) lawful_stray
    ((returns_audit_iff _).mpr (by decide)) fun account ha => ⟨_, (returns_balance_iff ha _).mpr rfl, rfl⟩
  have hzero := (htruth.balanced.mp rfl).2 ⟨3, "USD"⟩ (by decide)
  exact absurd hzero (by decide)

end Sample

end ApexPayments.Service
