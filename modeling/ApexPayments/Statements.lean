import ApexPayments.BalanceReports
import ApexPayments.Batches
import ApexPayments.Publishing

/-!
Statements of account. Between any two states of a run the journal only grows, by the entries of
whole and balanced transactions, and these entries explain how the balance and the version of
every account have changed in between.
-/
namespace ApexPayments.Service

open Domain Store Ledger RowLocking DoubleEntry

section Statements

/-- Posted transactions, each with its postings. -/
abbrev Batches := List (LedgerTransaction × List Posting)

def Batches.postings (batches : Batches) : List Posting := batches.flatMap Prod.snd

def Batches.entries (batches : Batches) : List LedgerEntry :=
  batches.flatMap fun b => entriesOf b.1.id 0 b.2

/-- The transactions that have been posted between two states. -/
structure Statement (s s' : Database) (batches : Batches) : Prop where
  txns : s'.ledgerTransactions.rows = s.ledgerTransactions.rows ++ batches.map Prod.fst
  entries : s'.ledgerEntries.rows = s.ledgerEntries.rows ++ batches.entries
  posted : ∀ b ∈ batches, WellPosted b.2
  balance : ∀ a, balanceOf s' a = balanceOf s a + net (moves batches.postings) a
  version : ∀ a, versionOf s' a = versionOf s a + uses batches.postings a

variable {s s' s'' : Database} {batches batches' : Batches}

theorem Batches.postings_append (batches batches' : Batches) :
    Batches.postings (batches ++ batches') = batches.postings ++ batches'.postings :=
  List.flatMap_append

theorem Batches.entries_append (batches batches' : Batches) :
    Batches.entries (batches ++ batches') = batches.entries ++ batches'.entries :=
  List.flatMap_append

theorem Statement.trans (h : Statement s s' batches) (h' : Statement s' s'' batches') :
    Statement s s'' (batches ++ batches') := by
  constructor
  · rw [h'.txns, h.txns, List.map_append, List.append_assoc]
  · rw [h'.entries, h.entries, Batches.entries_append, List.append_assoc]
  · intro b hb
    rcases List.mem_append.mp hb with hb | hb
    · exact h.posted b hb
    · exact h'.posted b hb
  · intro a
    rw [h'.balance a, h.balance a, Batches.postings_append, net_moves_append, add_assoc]
  · intro a
    have hv := h.version a
    have hv' := h'.version a
    rw [Batches.postings_append, uses_append]
    omega

theorem statement_sameLedger (h : SameLedger s s') : Statement s s' [] := by
  have hbalances : ∀ a, s'.accountBalances.find? a = s.accountBalances.find? a := by
    rw [h.balances]
    exact fun _ => rfl
  constructor
  · rw [h.txns]
    exact (List.append_nil _).symm
  · rw [h.entries]
    exact (List.append_nil _).symm
  · exact fun _ hb => absurd hb List.not_mem_nil
  · intro a
    unfold balanceOf
    rw [hbalances a]
    exact (add_zero _).symm
  · intro a
    unfold versionOf
    rw [hbalances a]
    exact (add_zero _).symm

theorem statement_posted {txn : LedgerTransaction} {ps : List Posting} (h : Posted s s' txn ps) :
    Statement s s' [(txn, ps)] := by
  have hpostings : Batches.postings [(txn, ps)] = ps := List.append_nil ps
  have hentries : Batches.entries [(txn, ps)] = entriesOf txn.id 0 ps := List.append_nil _
  refine ⟨h.txns, ?_, ?_, ?_, ?_⟩
  · rw [hentries]
    exact h.entries
  · intro b hb
    rw [List.mem_singleton.mp hb]
    exact wellPosted_of_valid h.balanced
  · rw [hpostings]
    exact h.balance
  · rw [hpostings]
    exact h.version

theorem statement_of_change {P : Call → Prop} {used used' : List Uuid}
    (hc : Change P s used s' used') : ∃ batches, Statement s s' batches := by
  rcases hc.ledger with hs | ⟨txn, ps, s₁, s₂, hs, hp, hs'⟩
  · exact ⟨[], statement_sameLedger hs⟩
  · have hposted := (statement_sameLedger hs).trans (statement_posted hp)
    exact ⟨_, hposted.trans (statement_sameLedger hs')⟩

theorem statement_of_changes {P : Call → Prop} {used used' : List Uuid}
    (h : Changes P s used s' used') : ∃ batches, Statement s s' batches := by
  induction h with
  | refl => exact ⟨[], statement_sameLedger (.refl s)⟩
  | tail s₁ used₁ s₂ used₂ _ hc ih =>
    obtain ⟨batches, hstatement⟩ := ih
    obtain ⟨batches', hstatement'⟩ := statement_of_change hc
    exact ⟨batches ++ batches', hstatement.trans hstatement'⟩

end Statements

section Runs

variable {ext : Externals} {db : Database} {spent : List Uuid} {σ σ' : State}

/-- The journal is append-only, and between any two states of a run what has been appended explains
every balance and every version, also as the API reports the balance. -/
theorem journal_append_only (h : System.Run (program ext) anyStep (System.initial db spent) σ)
    (h' : System.Run (program ext) anyStep σ σ') :
    ∃ batches, Statement σ.db σ'.db batches ∧
      ∀ account ∈ σ.db.accounts.rows, ∀ r, Returns (getBalance account.id) σ.db r →
        Returns (getBalance account.id) σ'.db
          { r with balance := r.balance + net (moves batches.postings) account.id } := by
  have hstarts := starts_of_run h'
  have hchanges := (changes_of_run (running_of_run h) hstarts).2
  obtain ⟨batches, hstatement⟩ := statement_of_changes hchanges
  refine ⟨batches, hstatement, fun account haccount r hr => ?_⟩
  rw [(returns_balance_iff haccount r).mp hr]
  have hkept : account ∈ σ'.db.accounts.rows := by
    rw [accounts_of_changes hchanges]
    exact haccount
  rw [returns_balance_iff hkept, hstatement.balance]

/-- A payment is captured in the second part of the run. -/
theorem journal_append_only_sample :
    ∃ σ σ' : State, System.Run (program sampleExternals) anyStep (System.initial sampleDatabase []) σ ∧
      System.Run (program sampleExternals) anyStep σ σ' ∧
      [σ, σ'].map (fun σ => σ.db.ledgerTransactions.rows.length) = [1, 2] ∧
      ∃ batches, Statement σ.db σ'.db batches ∧
        ∀ account ∈ σ.db.accounts.rows, ∀ r, Returns (getBalance account.id) σ.db r →
          Returns (getBalance account.id) σ'.db
            { r with balance := r.balance + net (moves batches.postings) account.id } := by
  have hexec : ((System.exec (program sampleExternals) (.start 0 (.create "key" (sampleRequest 3)) ::
      sampleSteps 0 10 40 (.ok ⟨.captured, some "psp", none⟩) 0) (System.initial sampleDatabase [])).bind
      fun σ => (System.exec (program sampleExternals)
        (sampleSteps 0 50 28 (.ok ⟨.captured, some "psp", none⟩) 0) σ).map
      fun σ' => [σ, σ'].map fun σ => σ.db.ledgerTransactions.rows.length) = some [1, 2] := by
    decide +kernel
  obtain ⟨σ, hσ, hrest⟩ := Option.bind_eq_some_iff.mp hexec
  obtain ⟨σ', hσ', hlengths⟩ := Option.map_eq_some_iff.mp hrest
  have hrun : System.Run (program sampleExternals) anyStep (System.initial sampleDatabase []) σ :=
    System.run_of_exec hσ fun _ _ _ => trivial
  have hrun' : System.Run (program sampleExternals) anyStep σ σ' :=
    System.run_of_exec hσ' fun _ _ _ => trivial
  exact ⟨σ, σ', hrun, hrun', hlengths, journal_append_only hrun hrun'⟩

end Runs

end ApexPayments.Service
