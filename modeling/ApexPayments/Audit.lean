import ApexPayments.Refunds

/-!
The journal and the balances derived from it. `auditIntegrity` recomputes both sums;
every posted transaction adds the same amounts to an account's balance and to its
entries, so the two never drift apart and the deferred trigger has nothing to reject.
-/
namespace ApexPayments.Service

open Domain Store Ledger Payments Webhooks RowLocking DoubleEntry

section Reports

structure IntegrityResponse where
  balanced : Bool
  ledgerNet : ℤ
  driftedAccountsCount : ℕ
  deriving DecidableEq

/-- Debits minus credits over the whole journal. -/
def ledgerNet (s : Database) : ℤ :=
  s.ledgerEntries.sum fun e => if e.direction = .debit then e.amount else -e.amount

/-- Credits minus debits of one account. -/
def computedBalance (s : Database) (a : Uuid) : ℤ :=
  s.ledgerEntries.sum fun e =>
    if e.accountId = a then if e.direction = .credit then e.amount else -e.amount else 0

def driftedAccounts (s : Database) : List Uuid :=
  (s.accountBalances.rows.filter fun r => r.balance ≠ computedBalance s r.accountId).map
    AccountBalance.accountId

/-- The two queries of the audit; each may see a different committed state. -/
def auditIntegrity : Program IntegrityResponse := do
  let net ← Prog.select (B := backend) ledgerNet
  let drifted ← Prog.select (B := backend) driftedAccounts
  pure ⟨net = 0 ∧ drifted.length = 0, net, drifted.length⟩

/-- How far the balance of an account is from its entries. -/
def drift (s : Database) (a : Uuid) : ℤ := balanceOf s a - computedBalance s a

def debits (ps : List Posting) : ℤ :=
  (ps.map fun p => if p.direction = .debit then p.amount else 0).sum

def credits (ps : List Posting) : ℤ :=
  (ps.map fun p => if p.direction = .credit then p.amount else 0).sum

/-- A posting list that double entry accepts. -/
structure WellPosted (ps : List Posting) : Prop where
  length : 2 ≤ ps.length
  positive : ∀ p ∈ ps, 0 < p.amount
  balanced : debits ps = credits ps

theorem imbalance_moves (ps : List Posting) : imbalance (moves ps) = credits ps - debits ps := by
  induction ps with
  | nil => rfl
  | cons p ps ih =>
    have hcons : imbalance (moves (p :: ps)) = signed p + imbalance (moves ps) := rfl
    rw [hcons, ih]
    cases hd : p.direction <;> simp [credits, debits, signed, hd] <;> ring

theorem wellPosted_of_valid {ps : List Posting} (h : validateBalanced ps = .ok ()) :
    WellPosted ps := by
  obtain ⟨hlen, hpos, himb⟩ := validateBalanced_ok h
  rw [imbalance_moves] at himb
  exact ⟨hlen, hpos, by omega⟩

end Reports

section Posting

theorem ledgerNet_entriesOf (id : Uuid) (n : ℕ) (ps : List Posting) :
    ((entriesOf id n ps).map fun e =>
      if e.direction = .debit then e.amount else -e.amount).sum = -imbalance (moves ps) := by
  induction ps generalizing n with
  | nil => rfl
  | cons p ps ih =>
    have hcons : imbalance (moves (p :: ps)) = signed p + imbalance (moves ps) := rfl
    simp only [entriesOf, List.map_cons, List.sum_cons, ih, hcons, entryOf]
    cases hd : p.direction <;> simp [signed, hd] <;> ring

theorem computed_entriesOf (id : Uuid) (n : ℕ) (ps : List Posting) (a : Uuid) :
    ((entriesOf id n ps).map fun e => if e.accountId = a then
      if e.direction = .credit then e.amount else -e.amount else 0).sum = net (moves ps) a := by
  induction ps generalizing n with
  | nil => rfl
  | cons p ps ih =>
    have hcons : moves (p :: ps) = (p.accountId, signed p) :: moves ps := rfl
    simp only [entriesOf, List.map_cons, List.sum_cons, ih, hcons, net_cons, entryOf]
    by_cases ha : p.accountId = a
    · cases hd : p.direction <;> simp [ha, signed, hd]
    · simp [ha]

variable {s s' : Database} {txn : LedgerTransaction} {ps : List Posting}

theorem ledgerNet_posted (h : Posted s s' txn ps) : ledgerNet s' = ledgerNet s := by
  have himb := (validateBalanced_ok h.balanced).2.2
  unfold ledgerNet Table.sum
  rw [h.entries, List.map_append, List.sum_append, ledgerNet_entriesOf, himb]
  simp

theorem drift_posted (h : Posted s s' txn ps) (a : Uuid) : drift s' a = drift s a := by
  have hcomputed : computedBalance s' a = computedBalance s a + net (moves ps) a := by
    unfold computedBalance Table.sum
    rw [h.entries, List.map_append, List.sum_append, computed_entriesOf]
  unfold drift
  rw [hcomputed, h.balance]
  ring

end Posting

section Invariant

/-- What the journal of `s` keeps of the journal that a run began with. -/
structure Audited (db s : Database) : Prop where
  known : EntriesKnown s
  net : ledgerNet s = ledgerNet db
  drift : ∀ a, drift s a = drift db a
  created : ∀ t ∈ s.ledgerTransactions.rows,
    t ∈ db.ledgerTransactions.rows ∨ WellPosted (postingsOf s t.id)

theorem audited_sameLedger {db s s' : Database} (h : Audited db s) (hs : SameLedger s s') :
    Audited db s' := by
  have hb : ∀ a, Service.drift s' a = Service.drift s a := by
    intro a
    unfold Service.drift balanceOf computedBalance
    rw [hs.balances, hs.entries]
  have hp : ∀ t, postingsOf s' t = postingsOf s t := by
    intro t
    unfold postingsOf
    rw [hs.entries]
  refine ⟨?_, ?_, fun a => (hb a).trans (h.drift a), ?_⟩
  · unfold EntriesKnown
    rw [hs.entries, hs.txns]
    exact h.known
  · unfold ledgerNet
    rw [hs.entries]
    exact h.net
  · rw [hs.txns]
    intro t ht
    rw [hp]
    exact h.created t ht

theorem audited_posted {db s s' : Database} {txn : LedgerTransaction} {ps : List Posting}
    (h : Audited db s) (hp : Posted s s' txn ps) : Audited db s' := by
  refine ⟨entriesKnown_posted hp h.known, (ledgerNet_posted hp).trans h.net,
    fun a => (drift_posted hp a).trans (h.drift a), ?_⟩
  intro t ht
  rcases (find_txn_posted hp t).mp ht with ht | rfl
  · refine (h.created t ht).imp_right fun hw => ?_
    have hne : t.id ≠ txn.id := by
      intro he
      have hsome := Table.find?_of_mem ht
      rw [he, hp.fresh] at hsome
      contradiction
    rw [postingsOf_posted hp hne]
    exact hw
  · refine Or.inr ?_
    rw [postingsOf_new hp h.known]
    exact wellPosted_of_valid hp.balanced

theorem audited_change {P : Call → Prop} {db s s' : Database} {used used' : List Uuid}
    (h : Audited db s) (hc : Change P s used s' used') : Audited db s' := by
  rcases hc.ledger with hs | ⟨txn, ps, s₁, s₂, hs, hp, hs'⟩
  · exact audited_sameLedger h hs
  · exact audited_sameLedger (audited_posted (audited_sameLedger h hs) hp) hs'

/-- The audit finds nothing in states without drift. -/
theorem auditIntegrity_ensures {F : Frame backend}
    (hnet : ∀ s, F.Sees s → ledgerNet s = 0) (hdrift : ∀ s, F.Sees s → ∀ a, drift s a = 0) :
    auditIntegrity.Ensures F (.fresh backend)
      (Stop.Ends (fun _ _ => False) fun r _ => r = ⟨true, 0, 0⟩) := by
  unfold auditIntegrity
  refine Prog.Ensures.select ?_
  intro s hs
  refine Prog.Ensures.select ?_
  intro t ht
  refine Prog.Ensures.pure ?_
  have hnone : driftedAccounts t = [] := by
    refine List.map_eq_nil_iff.mpr (List.filter_eq_nil_iff.mpr ?_)
    intro r hr
    have hzero := hdrift t ht.1 r.accountId
    rw [drift, balanceOf_of_find (Table.find?_of_mem hr)] at hzero
    simp only [ne_eq, decide_not, Bool.not_eq_true', decide_eq_false_iff_not, not_not]
    omega
  have hz : ledgerNet s = 0 := hnet s hs.1
  change (⟨ledgerNet s = 0 ∧ (driftedAccounts t).length = 0, ledgerNet s,
    (driftedAccounts t).length⟩ : IntegrityResponse) = _
  simp [hz, hnone]

end Invariant

section Trigger

variable {ext : Externals}

theorem untriggered_of_failing {F : Frame backend} {h : Head} {e : Exn}
    (hf : Failing ext F h e) : Untriggered F e := by
  cases hf with
  | create k req hc ht hf => exact hf.1
  | resolve k req p ws result hc hws ht hf => exact hf.1
  | refund k id req hc hf => exact hf
  | webhook rawBody signature hc hf => exact hf.1
  | expire timeoutMinutes hc hf => exact hf.1
  | post type referenceId postings hc hf => exact hf

/-- The deferred trigger accepts the commit of every process. -/
theorem trigger_accepts {P : Call → Prop} {σ : State} (hrunning : Running ext P anyKey σ)
    (hknown : EntriesKnown σ.db) {pid : ℕ} {p : Process backend Call Reply}
    {next : Program Reply} (hp : σ.procs pid = some p) (hnext : p.prog = .commit next)
    (hpending : p.session.pending = []) :
    (view σ.db p.session.flushed).assertLedgerBalanced
      (p.session.flushed.filterMap Write.inserted) = none := by
  cases hd : (view σ.db p.session.flushed).assertLedgerBalanced
    (p.session.flushed.filterMap Write.inserted) with
  | none => rfl
  | some e =>
    obtain ⟨i, n, rfl⟩ := assertLedgerBalanced_error hd
    have hreplay := (hrunning.sound.replayed pid p hp).replay
    have hrun := runs_of_replay (o := .raised (Exn.ledgerUnbalanced i n) p.session)
      hreplay (by
      rw [hnext]
      refine ⟨hpending, ?_⟩
      simp only [hd])
    have hstage := hrunning.owned.stage pid p.toHeader (System.toAtomic_heads hp)
    have hactive := (System.base_active hreplay (by simp [hnext]) (by simp [hnext])).2
    exact absurd rfl (untriggered_of_failing (failing_of_stage hstage hactive hrun) hknown i n)

end Trigger

section Claim

variable {ext : Externals} {db : Database} {spent : List Uuid} {σ : State}

/-- Balances never drift from the journal, and neither trigger nor audit objects. -/
theorem balances_never_drift (hentries : EntriesKnown db)
    (h : System.Run (program ext) (Starts fun _ => True) (System.initial db spent) σ) :
    (∀ a, drift σ.db a = drift db a) ∧
    (∀ t ∈ σ.db.ledgerTransactions.rows, t ∉ db.ledgerTransactions.rows →
      WellPosted (postingsOf σ.db t.id)) ∧
    (∀ pid p next, σ.procs pid = some p → p.prog = .commit next → p.session.pending = [] →
      (view σ.db p.session.flushed).assertLedgerBalanced
        (p.session.flushed.filterMap Write.inserted) = none) ∧
    (ledgerNet db = 0 → (∀ a, drift db a = 0) → ∀ F : Frame backend,
      (∀ s, F.Sees s → ∃ σ, σ.db = s ∧
        System.Run (program ext) (Starts fun _ => True) (System.initial db spent) σ) →
      auditIntegrity.Ensures F (.fresh backend)
        (Stop.Ends (fun _ _ => False) fun r _ => r = ⟨true, 0, 0⟩)) := by
  have hinit : Audited db db := ⟨hentries, rfl, fun _ => rfl, fun _ ht => Or.inl ht⟩
  have haudited : ∀ σ, System.Run (program ext) (Starts fun _ => True)
      (System.initial db spent) σ → Audited db σ.db := fun σ h =>
    invariant_of_run (fun _ _ _ _ => audited_change) hinit h
  have hσ := haudited σ h
  refine ⟨hσ.drift, fun t ht hnew => (hσ.created t ht).resolve_left hnew, ?_, ?_⟩
  · intro pid p next hp hnext hpending
    exact trigger_accepts (changes_of_run (running_initial db spent) h).1 hσ.known hp hnext hpending
  · intro hnet hdrift F hF
    refine auditIntegrity_ensures ?_ ?_
    · intro s hs
      obtain ⟨σ', rfl, hrun⟩ := hF s hs
      exact (haudited σ' hrun).net.trans hnet
    · intro s hs a
      obtain ⟨σ', rfl, hrun⟩ := hF s hs
      exact ((haudited σ' hrun).drift a).trans (hdrift a)

/-- The captured payment of 50 is paid for in the balances and in the journal. -/
theorem balances_never_drift_sample :
    ∃ σ, System.Run (program sampleExternals) (Starts fun _ => True)
        (System.initial sampleDatabase []) σ ∧
      (balanceOf σ.db 2, balanceOf σ.db 3, computedBalance σ.db 2, computedBalance σ.db 3) =
        (50, 50, -50, 50) ∧
      ∀ a, drift σ.db a = drift sampleDatabase a := by
  obtain ⟨σ, hrun, hsums⟩ : ∃ σ, System.Run (program sampleExternals) (Starts fun _ => True)
      (System.initial sampleDatabase []) σ ∧
      (balanceOf σ.db 2, balanceOf σ.db 3, computedBalance σ.db 2, computedBalance σ.db 3) =
        (50, 50, -50, 50) := by
    refine System.exists_run_of_exec (.start 0 (.create "key" (sampleRequest 3)) ::
      sampleSteps 0 10 68 (.ok ⟨.captured, some "psp", none⟩) 0) ?_ ?_
    · decide +kernel
    · exact starts_sample trivial
  refine ⟨σ, hrun, hsums, (balances_never_drift ?_ hrun).1⟩
  simp [EntriesKnown, sampleDatabase, Table.empty]

end Claim

end ApexPayments.Service
