import ApexPayments.Changes

/-!
The ledger transactions of a payment as a list in the order of posting. The status
of a payment determines this history, so no payment is settled or reversed twice.
-/
namespace ApexPayments.Service

open Domain Store Ledger Payments Webhooks RowLocking

section Histories

/-- The postings of one ledger transaction, read back from the journal. -/
def postingsOf (s : Database) (transactionId : Uuid) : List Posting :=
  (s.ledgerEntries.rows.filter fun e => e.transactionId = transactionId).map fun e =>
    ⟨e.accountId, e.direction, e.amount⟩

/-- All ledger transactions with a reference, in the order in which they were posted. -/
def history (s : Database) (referenceId : Uuid) : List (TransactionType × List Posting) :=
  (s.ledgerTransactions.rows.filter fun t => t.referenceId = referenceId).map fun t =>
    (t.type, postingsOf s t.id)

theorem postings_entriesOf (id : Uuid) (n : ℕ) (ps : List Posting) :
    ((entriesOf id n ps).filter fun e => e.transactionId = id).map
      (fun e => (⟨e.accountId, e.direction, e.amount⟩ : Posting)) = ps := by
  induction ps generalizing n with
  | nil => rfl
  | cons p ps ih =>
    rw [entriesOf, List.filter_cons_of_pos (by simp [entryOf]), List.map_cons, ih]
    rfl

theorem postingsOf_posted {s s' : Database} {txn : LedgerTransaction} {ps : List Posting}
    (h : Posted s s' txn ps) {t : Uuid} (ht : t ≠ txn.id) : postingsOf s' t = postingsOf s t := by
  unfold postingsOf
  rw [h.entries, List.filter_append, List.map_append]
  have hnone : (entriesOf txn.id 0 ps).filter (fun e => decide (e.transactionId = t)) = [] := by
    refine List.filter_eq_nil_iff.mpr ?_
    intro e he
    rw [transactionId_of_mem_entriesOf he]
    simpa using Ne.symm ht
  rw [hnone]
  exact List.append_nil _

theorem postingsOf_new {s s' : Database} {txn : LedgerTransaction} {ps : List Posting}
    (h : Posted s s' txn ps) (hk : EntriesKnown s) : postingsOf s' txn.id = ps := by
  unfold postingsOf
  rw [h.entries, List.filter_append, List.map_append, postings_entriesOf]
  have hnone : s.ledgerEntries.rows.filter (fun e => decide (e.transactionId = txn.id)) = [] := by
    refine List.filter_eq_nil_iff.mpr ?_
    intro e he
    have hsome := hk e he
    simp only [decide_eq_true_eq]
    intro he'
    rw [he', h.fresh] at hsome
    contradiction
  rw [hnone]
  rfl

/-- A posted transaction goes to the end of the history of its reference. -/
theorem history_posted {s s' : Database} {txn : LedgerTransaction} {ps : List Posting}
    (h : Posted s s' txn ps) (hk : EntriesKnown s) (ref : Uuid) :
    history s' ref =
      history s ref ++ if txn.referenceId = ref then [(txn.type, ps)] else [] := by
  have hold : (s.ledgerTransactions.rows.filter fun t => t.referenceId = ref).map
      (fun t => (t.type, postingsOf s' t.id)) = history s ref := by
    refine List.map_congr_left ?_
    intro t ht
    have hmem := (List.mem_filter.mp ht).1
    have hne : t.id ≠ txn.id := by
      intro he
      have hsome := Table.find?_of_mem hmem
      rw [he, h.fresh] at hsome
      contradiction
    rw [postingsOf_posted h hne]
  unfold history at hold ⊢
  rw [h.txns, List.filter_append, List.map_append, hold]
  congr 1
  by_cases href : txn.referenceId = ref
  · simp [href, postingsOf_new h hk]
  · simp [href]

theorem history_transferred {t : Transfer} {txn : LedgerTransaction} {event : Outbox}
    {s s' : Database} (h : Transferred t txn event s s') (hk : EntriesKnown s) (ref : Uuid) :
    history s' ref = history s ref ++ if t.reference = ref then [(t.type, t.postings)] else [] := by
  obtain ⟨s₁, hp, rfl⟩ := h.posted
  have hhist := history_posted hp hk ref
  rw [h.reference, h.type] at hhist
  exact hhist

theorem entriesKnown_transferred {t : Transfer} {txn : LedgerTransaction} {event : Outbox}
    {s s' : Database} (h : Transferred t txn event s s') (hk : EntriesKnown s) :
    EntriesKnown s' := by
  obtain ⟨s₁, hp, rfl⟩ := h.posted
  have hk₁ : EntriesKnown s₁ := entriesKnown_posted hp hk
  exact hk₁

/-- The references of the ledger are identifiers already drawn. -/
def ReferencesUsed (s : Database) (used : List Uuid) : Prop :=
  ∀ t ∈ s.ledgerTransactions.rows, t.referenceId ∈ used

theorem referencesUsed_transferred {t : Transfer} {txn : LedgerTransaction} {event : Outbox}
    {s s' : Database} {used used' : List Uuid} (h : Transferred t txn event s s')
    (hr : ReferencesUsed s used) (hsub : ∀ i ∈ used, i ∈ used') (ht : t.reference ∈ used') :
    ReferencesUsed s' used' := by
  obtain ⟨s₁, hp, rfl⟩ := h.posted
  intro x hx
  rcases (find_txn_posted hp x).mp hx with hx | rfl
  · exact hsub _ (hr x hx)
  · rw [h.reference]
    exact ht

/-- A reference that is new has no history. -/
theorem history_unused {s : Database} {used : List Uuid} (hr : ReferencesUsed s used) {ref : Uuid}
    (h : ref ∉ used) : history s ref = [] := by
  unfold history
  rw [List.map_eq_nil_iff, List.filter_eq_nil_iff]
  intro t ht
  simp only [decide_eq_true_eq]
  rintro rfl
  exact h (hr t ht)

end Histories

section Payments

def holdEntry (p : Payment) : TransactionType × List Posting :=
  (.payment, [⟨p.payerAccount, .debit, p.amount⟩, ⟨suspenseAccountId, .credit, p.amount⟩])

def settleEntry (p : Payment) : TransactionType × List Posting :=
  (.payment, [⟨suspenseAccountId, .debit, p.amount⟩, ⟨p.payeeAccount, .credit, p.amount⟩])

def reversalEntry (p : Payment) : TransactionType × List Posting :=
  (.reversal, [⟨suspenseAccountId, .debit, p.amount⟩, ⟨p.payerAccount, .credit, p.amount⟩])

/-- The history that the status of a payment calls for; no other status occurs. -/
def expectedHistory (p : Payment) : Option (List (TransactionType × List Posting)) :=
  match p.status with
  | .processing => some [holdEntry p]
  | .authorized => some [holdEntry p]
  | .succeeded => some [holdEntry p, settleEntry p]
  | .refunded => some [holdEntry p, settleEntry p]
  | .failed => some [holdEntry p, reversalEntry p]
  | _ => none

structure Histories (s : Database) (used : List Uuid) : Prop where
  known : EntriesKnown s
  references : ReferencesUsed s used
  ids : ∀ p ∈ s.payments.rows, p.id ∈ used
  histories : ∀ p ∈ s.payments.rows, some (history s p.id) = expectedHistory p

theorem Histories.booked {s s' : Database} {used : List Uuid} (h : Histories s used)
    (hs : SameBooks s s') (ids : List Uuid) : Histories s' (ids ++ used) := by
  unfold SameBooks at hs
  rw [hs]
  refine ⟨h.known, ?_, ?_, h.histories⟩
  · exact fun t ht => List.mem_append_right _ (h.references t ht)
  · exact fun p hp => List.mem_append_right _ (h.ids p hp)

/-- One payment row changes together with a transfer for it. -/
theorem Histories.transferred {s s' : Database} {used used' : List Uuid} {q : Payment}
    {t : Transfer} {txn : LedgerTransaction} {event : Outbox} (h : Histories s used)
    (ht : Transferred t txn event (s.put (.payment q)) s') (hsub : ∀ i ∈ used, i ∈ used')
    (href : t.reference = q.id) (hq : q.id ∈ used')
    (hself : some (history s q.id ++ [(t.type, t.postings)]) = expectedHistory q) :
    Histories s' used' := by
  have hk : EntriesKnown (s.put (.payment q)) := h.known
  have hrefs : ReferencesUsed (s.put (.payment q)) used := h.references
  have hhist : ∀ ref, history s' ref =
      history s ref ++ if t.reference = ref then [(t.type, t.postings)] else [] := by
    intro ref
    have heq := history_transferred ht hk ref
    exact heq
  refine ⟨entriesKnown_transferred ht hk, referencesUsed_transferred ht hrefs hsub ?_, ?_, ?_⟩
  · rw [href]
    exact hq
  · rw [ht.same.payments]
    intro p hp
    rcases (s.payments.mem_put q p).mp hp with rfl | ⟨hp, _⟩
    · exact hq
    · exact hsub _ (h.ids p hp)
  · rw [ht.same.payments]
    intro p hp
    rcases (s.payments.mem_put q p).mp hp with rfl | ⟨hp, hne⟩
    · rw [hhist, if_pos href]
      exact hself
    · rw [hhist, if_neg (by rw [href]; exact Ne.symm hne), List.append_nil]
      exact h.histories p hp

theorem Histories.change {s s' : Database} {used used' : List Uuid} (h : Histories s used)
    (hc : Change Call.isService s used s' used') : Histories s' used' := by
  cases hc with
  | booked _ ids hs => exact h.booked hs ids
  | opened k req createdAt p txn event _ hP hp hfresh hid htxn hevent ht =>
    refine h.transferred ht (fun i hi => by simp [hi]) rfl (by simp) ?_
    rw [history_unused h.references hid, hp]
    rfl
  | moved p q ids _ hfound hguard hm =>
    have hmem := Table.mem_of_find? hfound
    have hused : p.id ∈ used := h.ids p hmem
    have hhist : history s p.id = [holdEntry p] := by
      have heq := h.histories p hmem
      rcases hguard with hst | hst <;> rw [expectedHistory, hst] at heq <;>
        exact Option.some.inj heq
    cases hm with
    | settled r txn event _ ht he hm =>
      refine h.transferred hm (fun i hi => by simp [hi]) rfl (by simp [settled, hused]) ?_
      exact congrArg some (congrArg (· ++ [settleEntry p]) hhist)
    | reversed txn event _ ht he hm =>
      refine h.transferred hm (fun i hi => by simp [hi]) rfl (by simp [reversed, hused]) ?_
      exact congrArg some (congrArg (· ++ [reversalEntry p]) hhist)
    | awaiting r =>
      refine ⟨h.known, h.references, ?_, ?_⟩
      · intro x hx
        rcases (s.payments.mem_put (awaiting r p) x).mp hx with rfl | ⟨hx, _⟩
        · exact hused
        · exact h.ids x hx
      · intro x hx
        rcases (s.payments.mem_put (awaiting r p) x).mp hx with rfl | ⟨hx, _⟩
        · exact congrArg some hhist
        · exact h.histories x hx
  | refunded p r txn event _ createdAt hamount hr hfound hstatus hcap hfresh hid htxn hevent ht =>
    have hmem := Table.mem_of_find? hfound
    have hk : EntriesKnown ((s.put (.refund r)).put (.payment (refunded r.amount p))) := h.known
    have hother : ∀ i ∈ used, history s' i = history s i := by
      intro i hi
      have heq := history_transferred ht hk i
      have hne : (refundOf p r).reference ≠ i := by
        rintro rfl
        exact hid hi
      rw [if_neg hne, List.append_nil] at heq
      exact heq
    refine ⟨entriesKnown_transferred ht hk,
      referencesUsed_transferred ht h.references (fun i hi => by simp [hi]) ?_, ?_, ?_⟩
    · change r.id ∈ _
      simp
    · rw [ht.same.payments]
      intro x hx
      rcases (s.payments.mem_put (refunded r.amount p) x).mp hx with rfl | ⟨hx, _⟩
      · simp [refunded, h.ids p hmem]
      · simp [h.ids x hx]
    · rw [ht.same.payments]
      intro x hx
      rcases (s.payments.mem_put (refunded r.amount p) x).mp hx with rfl | ⟨hx, _⟩
      · change some (history s' p.id) = _
        rw [hother p.id (h.ids p hmem), h.histories p hmem]
        rcases hstatus with hst | hst
        · unfold expectedHistory refunded
          rw [hst]
          split_ifs <;> rfl
        · have heq := h.histories p hmem
          rw [expectedHistory, hst] at heq
          contradiction
      · rw [hother x.id (h.ids x hx)]
        exact h.histories x hx
  | posted type referenceId postings txn _ hP htype href htxn hp => exact hP.elim
  | published ev t hfound hnew => exact ⟨h.known, h.references, h.ids, h.histories⟩

end Payments

section Claim

variable {ext : Externals} {db : Database} {spent : List Uuid} {σ : State}

/-- The status of every payment determines the ledger transactions that refer to it. -/
theorem status_determines_history (hpayments : db.payments.rows = []) (hentries : EntriesKnown db)
    (hspent : ReferencesUsed db spent)
    (h : System.Run (program ext) (Starts Call.isService) (System.initial db spent) σ) :
    ∀ p ∈ σ.db.payments.rows, some (history σ.db p.id) = expectedHistory p := by
  have hinit : Histories db spent := by
    refine ⟨hentries, hspent, ?_, ?_⟩ <;> simp [hpayments]
  exact (invariant_of_run (fun _ _ _ _ => Histories.change) hinit h).histories

/-- A payment of 50 that is captured at once. -/
theorem status_determines_history_sample :
    ∃ σ, System.Run (program sampleExternals) (Starts Call.isService)
        (System.initial sampleDatabase []) σ ∧
      σ.db.payments.rows.map (·.status) = [.succeeded] ∧
      ∀ p ∈ σ.db.payments.rows, some (history σ.db p.id) = expectedHistory p := by
  obtain ⟨σ, hrun, hstatus⟩ : ∃ σ, System.Run (program sampleExternals) (Starts Call.isService)
      (System.initial sampleDatabase []) σ ∧ σ.db.payments.rows.map (·.status) = [.succeeded] := by
    refine System.exists_run_of_exec (.start 0 (.create "key" (sampleRequest 3)) ::
      sampleSteps 0 10 68 (.ok ⟨.captured, some "psp", none⟩) 0) ?_ ?_
    · decide +kernel
    · exact starts_sample (P := Call.isService) trivial
  refine ⟨σ, hrun, hstatus, status_determines_history rfl ?_ ?_ hrun⟩
  · simp [EntriesKnown, sampleDatabase, Table.empty]
  · simp [ReferencesUsed, sampleDatabase, Table.empty]

end Claim

end ApexPayments.Service
