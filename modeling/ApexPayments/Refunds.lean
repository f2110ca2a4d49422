import ApexPayments.History

/-!
Refunds of one payment: the running total on the payment row, the refund rows and
the refund transactions in the ledger agree, and the total never exceeds the
amount. A payment that is refunded in full or has failed is never touched again.
-/
namespace ApexPayments.Service

open Domain Store Ledger Payments Webhooks RowLocking

section Totals

def refundTotal (s : Database) (paymentId : Uuid) : ℤ :=
  s.refunds.sum fun r => if r.paymentId = paymentId then r.amount else 0

def refundEntry (p : Payment) (r : Refund) : TransactionType × List Posting :=
  (.refund, [⟨p.payeeAccount, .debit, r.amount⟩, ⟨p.payerAccount, .credit, r.amount⟩])

/-- The three records of what has been refunded agree, within the amount of the payment. -/
structure RefundsAgree (s : Database) (p : Payment) : Prop where
  nonneg : 0 ≤ p.refundedAmount
  capped : p.refundedAmount ≤ p.amount
  rows : p.refundedAmount = refundTotal s p.id
  ledger : ∀ r ∈ s.refunds.rows, r.paymentId = p.id → history s r.id = [refundEntry p r]
  full : p.status = .refunded ↔ p.refundedAmount = p.amount
  unsettled : settleEntry p ∉ history s p.id → p.refundedAmount = 0

/-- What a refund leaves untouched of a payment row, and every move as well. -/
structure SameTerms (p q : Payment) : Prop where
  id : q.id = p.id
  payer : q.payerAccount = p.payerAccount
  payee : q.payeeAccount = p.payeeAccount
  amount : q.amount = p.amount

theorem refundEntry_sameTerms {p q : Payment} (h : SameTerms p q) (r : Refund) :
    refundEntry q r = refundEntry p r := by
  rw [refundEntry, h.payer, h.payee]
  rfl

/-- A move settles, reverses or parks a payment, and refunds nothing. -/
theorem Moved.terms {used ids : List Uuid} {s s' : Database} {p q : Payment}
    (h : Moved used s p q ids s') : SameTerms p q ∧ q.refundedAmount = p.refundedAmount ∧
      (q.status = .succeeded ∨ q.status = .failed ∨ q.status = .authorized) := by
  cases h with
  | settled r txn event _ ht he h => exact ⟨⟨rfl, rfl, rfl, rfl⟩, rfl, Or.inl rfl⟩
  | reversed txn event _ ht he h => exact ⟨⟨rfl, rfl, rfl, rfl⟩, rfl, Or.inr (Or.inl rfl)⟩
  | awaiting r => exact ⟨⟨rfl, rfl, rfl, rfl⟩, rfl, Or.inr (Or.inr rfl)⟩

theorem history_moved {used ids : List Uuid} {s s' : Database} {p q : Payment}
    (h : Moved used s p q ids s') (hk : EntriesKnown s) {ref : Uuid} (href : ref ≠ p.id) :
    history s' ref = history s ref := by
  cases h with
  | settled r txn event _ ht he h =>
    have hk₁ : EntriesKnown (s.put (.payment (settled r p))) := hk
    have heq := history_transferred h hk₁ ref
    have hne : (settleOf (settled r p) r).reference ≠ ref := Ne.symm href
    rw [if_neg hne, List.append_nil] at heq
    exact heq
  | reversed txn event _ ht he h =>
    have hk₁ : EntriesKnown (s.put (.payment (reversed p))) := hk
    have heq := history_transferred h hk₁ ref
    have hne : (reverseOf (reversed p)).reference ≠ ref := Ne.symm href
    rw [if_neg hne, List.append_nil] at heq
    exact heq
  | awaiting r => rfl

end Totals

section Invariant

/-- What the refund rows and the running total of a payment have in common. -/
structure Refunded (s : Database) (p : Payment) : Prop where
  positive : 0 < p.amount
  nonneg : 0 ≤ p.refundedAmount
  capped : p.refundedAmount ≤ p.amount
  rows : p.refundedAmount = refundTotal s p.id
  ledger : ∀ r ∈ s.refunds.rows, r.paymentId = p.id → history s r.id = [refundEntry p r]
  full : p.status = .refunded ↔ p.refundedAmount = p.amount
  unsettled : p.status ≠ .succeeded → p.status ≠ .refunded → p.refundedAmount = 0

/-- The invariant of all refunds, on top of the histories of the payments. -/
structure RefundBooks (s : Database) (used : List Uuid) : Prop where
  histories : Histories s used
  ids : ∀ r ∈ s.refunds.rows, r.id ∈ used
  owners : ∀ r ∈ s.refunds.rows, r.paymentId ∈ used
  apart : ∀ r ∈ s.refunds.rows, ∀ p ∈ s.payments.rows, r.id ≠ p.id
  each : ∀ p ∈ s.payments.rows, Refunded s p

theorem Refunded.congr {s s' : Database} {p : Payment} (h : Refunded s p)
    (hrefunds : s'.refunds = s.refunds)
    (hhist : ∀ r ∈ s.refunds.rows, history s' r.id = history s r.id) : Refunded s' p := by
  refine ⟨h.positive, h.nonneg, h.capped, ?_, ?_, h.full, h.unsettled⟩
  · rw [refundTotal, hrefunds]
    exact h.rows
  · rw [hrefunds]
    intro r hr hp
    rw [hhist r hr]
    exact h.ledger r hr hp

theorem Refunded.agree {s : Database} {p : Payment} (h : Refunded s p)
    (hhist : some (history s p.id) = expectedHistory p) : RefundsAgree s p := by
  refine ⟨h.nonneg, h.capped, h.rows, h.ledger, h.full, fun hnot => h.unsettled ?_ ?_⟩
  all_goals
    intro hst
    rw [expectedHistory, hst] at hhist
    rw [Option.some.inj hhist] at hnot
    simp at hnot

theorem refundTotal_of_unused {s : Database} {used : List Uuid} {id : Uuid}
    (howners : ∀ r ∈ s.refunds.rows, r.paymentId ∈ used) (hid : id ∉ used) :
    refundTotal s id = 0 := by
  unfold refundTotal Table.sum
  refine List.sum_eq_zero ?_
  intro x hx
  obtain ⟨r, hr, rfl⟩ := List.mem_map.mp hx
  have hne : r.paymentId ≠ id := by
    rintro rfl
    exact hid (howners r hr)
  exact if_neg hne

theorem refundTotal_put {s s' : Database} {r : Refund} (hfresh : s.refunds.find? r.id = none)
    (hs : s'.refunds = s.refunds.put r) (id : Uuid) :
    refundTotal s' id = refundTotal s id + if r.paymentId = id then r.amount else 0 := by
  unfold refundTotal
  rw [hs, Table.sum_put_new s.refunds r _ hfresh]

/-- A payment row is replaced and no refund is made. -/
theorem RefundBooks.replaced {s s' : Database} {used used' : List Uuid} {q : Payment}
    (h : RefundBooks s used) (hsub : ∀ i ∈ used, i ∈ used') (hh : Histories s' used')
    (hpayments : s'.payments = s.payments.put q) (hrefunds : s'.refunds = s.refunds)
    (hhist : ∀ r ∈ s.refunds.rows, history s' r.id = history s r.id)
    (hapart : ∀ r ∈ s.refunds.rows, r.id ≠ q.id) (hq : Refunded s q) : RefundBooks s' used' := by
  refine ⟨hh, ?_, ?_, ?_, ?_⟩
  · rw [hrefunds]
    exact fun r hr => hsub _ (h.ids r hr)
  · rw [hrefunds]
    exact fun r hr => hsub _ (h.owners r hr)
  · rw [hrefunds, hpayments]
    intro r hr p hp
    rcases (s.payments.mem_put q p).mp hp with rfl | ⟨hp, _⟩
    · exact hapart r hr
    · exact h.apart r hr p hp
  · rw [hpayments]
    intro p hp
    rcases (s.payments.mem_put q p).mp hp with rfl | ⟨hp, _⟩
    · exact hq.congr hrefunds hhist
    · exact (h.each p hp).congr hrefunds hhist

/-- A refund row, the new total and the refund transaction go in together. -/
theorem RefundBooks.refunded {s s' : Database} {used used' : List Uuid} {p : Payment} {r : Refund}
    {txn : LedgerTransaction} {event : Outbox} (h : RefundBooks s used)
    (hsub : ∀ i ∈ used, i ∈ used') (hr' : r.id ∈ used') (hh : Histories s' used')
    (hamount : 0 < r.amount) (hr : r.paymentId = p.id) (hfound : s.payments.find? p.id = some p)
    (hstatus : p.status = .succeeded ∨ p.status = .refundPending)
    (hcap : p.refundedAmount + r.amount ≤ p.amount) (hfresh : s.refunds.find? r.id = none)
    (hid : r.id ∉ used)
    (ht : Transferred (refundOf p r) txn event
      ((s.put (.refund r)).put (.payment (Service.refunded r.amount p))) s') :
    RefundBooks s' used' := by
  have hmem := Table.mem_of_find? hfound
  have hp := h.each p hmem
  have hk : EntriesKnown ((s.put (.refund r)).put (.payment (Service.refunded r.amount p))) :=
    h.histories.known
  have hhist : ∀ ref, history s' ref =
      history s ref ++ if r.id = ref then [refundEntry p r] else [] := fun ref =>
    history_transferred ht hk ref
  have hrefunds : s'.refunds = s.refunds.put r := ht.same.refunds
  have hpayments : s'.payments = s.payments.put (Service.refunded r.amount p) := ht.same.payments
  have hrows : ∀ x ∈ s'.refunds.rows, x = r ∨ x ∈ s.refunds.rows := by
    rw [hrefunds]
    exact fun x hx => ((s.refunds.mem_put r x).mp hx).imp_right And.left
  have hold : ∀ x ∈ s.refunds.rows, history s' x.id = history s x.id := by
    intro x hx
    have hne : r.id ≠ x.id := fun he => hid (he ▸ h.ids x hx)
    rw [hhist, if_neg hne, List.append_nil]
  have hnew : history s' r.id = [refundEntry p r] := by
    rw [hhist, if_pos rfl, history_unused h.histories.references hid]
    rfl
  have hreach : p.status = .succeeded := by
    refine hstatus.resolve_right fun hst => ?_
    have heq := h.histories.histories p hmem
    rw [expectedHistory, hst] at heq
    contradiction
  refine ⟨hh, ?_, ?_, ?_, ?_⟩
  · intro x hx
    rcases hrows x hx with rfl | hx
    · exact hr'
    · exact hsub _ (h.ids x hx)
  · intro x hx
    rcases hrows x hx with rfl | hx
    · rw [hr]
      exact hsub _ (h.histories.ids p hmem)
    · exact hsub _ (h.owners x hx)
  · rw [hpayments]
    intro x hx y hy
    have hy' : y.id ∈ used ∧ ∃ y₀ ∈ s.payments.rows, y₀.id = y.id := by
      rcases (s.payments.mem_put _ y).mp hy with rfl | ⟨hy, _⟩
      · exact ⟨h.histories.ids p hmem, p, hmem, rfl⟩
      · exact ⟨h.histories.ids y hy, y, hy, rfl⟩
    obtain ⟨hused, y₀, hy₀, heq⟩ := hy'
    rcases hrows x hx with rfl | hx
    · exact fun he => hid (he ▸ hused)
    · rw [← heq]
      exact h.apart x hx y₀ hy₀
  · rw [hpayments]
    intro y hy
    rcases (s.payments.mem_put _ y).mp hy with rfl | ⟨hy, hne⟩
    · refine ⟨hp.positive, ?_, hcap, ?_, ?_, ?_, ?_⟩
      · have h₀ := hp.nonneg
        change 0 ≤ p.refundedAmount + r.amount
        omega
      · rw [refundTotal_put hfresh hrefunds]
        change p.refundedAmount + r.amount = refundTotal s p.id + if r.paymentId = p.id then _ else _
        rw [if_pos hr, hp.rows]
      · intro x hx hxp
        rcases hrows x hx with rfl | hx
        · exact hnew
        · rw [hold x hx]
          exact hp.ledger x hx hxp
      · change (if p.refundedAmount + r.amount = p.amount then _ else p.status) = _ ↔
          p.refundedAmount + r.amount = p.amount
        split_ifs with hfull
        · exact ⟨fun _ => hfull, fun _ => rfl⟩
        · rw [hreach]
          exact ⟨fun hst => by contradiction, fun heq => absurd heq hfull⟩
      · change (if p.refundedAmount + r.amount = p.amount then _ else p.status) ≠ _ →
          (if p.refundedAmount + r.amount = p.amount then _ else p.status) ≠ _ → _
        split_ifs with hfull
        · exact fun _ hne => absurd rfl hne
        · exact fun hne _ => absurd hreach hne
    · have hy₀ := h.each y hy
      refine ⟨hy₀.positive, hy₀.nonneg, hy₀.capped, ?_, ?_, hy₀.full, hy₀.unsettled⟩
      · have hother : r.paymentId ≠ y.id := by
          rw [hr]
          exact Ne.symm hne
        rw [refundTotal_put hfresh hrefunds, if_neg hother, add_zero]
        exact hy₀.rows
      · intro x hx hxp
        rcases hrows x hx with rfl | hx
        · exact absurd (hxp.symm.trans hr) hne
        · rw [hold x hx]
          exact hy₀.ledger x hx hxp

theorem RefundBooks.change {s s' : Database} {used used' : List Uuid} (h : RefundBooks s used)
    (hc : Change Call.isService s used s' used') : RefundBooks s' used' := by
  have hh : Histories s' used' := h.histories.change hc
  cases hc with
  | booked _ ids hs =>
    unfold SameBooks at hs
    rw [hs] at hh ⊢
    exact ⟨hh, fun r hr => List.mem_append_right _ (h.ids r hr),
      fun r hr => List.mem_append_right _ (h.owners r hr), h.apart,
      fun p hp => (h.each p hp).congr rfl fun _ _ => rfl⟩
  | opened k req createdAt p txn event _ hP hp hfresh hid htxn hevent ht =>
    have hk : EntriesKnown (s.put (.payment p)) := h.histories.known
    have hne : ∀ r ∈ s.refunds.rows, r.id ≠ p.id := fun r hr he => hid (he ▸ h.ids r hr)
    refine h.replaced (fun i hi => by simp [hi]) hh ht.same.payments ht.same.refunds ?_ hne ?_
    · intro r hr
      have heq := history_transferred ht hk r.id
      have href : (holdOf p).reference ≠ r.id := Ne.symm (hne r hr)
      rw [if_neg href, List.append_nil] at heq
      exact heq
    · have hpos := req.amount_pos
      have hzero : refundTotal s p.id = 0 := refundTotal_of_unused h.owners hid
      rw [hp] at hid ⊢
      refine ⟨hpos, le_refl _, le_of_lt hpos, ?_, ?_, ?_, fun _ _ => rfl⟩
      · exact hzero.symm
      · intro r hr he
        exact absurd (he ▸ h.owners r hr) hid
      · exact ⟨fun hst => by contradiction, fun heq => absurd heq (ne_of_lt hpos)⟩
  | moved p q ids _ hfound hguard hm =>
    have hmem := Table.mem_of_find? hfound
    have hp := h.each p hmem
    obtain ⟨hterms, hrefunded, hst⟩ := hm.terms
    have hne : ∀ r ∈ s.refunds.rows, r.id ≠ p.id := fun r hr => h.apart r hr p hmem
    have hzero : p.refundedAmount = 0 :=
      hp.unsettled (by rcases hguard with h | h <;> simp [h]) (by rcases hguard with h | h <;> simp [h])
    have hlt := hp.positive
    refine h.replaced (fun i hi => by simp [hi]) hh hm.same.payments hm.same.refunds
      (fun r hr => history_moved hm h.histories.known (hne r hr)) ?_ ?_
    · rw [hterms.id]
      exact hne
    · refine ⟨?_, ?_, ?_, ?_, ?_, ?_, ?_⟩
      · rw [hterms.amount]
        exact hp.positive
      · rw [hrefunded]
        exact hp.nonneg
      · rw [hrefunded, hterms.amount]
        exact hp.capped
      · rw [hrefunded, hterms.id]
        exact hp.rows
      · rw [hterms.id]
        intro r hr he
        rw [refundEntry_sameTerms hterms]
        exact hp.ledger r hr he
      · rw [hrefunded, hterms.amount, hzero]
        exact ⟨fun heq => by rcases hst with h | h | h <;> rw [h] at heq <;> contradiction,
          fun heq => absurd heq (ne_of_lt hlt)⟩
      · intro _ _
        rw [hrefunded, hzero]
  | refunded p r txn event _ createdAt hamount hr hfound hstatus hcap hfresh hid htxn hevent ht =>
    have hpayment : r.paymentId = p.id := by rw [hr]
    exact h.refunded (fun i hi => by simp [hi]) (by simp) hh hamount hpayment hfound hstatus hcap
      hfresh hid ht
  | posted type referenceId postings txn _ hP htype href htxn hp => exact hP.elim
  | published ev t hfound hnew =>
    exact ⟨hh, h.ids, h.owners, h.apart, fun p hp => (h.each p hp).congr rfl fun _ _ => rfl⟩

end Invariant

section Terminal

variable {P : Call → Prop} {s s' : Database} {used used' : List Uuid}

/-- A payment that is refunded in full or has failed keeps its row. -/
theorem terminal_of_change {p : Payment} (hp : p ∈ s.payments.rows)
    (hst : p.status = .refunded ∨ p.status = .failed) (hc : Change P s used s' used') :
    p ∈ s'.payments.rows := by
  have hfind := Table.find?_of_mem hp
  have hput : ∀ q : Payment, (s.payments.find? q.id = none ∨ ∃ q₀, s.payments.find? q.id = some q₀ ∧
      q₀.status ≠ .refunded ∧ q₀.status ≠ .failed) → p ∈ (s.payments.put q).rows := by
    intro q hq
    refine (s.payments.mem_put q p).mpr (Or.inr ⟨hp, fun he => ?_⟩)
    rw [← he, hfind] at hq
    rcases hq with hq | ⟨q₀, hq, hne, hne'⟩
    · contradiction
    · cases hq
      exact hst.elim hne hne'
  cases hc with
  | booked _ ids hs =>
    unfold SameBooks at hs
    rw [hs]
    exact hp
  | opened k req createdAt q txn event _ hP hq hfresh hid htxn hevent ht =>
    rw [ht.same.payments]
    exact hput q (Or.inl hfresh)
  | moved q q' ids _ hfound hguard hm =>
    rw [hm.same.payments]
    refine hput q' (Or.inr ⟨q, ?_, ?_⟩)
    · rw [hm.terms.1.id]
      exact hfound
    · rcases hguard with h | h <;> simp [h]
  | refunded q r txn event _ createdAt hamount hr hfound hstatus hcap hfresh hid htxn hevent ht =>
    rw [ht.same.payments]
    refine hput (refunded r.amount q) (Or.inr ⟨q, hfound, ?_⟩)
    rcases hstatus with h | h <;> simp [h]
  | posted type referenceId postings txn _ hP htype href htxn h =>
    rw [h.elsewhere]
    exact hp
  | published ev t hfound hnew => exact hp

theorem terminal_of_changes {p : Payment} (hp : p ∈ s.payments.rows)
    (hst : p.status = .refunded ∨ p.status = .failed) (hc : Changes P s used s' used') :
    p ∈ s'.payments.rows := by
  have hstep : ∀ s used s' used', p ∈ s.payments.rows → Change P s used s' used' →
      p ∈ s'.payments.rows := fun _ _ _ _ h hc => terminal_of_change h hst hc
  exact hc.invariant hstep hp

end Terminal

section Claim

variable {ext : Externals} {db : Database} {spent : List Uuid} {σ : State}

/-- Without payments there are no refunds either, since each names its payment. -/
theorem no_refunds (hpayments : db.payments.rows = [])
    (hrefunds : ∀ r ∈ db.refunds.rows, (db.payments.find? r.paymentId).isSome) :
    ∀ r, r ∉ db.refunds.rows := by
  intro r hr
  obtain ⟨p, hp⟩ := Option.isSome_iff_exists.mp (hrefunds r hr)
  have hmem := Table.mem_of_find? hp
  rw [hpayments] at hmem
  contradiction

theorem refundBooks_initial (hpayments : db.payments.rows = []) (hentries : EntriesKnown db)
    (hrefunds : ∀ r ∈ db.refunds.rows, (db.payments.find? r.paymentId).isSome)
    (hspent : ReferencesUsed db spent) : RefundBooks db spent := by
  have hnone := no_refunds hpayments hrefunds
  refine ⟨⟨hentries, hspent, ?_, ?_⟩, ?_, ?_, ?_, ?_⟩
  all_goals simp [hpayments, hnone]

/-- Refunds are capped and exact, and a refunded or failed payment stays as it is. -/
theorem refunds_capped_and_exact (hpayments : db.payments.rows = []) (hentries : EntriesKnown db)
    (hrefunds : ∀ r ∈ db.refunds.rows, (db.payments.find? r.paymentId).isSome)
    (hspent : ReferencesUsed db spent)
    (h : System.Run (program ext) (Starts Call.isService) (System.initial db spent) σ) :
    (∀ p ∈ σ.db.payments.rows, RefundsAgree σ.db p) ∧
      ∀ σ', System.Run (program ext) (Starts Call.isService) σ σ' →
        ∀ p ∈ σ.db.payments.rows, p.status = .refunded ∨ p.status = .failed →
          p ∈ σ'.db.payments.rows := by
  have hinit := refundBooks_initial hpayments hentries hrefunds hspent
  have hbooks := invariant_of_run (fun _ _ _ _ => RefundBooks.change) hinit h
  constructor
  · exact fun p hp => (hbooks.each p hp).agree (hbooks.histories.histories p hp)
  · intro σ' h' p hp hst
    have hrunning := (changes_of_run (running_initial db spent) h).1
    exact terminal_of_changes hp hst (changes_of_run hrunning h').2

/-- A captured payment of 50 of which 50 are refunded. -/
theorem refunds_capped_and_exact_sample :
    ∃ σ, System.Run (program sampleExternals) (Starts Call.isService)
        (System.initial sampleDatabase []) σ ∧
      σ.db.payments.rows.map (fun p => (p.status, p.refundedAmount)) = [(.refunded, 50)] ∧
      (∀ p ∈ σ.db.payments.rows, RefundsAgree σ.db p) ∧
      ∀ σ', System.Run (program sampleExternals) (Starts Call.isService) σ σ' →
        ∀ p ∈ σ.db.payments.rows, p.status = .refunded ∨ p.status = .failed →
          p ∈ σ'.db.payments.rows := by
  obtain ⟨σ, hrun, hrows⟩ : ∃ σ, System.Run (program sampleExternals) (Starts Call.isService)
      (System.initial sampleDatabase []) σ ∧
      σ.db.payments.rows.map (fun p => (p.status, p.refundedAmount)) = [(.refunded, 50)] := by
    refine System.exists_run_of_exec ((.start 0 (.create "key" (sampleRequest 3)) ::
      sampleSteps 0 10 68 (.ok ⟨.captured, some "psp", none⟩) 0) ++
      (.start 1 (.refund "refund" 10 ⟨50, by decide⟩) ::
      sampleSteps 1 100 37 (.error "down") 0)) ?_ ?_
    · decide +kernel
    · exact starts_append (starts_sample trivial) (starts_sample trivial)
  refine ⟨σ, hrun, hrows, refunds_capped_and_exact rfl ?_ ?_ ?_ hrun⟩
  · simp [EntriesKnown, sampleDatabase, Table.empty]
  · simp [sampleDatabase, Table.empty]
  · simp [ReferencesUsed, sampleDatabase, Table.empty]

end Claim

end ApexPayments.Service
