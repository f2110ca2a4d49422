import ApexPayments.Refunds
import Mathlib.Data.List.Forall2

/-!
The outbox mirrors the ledger. Every ledger transaction that the services create is
announced by exactly one outbox row, whose event type, aggregate and amount say what
was posted, and the status of a payment determines the events that announce it.
-/
namespace ApexPayments.Service

open Domain Store Ledger Payments Webhooks Relay RowLocking

section Pairing

/-- The `amount` of an event payload. -/
def announcedAmount (ev : Outbox) : Option Json := ev.payload.lookup "amount"

/-- The outbox row `ev` announces the ledger transaction `txn`. -/
inductive Announces (s : Database) (txn : LedgerTransaction) (ev : Outbox) : Prop
  | hold (p : Payment) (hp : p ∈ s.payments.rows)
      (hentry : (txn.type, postingsOf s txn.id) = holdEntry p) (href : txn.referenceId = p.id)
      (haggregate : (ev.aggregateType, ev.aggregateId) = ("payment", txn.referenceId))
      (hevent : ev.eventType = "payment.processing")
      (hamount : announcedAmount ev = some (.int p.amount))
  | settle (p : Payment) (hp : p ∈ s.payments.rows)
      (hentry : (txn.type, postingsOf s txn.id) = settleEntry p) (href : txn.referenceId = p.id)
      (haggregate : (ev.aggregateType, ev.aggregateId) = ("payment", txn.referenceId))
      (hevent : ev.eventType = "payment.succeeded")
      (hamount : announcedAmount ev = some (.int p.amount))
  | reversal (p : Payment) (hp : p ∈ s.payments.rows)
      (hentry : (txn.type, postingsOf s txn.id) = reversalEntry p) (href : txn.referenceId = p.id)
      (haggregate : (ev.aggregateType, ev.aggregateId) = ("payment", txn.referenceId))
      (hevent : ev.eventType = "payment.failed")
      (hamount : announcedAmount ev = some (.int p.amount))
  | refund (p : Payment) (r : Refund) (hp : p ∈ s.payments.rows) (hr : r ∈ s.refunds.rows)
      (hof : r.paymentId = p.id) (hentry : (txn.type, postingsOf s txn.id) = refundEntry p r)
      (href : txn.referenceId = r.id)
      (haggregate : (ev.aggregateType, ev.aggregateId) = ("refund", txn.referenceId))
      (hevent : ev.eventType = "refund.completed")
      (hamount : announcedAmount ev = some (.int r.amount))

/-- Payments keep their terms, refunds and posted transactions stay as they are. -/
structure Extends (s s' : Database) : Prop where
  payments : ∀ p ∈ s.payments.rows, ∃ p' ∈ s'.payments.rows, SameTerms p p'
  refunds : ∀ r ∈ s.refunds.rows, r ∈ s'.refunds.rows
  postings : ∀ t ∈ s.ledgerTransactions.rows, postingsOf s' t.id = postingsOf s t.id

theorem SameTerms.refl (p : Payment) : SameTerms p p := ⟨rfl, rfl, rfl, rfl⟩

theorem Extends.refl (s : Database) : Extends s s :=
  ⟨fun p hp => ⟨p, hp, .refl p⟩, fun _ hr => hr, fun _ _ => rfl⟩

theorem Announces.mono {s s' : Database} {txn : LedgerTransaction} {ev ev' : Outbox}
    (h : Announces s txn ev) (ht : txn ∈ s.ledgerTransactions.rows) (hs : Extends s s')
    (hev : SameEvent ev ev') : Announces s' txn ev' := by
  have hpost := hs.postings txn ht
  have hagg : (ev'.aggregateType, ev'.aggregateId) = (ev.aggregateType, ev.aggregateId) := by
    rw [hev.content]
  have htype : ev'.eventType = ev.eventType := by rw [hev.content]
  have hpayload : announcedAmount ev' = announcedAmount ev := by rw [hev.content]; rfl
  cases h with
  | hold p hp hentry href haggregate hevent hamount =>
    obtain ⟨p', hp', hterms⟩ := hs.payments p hp
    refine .hold p' hp' ?_ (href.trans hterms.id.symm) (hagg.trans haggregate)
      (htype.trans hevent) ?_
    · rw [hpost, hentry, holdEntry, holdEntry, hterms.payer, hterms.amount]
    · rw [hpayload, hamount, hterms.amount]
  | settle p hp hentry href haggregate hevent hamount =>
    obtain ⟨p', hp', hterms⟩ := hs.payments p hp
    refine .settle p' hp' ?_ (href.trans hterms.id.symm) (hagg.trans haggregate)
      (htype.trans hevent) ?_
    · rw [hpost, hentry, settleEntry, settleEntry, hterms.payee, hterms.amount]
    · rw [hpayload, hamount, hterms.amount]
  | reversal p hp hentry href haggregate hevent hamount =>
    obtain ⟨p', hp', hterms⟩ := hs.payments p hp
    refine .reversal p' hp' ?_ (href.trans hterms.id.symm) (hagg.trans haggregate)
      (htype.trans hevent) ?_
    · rw [hpost, hentry, reversalEntry, reversalEntry, hterms.payer, hterms.amount]
    · rw [hpayload, hamount, hterms.amount]
  | refund p r hp hr hof hentry href haggregate hevent hamount =>
    obtain ⟨p', hp', hterms⟩ := hs.payments p hp
    refine .refund p' r hp' (hs.refunds r hr) (hof.trans hterms.id.symm) ?_ href
      (hagg.trans haggregate) (htype.trans hevent) (hpayload.trans hamount)
    rw [hpost, hentry, refundEntry_sameTerms hterms]

/-- The transactions created since `s₀` and the outbox rows, paired in order. -/
def Paired (s₀ s : Database) : Prop :=
  ∃ created, s.ledgerTransactions.rows = s₀.ledgerTransactions.rows ++ created ∧
    List.Forall₂ (Announces s) created s.outbox.rows

theorem forall₂_mem {α β : Type} {R : α → β → Prop} {xs : List α} {ys : List β}
    (h : List.Forall₂ R xs ys) : List.Forall₂ (fun x y => R x y ∧ x ∈ xs ∧ y ∈ ys) xs ys := by
  induction h with
  | nil => exact .nil
  | cons hxy _ ih =>
    refine .cons ⟨hxy, List.mem_cons_self .., List.mem_cons_self ..⟩ (ih.imp ?_)
    intro x y h
    exact ⟨h.1, List.mem_cons_of_mem _ h.2.1, List.mem_cons_of_mem _ h.2.2⟩

/-- Old pairs stay pairs while the tables grow. -/
theorem Paired.grow {s₀ s s' : Database} (h : Paired s₀ s) (hs : Extends s s')
    {txns : List LedgerTransaction} {evs : List Outbox} {f : Outbox → Outbox}
    (htxns : s'.ledgerTransactions.rows = s.ledgerTransactions.rows ++ txns)
    (hevs : s'.outbox.rows = s.outbox.rows.map f ++ evs)
    (hf : ∀ ev ∈ s.outbox.rows, SameEvent ev (f ev))
    (hnew : List.Forall₂ (Announces s') txns evs) : Paired s₀ s' := by
  obtain ⟨created, hrows, hpairs⟩ := h
  refine ⟨created ++ txns, by rw [htxns, hrows, List.append_assoc], ?_⟩
  rw [hevs]
  apply List.rel_append _ hnew
  rw [List.forall₂_map_right_iff]
  apply (forall₂_mem hpairs).imp
  intro txn ev ⟨hpair, htxn, hev⟩
  apply hpair.mono _ hs (hf ev hev)
  rw [hrows]
  exact List.mem_append_right _ htxn

end Pairing

section Transfers

variable {t : Transfer} {txn : LedgerTransaction} {event : Outbox} {s s' : Database}

theorem outbox_transferred (h : Transferred t txn event s s') :
    s'.outbox.rows = s.outbox.rows ++ [event] := by
  obtain ⟨s₁, hp, rfl⟩ := h.posted
  have hs := hp.elsewhere
  unfold SameElsewhere at hs
  change (s₁.outbox.put event).rows = _
  rw [hs]
  exact s.outbox.rows_put_new event h.fresh

theorem txns_transferred (h : Transferred t txn event s s') :
    s'.ledgerTransactions.rows = s.ledgerTransactions.rows ++ [txn] := by
  obtain ⟨s₁, hp, rfl⟩ := h.posted
  exact hp.txns

theorem postings_transferred (h : Transferred t txn event s s') :
    ∀ x ∈ s.ledgerTransactions.rows, postingsOf s' x.id = postingsOf s x.id := by
  obtain ⟨s₁, hp, rfl⟩ := h.posted
  intro x hx
  have hne : x.id ≠ txn.id := by
    intro he
    have hfound := Table.find?_of_mem hx
    rw [he, hp.fresh] at hfound
    contradiction
  exact postingsOf_posted hp hne

/-- What the new row of the ledger says. -/
theorem entry_transferred (h : Transferred t txn event s s') (hk : EntriesKnown s) :
    (txn.type, postingsOf s' txn.id) = (t.type, t.postings) := by
  have htype := h.type
  obtain ⟨s₁, hp, rfl⟩ := h.posted
  have hpost : postingsOf s₁ txn.id = t.postings := postingsOf_new hp hk
  change (txn.type, postingsOf s₁ txn.id) = _
  rw [htype, hpost]

/-- What the new row of the outbox says. -/
theorem event_transferred (h : Transferred t txn event s s') :
    (event.aggregateType, event.aggregateId) = (t.aggregateType, txn.referenceId) ∧
      event.eventType = t.eventType ∧ announcedAmount event = t.payload.lookup "amount" := by
  rw [h.reference, h.announced]
  exact ⟨rfl, rfl, rfl⟩

theorem announces_hold {p : Payment} (h : Transferred (holdOf p) txn event s s')
    (hk : EntriesKnown s) (hp : p ∈ s'.payments.rows) : Announces s' txn event := by
  obtain ⟨haggregate, hevent, hamount⟩ := event_transferred h
  exact .hold p hp (entry_transferred h hk) h.reference haggregate hevent hamount

theorem announces_settle {p : Payment} {r : String}
    (h : Transferred (settleOf p r) txn event s s') (hk : EntriesKnown s)
    (hp : p ∈ s'.payments.rows) : Announces s' txn event := by
  obtain ⟨haggregate, hevent, hamount⟩ := event_transferred h
  exact .settle p hp (entry_transferred h hk) h.reference haggregate hevent hamount

theorem announces_reversal {p : Payment} (h : Transferred (reverseOf p) txn event s s')
    (hk : EntriesKnown s) (hp : p ∈ s'.payments.rows) : Announces s' txn event := by
  obtain ⟨haggregate, hevent, hamount⟩ := event_transferred h
  exact .reversal p hp (entry_transferred h hk) h.reference haggregate hevent hamount

theorem announces_refund {p q : Payment} {r : Refund}
    (h : Transferred (refundOf p r) txn event s s') (hk : EntriesKnown s)
    (hterms : SameTerms p q) (hq : q ∈ s'.payments.rows) (hr : r ∈ s'.refunds.rows)
    (hof : r.paymentId = q.id) : Announces s' txn event := by
  obtain ⟨haggregate, hevent, hamount⟩ := event_transferred h
  refine .refund q r hq hr hof ?_ h.reference haggregate hevent hamount
  rw [refundEntry_sameTerms hterms]
  exact entry_transferred h hk

/-- A payment row is written without a change of its terms. -/
theorem payments_put {q : Payment}
    (hq : ∀ p₀, s.payments.find? q.id = some p₀ → SameTerms p₀ q) :
    ∀ p ∈ s.payments.rows, ∃ p' ∈ (s.payments.put q).rows, SameTerms p p' := by
  intro p hp
  by_cases hid : p.id = q.id
  · refine ⟨q, (s.payments.mem_put q q).mpr (Or.inl rfl), hq p ?_⟩
    rw [← hid]
    exact Table.find?_of_mem hp
  · exact ⟨p, (s.payments.mem_put q p).mpr (Or.inr ⟨hp, hid⟩), .refl p⟩

end Transfers

section Events

/-- The types of the events that name one aggregate, in the order of their creation. -/
def eventsOf (s : Database) (aggregateId : Uuid) : List String :=
  (s.outbox.rows.filter fun ev => ev.aggregateId = aggregateId).map Outbox.eventType

/-- The events that the status of a payment calls for. -/
def expectedEvents (p : Payment) : Option (List String) :=
  match p.status with
  | .processing => some ["payment.processing"]
  | .authorized => some ["payment.processing"]
  | .succeeded => some ["payment.processing", "payment.succeeded"]
  | .refunded => some ["payment.processing", "payment.succeeded"]
  | .failed => some ["payment.processing", "payment.failed"]
  | _ => none

theorem eventsOf_transferred {t : Transfer} {txn : LedgerTransaction} {event : Outbox}
    {s s' : Database} (h : Transferred t txn event s s') (id : Uuid) :
    eventsOf s' id = eventsOf s id ++ if t.reference = id then [t.eventType] else [] := by
  have hagg : event.aggregateId = t.reference := by rw [h.announced]
  have htype : event.eventType = t.eventType := by rw [h.announced]
  unfold eventsOf
  rw [outbox_transferred h, List.filter_append, List.map_append]
  congr 1
  by_cases hid : t.reference = id
  · simp [hagg, htype, hid]
  · simp [hagg, hid]

/-- Publishing changes no event. -/
theorem eventsOf_map {s s' : Database} {f : Outbox → Outbox}
    (hrows : s'.outbox.rows = s.outbox.rows.map f)
    (hf : ∀ ev ∈ s.outbox.rows, SameEvent ev (f ev)) (id : Uuid) :
    eventsOf s' id = eventsOf s id := by
  unfold eventsOf
  rw [hrows]
  generalize s.outbox.rows = evs at hf
  induction evs with
  | nil => rfl
  | cons ev evs ih =>
    have hrest := ih fun x hx => hf x (List.mem_cons_of_mem _ hx)
    have hagg : (f ev).aggregateId = ev.aggregateId := by
      rw [(hf ev (List.mem_cons_self ..)).content]
    have htype : (f ev).eventType = ev.eventType := by
      rw [(hf ev (List.mem_cons_self ..)).content]
    by_cases hid : ev.aggregateId = id
    · rw [List.map_cons, List.filter_cons_of_pos (by simp [hagg, hid]),
        List.filter_cons_of_pos (by simp [hid]), List.map_cons, List.map_cons, hrest, htype]
    · rw [List.map_cons, List.filter_cons_of_neg (by simp [hagg, hid]),
        List.filter_cons_of_neg (by simp [hid]), hrest]

theorem eventsOf_unused {s : Database} {used : List Uuid}
    (h : ∀ ev ∈ s.outbox.rows, ev.aggregateId ∈ used) {id : Uuid} (hid : id ∉ used) :
    eventsOf s id = [] := by
  unfold eventsOf
  rw [List.map_eq_nil_iff, List.filter_eq_nil_iff]
  intro ev hev
  simp only [decide_eq_true_eq]
  rintro rfl
  exact hid (h ev hev)

end Events

section Invariant

/-- The invariant of the outbox, on top of that of the refunds. -/
structure Announcements (s₀ s : Database) (used : List Uuid) : Prop where
  books : RefundBooks s used
  aggregates : ∀ ev ∈ s.outbox.rows, ev.aggregateId ∈ used
  paired : Paired s₀ s
  events : ∀ p ∈ s.payments.rows, some (eventsOf s p.id) = expectedEvents p
  refundEvents : ∀ r ∈ s.refunds.rows, eventsOf s r.id = ["refund.completed"]

variable {s₀ s s' : Database} {used used' : List Uuid}

theorem aggregates_transferred {t : Transfer} {txn : LedgerTransaction} {event : Outbox}
    (h : ∀ ev ∈ s.outbox.rows, ev.aggregateId ∈ used)
    (ht : Transferred t txn event s s') (hsub : ∀ i ∈ used, i ∈ used')
    (href : t.reference ∈ used') : ∀ ev ∈ s'.outbox.rows, ev.aggregateId ∈ used' := by
  rw [outbox_transferred ht]
  intro ev hev
  rcases List.mem_append.mp hev with hev | hev
  · exact hsub _ (h ev hev)
  · rw [List.mem_singleton.mp hev, ht.announced]
    exact href

/-- A payment row is written together with a transfer for it. -/
theorem Announcements.transferred {q : Payment} {t : Transfer} {txn : LedgerTransaction}
    {event : Outbox} (h : Announcements s₀ s used) (hbooks : RefundBooks s' used')
    (ht : Transferred t txn event (s.put (.payment q)) s') (hsub : ∀ i ∈ used, i ∈ used')
    (href : t.reference = q.id) (hq : q.id ∈ used')
    (hterms : ∀ p₀, s.payments.find? q.id = some p₀ → SameTerms p₀ q)
    (hapart : ∀ r ∈ s.refunds.rows, r.id ≠ q.id) (hann : Announces s' txn event)
    (hself : some (eventsOf s q.id ++ [t.eventType]) = expectedEvents q) :
    Announcements s₀ s' used' := by
  have hevents : ∀ id, eventsOf s' id =
      eventsOf s id ++ if t.reference = id then [t.eventType] else [] := by
    intro id
    have heq := eventsOf_transferred ht id
    exact heq
  have htxns : s'.ledgerTransactions.rows = s.ledgerTransactions.rows ++ [txn] := by
    have heq := txns_transferred ht
    exact heq
  have hext : Extends s s' := by
    refine ⟨?_, ?_, fun x hx => postings_transferred ht x hx⟩
    · rw [ht.same.payments]
      exact payments_put hterms
    · rw [ht.same.refunds]
      exact fun _ hr => hr
  refine ⟨hbooks, aggregates_transferred (s := s.put (.payment q)) h.aggregates ht
    hsub (href ▸ hq), ?_, ?_, ?_⟩
  · refine h.paired.grow hext (f := fun ev => ev) htxns ?_
      (fun ev _ => .refl ev) (.cons hann .nil)
    rw [List.map_id']
    have heq := outbox_transferred ht
    exact heq
  · rw [ht.same.payments]
    intro p hp
    rcases (s.payments.mem_put q p).mp hp with rfl | ⟨hp, hne⟩
    · rw [hevents, if_pos href]
      exact hself
    · rw [hevents, if_neg (by rw [href]; exact Ne.symm hne), List.append_nil]
      exact h.events p hp
  · rw [ht.same.refunds]
    intro r hr
    rw [hevents, if_neg (by rw [href]; exact Ne.symm (hapart r hr)), List.append_nil]
    exact h.refundEvents r hr

/-- The payment and outbox rows stay, up to the terms and the contents. -/
theorem Announcements.same {f : Outbox → Outbox} (h : Announcements s₀ s used)
    (hbooks : RefundBooks s' used') (hsub : ∀ i ∈ used, i ∈ used')
    (hext : Extends s s') (htxns : s'.ledgerTransactions = s.ledgerTransactions)
    (hrows : s'.outbox.rows = s.outbox.rows.map f)
    (hf : ∀ ev ∈ s.outbox.rows, SameEvent ev (f ev))
    (hpayments : ∀ p ∈ s'.payments.rows, ∃ p₀ ∈ s.payments.rows,
      p₀.id = p.id ∧ expectedEvents p₀ = expectedEvents p)
    (hrefunds : s'.refunds = s.refunds) : Announcements s₀ s' used' := by
  refine ⟨hbooks, ?_, ?_, ?_, ?_⟩
  · rw [hrows]
    intro ev hev
    obtain ⟨ev₀, hev₀, rfl⟩ := List.mem_map.mp hev
    rw [(hf ev₀ hev₀).content]
    exact hsub _ (h.aggregates ev₀ hev₀)
  · have hnone : s'.ledgerTransactions.rows = s.ledgerTransactions.rows ++ [] := by
      rw [htxns, List.append_nil]
    refine h.paired.grow hext hnone ?_ hf .nil
    rw [hrows, List.append_nil]
  · intro p hp
    obtain ⟨p₀, hp₀, hid, hexpected⟩ := hpayments p hp
    rw [eventsOf_map hrows hf, ← hid, ← hexpected]
    exact h.events p₀ hp₀
  · rw [hrefunds]
    intro r hr
    rw [eventsOf_map hrows hf]
    exact h.refundEvents r hr

theorem expectedEvents_held {p : Payment}
    (hst : p.status = .processing ∨ p.status = .authorized) :
    expectedEvents p = some ["payment.processing"] := by
  unfold expectedEvents
  rcases hst with hst | hst <;> rw [hst]

theorem Announcements.moved {p q : Payment} {ids : List Uuid} (h : Announcements s₀ s used)
    (hbooks : RefundBooks s' (ids ++ used)) (hfound : s.payments.find? p.id = some p)
    (hguard : p.status = .processing ∨ p.status = .authorized) (hm : Moved used s p q ids s') :
    Announcements s₀ s' (ids ++ used) := by
  have hmem := Table.mem_of_find? hfound
  have hterms : SameTerms p q := hm.terms.1
  have hsub : ∀ i ∈ used, i ∈ ids ++ used := fun i hi => List.mem_append_right _ hi
  have hsame : ∀ p₀, s.payments.find? q.id = some p₀ → SameTerms p₀ q := by
    intro p₀ hp₀
    rw [hterms.id, hfound] at hp₀
    cases hp₀
    exact hterms
  have hapart : ∀ r ∈ s.refunds.rows, r.id ≠ q.id := by
    rw [hterms.id]
    exact fun r hr => h.books.apart r hr p hmem
  have hq : q.id ∈ ids ++ used := by
    rw [hterms.id]
    exact hsub _ (h.books.histories.ids p hmem)
  have hheld : eventsOf s p.id = ["payment.processing"] := by
    have heq := h.events p hmem
    rw [expectedEvents_held hguard] at heq
    exact Option.some.inj heq
  have hin : q ∈ s'.payments.rows := Table.mem_of_find? hm.find_self
  cases hm with
  | settled r txn event _ ht he ht' =>
    refine h.transferred hbooks ht' hsub rfl hq hsame hapart
      (announces_settle ht' h.books.histories.known hin) ?_
    exact congrArg some (congrArg (· ++ ["payment.succeeded"]) hheld)
  | reversed txn event _ ht he ht' =>
    refine h.transferred hbooks ht' hsub rfl hq hsame hapart
      (announces_reversal ht' h.books.histories.known hin) ?_
    exact congrArg some (congrArg (· ++ ["payment.failed"]) hheld)
  | awaiting r =>
    refine h.same hbooks hsub ⟨payments_put hsame, fun _ hr => hr, fun _ _ => rfl⟩ rfl
      (f := fun ev => ev) (List.map_id' _).symm (fun ev _ => .refl ev) ?_ rfl
    intro x hx
    rcases (s.payments.mem_put (awaiting r p) x).mp hx with rfl | ⟨hx, _⟩
    · exact ⟨p, hmem, rfl, expectedEvents_held hguard⟩
    · exact ⟨x, hx, rfl, rfl⟩

/-- The announcement of a refund. -/
theorem Announcements.refunded {p : Payment} {r : Refund} {txn : LedgerTransaction}
    {event : Outbox} (h : Announcements s₀ s used) (hbooks : RefundBooks s' used')
    (hsub : ∀ i ∈ used, i ∈ used') (hr' : r.id ∈ used') (hr : r.paymentId = p.id)
    (hfound : s.payments.find? p.id = some p)
    (hstatus : p.status = .succeeded ∨ p.status = .refundPending) (hid : r.id ∉ used)
    (ht : Transferred (refundOf p r) txn event
      ((s.put (.refund r)).put (.payment (Service.refunded r.amount p))) s') :
    Announcements s₀ s' used' := by
  have hmem := Table.mem_of_find? hfound
  have hevents : ∀ id, eventsOf s' id =
      eventsOf s id ++ if r.id = id then ["refund.completed"] else [] := by
    intro id
    have heq := eventsOf_transferred ht id
    exact heq
  have hother : ∀ id ∈ used, eventsOf s' id = eventsOf s id := by
    intro id hin
    have hne : r.id ≠ id := by
      rintro rfl
      exact hid hin
    rw [hevents, if_neg hne, List.append_nil]
  have hpayments : s'.payments = s.payments.put (Service.refunded r.amount p) := ht.same.payments
  have hrefunds : s'.refunds = s.refunds.put r := ht.same.refunds
  have hsettled : p.status = .succeeded := by
    refine hstatus.resolve_right fun hst => ?_
    have heq := h.events p hmem
    rw [expectedEvents, hst] at heq
    contradiction
  have hterms : SameTerms p (Service.refunded r.amount p) := ⟨rfl, rfl, rfl, rfl⟩
  have htxns : s'.ledgerTransactions.rows = s.ledgerTransactions.rows ++ [txn] := by
    have heq := txns_transferred ht
    exact heq
  have hext : Extends s s' := by
    refine ⟨?_, ?_, fun x hx => postings_transferred ht x hx⟩
    · rw [hpayments]
      refine payments_put ?_
      intro p₀ hp₀
      rw [show (Service.refunded r.amount p).id = p.id from rfl, hfound] at hp₀
      cases hp₀
      exact hterms
    · rw [hrefunds]
      intro x hx
      refine (s.refunds.mem_put r x).mpr (Or.inr ⟨hx, fun he => ?_⟩)
      exact hid (he ▸ h.books.ids x hx)
  refine ⟨hbooks, ?_, ?_, ?_, ?_⟩
  · exact @aggregates_transferred ((s.put (.refund r)).put (.payment (Service.refunded r.amount p)))
      s' used used' _ txn event h.aggregates ht hsub hr'
  · refine h.paired.grow hext (f := fun ev => ev) htxns ?_
      (fun ev _ => .refl ev) (.cons (announces_refund ht h.books.histories.known hterms ?_ ?_ hr) .nil)
    · rw [List.map_id']
      have heq := outbox_transferred ht
      exact heq
    · rw [hpayments]
      exact (s.payments.mem_put _ _).mpr (Or.inl rfl)
    · rw [hrefunds]
      exact (s.refunds.mem_put _ _).mpr (Or.inl rfl)
  · rw [hpayments]
    intro x hx
    rcases (s.payments.mem_put _ x).mp hx with rfl | ⟨hx, _⟩
    · have hex : expectedEvents (Service.refunded r.amount p) = expectedEvents p := by
        unfold expectedEvents Service.refunded
        rw [hsettled]
        split_ifs <;> rfl
      rw [hex]
      exact (congrArg some (hother p.id (h.books.histories.ids p hmem))).trans (h.events p hmem)
    · rw [hother x.id (h.books.histories.ids x hx)]
      exact h.events x hx
  · rw [hrefunds]
    intro x hx
    rcases (s.refunds.mem_put r x).mp hx with rfl | ⟨hx, _⟩
    · rw [hevents, if_pos rfl, eventsOf_unused h.aggregates hid]
      rfl
    · rw [hother x.id (h.books.ids x hx)]
      exact h.refundEvents x hx

theorem Announcements.change (h : Announcements s₀ s used)
    (hc : Change Call.isService s used s' used') : Announcements s₀ s' used' := by
  have hbooks : RefundBooks s' used' := h.books.change hc
  cases hc with
  | booked _ ids hs =>
    unfold SameBooks at hs
    rw [hs] at hbooks ⊢
    refine h.same hbooks (fun i hi => List.mem_append_right _ hi)
      ⟨fun p hp => ⟨p, hp, .refl p⟩, fun _ hr => hr, fun _ _ => rfl⟩ rfl
      (f := fun ev => ev) (List.map_id' _).symm (fun ev _ => .refl ev) ?_ rfl
    exact fun p hp => ⟨p, hp, rfl, rfl⟩
  | opened k req createdAt p txn event _ hP hp hfresh hid htxn hevent ht =>
    have hin : p ∈ s'.payments.rows := by
      rw [ht.same.payments]
      exact (s.payments.mem_put p p).mpr (Or.inl rfl)
    refine h.transferred hbooks ht (fun i hi => by simp [hi]) rfl (by simp) ?_ ?_
      (announces_hold ht h.books.histories.known hin) ?_
    · intro p₀ hp₀
      rw [hfresh] at hp₀
      contradiction
    · exact fun r hr he => hid (he ▸ h.books.ids r hr)
    · rw [eventsOf_unused h.aggregates hid, hp]
      rfl
  | moved p q ids _ hfound hguard hm => exact h.moved hbooks hfound hguard hm
  | refunded p r txn event _ createdAt hamount hr hfound hstatus hcap hfresh hid htxn hevent ht =>
    exact h.refunded hbooks (fun i hi => by simp [hi]) (by simp) (by rw [hr]) hfound hstatus hid ht
  | posted type referenceId postings txn _ hP htype href htxn hp => exact hP.elim
  | published ev t hfound hnew =>
    have hsame : ∀ x ∈ s.outbox.rows,
        SameEvent x (if x.id = (publish t ev).id then publish t ev else x) := by
      intro x hx
      by_cases hid : x.id = ev.id
      · rw [if_pos (show x.id = (publish t ev).id from hid), Table.eq_of_key_eq hx (Table.mem_of_find? hfound) hid]
        exact sameEvent_publish t hnew
      · rw [if_neg (show x.id ≠ (publish t ev).id from hid)]
        exact .refl x
    refine h.same hbooks (fun _ hi => hi) ⟨fun p hp => ⟨p, hp, .refl p⟩, fun _ hr => hr,
      fun _ _ => rfl⟩ rfl (s.outbox.rows_put_old hfound) hsame ?_ rfl
    exact fun p hp => ⟨p, hp, rfl, rfl⟩

end Invariant

section Claim

variable {ext : Externals} {db : Database} {spent : List Uuid} {σ : State}

theorem announcements_of_run (hpayments : db.payments.rows = []) (hentries : EntriesKnown db)
    (hrefunds : ∀ r ∈ db.refunds.rows, (db.payments.find? r.paymentId).isSome)
    (houtbox : db.outbox.rows = []) (hspent : ReferencesUsed db spent)
    (h : System.Run (program ext) (Starts Call.isService) (System.initial db spent) σ) :
    Announcements db σ.db σ.spent := by
  have hinit : Announcements db db spent := by
    refine ⟨refundBooks_initial hpayments hentries hrefunds hspent, ?_, ?_, ?_, ?_⟩
    · simp [houtbox]
    · refine ⟨[], (List.append_nil _).symm, ?_⟩
      rw [houtbox]
      exact .nil
    · simp [hpayments]
    · intro r hr
      exact absurd hr (no_refunds hpayments hrefunds r)
  exact invariant_of_run (fun _ _ _ _ => Announcements.change) hinit h

/-- In every committed state the ledger transactions of the run and the outbox rows
correspond one to one, and the status of a payment determines its events. -/
theorem outbox_announces_ledger (hpayments : db.payments.rows = []) (hentries : EntriesKnown db)
    (hrefunds : ∀ r ∈ db.refunds.rows, (db.payments.find? r.paymentId).isSome)
    (houtbox : db.outbox.rows = []) (hspent : ReferencesUsed db spent)
    (h : System.Run (program ext) (Starts Call.isService) (System.initial db spent) σ) :
    (∃ created, σ.db.ledgerTransactions.rows = db.ledgerTransactions.rows ++ created ∧
      (created.map LedgerTransaction.id).Nodup ∧ (σ.db.outbox.rows.map Outbox.id).Nodup ∧
      List.Forall₂ (Announces σ.db) created σ.db.outbox.rows) ∧
    (∀ p ∈ σ.db.payments.rows, some (eventsOf σ.db p.id) = expectedEvents p) ∧
    ∀ r ∈ σ.db.refunds.rows, eventsOf σ.db r.id = ["refund.completed"] := by
  have hann := announcements_of_run hpayments hentries hrefunds houtbox hspent h
  refine ⟨?_, hann.events, hann.refundEvents⟩
  obtain ⟨created, hrows, hpairs⟩ := hann.paired
  refine ⟨created, hrows, ?_, σ.db.outbox.nodup, hpairs⟩
  have hnodup := σ.db.ledgerTransactions.nodup
  rw [hrows, List.map_append] at hnodup
  exact hnodup.of_append_right

/-- A captured payment of 50 whose first event has been published. -/
theorem outbox_announces_ledger_sample :
    ∃ σ, System.Run (program sampleExternals) (Starts Call.isService)
        (System.initial sampleDatabase []) σ ∧
      σ.db.outbox.rows.map (fun ev => (ev.eventType, ev.publishedAt)) =
        [("payment.processing", some 5), ("payment.succeeded", none)] ∧
      (∃ created, σ.db.ledgerTransactions.rows = created ∧
        (created.map LedgerTransaction.id).Nodup ∧ (σ.db.outbox.rows.map Outbox.id).Nodup ∧
        List.Forall₂ (Announces σ.db) created σ.db.outbox.rows) ∧
      (∀ p ∈ σ.db.payments.rows, some (eventsOf σ.db p.id) = expectedEvents p) ∧
      ∀ r ∈ σ.db.refunds.rows, eventsOf σ.db r.id = ["refund.completed"] := by
  obtain ⟨σ, hrun, hevents⟩ : ∃ σ, System.Run (program sampleExternals) (Starts Call.isService)
      (System.initial sampleDatabase []) σ ∧
      σ.db.outbox.rows.map (fun ev => (ev.eventType, ev.publishedAt)) =
        [("payment.processing", some 5), ("payment.succeeded", none)] := by
    refine System.exists_run_of_exec ((.start 0 (.create "key" (sampleRequest 3)) ::
      sampleSteps 0 10 68 (.ok ⟨.captured, some "psp", none⟩) 0) ++
      (.start 1 (.drain 1) :: sampleSteps 1 100 8 (.error "unused") 5)) ?_ ?_
    · decide +kernel
    · exact starts_append (starts_sample (P := Call.isService) trivial)
        (starts_sample (P := Call.isService) trivial)
  refine ⟨σ, hrun, hevents, outbox_announces_ledger rfl ?_ ?_ rfl ?_ hrun⟩
  · simp [EntriesKnown, sampleDatabase, Table.empty]
  · simp [sampleDatabase, Table.empty]
  · simp [ReferencesUsed, sampleDatabase, Table.empty]

end Claim

end ApexPayments.Service
