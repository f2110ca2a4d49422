import ApexPayments.Delivery
import ApexPayments.Streams
import Mathlib.Algebra.Order.BigOperators.Group.List

/-!
The events of the outbox as a feed. A consumer that reads nothing but the payloads knows of every
payment what its row shows: the rows of the outbox rebuild the payments, and so does the log of one
worker that has published them all.
-/
namespace ApexPayments.Service

open Domain Store Ledger Payments Webhooks Relay RowLocking Streams Heralds

section Consumer

/-- What a consumer knows of a payment. -/
structure View where
  status : Option Json
  pspReference : Option Json
  refunded : ℤ

/-- The payment that the payload names. -/
def aboutPayment (ev : Outbox) : Option String :=
  match ev.payload.lookup "paymentId" with
  | some (.str paymentId) => some paymentId
  | _ => none

def refundAmount (ev : Outbox) : ℤ :=
  match ev.payload.lookup "amount" with
  | some (.int amount) => amount
  | _ => 0

def IsRefund (ev : Outbox) : Prop := ev.eventType = "refund.completed"

instance (ev : Outbox) : Decidable (IsRefund ev) := inferInstanceAs (Decidable (_ = _))

namespace View

def unknown : View := ⟨none, none, 0⟩

/-- A refund adds its amount, another event tells the status and the reference. -/
def apply (v : View) (ev : Outbox) : View :=
  if IsRefund ev then { v with refunded := v.refunded + refundAmount ev }
  else
    { v with
      status := ev.payload.lookup "status"
      pspReference := ev.payload.lookup "pspReference" }

end View

/-- The views after the events. -/
def views (evs : List Outbox) : String → View := replay aboutPayment View.apply .unknown evs

/-- The last status that was announced. -/
def announcedStatus : PaymentStatus → PaymentStatus
  | .authorized => .processing
  | .refunded => .succeeded
  | .refundPending => .succeeded
  | st => st

/-- What the events say of a payment. -/
def viewOf (p : Payment) : View where
  status := some (.str (announcedStatus p.status).value)
  pspReference := if announcedStatus p.status = .succeeded then p.pspReference.map .str else none
  refunded := p.refundedAmount

end Consumer

section Rebuilding

variable {ext : Externals} {P : Call → Prop} {s s' : Database} {used used' : List Uuid}

/-- The rows of the outbox rebuild the payments, and each is about one of them. -/
structure Fed (s : Database) : Prop where
  rebuilt : ∀ p ∈ s.payments.rows, views s.outbox.rows p.id.str = viewOf p
  known : ∀ ev ∈ s.outbox.rows, ∃ p ∈ s.payments.rows, aboutPayment ev = some p.id.str ∧
    (¬ IsRefund ev → ev.aggregateId = p.id)
  amounts : ∀ ev ∈ s.outbox.rows, IsRefund ev → 0 ≤ refundAmount ev
  openings : ∀ ev ∈ s.outbox.rows, ev.eventType = "payment.processing" →
    ev.payload.lookup "status" = some (.str "PROCESSING")

theorem Fed.unknown (h : Fed s) {id : Uuid} (hfresh : s.payments.find? id = none) :
    views s.outbox.rows id.str = .unknown := by
  refine replay_of_none fun ev hev habout => ?_
  obtain ⟨p, hp, hpayment, -⟩ := h.known ev hev
  obtain rfl := Uuid.str_injective (Option.some.inj (hpayment.symm.trans habout))
  rw [Table.find?_of_mem hp] at hfresh
  contradiction

/-- A payment row is written together with an event about it. -/
theorem Fed.announced (h : Fed s) {q : Payment} {event : Outbox}
    (hpayments : s'.payments = s.payments.put q) (hrows : s'.outbox.rows = s.outbox.rows ++ [event])
    (habout : aboutPayment event = some q.id.str) (haggregate : ¬ IsRefund event → event.aggregateId = q.id)
    (hamount : IsRefund event → 0 ≤ refundAmount event)
    (hopening : event.eventType = "payment.processing" →
      event.payload.lookup "status" = some (.str "PROCESSING"))
    (hview : (views s.outbox.rows q.id.str).apply event = viewOf q) : Fed s' where
  rebuilt := by
    rw [hpayments, hrows]
    intro p hp
    rcases (Table.mem_put s.payments q p).mp hp with rfl | ⟨hp, hne⟩
    · rw [views, replay_append_self _ habout]
      exact hview
    · have hother : aboutPayment event ≠ some p.id.str := by
        rw [habout]
        intro hsame
        exact hne (Uuid.str_injective (Option.some.inj hsame)).symm
      rw [views, replay_append_of_ne _ hother]
      exact h.rebuilt p hp
  known := by
    rw [hpayments, hrows]
    intro ev hev
    rcases List.mem_append.mp hev with hev | hev
    · obtain ⟨p, hp, hpayment, hagg⟩ := h.known ev hev
      by_cases hid : p.id = q.id
      · refine ⟨q, (Table.mem_put s.payments q q).mpr (Or.inl rfl), ?_, ?_⟩
        · rw [hpayment, hid]
        · rw [← hid]
          exact hagg
      · exact ⟨p, (Table.mem_put s.payments q p).mpr (Or.inr ⟨hp, hid⟩), hpayment, hagg⟩
    · obtain rfl := List.mem_singleton.mp hev
      exact ⟨q, (Table.mem_put s.payments q q).mpr (Or.inl rfl), habout, haggregate⟩
  amounts := by
    rw [hrows]
    intro ev hev
    rcases List.mem_append.mp hev with hev | hev
    · exact h.amounts ev hev
    · obtain rfl := List.mem_singleton.mp hev
      exact hamount
  openings := by
    rw [hrows]
    intro ev hev
    rcases List.mem_append.mp hev with hev | hev
    · exact h.openings ev hev
    · obtain rfl := List.mem_singleton.mp hev
      exact hopening

/-- A payment row is written together with an event that tells its status. -/
theorem Fed.told {q : Payment} {t : Transfer} {txn : LedgerTransaction} {event : Outbox} {v : View}
    (h : Fed s) (ht : Transferred t txn event (s.put (.payment q)) s') (href : t.reference = q.id)
    (habout : t.payload.lookup "paymentId" = some (.str q.id.str))
    (htype : t.eventType ≠ "refund.completed")
    (hopening : t.eventType = "payment.processing" →
      t.payload.lookup "status" = some (.str "PROCESSING"))
    (hbefore : views s.outbox.rows q.id.str = v)
    (hview : viewOf q = ⟨t.payload.lookup "status", t.payload.lookup "pspReference", v.refunded⟩) :
    Fed s' := by
  have hcontent := ht.announced
  have hrows := outbox_transferred ht
  have hpayload : event.payload = t.payload := by rw [hcontent]
  have hrefund : ¬ IsRefund event := by
    unfold IsRefund
    rw [hcontent]
    exact htype
  refine h.announced ht.same.payments hrows ?_ ?_ (fun hnot => absurd hnot hrefund) ?_ ?_
  · unfold aboutPayment
    rw [hpayload, habout]
  · rw [hcontent]
    exact fun _ => href
  · rw [hcontent]
    exact hopening
  · rw [hbefore, hview, View.apply, if_neg hrefund, hpayload]

/-- The events stay, up to their publication, and the payments show what they have shown. -/
theorem Fed.same {f : Outbox → Outbox} (h : Fed s) (hrows : s'.outbox.rows = s.outbox.rows.map f)
    (hf : ∀ ev ∈ s.outbox.rows, SameEvent ev (f ev))
    (hpayments : ∀ p' ∈ s'.payments.rows, ∃ p ∈ s.payments.rows, p.id = p'.id ∧ viewOf p = viewOf p')
    (hkept : ∀ p ∈ s.payments.rows, ∃ p' ∈ s'.payments.rows, p'.id = p.id) : Fed s' := by
  have habout : ∀ ev ∈ s.outbox.rows, aboutPayment (f ev) = aboutPayment ev := by
    intro ev hev
    rw [(hf ev hev).content]
    rfl
  have happly : ∀ v : View, ∀ ev ∈ s.outbox.rows, v.apply (f ev) = v.apply ev := by
    intro v ev hev
    rw [(hf ev hev).content]
    rfl
  have hviews : views s'.outbox.rows = views s.outbox.rows := by
    rw [hrows]
    exact replay_map habout happly
  refine ⟨?_, ?_, ?_, ?_⟩
  · intro p' hp'
    obtain ⟨p, hp, hid, hview⟩ := hpayments p' hp'
    rw [hviews, ← hid, ← hview]
    exact h.rebuilt p hp
  · rw [hrows]
    intro ev' hev'
    obtain ⟨ev, hev, rfl⟩ := List.mem_map.mp hev'
    obtain ⟨p, hp, hpayment, hagg⟩ := h.known ev hev
    obtain ⟨p', hp', hid⟩ := hkept p hp
    refine ⟨p', hp', ?_, ?_⟩
    · rw [habout ev hev, hid]
      exact hpayment
    · rw [(hf ev hev).content, hid]
      exact hagg
  · rw [hrows]
    intro ev' hev'
    obtain ⟨ev, hev, rfl⟩ := List.mem_map.mp hev'
    rw [(hf ev hev).content]
    exact h.amounts ev hev
  · rw [hrows]
    intro ev' hev'
    obtain ⟨ev, hev, rfl⟩ := List.mem_map.mp hev'
    rw [(hf ev hev).content]
    exact h.openings ev hev

theorem viewOf_awaiting {p : Payment} (hguard : p.status = .processing ∨ p.status = .authorized)
    (r : Option String) : viewOf (awaiting r p) = viewOf p := by
  unfold viewOf
  rcases hguard with hst | hst <;> rw [hst] <;> rfl

theorem viewOf_refunded {p : Payment} (hst : p.status = .succeeded ∨ p.status = .refundPending)
    (amount : ℤ) :
    viewOf (refunded amount p) = { viewOf p with refunded := p.refundedAmount + amount } := by
  have hshown : announcedStatus (refunded amount p).status = .succeeded := by
    change announcedStatus (if p.refundedAmount + amount = p.amount then .refunded else p.status) = _
    by_cases hfull : p.refundedAmount + amount = p.amount
    · rw [if_pos hfull]
      rfl
    · rw [if_neg hfull]
      rcases hst with hst | hst <;> rw [hst] <;> rfl
  have hbefore : announcedStatus p.status = .succeeded := by
    rcases hst with hst | hst <;> rw [hst] <;> rfl
  unfold viewOf
  rw [hshown, hbefore]
  rfl

theorem Fed.moved {p q : Payment} {ids : List Uuid} (h : Fed s) (hfound : s.payments.find? p.id = some p)
    (hguard : p.status = .processing ∨ p.status = .authorized) (hm : Moved used s p q ids s') :
    Fed s' := by
  have hview := h.rebuilt p (Table.mem_of_find? hfound)
  cases hm with
  | settled r txn event _ ht he ht' =>
    refine h.told ht' rfl rfl (show "payment.succeeded" ≠ "refund.completed" by decide) ?_ hview rfl
    exact fun hopening => absurd hopening (show "payment.succeeded" ≠ "payment.processing" by decide)
  | reversed txn event _ ht he ht' =>
    refine h.told ht' rfl rfl (show "payment.failed" ≠ "refund.completed" by decide) ?_ hview rfl
    exact fun hopening => absurd hopening (show "payment.failed" ≠ "payment.processing" by decide)
  | awaiting r =>
    refine h.same (f := fun ev => ev) (List.map_id' _).symm (fun ev _ => .refl ev) ?_ ?_
    · intro p' hp'
      rcases (Table.mem_put s.payments (awaiting r p) p').mp hp' with rfl | ⟨hp', -⟩
      · exact ⟨p, Table.mem_of_find? hfound, rfl, (viewOf_awaiting hguard r).symm⟩
      · exact ⟨p', hp', rfl, rfl⟩
    · intro x hx
      by_cases hid : x.id = p.id
      · exact ⟨awaiting r p, (Table.mem_put s.payments _ _).mpr (Or.inl rfl), hid.symm⟩
      · exact ⟨x, (Table.mem_put s.payments _ _).mpr (Or.inr ⟨hx, hid⟩), rfl⟩

theorem Fed.change (h : Fed s) (hc : Change P s used s' used') : Fed s' := by
  cases hc with
  | booked _ ids hs =>
    unfold SameBooks at hs
    rw [hs]
    exact ⟨h.rebuilt, h.known, h.amounts, h.openings⟩
  | opened k req createdAt p txn event _ hP hp hfresh hid htxn hevent ht =>
    refine h.told ht rfl rfl (show "payment.processing" ≠ "refund.completed" by decide) ?_
      (h.unknown hfresh) ?_
    · rw [hp]
      exact fun _ => rfl
    · rw [hp]
      rfl
  | moved p q ids _ hfound hguard hm => exact h.moved hfound hguard hm
  | refunded p r txn event _ createdAt hamount hr hfound hstatus hcap hfresh hid htxn hevent ht =>
    have hcontent := ht.announced
    have hview := h.rebuilt p (Table.mem_of_find? hfound)
    have hrows := outbox_transferred ht
    have hadds : refundAmount event = r.amount := by
      rw [hcontent]
      rfl
    have hrefund : IsRefund event := by
      rw [hcontent]
      rfl
    refine h.announced ht.same.payments hrows ?_ ?_ ?_ ?_ ?_
    · rw [hcontent]
      rfl
    · exact fun hnot => absurd hrefund hnot
    · rw [hadds]
      exact fun _ => le_of_lt hamount
    · intro hopening
      unfold IsRefund at hrefund
      rw [hopening] at hrefund
      contradiction
    · change (views s.outbox.rows p.id.str).apply event = _
      rw [hview, View.apply, if_pos hrefund, viewOf_refunded hstatus, hadds]
      rfl
  | posted type referenceId postings txn _ hP htype href htxn hp =>
    have helse := hp.elsewhere
    unfold SameElsewhere at helse
    rw [helse]
    exact ⟨h.rebuilt, h.known, h.amounts, h.openings⟩
  | published ev t hfound hnew =>
    have hsame : ∀ x ∈ s.outbox.rows,
        SameEvent x (if x.id = (publish t ev).id then publish t ev else x) := by
      intro x hx
      by_cases hid : x.id = ev.id
      · rw [if_pos (show x.id = (publish t ev).id from hid), Table.eq_of_key_eq hx (Table.mem_of_find? hfound) hid]
        exact sameEvent_publish t hnew
      · rw [if_neg (show x.id ≠ (publish t ev).id from hid)]
        exact .refl x
    exact h.same (s.outbox.rows_put_old hfound) hsame (fun p hp => ⟨p, hp, rfl, rfl⟩)
      fun p hp => ⟨p, hp, rfl⟩

variable {db : Database} {spent : List Uuid} {σ : State}

theorem fed_of_run {ok : State → Label backend Call → Prop} (hpayments : db.payments.rows = [])
    (houtbox : db.outbox.rows = []) (h : System.Run (program ext) ok (System.initial db spent) σ) :
    Fed σ.db := by
  have hinit : Fed db := by
    constructor
    · rw [hpayments]
      exact fun _ hp => absurd hp List.not_mem_nil
    all_goals
      rw [houtbox]
      exact fun _ hev => absurd hev List.not_mem_nil
  have hstep : ∀ s used s' used', Fed s → Change (fun _ => True) s used s' used' → Fed s' :=
    fun _ _ _ _ => Fed.change
  exact (changes_of_run (running_initial db spent) (starts_of_run h)).2.invariant hstep hinit

end Rebuilding

section Folding

variable {evs : List Outbox} {key : String} {ev : Outbox} {v : View}

/-- The events about a payment that tell its status. -/
def tellings (evs : List Outbox) (key : String) : List Outbox :=
  evs.filter fun ev => aboutPayment ev = some key ∧ ¬ IsRefund ev

/-- The amounts that are refunded of a payment. -/
def refundsOf (evs : List Outbox) (key : String) : List ℤ :=
  (evs.filter fun ev => aboutPayment ev = some key ∧ IsRefund ev).map refundAmount

theorem refunded_foldl (evs : List Outbox) (v : View) :
    (evs.foldl View.apply v).refunded = v.refunded + ((evs.filter fun ev => IsRefund ev).map refundAmount).sum := by
  induction evs generalizing v with
  | nil => simp
  | cons ev evs ih =>
    rw [List.foldl_cons, ih]
    by_cases hrefund : IsRefund ev
    · rw [View.apply, if_pos hrefund, List.filter_cons, if_pos (decide_eq_true hrefund), List.map_cons,
        List.sum_cons, add_assoc]
    · rw [View.apply, if_neg hrefund, List.filter_cons, if_neg (by simpa using hrefund)]

theorem status_foldl (evs : List Outbox) (v : View) :
    ((evs.foldl View.apply v).status, (evs.foldl View.apply v).pspReference) =
      ((evs.filter fun ev => ¬ IsRefund ev).getLast?).elim (v.status, v.pspReference)
        fun ev => (ev.payload.lookup "status", ev.payload.lookup "pspReference") := by
  induction evs generalizing v with
  | nil => rfl
  | cons ev evs ih =>
    rw [List.foldl_cons, ih]
    by_cases hrefund : IsRefund ev
    · rw [View.apply, if_pos hrefund, List.filter_cons, if_neg (by simpa using hrefund)]
    · rw [View.apply, if_neg hrefund, List.filter_cons, if_pos (by simpa using hrefund), List.getLast?_cons]
      cases (evs.filter fun ev => ¬ IsRefund ev).getLast? with
      | none => rfl
      | some last => rfl

theorem refunded_views (evs : List Outbox) (key : String) :
    (views evs key).refunded = (refundsOf evs key).sum := by
  rw [views, replay_apply, refunded_foldl, List.filter_filter, refundsOf]
  simp only [View.unknown, zero_add, Bool.and_comm, Bool.decide_and]

/-- Of an event that tells the status, the last one counts. -/
theorem status_views (evs : List Outbox) (key : String) :
    ((views evs key).status, (views evs key).pspReference) =
      ((tellings evs key).getLast?).elim (none, none)
        fun ev => (ev.payload.lookup "status", ev.payload.lookup "pspReference") := by
  rw [views, replay_apply, status_foldl, List.filter_filter, tellings]
  simp only [View.unknown, Bool.and_comm, Bool.decide_and]

theorem getLast?_of_all {α : Type} {a : α} {l : List α} (h : ∀ x ∈ l, x = a) :
    l.getLast? = none ∨ l.getLast? = some a := by
  cases hlast : l.getLast? with
  | none => exact Or.inl rfl
  | some x => exact Or.inr (congrArg some (h x (List.mem_of_getLast? hlast)))

end Folding

section Log

variable {s₀ s : Database} {used : List Uuid} {σ : State} {log : List (ℕ × Outbox)} {p : Payment}

/-- The events that tell the status of a payment are those of its aggregate. -/
theorem tellings_rows (hann : Announcements s₀ s used) (hfed : Fed s) (hp : p ∈ s.payments.rows) :
    tellings s.outbox.rows p.id.str = s.outbox.rows.filter fun ev => ev.aggregateId = p.id := by
  refine List.filter_congr fun ev hev => decide_eq_decide.mpr ?_
  obtain ⟨q, hq, habout, hagg⟩ := hfed.known ev hev
  constructor
  · intro ⟨hsame, htells⟩
    rw [habout] at hsame
    rw [hagg htells]
    exact Uuid.str_injective (Option.some.inj hsame)
  · intro haggregate
    have htells : ¬ IsRefund ev := by
      intro hrefund
      have hmem : ev.eventType ∈ eventsOf s p.id :=
        List.mem_map_of_mem (List.mem_filter.mpr ⟨hev, decide_eq_true haggregate⟩)
      have hevents := hann.events p hp
      unfold IsRefund at hrefund
      rw [hrefund] at hmem
      unfold expectedEvents at hevents
      cases hst : p.status with
      | processing | authorized | succeeded | refunded | failed =>
        rw [hst] at hevents
        rw [Option.some.inj hevents] at hmem
        revert hmem
        decide
      | _ =>
        rw [hst] at hevents
        contradiction
    refine ⟨?_, htells⟩
    rw [habout, ← hagg htells, haggregate]

/-- One event opens the payment, and one at most tells its outcome. -/
theorem tellings_cases (hann : Announcements s₀ s used) (hfed : Fed s) (hp : p ∈ s.payments.rows) :
    (∃ a, tellings s.outbox.rows p.id.str = [a] ∧ a.eventType = "payment.processing") ∨
    ∃ a b, tellings s.outbox.rows p.id.str = [a, b] ∧ a.eventType = "payment.processing" ∧
      IsOutcome b := by
  have hevents := hann.events p hp
  unfold eventsOf at hevents
  rw [← tellings_rows hann hfed hp] at hevents
  have hone : (tellings s.outbox.rows p.id.str).map Outbox.eventType = ["payment.processing"] →
      ∃ a, tellings s.outbox.rows p.id.str = [a] ∧ a.eventType = "payment.processing" := by
    intro h
    obtain ⟨a, rest, htellings, htype, hrest⟩ := List.map_eq_cons_iff.mp h
    obtain rfl := List.map_eq_nil_iff.mp hrest
    exact ⟨a, htellings, htype⟩
  have htwo : ∀ outcome, AnnouncesOutcome outcome →
      (tellings s.outbox.rows p.id.str).map Outbox.eventType = ["payment.processing", outcome] →
      ∃ a b, tellings s.outbox.rows p.id.str = [a, b] ∧ a.eventType = "payment.processing" ∧
        IsOutcome b := by
    intro outcome houtcome h
    obtain ⟨a, rest, htellings, htype, hrest⟩ := List.map_eq_cons_iff.mp h
    obtain ⟨b, rest', rfl, htype', hrest'⟩ := List.map_eq_cons_iff.mp hrest
    obtain rfl := List.map_eq_nil_iff.mp hrest'
    refine ⟨a, b, htellings, htype, ?_⟩
    unfold IsOutcome
    rw [htype']
    exact houtcome
  unfold expectedEvents at hevents
  cases hst : p.status with
  | processing | authorized =>
    rw [hst] at hevents
    exact Or.inl (hone (Option.some.inj hevents))
  | succeeded | refunded =>
    rw [hst] at hevents
    exact Or.inr (htwo _ (Or.inl rfl) (Option.some.inj hevents))
  | failed =>
    rw [hst] at hevents
    exact Or.inr (htwo _ (Or.inr rfl) (Option.some.inj hevents))
  | _ =>
    rw [hst] at hevents
    contradiction

/-- What a consumer that is behind knows of the payment. -/
structure Lags (v : View) (p : Payment) : Prop where
  status : (v.status, v.pspReference) = (none, none) ∨ v.status = some (.str "PROCESSING") ∨
    (v.status, v.pspReference) = ((viewOf p).status, (viewOf p).pspReference)
  refunded : v.refunded ≤ p.refundedAmount

/-- The events of a log, in order. -/
def publishedIn (log : List (ℕ × Outbox)) : List Outbox := log.map Prod.snd

theorem Tallied.nodup (h : Tallied σ log) : (publishedIn log).Nodup := by
  refine List.Nodup.of_map Outbox.id ?_
  rw [publishedIn, List.map_map]
  exact h.once

theorem Tallied.mem (h : Tallied σ log) (ev : Outbox) :
    ev ∈ publishedIn log ↔ ev ∈ σ.db.outbox.rows ∧ ev.publishedAt.isSome := by
  rw [h.published ev]
  constructor
  · intro hev
    obtain ⟨e, he, rfl⟩ := List.mem_map.mp hev
    exact ⟨e.1, he⟩
  · rintro ⟨pid, hev⟩
    exact List.mem_map_of_mem hev

theorem Tallied.perm (h : Tallied σ log) :
    (publishedIn log).Perm (σ.db.outbox.rows.filter fun ev => ev.publishedAt.isSome) := by
  have hrows : σ.db.outbox.rows.Nodup := List.Nodup.of_map Outbox.id σ.db.outbox.nodup
  refine (List.perm_ext_iff_of_nodup h.nodup (hrows.filter _)).mpr fun ev => ?_
  rw [h.mem ev, List.mem_filter]

/-- The last event of a payment in the log is its outcome, if that has been published. -/
theorem getLast?_of_outcome (hdelivered : Delivered log) (hnodup : (publishedIn log).Nodup) {a b : Outbox}
    {q : Outbox → Bool} (hq : ∀ ev ∈ publishedIn log, q ev = true → ev = a ∨ ev = b)
    (hopens : ∀ first ∈ publishedIn log, OpensPayment first b → first = a) (hb : IsOutcome b)
    (hmem : b ∈ publishedIn log) (hqb : q b = true) :
    ((publishedIn log).filter q).getLast? = some b := by
  obtain ⟨e, he, rfl⟩ := List.mem_map.mp hmem
  obtain ⟨front, rest, hsplit⟩ := List.append_of_mem he
  obtain ⟨first, hfirst, hopening⟩ := hdelivered front e rest hsplit hb
  have hlog : publishedIn log = front.map Prod.snd ++ e.2 :: rest.map Prod.snd := by
    rw [publishedIn, hsplit, List.map_append, List.map_cons]
  have ha : a ∈ front.map Prod.snd := by
    have hin : first.2 ∈ front.map Prod.snd := List.mem_map_of_mem hfirst
    rw [← hopens first.2 ?_ hopening]
    · exact hin
    · rw [hlog]
      exact List.mem_append_left _ hin
  rw [hlog] at hnodup hq ⊢
  obtain ⟨-, hbehind, hdisjoint⟩ := List.nodup_append'.mp hnodup
  have hnone : (rest.map Prod.snd).filter q = [] := by
    refine List.filter_eq_nil_iff.mpr fun ev hev hqev => ?_
    rcases hq ev (List.mem_append_right _ (List.mem_cons_of_mem _ hev)) hqev with rfl | rfl
    · exact hdisjoint ha (List.mem_cons_of_mem _ hev)
    · exact (List.nodup_cons.mp hbehind).1 hev
  rw [List.filter_append, List.filter_cons, if_pos hqb, hnone]
  exact List.getLast?_concat

theorem mem_tellings {evs : List Outbox} {key : String} {ev : Outbox} :
    ev ∈ tellings evs key ↔ ev ∈ evs ∧ aboutPayment ev = some key ∧ ¬ IsRefund ev := by
  unfold tellings
  rw [List.mem_filter, decide_eq_true_iff]

/-- What the log tells last of a payment: nothing, that it is processing, or what its row tells. -/
theorem last_of_log (hann : Announcements s₀ σ.db used) (hfed : Fed σ.db) (htallied : Tallied σ log)
    (hdelivered : Delivered log) (hp : p ∈ σ.db.payments.rows) :
    (tellings (publishedIn log) p.id.str).getLast? = (tellings σ.db.outbox.rows p.id.str).getLast? ∨
      (∃ ev ∈ σ.db.outbox.rows, ev.publishedAt = none) ∧
        ∀ ev, (tellings (publishedIn log) p.id.str).getLast? = some ev →
          ev ∈ σ.db.outbox.rows ∧ ev.eventType = "payment.processing" := by
  have hsubset : ∀ ev ∈ tellings (publishedIn log) p.id.str, ev ∈ tellings σ.db.outbox.rows p.id.str := by
    intro ev hev
    obtain ⟨hin, htells⟩ := mem_tellings.mp hev
    exact mem_tellings.mpr ⟨((htallied.mem ev).mp hin).1, htells⟩
  have hbehind : ∀ {a last : Outbox}, a ∈ tellings σ.db.outbox.rows p.id.str →
      last ∈ tellings σ.db.outbox.rows p.id.str → last ∉ publishedIn log →
      a.eventType = "payment.processing" → (∀ ev ∈ tellings (publishedIn log) p.id.str, ev = a) →
      (∃ ev ∈ σ.db.outbox.rows, ev.publishedAt = none) ∧
        ∀ ev, (tellings (publishedIn log) p.id.str).getLast? = some ev →
          ev ∈ σ.db.outbox.rows ∧ ev.eventType = "payment.processing" := by
    intro a last ha hlast hmissing htype hall
    have hrow := (mem_tellings.mp hlast).1
    refine ⟨⟨last, hrow, ?_⟩, ?_⟩
    · by_contra hsome
      exact hmissing ((htallied.mem last).mpr ⟨hrow, Option.isSome_iff_ne_none.mpr hsome⟩)
    · intro ev hev
      obtain rfl := hall ev (List.mem_of_getLast? hev)
      exact ⟨(mem_tellings.mp ha).1, htype⟩
  rcases tellings_cases hann hfed hp with ⟨a, htellings, htype⟩ | ⟨a, b, htellings, htype, hout⟩
  · rw [htellings] at hsubset
    have hall : ∀ ev ∈ tellings (publishedIn log) p.id.str, ev = a :=
      fun ev hev => List.mem_singleton.mp (hsubset ev hev)
    have ha : a ∈ tellings σ.db.outbox.rows p.id.str := by
      rw [htellings]
      exact List.mem_singleton_self a
    by_cases hin : a ∈ publishedIn log
    · left
      rcases getLast?_of_all hall with hnone | hsome
      · have hmem : a ∈ tellings (publishedIn log) p.id.str :=
          mem_tellings.mpr ⟨hin, (mem_tellings.mp ha).2⟩
        rw [List.getLast?_eq_none_iff.mp hnone] at hmem
        exact absurd hmem List.not_mem_nil
      · rw [hsome, htellings]
        rfl
    · exact Or.inr (hbehind ha ha hin htype hall)
  · have ha : a ∈ tellings σ.db.outbox.rows p.id.str := by
      rw [htellings]
      exact List.mem_cons_self ..
    have hb : b ∈ tellings σ.db.outbox.rows p.id.str := by
      rw [htellings]
      exact List.mem_cons_of_mem _ (List.mem_singleton_self b)
    have hpair : ∀ ev ∈ tellings σ.db.outbox.rows p.id.str, ev = a ∨ ev = b := by
      rw [htellings]
      exact fun ev hev => List.mem_pair.mp hev
    by_cases hin : b ∈ publishedIn log
    · left
      have hlast : (tellings (publishedIn log) p.id.str).getLast? = some b := by
        refine getLast?_of_outcome hdelivered htallied.nodup (a := a) ?_ ?_ hout hin
          (decide_eq_true (mem_tellings.mp hb).2)
        · intro ev hev hq
          exact hpair ev (hsubset ev (List.mem_filter.mpr ⟨hev, hq⟩))
        · intro first hfirst ⟨hagg, hopens⟩
          have hfirst' : first ∈ tellings σ.db.outbox.rows p.id.str := by
            rw [tellings_rows hann hfed hp] at hb ⊢
            refine List.mem_filter.mpr ⟨((htallied.mem first).mp hfirst).1, decide_eq_true ?_⟩
            rw [hagg]
            exact of_decide_eq_true (List.mem_filter.mp hb).2
          rcases hpair first hfirst' with h | rfl
          · exact h
          · unfold IsOutcome at hout
            rw [hopens] at hout
            exact absurd hout not_outcome_processing
      rw [hlast, htellings]
      rfl
    · refine Or.inr (hbehind ha hb hin htype fun ev hev => ?_)
      rcases hpair ev (hsubset ev hev) with h | rfl
      · exact h
      · exact absurd (mem_tellings.mp hev).1 hin

theorem refunds_of_log (hfed : Fed σ.db) (htallied : Tallied σ log) (hp : p ∈ σ.db.payments.rows) :
    (views (publishedIn log) p.id.str).refunded ≤ p.refundedAmount ∧
    ((∀ ev ∈ σ.db.outbox.rows, ev.publishedAt.isSome) →
      (views (publishedIn log) p.id.str).refunded = p.refundedAmount) := by
  have hrows : (refundsOf σ.db.outbox.rows p.id.str).sum = p.refundedAmount := by
    rw [← refunded_views, hfed.rebuilt p hp]
    rfl
  have hperm := ((htallied.perm.filter fun ev =>
    decide (aboutPayment ev = some p.id.str ∧ IsRefund ev)).map refundAmount).sum_eq
  have hlog : (views (publishedIn log) p.id.str).refunded = (refundsOf
      (σ.db.outbox.rows.filter fun ev => ev.publishedAt.isSome) p.id.str).sum :=
    (refunded_views _ _).trans hperm
  constructor
  · rw [hlog, ← hrows]
    refine List.Sublist.sum_le_sum ((List.filter_sublist.filter _).map _) ?_
    intro amount hamount
    obtain ⟨ev, hev, rfl⟩ := List.mem_map.mp hamount
    obtain ⟨hrow, habout⟩ := List.mem_filter.mp hev
    exact hfed.amounts ev hrow (of_decide_eq_true habout).2
  · intro hall
    rw [hlog, List.filter_eq_self.mpr hall]
    exact hrows

variable {ext : Externals} {db : Database} {spent : List Uuid}

theorem View.eq_of_parts {v w : View} (hstatus : (v.status, v.pspReference) = (w.status, w.pspReference))
    (hrefunded : v.refunded = w.refunded) : v = w := by
  obtain ⟨status, pspReference, refunded⟩ := v
  obtain ⟨hst, href⟩ := Prod.mk.inj hstatus
  change status = w.status at hst
  change pspReference = w.pspReference at href
  change refunded = w.refunded at hrefunded
  rw [hst, href, hrefunded]

theorem view_of_log (hann : Announcements s₀ σ.db used) (hfed : Fed σ.db) (htallied : Tallied σ log)
    (hdelivered : Delivered log) (hp : p ∈ σ.db.payments.rows) :
    Lags (views (publishedIn log) p.id.str) p ∧
    ((∀ ev ∈ σ.db.outbox.rows, ev.publishedAt.isSome) →
      views (publishedIn log) p.id.str = viewOf p) := by
  obtain ⟨hle, heq⟩ := refunds_of_log hfed htallied hp
  have hrows := status_views σ.db.outbox.rows p.id.str
  have hlog := status_views (publishedIn log) p.id.str
  rw [hfed.rebuilt p hp] at hrows
  rcases last_of_log hann hfed htallied hdelivered hp with hlast | ⟨⟨ev, hev, hnone⟩, hprocessing⟩
  · rw [hlast] at hlog
    have hsame := hlog.trans hrows.symm
    exact ⟨⟨Or.inr (Or.inr hsame), hle⟩, fun hall => View.eq_of_parts hsame (heq hall)⟩
  · refine ⟨⟨?_, hle⟩, fun hall => ?_⟩
    · cases hlast : (tellings (publishedIn log) p.id.str).getLast? with
      | none =>
        rw [hlast] at hlog
        exact Or.inl hlog
      | some last =>
        obtain ⟨hrow, htype⟩ := hprocessing last hlast
        rw [hlast] at hlog
        right
        left
        exact (Prod.mk.inj hlog).1.trans (hfed.openings last hrow htype)
    · have hsome := hall ev hev
      rw [hnone] at hsome
      contradiction

end Log

end ApexPayments.Service
