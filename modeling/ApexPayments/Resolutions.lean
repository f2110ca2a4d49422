import ApexPayments.History
import ApexPayments.InFlight
import ApexPayments.Posting

/-!
Settling and reversing payments with nothing beside it: exactly when a call goes
through, what it does to every table, and what follows for calls on one payment and
for calls on many payments in any order.
-/
namespace ApexPayments.Service

open Domain Store Ledger Payments RowLocking DoubleEntry

section Resolve

theorem inside_lockPayment (id : Uuid) : (lockPayment id).Inside := by
  refine Prog.Inside.bind (Prog.inside_lockRow _) ?_
  intro row
  cases row with
  | none => trivial
  | some row => cases row <;> trivial

/-- What a caller asks of the saga for a held payment. -/
inductive Resolution where
  | settle (pspReference : String)
  | reverse
  deriving DecidableEq

namespace Resolution

def program : Resolution → Uuid → Program Payment
  | settle pspReference, id => Payments.settle id pspReference
  | reverse, id => Payments.reverse id

/-- The row that the payment gets. -/
def update : Resolution → Payment → Payment
  | settle pspReference, p => settled pspReference p
  | reverse, p => reversed p

/-- What is posted and announced for a payment that has got its new row. -/
def transfer : Resolution → Payment → Transfer
  | settle pspReference, p => settleOf p pspReference
  | reverse, p => reverseOf p

/-- The account that receives the money. -/
def beneficiary : Resolution → Payment → Uuid
  | settle _, p => p.payeeAccount
  | reverse, p => p.payerAccount

variable (x : Resolution) (p : Payment)

theorem id_update : (x.update p).id = p.id := by cases x <;> rfl

theorem amount_update : (x.update p).amount = p.amount := by cases x <;> rfl

theorem postings_transfer : (x.transfer (x.update p)).postings =
    [⟨suspenseAccountId, .debit, p.amount⟩, ⟨x.beneficiary p, .credit, p.amount⟩] := by
  cases x <;> rfl

theorem reference_transfer : (x.transfer (x.update p)).reference = p.id := by cases x <;> rfl

theorem inFlight_update : Payment.inFlight (x.update p) = false := by cases x <;> rfl

theorem inside_program (id : Uuid) : (x.program id).Inside := by
  cases x with
  | settle r =>
    refine Prog.Inside.bind (inside_lockPayment id) ?_
    intro found
    cases found with
    | none => trivial
    | some p =>
      refine Prog.Inside.bind (Prog.inside_stageRow _) fun _ => ?_
      exact Prog.Inside.bind (inside_post _ _ _) fun _ _ _ => trivial
  | reverse =>
    refine Prog.Inside.bind (inside_lockPayment id) ?_
    intro found
    cases found with
    | none => trivial
    | some p =>
      refine Prog.Inside.bind (Prog.inside_stageRow _) fun _ => ?_
      exact Prog.Inside.bind (inside_post _ _ _) fun _ _ _ => trivial

end Resolution

theorem resolve_stops {F : Frame backend} (x : Resolution) (id : Uuid) (L : Session backend)
    (hp : L.pending = []) :
    (x.program id).Ensures F L (Stop.Ends
      (fun e _ => ResolveStops F id x.update x.transfer L e)
      (fun p' L' => ∃ p txn event, p' = x.update p ∧
        ResolveReturns F id x.update x.transfer L p txn event L')) := by
  cases x with
  | settle r => exact settle_stops id r L hp
  | reverse => exact reverse_stops id L hp

end Resolve

section Conditions

/-- What the constraints on the tables and identifiers that never repeat give. -/
structure Consistent (s : Database) (used : List Uuid) : Prop extends Kept s used where
  events : ∀ event ∈ s.outbox.rows, event.id ∈ used

theorem Consistent.transferred {s s' : Database} {used : List Uuid} {t : Transfer}
    {txn : LedgerTransaction} {event : Outbox} (h : Consistent s used)
    (ht : Transferred t txn event s s') : Consistent s' (event.id :: txn.id :: used) := by
  obtain ⟨s₁, hp, rfl⟩ := ht.posted
  have hkept := h.toKept.posted hp
  have houtbox : s₁.outbox = s.outbox := by
    have hs := hp.elsewhere
    unfold SameElsewhere at hs
    rw [hs]
  refine ⟨⟨hkept.nonneg, hkept.known, ?_⟩, ?_⟩
  · exact fun t ht => List.mem_cons_of_mem _ (hkept.ids t ht)
  · intro ev hev
    rcases (Table.mem_put _ _ _).mp hev with rfl | ⟨hev, _⟩
    · exact List.mem_cons_self ..
    · rw [houtbox] at hev
      exact List.mem_cons_of_mem _ (List.mem_cons_of_mem _ (h.events ev hev))

theorem Consistent.put_payment {s : Database} {used : List Uuid} (h : Consistent s used) (p : Payment) :
    Consistent (s.put (.payment p)) used :=
  ⟨⟨h.nonneg, h.known, h.ids⟩, h.events⟩

/-- The conditions under which a resolution goes through: the suspense account covers
the amount, and the new row of the payment and the rows of the post are accepted. -/
structure Passes (s : Database) (x : Resolution) (p : Payment) : Prop where
  positive : 0 < p.amount
  row : s.violation (.payment (x.update p)) = none
  fits : Fits s (x.transfer (x.update p)).postings
  funded : p.amount ≤ balanceOf s suspenseAccountId

theorem Passes.reference {s : Database} {r : String} {p : Payment}
    (h : Passes s (.settle r) p) : varchar 255 r = true := by
  have hall := (firstFailing_eq_none_iff _).mp h.row
  exact hall (varchar 255 r, .dataError "psp_reference")
    (by simp [Database.checks, Resolution.update, settled])

theorem fits_put_payment {s : Database} {p : Payment} {ps : List Posting} :
    Fits (s.put (.payment p)) ps ↔ Fits s ps :=
  ⟨fun h => ⟨h.accounts, h.amounts, h.balances, h.versions⟩,
    fun h => ⟨h.accounts, h.amounts, h.balances, h.versions⟩⟩

theorem balanced_pair {a b : Uuid} {amount : ℤ} (h : 0 < amount) :
    Balanced [⟨a, .debit, amount⟩, ⟨b, .credit, amount⟩] where
  length := le_rfl
  positive := by simpa using h
  imbalance := by simp [moves, imbalance, signed]

/-- A transfer between two accounts runs short exactly when the first cannot cover it. -/
theorem shortage_pair {balance : Uuid → ℤ} {a b : Uuid} {amount : ℤ} :
    (∃ e, Shortage balance [⟨a, .debit, amount⟩, ⟨b, .credit, amount⟩] e) ↔
      balance a < amount := by
  constructor
  · rintro ⟨e, before, p, after, hsplit, hd, hlt, -⟩
    rcases before with _ | ⟨p₁, _ | ⟨p₂, before⟩⟩
    · cases hsplit
      simpa [moves, net_nil] using hlt
    · cases hsplit
      contradiction
    · simp at hsplit
  · intro h
    refine ⟨_, [], ⟨a, .debit, amount⟩, _, rfl, rfl, ?_, rfl⟩
    simpa [moves, net_nil] using h

section Alone

variable {s : Database} {spent : List Uuid} {x : Resolution} {id : Uuid} {p : Payment}
  {L L' : Session backend}

theorem working_resolve {F : Frame backend} (L : Session backend) (id : Uuid) (p : Payment) :
    F.working ((L.hold (.payment id)).stage (.update (.payment p))) =
      (F.working L).put (.payment p) := by
  rw [Frame.working_stage]
  rfl

/-- With nothing beside it the event of a transfer is written. -/
theorem transfer_accepted {t : Transfer} {txn : LedgerTransaction} {event : Outbox} {e : Exn}
    (h : TransferReturns (.alone s spent) t L txn event L')
    (hs : Consistent ((Frame.alone s spent).working L) (L.drawn ++ spent)) :
    ¬ (Frame.alone s spent).FlushFails e L'.flushed L'.pending := by
  intro hf
  rcases h.pending with ⟨hnil, _⟩ | ⟨hpending, houtbox⟩
  · rw [hnil] at hf
    exact hf
  · rw [hpending] at hf
    have hnew : ((Frame.alone s spent).working L).outbox.find? event.id = none := by
      rw [Table.find?_eq_none_iff]
      intro ev hev hsame
      have hused := hs.events ev hev
      rw [hsame] at hused
      rcases List.mem_append.mp hused with hdrawn | hspent
      · exact h.event_undrawn (List.mem_cons_of_mem _ hdrawn)
      · exact h.event_unspent hspent
    rcases hf with hrow | ⟨_, hrow⟩
    · have hget : (view s L'.flushed).get (.outbox event.id) = none := by
        refine Option.map_eq_none_iff.mpr ?_
        rw [show (view s L'.flushed).outbox = _ from houtbox]
        exact hnew
      rw [rejected_insert hget] at hrow
      contradiction
    · exact hrow

/-- A resolution that returned met its conditions. -/
theorem passes_of_returns {txn : LedgerTransaction} {event : Outbox} (hp : L.pending = [])
    (h : ResolveReturns (.alone s spent) id x.update x.transfer L p txn event L') :
    Passes ((Frame.alone s spent).working L) x p := by
  obtain ⟨s₁, hposted, -⟩ := h.transfer.effect.posted
  have hpairs := x.postings_transfer p
  rw [working_resolve] at hposted
  refine ⟨?_, ?_, ?_, ?_⟩
  · have hpos := (validateBalanced_ok hposted.balanced).2.1
    rw [hpairs] at hpos
    exact hpos _ (List.mem_cons_self ..)
  · have hearlier := h.transfer.earlier
    change (Frame.alone s spent).Flushes L.flushed
      (L.pending ++ [.update (.payment (x.update p))]) at hearlier
    rw [hp] at hearlier
    have haccepts := Frame.accepts_alone.mp hearlier.1
    rw [Frame.working_of_pending L hp]
    exact haccepts
  · refine fits_put_payment.mp (hposted.fits ?_)
    intro q hq
    obtain ⟨t, ht, haccount⟩ := h.transfer.accounts q hq
    rw [show t = s from (Frame.alone_sees (B := backend) s t spent).mp ht] at haccount
    rw [← working_resolve (F := .alone s spent) L id, Frame.working, hasAccount_view]
    exact haccount
  · by_contra hlt
    rw [hpairs] at hposted
    obtain ⟨e, he⟩ := shortage_pair.mpr (not_le.mp hlt)
    exact hposted.covered e he

/-- A resolution that raised did not meet its conditions. -/
theorem not_passes_of_stops {e : Exn} (hp : L.pending = [])
    (hs : Consistent ((Frame.alone s spent).working L) (L.drawn ++ spent))
    (hfound : ((Frame.alone s spent).working L).payments.find? id = some p)
    (h : ResolveStops (.alone s spent) id x.update x.transfer L e) :
    ¬ Passes ((Frame.alone s spent).working L) x p := by
  intro hpasses
  have hpairs := x.postings_transfer p
  cases h with
  | missing t ht hn =>
    rw [Frame.working_of_pending L hp] at hfound
    obtain rfl : t = s := (Frame.alone_sees (B := backend) s t spent).mp ht
    have hnone := hfound.symm.trans hn
    contradiction
  | posting e p' L₁ hfound' h =>
    obtain rfl := Option.some.inj (hfound.symm.trans hfound')
    have hkept := hs.put_payment (x.update p)
    rw [← working_resolve (F := .alone s spent) L id] at hkept
    have hbal : Balanced (x.transfer (x.update p)).postings := by
      rw [hpairs]
      exact balanced_pair hpasses.positive
    rcases h.alone hbal hkept.toKept with hrow | hfits | hshort
    · change (Frame.alone s spent).FlushFails e L.flushed
        (L.pending ++ [.update (.payment (x.update p))]) at hrow
      rw [hp] at hrow
      rcases hrow with hrow | ⟨_, hrow⟩
      · have hviolation := hpasses.row
        rw [Frame.working_of_pending L hp] at hviolation
        exact Option.some_ne_none e (hrow.symm.trans hviolation)
      · exact hrow
    · rw [working_resolve] at hfits
      exact hfits (fits_put_payment.mpr hpasses.fits)
    · rw [working_resolve, hpairs] at hshort
      have hlt := shortage_pair.mp ⟨e, hshort⟩
      exact absurd hpasses.funded (not_le.mpr hlt)
  | announcing e p' txn event L₁ hfound' h hf =>
    refine transfer_accepted h ?_ hf
    rw [working_resolve]
    exact hs.put_payment (x.update p')

/-- What the result of a resolution says about the stores around it. -/
def Resolved (x : Resolution) (id : Uuid) (s : Database) (spent : List Uuid) (s' : Database)
    (spent' : List Uuid) : Except Exn Payment → Prop
  | .ok q => ∃ p txn event, s.payments.find? id = some p ∧ q = x.update p ∧ Passes s x p ∧
      Transferred (x.transfer (x.update p)) txn event (s.put (.payment (x.update p))) s' ∧
      spent' = event.id :: txn.id :: spent
  | .error _ => s' = s ∧ spent' = spent ∧
      ∀ p, s.payments.find? id = some p → ¬ Passes s x p

/-- A resolution as a transaction of its own. -/
theorem resolve_transacts {r : Except Exn Payment} {s' : Database} {spent' : List Uuid}
    (hs : Consistent s spent) (h : Transacts (B := backend) (x.program id) s spent r s' spent') :
    Resolved x id s spent s' spent' r := by
  have hresolve : (x.program id).Ensures (.alone s spent) (.fresh backend)
      (Stop.Ends (fun _ _ => ∀ p, s.payments.find? id = some p → ¬ Passes s x p)
        (fun q L => ∃ p txn event, q = x.update p ∧
          ResolveReturns (.alone s spent) id x.update x.transfer (.fresh backend) p txn event L)) := by
    refine (resolve_stops x id (.fresh backend) rfl).ends ?_ fun _ _ h => h
    exact fun e _ he p hfound => not_passes_of_stops (L := .fresh backend) rfl hs hfound he
  have hends := Transacts.of_ensures hresolve ?_ ?_ h
  · cases r with
    | error e => exact ⟨h.unchanged.1, h.unchanged.2, hends⟩
    | ok q =>
      obtain ⟨L, ⟨p, txn, event, hq, hr⟩, rfl, rfl⟩ := hends
      have htransferred := hr.transfer.transferred (Frame.flushes_of_pending hr.pending)
      rw [working_resolve, Frame.working_of_pending L hr.pending] at htransferred
      refine ⟨p, txn, event, hr.found, hq, passes_of_returns rfl hr, htransferred, ?_⟩
      rw [hr.transfer.drawn]
      rfl
  · rintro q L ⟨p, txn, event, _, hr⟩
    exact hr.pending
  · rintro q L ⟨p, txn, event, _, hr⟩
    have hd := ((keeps_resolve hr).sealed (sealed_fresh hs.known)).deferred
    rw [Frame.working_of_pending L hr.pending, hr.pending, List.append_nil] at hd
    exact hd

end Alone

end Conditions

section Guards

variable {s s' : Database} {spent spent' : List Uuid} {id : Uuid}

/-- Money has left the suspense account for the payment: a new ledger transaction of the
payment debits it. -/
def Pays (id : Uuid) (s s' : Database) : Prop :=
  ∃ txn ∈ s'.ledgerTransactions.rows, txn ∉ s.ledgerTransactions.rows ∧ txn.referenceId = id ∧
    ∃ amount, ⟨suspenseAccountId, .debit, amount⟩ ∈ postingsOf s' txn.id

theorem pays_of_transferred {s₀ : Database} {x : Resolution} {p : Payment}
    {txn : LedgerTransaction} {event : Outbox} (hk : EntriesKnown s)
    (hs₀ : s₀ = s.put (.payment (x.update p)))
    (h : Transferred (x.transfer (x.update p)) txn event s₀ s') : Pays p.id s s' := by
  subst hs₀
  obtain ⟨s₁, hp, rfl⟩ := h.posted
  refine ⟨txn, (find_txn_posted hp txn).mpr (Or.inr rfl), ?_, ?_, p.amount, ?_⟩
  · intro hmem
    have hfresh : s.ledgerTransactions.find? txn.id = none := hp.fresh
    rw [Table.find?_of_mem hmem] at hfresh
    contradiction
  · rw [h.reference, x.reference_transfer]
  · have hnew := postingsOf_new hp hk
    rw [x.postings_transfer] at hnew
    change _ ∈ postingsOf s₁ txn.id
    rw [hnew]
    exact List.mem_cons_self ..

theorem not_pays_self : ¬ Pays id s s := fun ⟨_, hmem, hnew, _⟩ => hnew hmem

/-- A call goes through exactly when it pays. -/
theorem pays_iff {x : Resolution} {r : Except Exn Payment} (hs : Consistent s spent)
    (h : Transacts (B := backend) (x.program id) s spent r s' spent') :
    Pays id s s' ↔ ∃ p, s.payments.find? id = some p ∧ Passes s x p := by
  have hends := resolve_transacts hs h
  cases r with
  | error e =>
    obtain ⟨rfl, -, hnot⟩ := hends
    constructor
    · exact fun hpays => absurd hpays not_pays_self
    · rintro ⟨p, hfound, hpasses⟩
      exact absurd hpasses (hnot p hfound)
  | ok q =>
    obtain ⟨p, txn, event, hfound, -, hpasses, htransferred, -⟩ := hends
    refine ⟨fun _ => ⟨p, hfound, hpasses⟩, fun _ => ?_⟩
    have hpays := pays_of_transferred hs.known rfl htransferred
    rwa [Table.key_of_find? hfound] at hpays

theorem consistent_of_resolve {x : Resolution} {r : Except Exn Payment} (hs : Consistent s spent)
    (h : Transacts (B := backend) (x.program id) s spent r s' spent') : Consistent s' spent' := by
  have hends := resolve_transacts hs h
  cases r with
  | error e =>
    obtain ⟨rfl, rfl, -⟩ := hends
    exact hs
  | ok q =>
    obtain ⟨p, txn, event, -, -, -, htransferred, rfl⟩ := hends
    exact (hs.put_payment _).transferred htransferred

/-- A payment that is no longer held stays so. -/
theorem settled_of_resolve {x : Resolution} {r : Except Exn Payment} (hs : Consistent s spent)
    (h : Transacts (B := backend) (x.program id) s spent r s' spent')
    (hdone : Pays id s s' ∨ ∀ p, s.payments.find? id = some p → Payment.inFlight p = false) :
    ∀ p, s'.payments.find? id = some p → Payment.inFlight p = false := by
  have hends := resolve_transacts hs h
  cases r with
  | error e =>
    obtain ⟨rfl, -⟩ := hends
    exact hdone.resolve_left not_pays_self
  | ok q =>
    obtain ⟨p, txn, event, hfound, -, -, htransferred, -⟩ := hends
    intro p' hp'
    rw [htransferred.same.payments] at hp'
    have hid : (x.update p).id = id := (x.id_update p).trans (Table.key_of_find? hfound)
    have hself := s.payments.find?_put_self (x.update p)
    rw [hid] at hself
    rw [← Option.some.inj (hself.symm.trans hp')]
    exact x.inFlight_update p

/-- Money leaves the suspense account for the payment at most once, and only if a call
found the payment held; every other call changes nothing. -/
structure Guarded (id : Uuid) (es : List (Served backend Resolution Payment)) : Prop where
  held : ∀ e ∈ es, Pays id e.before e.after →
    ∃ p, e.before.payments.find? id = some p ∧ Payment.inFlight p = true
  once : es.Pairwise fun e e' => ¬ (Pays id e.before e.after ∧ Pays id e'.before e'.after)
  others : ∀ e ∈ es, ¬ Pays id e.before e.after → e.after = e.before

/-- The call finds the payment held, or it cannot go through. -/
def HeldOrStuck (id : Uuid) (e : Served backend Resolution Payment) : Prop :=
  ∀ p, e.before.payments.find? id = some p →
    Payment.inFlight p = true ∨ ¬ Passes e.before e.call p

/-- After the payment has been resolved no call pays any more. -/
theorem not_pays_of_settled {es : List (Served backend Resolution Payment)}
    (hs : Consistent s spent)
    (h : Serial (fun x : Resolution => x.program id) s spent es s' spent')
    (hdone : ∀ p, s.payments.find? id = some p → Payment.inFlight p = false)
    (hall : ∀ e ∈ es, HeldOrStuck id e) : ∀ e ∈ es, ¬ Pays id e.before e.after := by
  induction es generalizing s spent with
  | nil => simp
  | cons e₀ es ih =>
    obtain ⟨spent₁, hbefore, h, rest⟩ := h.of_cons
    intro e he
    rcases List.mem_cons.mp he with rfl | he
    · intro hpays
      rw [hbefore] at hpays
      obtain ⟨p, hfound, hpasses⟩ := (pays_iff hs h).mp hpays
      have hstuck := hall _ (List.mem_cons_self ..) p
      rw [hbefore] at hstuck
      rcases hstuck hfound with hheld | hstuck
      · rw [hdone p hfound] at hheld
        contradiction
      · exact hstuck hpasses
    · exact ih (consistent_of_resolve hs h) rest (settled_of_resolve hs h (Or.inr hdone))
        (fun e he => hall e (List.mem_cons_of_mem _ he)) e he

/-- A payment of 50 from account 2 to account 3. -/
def samplePayment (status : PaymentStatus) : Payment :=
  ⟨7, "shop", 2, 3, 50, "USD", status, none, 0, 0, 0⟩

/-- The sample payment, with 50 in the suspense account. -/
def paymentDatabase (status : PaymentStatus) : Database :=
  { sampleDatabase with
    accountBalances := ⟨[⟨suspenseAccountId, 50, 0⟩], by decide⟩
    payments := ⟨[samplePayment status], by simp⟩ }

theorem consistent_payment (status : PaymentStatus) : Consistent (paymentDatabase status) [] where
  nonneg := by simp [paymentDatabase]
  known := kept_sample.known
  ids := kept_sample.ids
  events := by simp [paymentDatabase, sampleDatabase, Table.empty]

theorem find_payment (status : PaymentStatus) :
    (paymentDatabase status).payments.find? 7 = some (samplePayment status) :=
  Table.find?_of_mem (t := (paymentDatabase status).payments) (List.mem_singleton_self _)

theorem passes_payment (status : PaymentStatus) :
    Passes (paymentDatabase status) (.settle "psp") (samplePayment status) where
  positive := (by decide : (0 : ℤ) < 50)
  row := by cases status <;> decide
  fits := by cases status <;> exact ⟨by decide, by decide, by decide, by decide⟩
  funded := le_refl (50 : ℤ)

end Guards

end ApexPayments.Service
