import ApexPayments.Resolutions

/-!
The first transaction of `create` with nothing beside it: in which states it opens a
payment, in which it refuses with a domain exception, and in which a constraint of the
database stops it before the domain checks do.
-/
namespace ApexPayments.Service

open Domain Store Ledger Payments RowLocking

section Seeds

/-- A database that the migrations have filled, at any later time. -/
structure Seeded (s : Database) (used : List Uuid) : Prop extends Consistent s used where
  payments : ∀ p ∈ s.payments.rows, p.id ∈ used
  suspense : s.hasAccount suspenseAccountId = true

variable {P : Call → Prop} {s s' : Database} {used used' ids : List Uuid}

/-- Nothing but keys, refunds and webhook events are written. -/
theorem Seeded.same (h : Seeded s used) (ids : List Uuid) (hledger : SameLedger s s')
    (hpayments : s'.payments = s.payments) (houtbox : s'.outbox = s.outbox) :
    Seeded s' (ids ++ used) := by
  obtain ⟨haccounts, hbalances, htxns, hentries⟩ := hledger
  refine ⟨⟨⟨?_, ?_, ?_⟩, ?_⟩, ?_, ?_⟩
  · rw [hbalances]
    exact h.nonneg
  · unfold EntriesKnown
    rw [hentries, htxns]
    exact h.known
  · rw [htxns]
    exact fun t ht => List.mem_append_right _ (h.ids t ht)
  · rw [houtbox]
    exact fun ev hev => List.mem_append_right _ (h.events ev hev)
  · rw [hpayments]
    exact fun p hp => List.mem_append_right _ (h.payments p hp)
  · unfold Database.hasAccount
    rw [haccounts]
    exact h.suspense

/-- A payment is written under an identifier that has been used. -/
theorem Seeded.put_payment (h : Seeded s used) {p : Payment} (hp : p.id ∈ used) :
    Seeded (s.put (.payment p)) used where
  toConsistent := h.toConsistent.put_payment p
  payments := by
    intro q hq
    rcases (Table.mem_put _ _ _).mp hq with rfl | ⟨hq, _⟩
    · exact hp
    · exact h.payments q hq
  suspense := h.suspense

theorem Seeded.transferred {t : Transfer} {txn : LedgerTransaction} {event : Outbox}
    (h : Seeded s used) (ht : Transferred t txn event s s') :
    Seeded s' (event.id :: txn.id :: used) where
  toConsistent := h.toConsistent.transferred ht
  payments := by
    intro p hp
    rw [ht.same.payments] at hp
    exact List.mem_cons_of_mem _ (List.mem_cons_of_mem _ (h.payments p hp))
  suspense := by
    unfold Database.hasAccount
    rw [ht.same.accounts]
    exact h.suspense

theorem Seeded.posted {txn : LedgerTransaction} {ps : List Posting} (h : Seeded s used)
    (hp : Posted s s' txn ps) : Seeded s' (txn.id :: used) := by
  have hkept := h.toKept.posted hp
  have hsame := hp.elsewhere
  unfold SameElsewhere at hsame
  refine ⟨⟨hkept, ?_⟩, ?_, ?_⟩
  · intro ev hev
    rw [hsame] at hev
    exact List.mem_cons_of_mem _ (h.events ev hev)
  · intro p hq
    rw [hsame] at hq
    exact List.mem_cons_of_mem _ (h.payments p hq)
  · rw [hsame]
    exact h.suspense

theorem Seeded.moved {p q : Payment} (h : Seeded s used) (hp : p.id ∈ used)
    (hm : Moved used s p q ids s') : Seeded s' (ids ++ used) := by
  cases hm with
  | settled r txn event _ ht he hm => exact (h.put_payment (p := settled r p) hp).transferred hm
  | reversed txn event _ ht he hm => exact (h.put_payment (p := reversed p) hp).transferred hm
  | awaiting r => exact h.put_payment (p := awaiting r p) hp

theorem seeded_of_change (hs : Seeded s used) (h : Change P s used s' used') :
    Seeded s' used' := by
  cases h with
  | booked _ ids hsame =>
    unfold SameBooks at hsame
    rw [hsame]
    exact hs.same ids ⟨rfl, rfl, rfl, rfl⟩ rfl rfl
  | opened k req createdAt p txn event _ hP hp hfresh hid htxn hevent h =>
    have hdrawn : Seeded s ([p.id] ++ used) := hs.same [p.id] (SameLedger.refl s) rfl rfl
    exact (hdrawn.put_payment (List.mem_cons_self ..)).transferred h
  | moved p q ids _ hfound hguard h =>
    exact hs.moved (hs.payments p (Table.mem_of_find? hfound)) h
  | refunded p r txn event _ createdAt hamount hr hfound hstatus hcap hfresh hid htxn hevent h =>
    have hrefund : Seeded (s.put (.refund r)) ([r.id] ++ used) :=
      hs.same [r.id] ⟨rfl, rfl, rfl, rfl⟩ rfl rfl
    have hpaid : p.id ∈ [r.id] ++ used :=
      List.mem_append_right _ (hs.payments p (Table.mem_of_find? hfound))
    exact (hrefund.put_payment (p := refunded r.amount p) hpaid).transferred h
  | posted type referenceId postings txn _ hP htype href htxn h => exact hs.posted h
  | published ev t hfound hnew =>
    refine ⟨⟨⟨hs.nonneg, hs.known, hs.ids⟩, ?_⟩, hs.payments, hs.suspense⟩
    intro ev' hev
    rcases (Table.mem_put _ _ _).mp hev with rfl | ⟨hev, _⟩
    · exact hs.events ev (Table.mem_of_find? hfound)
    · exact hs.events ev' hev

theorem seeded_of_run {ext : Externals} {db : Database} {spent : List Uuid} {σ : State}
    (hdb : Seeded db spent)
    (h : System.Run (program ext) (Starts P) (System.initial db spent) σ) :
    Seeded σ.db σ.spent :=
  invariant_of_run (fun _ _ _ _ hs hc => seeded_of_change hs hc) hdb h

end Seeds

section Rows

variable {s : Database} {k : String} {req : CreatePaymentRequest}

/-- The database takes the rows of a new key and a new payment. -/
structure Acceptable (s : Database) (k : String) (req : CreatePaymentRequest) : Prop where
  merchant : Char.ofNat 0 ∉ req.merchantId.toList
  key : Char.ofNat 0 ∉ k.toList
  currency : Char.ofNat 0 ∉ req.currency.toList
  amount : bigint req.amount = true
  payer : s.hasAccount req.payerAccountId = true
  payee : s.hasAccount req.payeeAccountId = true

theorem varchar_iff {n : ℕ} {text : String} (h : text.length ≤ n) :
    varchar n text = true ↔ Char.ofNat 0 ∉ text.toList := by
  simp [varchar, h]

theorem violation_record (s : Database) (r : IdempotencyRecord) :
    s.violation (.idempotencyRecord r) = none ↔
      varchar 255 r.merchantId = true ∧ varchar 255 r.idemKey = true := by
  simp [Database.violation, firstFailing_eq_none_iff, Database.checks]

theorem violation_newPayment (s : Database) (id : Uuid) (req : CreatePaymentRequest) (t : Time) :
    s.violation (.payment (held (newPayment id req t))) = none ↔
      varchar 255 req.merchantId = true ∧ bigint req.amount = true ∧
        varchar 3 req.currency = true ∧ s.hasAccount req.payerAccountId = true ∧
        s.hasAccount req.payeeAccountId = true := by
  have hzero : bigint 0 = true := rfl
  simp [Database.violation, firstFailing_eq_none_iff, Database.checks, held, newPayment, hzero]

/-- The claim and the payment of a request are accepted exactly when it is acceptable. -/
theorem acceptable_iff (id : Uuid) (hash : String) (t : Time)
    (hmerchant : req.merchantId.length ≤ 255) (hkey : k.length ≤ 255) :
    Acceptable s k req ↔
      s.violation (.idempotencyRecord (inProgress req.merchantId k hash)) = none ∧
        s.violation (.payment (held (newPayment id req t))) = none := by
  have hcurrency := varchar_iff (n := 3) (le_of_eq req.currency_length)
  rw [violation_record, violation_newPayment, hcurrency]
  change _ ↔ (varchar 255 req.merchantId = true ∧ varchar 255 k = true) ∧ _
  rw [varchar_iff hmerchant, varchar_iff hkey]
  constructor
  · intro h
    exact ⟨⟨h.merchant, h.key⟩, h.merchant, h.amount, h.currency, h.payer, h.payee⟩
  · intro ⟨⟨hm, hk⟩, _, hamount, hc, hpayer, hpayee⟩
    exact ⟨hm, hk, hc, hamount, hpayer, hpayee⟩

/-- The postings of the hold. -/
def holdPostings (req : CreatePaymentRequest) : List Posting :=
  [⟨req.payerAccountId, .debit, req.amount⟩, ⟨suspenseAccountId, .credit, req.amount⟩]

theorem postings_holdOf (id : Uuid) (req : CreatePaymentRequest) (t : Time) :
    (holdOf (held (newPayment id req t))).postings = holdPostings req := rfl

/-- The error of a transfer that runs short. -/
theorem error_of_shortage {balance : Uuid → ℤ} {a b : Uuid} {amount : ℤ} {e : Exn}
    (h : Shortage balance [⟨a, .debit, amount⟩, ⟨b, .credit, amount⟩] e) :
    e = .insufficientFunds a (balance a) amount := by
  obtain ⟨before, p, after, hsplit, hd, -, rfl⟩ := h
  rcases before with _ | ⟨p₁, _ | ⟨p₂, before⟩⟩
  · cases hsplit
    simp [moves, DoubleEntry.net_nil]
  · cases hsplit
    contradiction
  · simp at hsplit

end Rows

section Outcomes

variable {ext : Externals} {s : Database} {spent : List Uuid} {k : String}
  {req : CreatePaymentRequest}

/-- Why the first transaction of `create` raises with nothing beside it. -/
inductive Declines (ext : Externals) (s : Database) (k : String) (req : CreatePaymentRequest) :
    Exn → Prop
  | mismatch (r : IdempotencyRecord)
      (hfound : s.idempotencyKeys.find? (req.merchantId, k) = some r)
      (hhash : r.requestHash ≠ ext.hash (.create req)) :
      Declines ext s k req (.idempotencyMismatch k)
  | conflict (r : IdempotencyRecord)
      (hfound : s.idempotencyKeys.find? (req.merchantId, k) = some r)
      (hhash : r.requestHash = ext.hash (.create req)) (hstatus : r.status = .inProgress) :
      Declines ext s k req (.idempotencyConflict k)
  | malformed (r : IdempotencyRecord)
      (hfound : s.idempotencyKeys.find? (req.merchantId, k) = some r)
      (hhash : r.requestHash = ext.hash (.create req)) (hstatus : r.status = .completed)
      (hbody : ∀ resp, r.responseBody ≠ some (.payment resp)) :
      Declines ext s k req .validationError
  | unacceptable (e : Exn) (hunused : s.idempotencyKeys.find? (req.merchantId, k) = none)
      (he : Refused e) (h : ¬ Acceptable s k req) : Declines ext s k req e
  | short (hunused : s.idempotencyKeys.find? (req.merchantId, k) = none)
      (hrows : Acceptable s k req) (h : balanceOf s req.payerAccountId < req.amount) :
      Declines ext s k req
        (.insufficientFunds req.payerAccountId (balanceOf s req.payerAccountId) req.amount)
  | unfit (e : Exn) (hunused : s.idempotencyKeys.find? (req.merchantId, k) = none)
      (he : Refused e) (hrows : Acceptable s k req)
      (hcovered : req.amount ≤ balanceOf s req.payerAccountId)
      (h : ¬ Fits s (holdPostings req)) : Declines ext s k req e

/-- What a request with a new key needs to be granted. -/
structure Grants (s : Database) (k : String) (req : CreatePaymentRequest) : Prop where
  rows : Acceptable s k req
  covered : req.amount ≤ balanceOf s req.payerAccountId
  fits : Fits s (holdPostings req)

/-- The claim goes through exactly if the record of the key is accepted. -/
theorem claimOrReplay_record {m : String} {payload : Payload} {L : Session backend}
    (hfl : L.flushed = []) (hp : L.pending = []) :
    (claimOrReplay ext m k payload).Ensures (.alone s spent) L (Stop.Ends
      (fun e _ => Refused e →
        s.violation (.idempotencyRecord (inProgress m k (ext.hash payload))) ≠ none)
      (fun x _ => x = none →
        s.violation (.idempotencyRecord (inProgress m k (ext.hash payload))) = none)) := by
  unfold claimOrReplay
  refine Prog.Ensures.select ?_
  intro t ht
  obtain rfl := (Frame.alone_sees (B := backend) s t spent).mp ht.1
  rw [hfl]
  cases hfind : (view t []).idempotencyKeys.find? (m, k) with
  | none =>
    have hrejected : Write.rejected (B := backend) t
        (.insert (.idempotencyRecord (inProgress m k (ext.hash payload)))) =
        t.violation (.idempotencyRecord (inProgress m k (ext.hash payload))) :=
      rejected_insert (Option.map_eq_none_iff.mpr hfind)
    refine ensures_add (ensures_flush ?_ ?_)
    · intro hf
      change (Frame.alone t spent).Flushes L.flushed (L.pending ++ _) at hf
      rw [hfl, hp] at hf
      have haccepts := Frame.accepts_alone.mp hf.1
      exact Prog.Ensures.pure fun _ => hrejected.symm.trans haccepts
    · intro e _ hf _ hnone
      change (Frame.alone t spent).FlushFails e L.flushed (L.pending ++ _) at hf
      rw [hfl, hp] at hf
      rcases hf with hf | ⟨_, hf⟩
      · have hsome := hrejected.symm.trans hf
        rw [hnone] at hsome
        contradiction
      · exact hf
  | some r =>
    simp only
    split
    · refine Prog.Ensures.raise ?_
      intro he
      simp [Refused] at he
    · split
      · refine Prog.Ensures.raise ?_
        intro he
        simp [Refused] at he
      · refine Prog.Ensures.pure ?_
        intro hnone
        contradiction

section Hold

variable {r : IdempotencyRecord} {id : Uuid} {t : Time} {L L' : Session backend}

/-- The session of a claimed key and the identifier of the new payment. -/
structure Claiming (r : IdempotencyRecord) (id : Uuid) (L : Session backend) : Prop where
  flushed : L.flushed = [.insert (.idempotencyRecord r)]
  pending : L.pending = []
  drawn : L.drawn = [id]

theorem Claiming.rejected (h : Claiming r id L) (hs : Seeded s spent) (hid : id ∉ spent) :
    Write.rejected (B := backend) (view s L.flushed)
        (.insert (.payment (held (newPayment id req t)))) =
      s.violation (.payment (held (newPayment id req t))) := by
  have hnew : s.payments.find? id = none := by
    rw [Table.find?_eq_none_iff]
    intro p hp hsame
    exact hid (hsame ▸ hs.payments p hp)
  have hget : (view s L.flushed).get (.payment id) = none := by
    rw [h.flushed]
    exact Option.map_eq_none_iff.mpr hnew
  refine (rejected_insert hget).trans ?_
  rw [h.flushed]
  rfl

theorem Claiming.working (h : Claiming r id L) (p : Payment) :
    (Frame.alone s spent).working (opening p L) =
      (s.put (.idempotencyRecord r)).put (.payment p) := by
  rw [opening, Frame.working_flushAll, Frame.working_stage, Frame.working, h.flushed, h.pending]
  rfl

theorem Claiming.fits (h : Claiming r id L) (p : Payment) {ps : List Posting} :
    Fits ((Frame.alone s spent).working (opening p L)) ps ↔ Fits s ps := by
  rw [h.working]
  exact ⟨fun h => ⟨h.accounts, h.amounts, h.balances, h.versions⟩,
    fun h => ⟨h.accounts, h.amounts, h.balances, h.versions⟩⟩

theorem Claiming.consistent (h : Claiming r id L) (hs : Seeded s spent) (p : Payment) :
    Consistent ((Frame.alone s spent).working (opening p L)) ((opening p L).drawn ++ spent) := by
  have hdrawn : (opening p L).drawn = [id] := h.drawn
  have hclaimed : Seeded (s.put (.idempotencyRecord r)) ([id] ++ spent) :=
    hs.same [id] ⟨rfl, rfl, rfl, rfl⟩ rfl rfl
  rw [h.working, hdrawn]
  exact hclaimed.toConsistent.put_payment p

/-- Why a hold on a claimed key raises with nothing beside it. -/
def HoldDeclines (s : Database) (req : CreatePaymentRequest) (p : Payment) (e : Exn) : Prop :=
  Refused e ∧ s.violation (.payment p) ≠ none ∨
    s.violation (.payment p) = none ∧
      (balanceOf s req.payerAccountId < req.amount ∧ e = .insufficientFunds req.payerAccountId
          (balanceOf s req.payerAccountId) req.amount ∨
        req.amount ≤ balanceOf s req.payerAccountId ∧ Refused e ∧ ¬ Fits s (holdPostings req))

theorem Claiming.accepted (h : Claiming r id L) (hs : Seeded s spent) (hid : id ∉ spent)
    (hf : (Frame.alone s spent).Flushes L.flushed
      (L.pending ++ [.insert (.payment (held (newPayment id req t)))])) :
    s.violation (.payment (held (newPayment id req t))) = none := by
  rw [h.pending] at hf
  exact (h.rejected hs hid).symm.trans (Frame.accepts_alone.mp hf.1)

theorem Claiming.declines {e : Exn} (h : Claiming r id L) (hs : Seeded s spent)
    (hid : id ∉ spent)
    (hstops : HoldStops (.alone s spent) (held (newPayment id req t)) L e) :
    HoldDeclines s req (held (newPayment id req t)) e := by
  have hrejected : Write.rejected (B := backend) (view s L.flushed)
      (.insert (.payment (held (newPayment id req t)))) =
        s.violation (.payment (held (newPayment id req t))) := h.rejected hs hid
  cases hstops with
  | row hf =>
    refine Or.inl ⟨refused_of_flushFails hf, ?_⟩
    rw [h.pending] at hf
    rcases hf with hf | ⟨_, hf⟩
    · have hsome := hrejected.symm.trans hf
      rw [hsome]
      simp
    · exact hf.elim
  | posting L₁ hf hpost =>
    have hviolation := h.accepted hs hid hf
    refine Or.inr ⟨hviolation, ?_⟩
    have haccounts := (violation_newPayment s id req t).mp hviolation
    have hfails := hpost.fails (balanced_pair req.amount_pos) (h.consistent hs _).toKept
    rcases hfails with hearlier | hfails
    · exact hearlier.elim
    · cases hfails with
      | account p hp hmissing =>
        rw [Frame.working, hasAccount_view] at hmissing
        rcases List.mem_pair.mp hp with rfl | rfl
        · have hpayer : s.hasAccount req.payerAccountId = false := hmissing
          rw [haccounts.2.2.2.1] at hpayer
          contradiction
        · have hsuspense : s.hasAccount suspenseAccountId = false := hmissing
          rw [hs.suspense] at hsuspense
          contradiction
      | shortage hshort =>
        rw [h.working] at hshort
        exact Or.inl ⟨shortage_pair.mp ⟨e, hshort⟩, error_of_shortage hshort⟩
      | refused he hcovered hfits =>
        rw [h.fits] at hfits
        rw [h.working] at hcovered
        refine Or.inr ⟨?_, he, hfits⟩
        by_contra hlt
        obtain ⟨e', hshort⟩ := shortage_pair.mpr (not_le.mp hlt)
        exact hcovered e' hshort
  | announcing txn event L₁ htransfer hf =>
    exact (transfer_accepted htransfer (h.consistent hs _) hf).elim

theorem Claiming.returns {txn : LedgerTransaction} {event : Outbox} (h : Claiming r id L)
    (hh : HoldReturns (.alone s spent) (held (newPayment id req t)) L txn event L') :
    req.amount ≤ balanceOf s req.payerAccountId ∧ Fits s (holdPostings req) := by
  obtain ⟨s₁, hposted, -⟩ := hh.transfer.effect.posted
  have hworking : (Frame.alone s spent).working (opening (held (newPayment id req t)) L) = _ :=
    h.working (held (newPayment id req t))
  constructor
  · by_contra hlt
    obtain ⟨e, hshort⟩ := shortage_pair.mpr (not_le.mp hlt)
    refine hposted.covered e ?_
    rw [show (Frame.alone s spent).working (L.stage _).flushAll = _ from hworking]
    exact hshort
  · have hfits : Fits ((Frame.alone s spent).working (opening (held (newPayment id req t)) L))
        (holdPostings req) ↔ Fits s (holdPostings req) := h.fits _
    refine hfits.mp (hposted.fits ?_)
    intro p hp
    obtain ⟨u, hu, haccount⟩ := hh.transfer.accounts p hp
    obtain rfl : u = s := (Frame.alone_sees (B := backend) s u spent).mp hu
    rw [Frame.working, hasAccount_view]
    exact haccount

end Hold

variable (hs : Seeded s spent) (hmerchant : req.merchantId.length ≤ 255) (hkey : k.length ≤ 255)

include hs hmerchant hkey in
/-- With nothing beside it the first transaction ends in one of these ways. -/
theorem create_declines :
    (create ext k req).Ensures (.alone s spent) (.fresh backend) (Stop.Commits
      (Declines ext s k req)
      fun _ _ => s.idempotencyKeys.find? (req.merchantId, k) = none → Grants s k req) := by
  unfold create
  refine ensures_uuid4 ?_
  intro id hid _
  refine Prog.Ensures.bind ((claimOrReplay_ensures ext req.merchantId k (.create req)
    ((Session.fresh backend).draw id) rfl).ends_and (claimOrReplay_record rfl rfl)) ?_ ?_
  · rintro e _ ⟨hraises, hrecord⟩
    rcases hraises with ⟨u, hu, hnone, he⟩ | ⟨u, r, hr, h⟩
    · obtain rfl : u = s := (Frame.alone_sees (B := backend) s u spent).mp hu
      refine .unacceptable e hnone he ?_
      intro hrows
      exact hrecord he ((acceptable_iff id _ 0 hmerchant hkey).mp hrows).1
    · obtain rfl : u = s := (Frame.alone_sees (B := backend) s u spent).mp hr.1
      rcases h with ⟨hne, rfl⟩ | ⟨heq, hst, rfl⟩
      · exact .mismatch r hr.2 hne
      · exact .conflict r hr.2 heq hst
  · rintro (_ | ⟨code, body⟩) L₁ ⟨h, hrecord⟩
    · obtain ⟨u, hu, hunused⟩ := h.window
      obtain rfl : u = s := (Frame.alone_sees (B := backend) s u spent).mp hu
      have hclaiming : Claiming (inProgress req.merchantId k (ext.hash (.create req))) id L₁ :=
        ⟨h.flushed, h.pending, h.drawn⟩
      refine ensures_now ?_
      intro createdAt
      have hacceptable := acceptable_iff (s := u) id (ext.hash (.create req)) createdAt
        hmerchant hkey
      refine Prog.Ensures.bind (hold_stops (newPayment id req createdAt) L₁) ?_ ?_
      · intro e _ hstops
        rcases hclaiming.declines hs hid hstops with ⟨he, hviolation⟩ | ⟨hviolation, h⟩
        · refine .unacceptable e hunused he ?_
          exact fun hrows => hviolation (hacceptable.mp hrows).2
        · have hrows := hacceptable.mpr ⟨hrecord rfl, hviolation⟩
          rcases h with ⟨hlt, rfl⟩ | ⟨hle, he, hfits⟩
          · exact .short hunused hrows hlt
          · exact .unfit e hunused he hrows hle hfits
      · rintro p L₂ ⟨rfl, hf, txn, event, hh⟩
        have hviolation := (hclaiming.accepted hs hid hf)
        have hreturns := hclaiming.returns hh
        have hclaim := ((keeps_draw (.fresh backend) id).trans (keeps_claim h rfl)).sealed
          (sealed_fresh hs.known)
        have hopening := (Sealed.stage (w := .insert (.payment (held (newPayment id req createdAt))))
          hclaim trivial).flushAll
        refine Prog.Ensures.commitAll ?_ ?_
        · intro _
          refine ⟨?_, fun _ _ => ⟨hacceptable.mpr ⟨hrecord rfl, hviolation⟩, hreturns.1,
            hreturns.2⟩⟩
          intro e hdeferred
          rw [(hh.transfer.sealed hopening).deferred] at hdeferred
          contradiction
        · intro e _ hfails
          rw [hh.pending] at hfails
          exact hfails.elim
    · obtain ⟨u, r, hr, rfl, hhash, hst, rfl, rfl⟩ := h
      obtain rfl : u = s := (Frame.alone_sees (B := backend) s u spent).mp hr.1
      have hfound : u.idempotencyKeys.find? (req.merchantId, k) = some r := hr.2
      refine ensures_ofExcept ?_ ?_
      · intro resp _
        refine ensures_commit_nothing rfl rfl ?_
        intro hunused
        rw [hfound] at hunused
        contradiction
      · intro e he
        rcases paymentResponse_cases r.responseBody with ⟨resp, _, hok⟩ | ⟨hbody, herr⟩
        · rw [hok] at he
          contradiction
        · rw [herr] at he
          cases he
          exact .malformed r hfound hhash hst hbody

theorem inside_claimOrReplay (ext : Externals) (m k : String) (payload : Payload) :
    (claimOrReplay ext m k payload).Inside := by
  unfold claimOrReplay
  refine Prog.Inside.bind (Prog.inside_select _) ?_
  intro record
  cases record with
  | none => exact Prog.Inside.bind (Prog.inside_stageRow _) fun _ =>
      Prog.Inside.bind Prog.inside_flushAll fun _ => trivial
  | some r =>
    by_cases hhash : r.requestHash ≠ ext.hash payload
    · simp only [if_pos hhash]
      trivial
    · simp only [if_neg hhash]
      cases r.status <;> trivial

theorem inside_hold (p : Payment) : (hold p).Inside := by
  unfold hold
  refine Prog.Inside.bind (Prog.inside_stageRow _) fun _ => ?_
  refine Prog.Inside.bind Prog.inside_flushAll fun _ => ?_
  refine Prog.Inside.bind (inside_post _ _ _) fun _ => ?_
  refine Prog.Inside.bind ?_ fun _ => Prog.Inside.bind Prog.inside_flushAll fun _ => trivial
  exact Prog.Inside.bind Prog.inside_drawIdent fun _ =>
    Prog.Inside.bind (Prog.inside_askFor _) fun _ => Prog.inside_stageRow _

/-- The first transaction of `create` always comes to an end. -/
theorem exists_create (ext : Externals) (s : Database) (spent : List Uuid) (k : String)
    (req : CreatePaymentRequest) :
    ∃ o, (create ext k req).Runs (.alone s spent) (.fresh backend) o := by
  have hcloses : (create ext k req).Closes true := by
    unfold create
    refine Prog.Inside.closes_bind Prog.inside_drawIdent (fun id => ?_) true
    refine (inside_claimOrReplay ext req.merchantId k (.create req)).closes_bind ?_ false
    intro replay
    cases replay with
    | none =>
      refine Prog.Inside.closes_bind (Prog.inside_askFor _) (fun t => ?_) false
      exact (inside_hold _).closes_bind (fun _ => Prog.closes_commitAll _) false
    | some stored =>
      refine Prog.Inside.closes_bind ?_ (fun _ => Prog.closes_commitAll _) false
      cases paymentResponse stored.2 <;> trivial
  refine hcloses.exists_runs exists_uuid exists_answer ?_ (fun _ => rfl) ?_ rfl
  · exact (Frame.alone_sees (B := backend) s s spent).mpr rfl
  · simp [Session.fresh]

end Outcomes

section Requests

variable {ext : Externals} {s : Database} {spent : List Uuid} {k : String}
  {req : CreatePaymentRequest} {o : Stop backend Reply}

/-- The committed tables after the transaction. -/
def tablesAfter (s : Database) : Stop backend Reply → Database
  | .committed _ L => view s L.flushed
  | _ => s

/-- The key is unused, both accounts exist and the payer can pay. -/
structure Grantable (s : Database) (k : String) (req : CreatePaymentRequest) : Prop where
  unused : s.idempotencyKeys.find? (req.merchantId, k) = none
  payer : s.hasAccount req.payerAccountId = true
  payee : s.hasAccount req.payeeAccountId = true
  covered : req.amount ≤ balanceOf s req.payerAccountId

/-- A claim and a hold are committed. -/
def ClaimsAndHolds (ext : Externals) (s : Database) (spent : List Uuid) (k : String)
    (req : CreatePaymentRequest) (o : Stop backend Reply) : Prop :=
  ∃ next L p txn event, o = .committed next L ∧
    Opens (.alone s spent) ext k req p txn event next L

/-- The stored response of the key is returned. -/
def ReturnsStored (ext : Externals) (s : Database) (spent : List Uuid) (k : String)
    (req : CreatePaymentRequest) (o : Stop backend Reply) : Prop :=
  ∃ next L r resp, o = .committed next L ∧ Replays (.alone s spent) ext k req r resp next L

/-- The exceptions with which a payment may be refused. -/
def Refusal : Exn → Prop
  | .idempotencyConflict _ => True
  | .idempotencyMismatch _ => True
  | .insufficientFunds _ _ _ => True
  | .accountNotFound _ => True
  | _ => False

theorem not_refusal_of_refused {e : Exn} (h : Refused e) : ¬ Refusal e := by
  rcases h with ⟨c, rfl⟩ | ⟨c, rfl⟩ | ⟨c, rfl⟩ | ⟨c, rfl⟩ <;> exact fun h => h

/-- The first transaction ends; it commits a claim and a hold exactly for a grantable
request, and otherwise answers without changing the tables. -/
structure Regular (ext : Externals) (s : Database) (spent : List Uuid) (k : String)
    (req : CreatePaymentRequest) : Prop where
  ends : ∃ o, (create ext k req).Runs (.alone s spent) (.fresh backend) o
  opens : ∀ o, (create ext k req).Runs (.alone s spent) (.fresh backend) o →
    (ClaimsAndHolds ext s spent k req o ↔ Grantable s k req)
  declines : ∀ o, (create ext k req).Runs (.alone s spent) (.fresh backend) o →
    ¬ Grantable s k req → tablesAfter s o = s ∧
      (ReturnsStored ext s spent k req o ∨ ∃ e L, o = .raised e L ∧ Refusal e)

/-- The requests that no constraint of the database and no foreign response stops. -/
structure Manageable (ext : Externals) (s : Database) (k : String) (req : CreatePaymentRequest) :
    Prop where
  rows : s.idempotencyKeys.find? (req.merchantId, k) = none → Acceptable s k req
  fits : s.idempotencyKeys.find? (req.merchantId, k) = none →
    req.amount ≤ balanceOf s req.payerAccountId → Fits s (holdPostings req)
  body : ∀ r, s.idempotencyKeys.find? (req.merchantId, k) = some r →
    r.requestHash = ext.hash (.create req) → r.status = .completed →
      ∃ resp, r.responseBody = some (.payment resp)

theorem unused_of_claimsAndHolds (h : ClaimsAndHolds ext s spent k req o) :
    s.idempotencyKeys.find? (req.merchantId, k) = none := by
  obtain ⟨next, L, p, txn, event, -, h⟩ := h
  exact h.record_fresh

theorem used_of_returnsStored (h : ReturnsStored ext s spent k req o) :
    ∃ r resp, s.idempotencyKeys.find? (req.merchantId, k) = some r ∧
      r.responseBody = some (.payment resp) ∧ tablesAfter s o = s := by
  obtain ⟨next, L, r, resp, rfl, h⟩ := h
  obtain ⟨u, hu, hfound⟩ := h.seen
  obtain rfl : u = s := (Frame.alone_sees (B := backend) s u spent).mp hu
  refine ⟨r, resp, hfound, h.body, ?_⟩
  rw [tablesAfter, h.flushed]
  rfl

theorem not_claimsAndHolds_raised (e : Exn) (L : Session backend) :
    ¬ ClaimsAndHolds ext s spent k req (.raised e L) := by
  intro ⟨next, L', p, txn, event, hsame, _⟩
  contradiction

variable (hs : Seeded s spent) (hmerchant : req.merchantId.length ≤ 255) (hkey : k.length ≤ 255)

include hs hmerchant hkey in
theorem create_cases (ho : (create ext k req).Runs (.alone s spent) (.fresh backend) o) :
    ClaimsAndHolds ext s spent k req o ∧ Grants s k req ∨ ReturnsStored ext s spent k req o ∨
      ∃ e L, o = .raised e L ∧ Declines ext s k req e := by
  have hends := create_ensures ext k req o ho
  have hstops := create_declines hs hmerchant hkey o ho
  cases o with
  | committed next L =>
    rcases hends with ⟨r, resp, h⟩ | ⟨p, txn, event, h⟩
    · exact Or.inr (Or.inl ⟨next, L, r, resp, rfl, h⟩)
    · exact Or.inl ⟨⟨next, L, p, txn, event, rfl, h⟩, hstops h.record_fresh⟩
  | raised e L => exact Or.inr (Or.inr ⟨e, L, rfl, hstops⟩)
  | value a L => exact hends.elim
  | calling q next L => exact hends.elim

theorem not_grantable_of_used {r : IdempotencyRecord}
    (h : s.idempotencyKeys.find? (req.merchantId, k) = some r) : ¬ Grantable s k req := by
  intro hg
  rw [hg.unused] at h
  contradiction

include hs hmerchant hkey in
theorem regular_of_manageable (hm : Manageable ext s k req) : Regular ext s spent k req := by
  have hdecline : ∀ e, Declines ext s k req e → ¬ Grantable s k req ∧ Refusal e := by
    intro e h
    cases h with
    | mismatch r hfound hhash => exact ⟨not_grantable_of_used hfound, trivial⟩
    | conflict r hfound hhash hstatus => exact ⟨not_grantable_of_used hfound, trivial⟩
    | malformed r hfound hhash hstatus hbody =>
      obtain ⟨resp, hresp⟩ := hm.body r hfound hhash hstatus
      exact (hbody resp hresp).elim
    | unacceptable e hunused he h => exact (h (hm.rows hunused)).elim
    | short hunused hrows h =>
      exact ⟨fun hg => absurd hg.covered (not_le.mpr h), trivial⟩
    | unfit e hunused he hrows hcovered h => exact (h (hm.fits hunused hcovered)).elim
  refine ⟨exists_create ext s spent k req, ?_, ?_⟩
  · intro o ho
    rcases create_cases hs hmerchant hkey ho with ⟨h, hgrants⟩ | h | ⟨e, L, rfl, h⟩
    · refine ⟨fun _ => ?_, fun _ => h⟩
      exact ⟨unused_of_claimsAndHolds h, hgrants.rows.payer, hgrants.rows.payee, hgrants.covered⟩
    · obtain ⟨r, resp, hfound, -⟩ := used_of_returnsStored h
      constructor
      · intro hopens
        rw [unused_of_claimsAndHolds hopens] at hfound
        contradiction
      · exact fun hg => (not_grantable_of_used hfound hg).elim
    · exact ⟨fun hopens => (not_claimsAndHolds_raised e L hopens).elim,
        fun hg => ((hdecline e h).1 hg).elim⟩
  · intro o ho hnot
    rcases create_cases hs hmerchant hkey ho with ⟨h, hgrants⟩ | h | ⟨e, L, rfl, h⟩
    · exact (hnot ⟨unused_of_claimsAndHolds h, hgrants.rows.payer, hgrants.rows.payee,
        hgrants.covered⟩).elim
    · obtain ⟨r, resp, -, -, hsame⟩ := used_of_returnsStored h
      exact ⟨hsame, Or.inl h⟩
    · exact ⟨rfl, Or.inr ⟨e, L, rfl, (hdecline e h).2⟩⟩

include hs hmerchant hkey in
theorem manageable_of_regular (hr : Regular ext s spent k req) : Manageable ext s k req := by
  obtain ⟨o, ho⟩ := hr.ends
  have hused : ∀ {r : IdempotencyRecord}, s.idempotencyKeys.find? (req.merchantId, k) = some r →
      s.idempotencyKeys.find? (req.merchantId, k) ≠ none := by
    intro r hr hnone
    rw [hnone] at hr
    contradiction
  rcases create_cases hs hmerchant hkey ho with ⟨h, hgrants⟩ | h | ⟨e, L, rfl, h⟩
  · refine ⟨fun _ => hgrants.rows, fun _ _ => hgrants.fits, ?_⟩
    exact fun r hfound => (hused hfound (unused_of_claimsAndHolds h)).elim
  · obtain ⟨r, resp, hfound, hbody, -⟩ := used_of_returnsStored h
    refine ⟨fun hnone => (hused hfound hnone).elim, fun hnone => (hused hfound hnone).elim, ?_⟩
    intro r' hr' _ _
    obtain rfl := Option.some.inj (hfound.symm.trans hr')
    exact ⟨resp, hbody⟩
  · have hnot : ¬ Grantable s k req := by
      intro hg
      exact not_claimsAndHolds_raised e L ((hr.opens _ ho).mpr hg)
    have hrefusal : Refusal e := by
      rcases (hr.declines _ ho hnot).2 with ⟨next, L', r, resp, hsame, _⟩ | ⟨e', L', hsame, he⟩
      · contradiction
      · cases hsame
        exact he
    cases h with
    | mismatch r hfound hhash =>
      refine ⟨fun hnone => (hused hfound hnone).elim, fun hnone => (hused hfound hnone).elim, ?_⟩
      intro r' hr' hhash'
      obtain rfl := Option.some.inj (hfound.symm.trans hr')
      exact (hhash hhash').elim
    | conflict r hfound hhash hstatus =>
      refine ⟨fun hnone => (hused hfound hnone).elim, fun hnone => (hused hfound hnone).elim, ?_⟩
      intro r' hr' _ hstatus'
      obtain rfl := Option.some.inj (hfound.symm.trans hr')
      rw [hstatus] at hstatus'
      contradiction
    | malformed r hfound hhash hstatus hbody => exact hrefusal.elim
    | unacceptable e hunused he h => exact (not_refusal_of_refused he hrefusal).elim
    | short hunused hrows h =>
      refine ⟨fun _ => hrows, fun _ hcovered => absurd hcovered (not_le.mpr h), ?_⟩
      exact fun r hfound => (hused hfound hunused).elim
    | unfit e hunused he hrows hcovered h => exact (not_refusal_of_refused he hrefusal).elim

end Requests

section Reachable

variable {ext : Externals} {P : Call → Prop} {db : Database} {spent : List Uuid} {σ : State}
  {k : String} {req : CreatePaymentRequest}

/-- In every reachable state the first transaction of `create` opens a payment or refuses
it as it should exactly when no row of it breaks a constraint of the database. -/
theorem first_transaction_iff (hdb : Seeded db spent)
    (hrun : System.Run (program ext) (Starts P) (System.initial db spent) σ)
    (hmerchant : req.merchantId.length ≤ 255) (hkey : k.length ≤ 255) :
    Regular ext σ.db σ.spent k req ↔ Manageable ext σ.db k req :=
  have hs := seeded_of_run hdb hrun
  ⟨manageable_of_regular hs hmerchant hkey, regular_of_manageable hs hmerchant hkey⟩

theorem seeded_sample : Seeded sampleDatabase [] where
  nonneg := by decide
  known := by
    intro e he
    contradiction
  ids := by decide
  events := by
    intro ev hev
    contradiction
  payments := by decide
  suspense := by decide

theorem first_transaction_iff_sample :
    Regular sampleExternals sampleDatabase [] "key" (sampleRequest 3) := by
  apply (first_transaction_iff (P := fun _ => True) (σ := System.initial sampleDatabase [])
    seeded_sample .refl (by decide) (by decide)).mpr
  refine ⟨fun _ => ⟨by decide, by decide, by decide, rfl, by decide, by decide⟩, fun _ _ => ?_, ?_⟩
  · exact ⟨by decide, by decide, by decide, by decide⟩
  · intro r hr
    contradiction

/-- A payment to an account that does not exist ends in a foreign-key error. -/
theorem unknown_payee_not_refused :
    ¬ ∀ (ext : Externals) (db : Database) (spent : List Uuid) (σ : State) (k : String)
      (req : CreatePaymentRequest), Seeded db spent →
      System.Run (program ext) (Starts fun _ => True) (System.initial db spent) σ →
      req.merchantId.length ≤ 255 → k.length ≤ 255 → Regular ext σ.db σ.spent k req := by
  intro hall
  have hregular := hall sampleExternals sampleDatabase [] (System.initial sampleDatabase []) "key"
    (sampleRequest 99) seeded_sample .refl (by decide) (by decide)
  have hmanageable := manageable_of_regular seeded_sample (by decide) (by decide) hregular
  have hpayee := (hmanageable.rows rfl).payee
  exact absurd hpayee (by decide)

end Reachable

end ApexPayments.Service
